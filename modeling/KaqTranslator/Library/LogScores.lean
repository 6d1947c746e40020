import Mathlib.Algebra.BigOperators.Field
import Mathlib.Algebra.Order.BigOperators.Group.List
import Mathlib.Algebra.Order.Field.Basic
import Mathlib.Algebra.Order.Monoid.Unbundled.WithTop
import Mathlib.Analysis.SpecialFunctions.Log.Basic
import Mathlib.Tactic.Linarith

/-!
# Logarithmic scores

A score is the logarithm of a weight, and `⊥` is the score of the weight 0.  The weights of a row of scores,
divided by their sum, are its softmax; it does not change if a number is added to all scores, and the softmax
of the scores of a distribution is the distribution (`softmax_map_score`).  The sum of scores is the score of
the product, so that a decoder that adds up scores ranks sequences by their probabilities
(`sequenceScore_eq`).

If the positive entries of a distribution are raised to a floor before their scores are taken, the softmax
changes by at most the floor for each entry (`abs_raised_sub_le`), and not at all exactly if none of them is
below the floor (`raised_eq_iff`).
-/

namespace LogScores

/-- An exponential function with its logarithm; what is meant is `ExpLog.real`. -/
structure ExpLog (K : Type*) [Field K] [LinearOrder K] where
  exp : K → K
  log : K → K
  exp_pos : ∀ x, 0 < exp x
  exp_add : ∀ x y, exp (x + y) = exp x * exp y
  exp_log : ∀ x, 0 < x → exp (log x) = x
  log_exp : ∀ x, log (exp x) = x

noncomputable def ExpLog.real : ExpLog ℝ where
  exp := Real.exp
  log := Real.log
  exp_pos := Real.exp_pos
  exp_add := Real.exp_add
  exp_log _ := Real.exp_log
  log_exp := Real.log_exp

variable {K : Type*} [Field K] [LinearOrder K]

namespace ExpLog

variable (e : ExpLog K)

def weight : WithBot K → K
  | ⊥ => 0
  | (x : K) => e.exp x

def score (w : K) : WithBot K := if 0 < w then (e.log w : WithBot K) else ⊥

/-- The sum of the weights of a row -/
def total (scores : List (WithBot K)) : K := (scores.map e.weight).sum

/-- The softmax of a row; there is none if no score is finite. -/
def softmax (scores : List (WithBot K)) : Option (List K) :=
  if e.total scores = 0 then none else some (scores.map fun x => e.weight x / e.total scores)

def logSoftmax (scores : List (WithBot K)) : List (WithBot K) :=
  scores.map fun x => x + (-e.log (e.total scores) : K)

/-! ### Scores and weights -/

@[simp] theorem weight_bot : e.weight ⊥ = 0 := rfl

@[simp] theorem weight_coe (x : K) : e.weight (x : WithBot K) = e.exp x := rfl

theorem weight_nonneg (x : WithBot K) : 0 ≤ e.weight x := by
  cases x with
  | bot => exact le_rfl
  | coe x => exact (e.exp_pos x).le

theorem weight_eq_zero_iff {x : WithBot K} : e.weight x = 0 ↔ x = ⊥ := by
  cases x with
  | bot => simp
  | coe x => simp [(e.exp_pos x).ne']

theorem score_of_pos {w : K} (hw : 0 < w) : e.score w = e.log w := if_pos hw

theorem score_of_not_pos {w : K} (hw : ¬ 0 < w) : e.score w = ⊥ := if_neg hw

@[simp] theorem weight_score {w : K} (hw : 0 ≤ w) : e.weight (e.score w) = w := by
  by_cases hpos : 0 < w
  · rw [e.score_of_pos hpos, weight_coe, e.exp_log w hpos]
  · rw [e.score_of_not_pos hpos, weight_bot]
    exact le_antisymm hw (not_lt.1 hpos)

@[simp] theorem score_weight (x : WithBot K) : e.score (e.weight x) = x := by
  cases x with
  | bot => exact e.score_of_not_pos (lt_irrefl 0)
  | coe x => rw [weight_coe, e.score_of_pos (e.exp_pos x), e.log_exp]

theorem weight_add (x y : WithBot K) : e.weight (x + y) = e.weight x * e.weight y := by
  cases x with
  | bot => simp
  | coe x =>
    cases y with
    | bot => simp
    | coe y =>
      rw [← WithBot.coe_add]
      exact e.exp_add x y

theorem exp_zero : e.exp 0 = 1 := by
  have h : e.exp 0 * e.exp 0 = e.exp 0 * 1 := by
    rw [← e.exp_add, add_zero, mul_one]
  exact mul_left_cancel₀ (e.exp_pos 0).ne' h

theorem exp_neg_log {t : K} (ht : 0 < t) : e.exp (-e.log t) = t⁻¹ := by
  have h : e.exp (-e.log t) * t = 1 := by
    calc e.exp (-e.log t) * t = e.exp (-e.log t) * e.exp (e.log t) := by rw [e.exp_log t ht]
      _ = 1 := by rw [← e.exp_add, neg_add_cancel, e.exp_zero]
  exact eq_inv_of_mul_eq_one_left h

end ExpLog

/-! ### Rows -/

/-- The softmax of the scores of weights -/
theorem ExpLog.softmax_map_score (e : ExpLog K) {ws : List K} (hnonneg : ∀ w ∈ ws, 0 ≤ w)
    (hsum : ws.sum ≠ 0) : e.softmax (ws.map e.score) = some (ws.map (· / ws.sum)) := by
  have hweights : (ws.map e.score).map e.weight = ws := by
    rw [List.map_map]
    exact (List.map_congr_left fun w hw => e.weight_score (hnonneg w hw)).trans (List.map_id' ws)
  have htotal : e.total (ws.map e.score) = ws.sum := by
    rw [ExpLog.total, hweights]
  rw [ExpLog.softmax, htotal, if_neg hsum, List.map_map]
  refine congrArg some (List.map_congr_left fun w hw => ?_)
  rw [Function.comp_apply, e.weight_score (hnonneg w hw)]

section Rows

variable [IsStrictOrderedRing K] (e : ExpLog K) {scores : List (WithBot K)}

theorem ExpLog.total_pos (h : ∃ x ∈ scores, x ≠ ⊥) : 0 < e.total scores := by
  obtain ⟨x, hx, hne⟩ := h
  have hnonneg : ∀ w ∈ scores.map e.weight, 0 ≤ w := List.forall_mem_map.2 fun y _ => e.weight_nonneg y
  have hpos : 0 < e.weight x := (e.weight_nonneg x).lt_of_ne' fun hzero => hne (e.weight_eq_zero_iff.1 hzero)
  exact hpos.trans_le (List.single_le_sum hnonneg _ (List.mem_map_of_mem hx))

theorem ExpLog.softmax_eq (h : ∃ x ∈ scores, x ≠ ⊥) :
    e.softmax scores = some (scores.map fun x => e.weight x / e.total scores) :=
  if_neg (e.total_pos h).ne'

/-- A softmax is a distribution. -/
theorem ExpLog.softmax_spec {probs : List K} (h : e.softmax scores = some probs) :
    probs.length = scores.length ∧ (∀ p ∈ probs, 0 ≤ p) ∧ probs.sum = 1 := by
  unfold ExpLog.softmax at h
  split at h
  case isTrue => cases h
  case isFalse htotal =>
    cases h
    have hnonneg : 0 ≤ e.total scores := by
      apply List.sum_nonneg
      exact List.forall_mem_map.2 fun x _ => e.weight_nonneg x
    refine ⟨List.length_map _, List.forall_mem_map.2 fun x _ => div_nonneg (e.weight_nonneg x) hnonneg, ?_⟩
    calc (scores.map fun x => e.weight x / e.total scores).sum
        = e.total scores / e.total scores := Multiset.sum_map_div (scores : Multiset (WithBot K)) e.weight _
      _ = 1 := div_self htotal

/-- The logarithmic softmax has the scores of the softmax. -/
theorem ExpLog.logSoftmax_eq (h : ∃ x ∈ scores, x ≠ ⊥) {probs : List K}
    (hsoftmax : e.softmax scores = some probs) : e.logSoftmax scores = probs.map e.score := by
  rw [e.softmax_eq h, Option.some_inj] at hsoftmax
  rw [ExpLog.logSoftmax, ← hsoftmax, List.map_map]
  refine List.map_congr_left fun x _ => ?_
  have hweight : e.weight (x + (-e.log (e.total scores) : K)) = e.weight x / e.total scores := by
    rw [e.weight_add, e.weight_coe, e.exp_neg_log (e.total_pos h), div_eq_mul_inv]
  rw [Function.comp_apply, ← hweight, e.score_weight]

theorem ExpLog.softmax_logSoftmax (h : ∃ x ∈ scores, x ≠ ⊥) :
    e.softmax (e.logSoftmax scores) = e.softmax scores := by
  obtain ⟨-, hnonneg, hsum⟩ := e.softmax_spec (e.softmax_eq h)
  rw [e.logSoftmax_eq h (e.softmax_eq h), e.softmax_map_score hnonneg (by rw [hsum]; exact one_ne_zero),
    e.softmax_eq h, hsum]
  exact congrArg some ((List.map_congr_left fun p _ => div_one p).trans (List.map_id' _))

end Rows

/-! ### Sequences

A decoder gives a row for each sequence of tokens, for the token that comes next.
-/

/-- The score of `tokens` after `before`: the sum of the scores of the tokens -/
def sequenceScore (scores : List ℕ → Option (List (WithBot K))) : List ℕ → List ℕ → Option (WithBot K)
  | _, [] => some 0
  | before, token :: tokens => do
    let row ← scores before
    let rest ← sequenceScore scores (before ++ [token]) tokens
    return row.getD token ⊥ + rest

def sequenceProbability (probs : List ℕ → List K) : List ℕ → List ℕ → K
  | _, [] => 1
  | before, token :: tokens =>
    (probs before).getD token 0 * sequenceProbability probs (before ++ [token]) tokens

/-- `r` holds of each token with its row. -/
def Along (r : List ℕ → ℕ → Prop) : List ℕ → List ℕ → Prop
  | _, [] => True
  | before, token :: tokens => r before token ∧ Along r (before ++ [token]) tokens

/-- The score of a sequence is that of its probability if this is so of each of its tokens. -/
theorem sequenceScore_eq (e : ExpLog K) {scores : List ℕ → Option (List (WithBot K))}
    {probs : List ℕ → List K} {r : List ℕ → ℕ → Prop}
    (h : ∀ before, ∃ row, scores before = some row ∧
      ∀ token, r before token → e.weight (row.getD token ⊥) = (probs before).getD token 0)
    {before tokens : List ℕ} (halong : Along r before tokens) :
    ∃ score, sequenceScore scores before tokens = some score ∧
      e.weight score = sequenceProbability probs before tokens := by
  induction tokens generalizing before with
  | nil => exact ⟨0, rfl, e.exp_zero⟩
  | cons token tokens ih =>
    obtain ⟨htoken, hrest⟩ := halong
    obtain ⟨row, hrow, hweight⟩ := h before
    obtain ⟨rest, hscore, hprobability⟩ := ih hrest
    refine ⟨row.getD token ⊥ + rest, ?_, ?_⟩
    · rw [sequenceScore, hrow, Option.bind_eq_bind, Option.bind_some, hscore]
      rfl
    · rw [e.weight_add, hweight token htoken, hprobability]
      rfl

/-! ### A floor -/

/-- A positive entry, but at least the floor -/
def raised (floor p : K) : K := if 0 < p then max p floor else p

section Floor

variable {floor : K} {probs : List K}

theorem le_raised (floor p : K) : p ≤ raised floor p := by
  unfold raised
  split
  · exact le_max_left p floor
  · exact le_rfl

theorem raised_eq_self_iff {p : K} : raised floor p = p ↔ (0 < p → floor ≤ p) := by
  unfold raised
  split
  case isTrue hp => exact ⟨fun h _ => max_eq_left_iff.1 h, fun h => max_eq_left (h hp)⟩
  case isFalse hp => exact ⟨fun _ hpos => absurd hpos hp, fun _ => rfl⟩

variable [IsStrictOrderedRing K]

theorem raised_le_add (hfloor : 0 ≤ floor) (p : K) : raised floor p ≤ p + floor := by
  unfold raised
  split
  case isTrue hp => exact max_le (le_add_of_nonneg_right hfloor) (le_add_of_nonneg_left hp.le)
  case isFalse => exact le_add_of_nonneg_right hfloor

theorem sum_le_sum_raised (floor : K) (probs : List K) : probs.sum ≤ (probs.map (raised floor)).sum := by
  induction probs with
  | nil => exact le_rfl
  | cons p probs ih =>
    rw [List.sum_cons, List.map_cons, List.sum_cons]
    exact add_le_add (le_raised floor p) ih

theorem sum_raised_le (hfloor : 0 ≤ floor) (probs : List K) :
    (probs.map (raised floor)).sum ≤ probs.sum + probs.length * floor := by
  induction probs with
  | nil => simp
  | cons p probs ih =>
    have hp := raised_le_add hfloor p
    simp only [List.map_cons, List.sum_cons, List.length_cons, Nat.cast_add, Nat.cast_one]
    linarith

/-- Each entry, divided by the new sum, differs by at most the floor for each entry of the row. -/
theorem abs_raised_sub_le (hfloor : 0 ≤ floor) (hnonneg : ∀ p ∈ probs, 0 ≤ p) (hsum : probs.sum = 1) {p : K}
    (hp : p ∈ probs) :
    |raised floor p / (probs.map (raised floor)).sum - p| ≤ probs.length * floor := by
  have hge : 1 ≤ (probs.map (raised floor)).sum := hsum ▸ sum_le_sum_raised floor probs
  have hle : (probs.map (raised floor)).sum ≤ 1 + probs.length * floor := hsum ▸ sum_raised_le hfloor probs
  generalize (probs.map (raised floor)).sum = t at hge hle
  have ht : 0 < t := zero_lt_one.trans_le hge
  have hp0 : 0 ≤ p := hnonneg p hp
  have hp1 : p ≤ 1 := hsum ▸ List.single_le_sum hnonneg p hp
  have hlength : 1 ≤ (probs.length : K) := by
    have : 1 ≤ probs.length := List.length_pos_of_mem hp
    exact_mod_cast this
  have hup : raised floor p / t ≤ p + floor :=
    (div_le_self (hp0.trans (le_raised floor p)) hge).trans (raised_le_add hfloor p)
  have hdown : p / t ≤ raised floor p / t := div_le_div_of_nonneg_right (le_raised floor p) ht.le
  have hloss : p - p / t ≤ t - 1 := by
    have hfactor : p - p / t = p * ((t - 1) / t) := by
      field_simp
    have hshare : (t - 1) / t ≤ t - 1 := div_le_self (sub_nonneg.2 hge) hge
    rw [hfactor]
    calc p * ((t - 1) / t) ≤ 1 * ((t - 1) / t) :=
          mul_le_mul_of_nonneg_right hp1 (div_nonneg (sub_nonneg.2 hge) ht.le)
      _ ≤ t - 1 := by rw [one_mul]; exact hshare
  have hone : floor ≤ probs.length * floor := le_mul_of_one_le_left hfloor hlength
  rw [abs_le]
  constructor <;> linarith

/-- A distribution is what it was exactly if the floor does not lie above a positive entry. -/
theorem raised_eq_iff (hfloor : 0 < floor) (hshare : probs.length * floor ≤ 1) (hsum : probs.sum = 1) :
    probs.map (fun p => raised floor p / (probs.map (raised floor)).sum) = probs ↔
      ∀ p ∈ probs, 0 < p → floor ≤ p := by
  have hmap : ∀ f : K → K, probs.map f = probs ↔ ∀ p ∈ probs, f p = p := by
    intro f
    conv_lhs => rhs; rw [← List.map_id' probs]
    exact List.map_inj_left
  have hpos : 0 < (probs.map (raised floor)).sum :=
    zero_lt_one.trans_le (hsum ▸ sum_le_sum_raised floor probs)
  rw [hmap]
  constructor
  · intro h
    -- some entry is not below the floor, and it tells that the new sum is 1
    have hne : probs ≠ [] := by
      rintro rfl
      exact zero_ne_one hsum
    obtain ⟨q, hq, hle⟩ : ∃ q ∈ probs, floor ≤ q := by
      refine List.exists_le_of_sum_le hne (fun _ => floor) id ?_
      rw [List.map_id, hsum, List.map_const', List.sum_replicate, nsmul_eq_mul]
      exact hshare
    have hqpos : 0 < q := hfloor.trans_le hle
    have hone : (probs.map (raised floor)).sum = 1 := by
      have hself := h q hq
      rw [raised_eq_self_iff.2 fun _ => hle, div_eq_iff hpos.ne'] at hself
      exact (mul_eq_left₀ hqpos.ne').1 hself.symm
    intro p hp
    have hself := h p hp
    rw [hone, div_one] at hself
    exact raised_eq_self_iff.1 hself
  · intro h
    have hself : ∀ p ∈ probs, raised floor p = p := fun p hp => raised_eq_self_iff.2 (h p hp)
    have hone : (probs.map (raised floor)).sum = 1 := by
      rw [(List.map_congr_left hself).trans (List.map_id' probs), hsum]
    intro p hp
    rw [hone, div_one, hself p hp]

end Floor

end LogScores
