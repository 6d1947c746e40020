import KaqTranslator.Training.Chain
import Mathlib.Data.List.Induction

/-!
# The recorded scoping of a lineage (`_resolve_vocab_extension_scoping_for_model_card` of `train.py`)

A chain of `--init-model` runs may begin before the fix that scopes the whole-word step to Kaqchikel texts.  A
run before the fix looks at the texts of both languages and records no scoping; a run since then looks at the
Kaqchikel texts, and records `kaqchikel_only` if its ancestor has.  `Provenance` is what a chain leaves in its
last checkpoint, and `provenance_concat` what a further run keeps of it.  The scoping of a card is taken to be
read back as written.
-/

namespace KaqTranslator

structure ScopedRun where
  pairs : List (Str × Str)
  direction : DirectionChoice
  train : List Str → List Str
  follows_fix : Bool

structure Checkpoint where
  tokenizer : Tokenizer
  vocab_extension_scoping : Option Str  -- what its model card records
  whole_words : List Str  -- what the whole-word steps of its chain have added

/-- The texts that the whole-word step looked at before the fix. -/
def unscopedTexts (examples : List TranslationExample) : List Str :=
  (examples.flatMap fun e => [e.source_text, e.target_text]) ++ allDirectionTagTokens

/-- `_resolve_vocab_extension_scoping_for_model_card`, from the checkpoint given as `--init-model` -/
def resolveVocabExtensionScopingForModelCard (init_model : Option Checkpoint) : Option Str :=
  match init_model with
  | none => some kaqchikelOnly
  | some ancestor => if ancestor.vocab_extension_scoping = some kaqchikelOnly then some kaqchikelOnly else none

namespace ScopedRun

def examples (r : ScopedRun) : List TranslationExample := buildDirectionExamples r.pairs r.direction

def wholeWordTexts (r : ScopedRun) : List Str :=
  if r.follows_fix then sampleTexts r.examples else unscopedTexts r.examples

/-- What `run_training_job` saves. -/
def runTrainingJob (base : Tokenizer) (init_model : Option Checkpoint) (r : ScopedRun) : Checkpoint :=
  let loaded := ((init_model.map Checkpoint.tokenizer).getD base).reload
  let kaqchikel_texts := collectTextsForLanguage r.examples .cak
  let whole := extendTokenizerVocab loaded r.wholeWordTexts
  { tokenizer :=
      if kaqchikel_texts = [] then whole.1
      else (extendTokenizerVocabWithSubwords whole.1 r.train kaqchikel_texts).1
    vocab_extension_scoping :=
      if r.follows_fix then resolveVocabExtensionScopingForModelCard init_model else none
    whole_words := (init_model.map Checkpoint.whole_words).getD [] ++ selectWholeWordTokens whole.2 }

/-- Since the fix, the tokenizer of a run is extended by `extend_vocabulary_for_examples`. -/
theorem runTrainingJob_tokenizer {r : ScopedRun} (h : r.follows_fix = true) (base : Tokenizer)
    (init_model : Option Checkpoint) :
    (r.runTrainingJob base init_model).tokenizer =
      (extendTokenizerForExamples ((init_model.map Checkpoint.tokenizer).getD base).reload r.train
        r.examples).1 := by
  simp only [runTrainingJob, wholeWordTexts, h, if_true, extendTokenizerForExamples]
  split <;> rfl

end ScopedRun

/-- The last checkpoint of a chain from a base model. -/
def lastCheckpoint (base : Tokenizer) (first : ScopedRun) (continuations : List ScopedRun) : Checkpoint :=
  continuations.foldl (fun c r => r.runTrainingJob base (some c)) (first.runTrainingJob base none)

/-- A word of a Kaqchikel text of the runs, or a direction tag -/
def FromKaqchikel (rs : List ScopedRun) (w : Str) : Prop :=
  w ∈ allDirectionTagTokens ∨ ∃ r ∈ rs, ∃ p ∈ r.pairs, w ∈ Str.split p.2

/-- What the runs `rs` leave in their last checkpoint. -/
structure Provenance (rs : List ScopedRun) (c : Checkpoint) : Prop where
  recorded : c.vocab_extension_scoping = some kaqchikelOnly ↔ ∀ r ∈ rs, r.follows_fix = true
  recognized : unrecognizedScoping c.vocab_extension_scoping = none
  words : (∀ r ∈ rs, r.follows_fix = true) → ∀ w ∈ c.whole_words, FromKaqchikel rs w

/-! ### One run -/

/-- Since the fix, the whole words that a run adds are words of its Kaqchikel texts. -/
theorem fromKaqchikel_of_run {r : ScopedRun} (h : r.follows_fix = true) {t : Tokenizer} {w : Str}
    (hw : w ∈ selectWholeWordTokens (extendTokenizerVocab t r.wholeWordTexts).2) : FromKaqchikel [r] w := by
  obtain ⟨hadded, hlen⟩ := List.mem_filter.1 hw
  have hlen : 1 < w.length := of_decide_eq_true hlen
  rw [extendTokenizerVocab_snd] at hadded
  have hword : w ∈ r.wholeWordTexts.flatMap Str.split := by
    -- a missing character is one character long, and no whole word
    refine (mem_computeNewTokensForTexts.1 hadded).1.resolve_left fun hchar => ?_
    obtain ⟨text, -, hc⟩ := List.mem_flatMap.1 hchar.1
    obtain ⟨c, -, rfl⟩ := List.mem_map.1 hc
    exact absurd hlen (Nat.lt_irrefl 1)
  obtain ⟨text, htext, hw⟩ := List.mem_flatMap.1 hword
  rw [ScopedRun.wholeWordTexts, if_pos h, sampleTexts, List.mem_append] at htext
  rcases htext with htext | htag
  · obtain ⟨p, hp, rfl⟩ := List.mem_map.1 (mem_collectTextsForLanguage.1 htext)
    exact .inr ⟨r, List.mem_singleton_self r, p, hp, hw⟩
  · -- a tag holds no white space, so that it is its only word
    left
    have htags : ∀ tag ∈ allDirectionTagTokens, ∀ v ∈ Str.split tag, v ∈ allDirectionTagTokens := by decide
    exact htags text htag w hw

theorem provenance_first (base : Tokenizer) (r : ScopedRun) : Provenance [r] (r.runTrainingJob base none) := by
  refine ⟨?_, ?_, fun hfix w hw => ?_⟩
  · cases h : r.follows_fix <;> simp [ScopedRun.runTrainingJob, resolveVocabExtensionScopingForModelCard, h]
  · cases h : r.follows_fix <;>
      simp [ScopedRun.runTrainingJob, resolveVocabExtensionScopingForModelCard, unrecognizedScoping, h]
  · exact fromKaqchikel_of_run (hfix r (List.mem_singleton_self r)) hw

/-- A further run keeps the provenance of a chain. -/
theorem provenance_concat {rs : List ScopedRun} {c : Checkpoint} (hc : Provenance rs c) (base : Tokenizer)
    (r : ScopedRun) : Provenance (rs ++ [r]) (r.runTrainingJob base (some c)) := by
  have hscoping : (r.runTrainingJob base (some c)).vocab_extension_scoping =
      if r.follows_fix = true ∧ c.vocab_extension_scoping = some kaqchikelOnly then some kaqchikelOnly
      else none := by
    cases h : r.follows_fix <;> simp [ScopedRun.runTrainingJob, resolveVocabExtensionScopingForModelCard, h]
  have hmono : ∀ {rs' : List ScopedRun} {w : Str}, (∀ q ∈ rs', q ∈ rs ++ [r]) → FromKaqchikel rs' w →
      FromKaqchikel (rs ++ [r]) w := by
    rintro rs' w hsub (htag | ⟨q, hq, h⟩)
    · exact .inl htag
    · exact .inr ⟨q, hsub q hq, h⟩
  have hall : (∀ q ∈ rs ++ [r], q.follows_fix = true) ↔
      r.follows_fix = true ∧ ∀ q ∈ rs, q.follows_fix = true := by
    rw [List.forall_mem_append, List.forall_mem_singleton, and_comm]
  refine ⟨?_, ?_, fun hfix w hw => ?_⟩
  · rw [hscoping, hall, ← hc.recorded]
    simp
  · rw [hscoping]
    split
    · simp [unrecognizedScoping]
    · rfl
  · obtain ⟨hr, hrs⟩ := hall.1 hfix
    rcases List.mem_append.1 hw with hw | hw
    · exact hmono (fun q hq => List.mem_append_left _ hq) (hc.words hrs w hw)
    · exact hmono (fun q hq => List.mem_append_right _ hq) (fromKaqchikel_of_run hr hw)

/-! ### Chains -/

theorem provenance_lastCheckpoint (base : Tokenizer) (first : ScopedRun) (continuations : List ScopedRun) :
    Provenance (first :: continuations) (lastCheckpoint base first continuations) := by
  induction continuations using List.reverseRecOn with
  | nil => exact provenance_first base first
  | append_singleton rest r ih =>
    rw [lastCheckpoint, List.foldl_concat]
    exact provenance_concat ih base r

/-- The card of the last checkpoint of a chain records `kaqchikel_only` exactly if all its runs follow the
fix, and a checkpoint for which `evaluate_checkpoint` then takes the Kaqchikel texts alone has no whole word
that came only from a Spanish text. -/
theorem scoping_provenance (base : Tokenizer) (first : ScopedRun) (continuations : List ScopedRun) :
    ((lastCheckpoint base first continuations).vocab_extension_scoping = some kaqchikelOnly ↔
        ∀ r ∈ first :: continuations, r.follows_fix = true) ∧
      ((lastCheckpoint base first continuations).vocab_extension_scoping = some kaqchikelOnly →
        ∀ w ∈ (lastCheckpoint base first continuations).whole_words,
          FromKaqchikel (first :: continuations) w) := by
  have h := provenance_lastCheckpoint base first continuations
  exact ⟨h.recorded, fun hrecorded => h.words (h.recorded.1 hrecorded)⟩

end KaqTranslator
