import KaqTranslator.Training.Lineage

/-!
# A chain of runs on one corpus (`_build_train_sample_texts` of `evaluate_checkpoint.py`)

The runs of a chain share their sentence pairs, and each has a direction of its own.  Whatever the direction,
a run looks at the same set of Kaqchikel texts (`mem_sampleTexts`), which is the set that
`evaluate_checkpoint` reconstructs the boundary tokens from.  After the first run the vocabulary has all that
these texts need (`getVocab_of_needs`), so that the later runs add no whole word, and the whole words of the
chain are the reconstructed list (`wholeWords_of_chain`).
-/

namespace KaqTranslator

/-- `VOCAB_EXTENSION_SCOPING_KAQCHIKEL_ONLY` -/
def kaqchikelOnly : Str := "kaqchikel_only".toList

/-- `_build_train_sample_texts` -/
def buildTrainSampleTexts (train_pairs : List (Str × Str)) (vocab_extension_scoping : Option Str) : List Str :=
  (if vocab_extension_scoping = some kaqchikelOnly then train_pairs.map Prod.snd
    else train_pairs.map Prod.fst ++ train_pairs.map Prod.snd) ++ allDirectionTagTokens

/-- The value that its `WARNING` names, when it does not know the scoping. -/
def unrecognizedScoping (vocab_extension_scoping : Option Str) : Option Str :=
  if vocab_extension_scoping = some kaqchikelOnly then none else vocab_extension_scoping

/-- A training run on the corpus: its direction, and its SentencePiece training. -/
structure CorpusRun where
  direction : DirectionChoice
  train : List Str → List Str

/-- A run of a chain, with the examples and the tokenizer that it loads. -/
abbrev LoadedRun := List TranslationExample × TrainingRun

namespace LoadedRun

def live (c : LoadedRun) : Tokenizer := liveOfRun c.1 c.2

/-- The tokens that the live tokenizer of the run marks as word boundaries. -/
def boundaryTokens (c : LoadedRun) : List Str := c.live.boundaryTokens.getD []

/-- The tokens that its whole-word step marks. -/
def wholeWords (c : LoadedRun) : List Str :=
  (extendTokenizerVocab c.2.1 (sampleTexts c.1)).1.boundaryTokens.getD []

end LoadedRun

section Corpus

variable (pairs : List (Str × Str))

def CorpusRun.load (r : CorpusRun) (t : Tokenizer) : LoadedRun :=
  (buildDirectionExamples pairs r.direction, (t.reload, r.train))

/-- The runs from the checkpoint `t` on. -/
def chainFrom : Tokenizer → List CorpusRun → List LoadedRun
  | _, [] => []
  | t, r :: rest => r.load pairs t :: chainFrom (r.load pairs t).live rest

/-- What `evaluate_checkpoint` reconstructs for the scoping `kaqchikel_only`. -/
def reconstructed (base : Tokenizer) : List Str :=
  reconstructWholeWordBoundaryTokens base.getVocab (buildTrainSampleTexts pairs (some kaqchikelOnly))

/-! ### What a run adds -/

variable {pairs}

theorem mem_sampleTexts (r : CorpusRun) (t : Tokenizer) (text : Str) :
    text ∈ sampleTexts (r.load pairs t).1 ↔ text ∈ buildTrainSampleTexts pairs (some kaqchikelOnly) := by
  rw [sampleTexts, CorpusRun.load, buildTrainSampleTexts, if_pos rfl, List.mem_append, List.mem_append,
    mem_collectTextsForLanguage]

theorem wholeWords_of_unpatched {c : LoadedRun} (h : c.2.1.boundaryTokens = none) :
    c.wholeWords = wholeWordsOfRun c.1 c.2 := by
  rw [LoadedRun.wholeWords, boundaryTokens_extendTokenizerVocab, Tokenizer.boundaryTokens_mark_getD, h]
  rfl

theorem wholeWords_load (r : CorpusRun) (t : Tokenizer) :
    (r.load pairs t).wholeWords = reconstructed pairs t := by
  rw [wholeWords_of_unpatched rfl]
  exact congrArg selectWholeWordTokens (computeNewTokensForTexts_congr (mem_sampleTexts r t) _)

/-- The whole-word step of a run leaves nothing that its texts need. -/
theorem getVocab_of_needs {t : Tokenizer} {texts : List Str} {token : Str} (h : Needs texts token) :
    (extendTokenizerVocab t texts).1.getVocab token ≠ none := by
  intro hnone
  obtain ⟨hloaded, hnot⟩ := (adds_extendTokenizerVocab t texts).getVocab_eq_none hnone
  rw [extendTokenizerVocab_snd] at hnot
  exact hnot (mem_computeNewTokensForTexts.2 ⟨h, hloaded⟩)

private theorem getVocab_live_eq_none {c : LoadedRun} {token : Str} (h : c.live.getVocab token = none) :
    (extendTokenizerVocab c.2.1 (sampleTexts c.1)).1.getVocab token = none := by
  simp only [LoadedRun.live, liveOfRun, extendTokenizerForExamples] at h
  split at h
  · exact h
  · exact ((adds_extendTokenizerVocabWithSubwords ..).getVocab_eq_none h).1

/-- Every run of a chain loads an unpatched tokenizer, with at least the vocabulary of the checkpoint `t`. -/
theorem loaded_of_mem_chainFrom {rs : List CorpusRun} {t : Tokenizer} {c : LoadedRun}
    (h : c ∈ chainFrom pairs t rs) :
    c.2.1.boundaryTokens = none ∧ (∀ token, c.2.1.getVocab token = none → t.getVocab token = none) ∧
      ∃ (r : CorpusRun) (t' : Tokenizer), c = r.load pairs t' := by
  induction rs generalizing t with
  | nil => cases h
  | cons r rest ih =>
    rcases List.mem_cons.1 h with rfl | h
    · exact ⟨rfl, fun _ h => h, r, t, rfl⟩
    · obtain ⟨hnone, hvocab, hload⟩ := ih h
      refine ⟨hnone, fun token htoken => ?_, hload⟩
      have hadds := adds_extendTokenizerForExamples t.reload r.train (buildDirectionExamples pairs r.direction)
      exact (hadds.getVocab_eq_none (hvocab token htoken)).1

/-! ### The whole words of a chain -/

private theorem wholeWords_eq_nil {t : Tokenizer}
    (h : ∀ token, Needs (buildTrainSampleTexts pairs (some kaqchikelOnly)) token → t.getVocab token ≠ none) :
    reconstructed pairs t = [] := by
  refine List.filter_eq_nil_iff.2 fun token hmem => ?_
  obtain ⟨hneeds, hnone⟩ := mem_computeNewTokensForTexts.1 hmem
  exact absurd hnone (h token hneeds)

/-- The first run of a chain adds all its whole words. -/
theorem wholeWords_of_chain (base : Tokenizer) (first : CorpusRun) (continuations : List CorpusRun) :
    (chainFrom pairs base (first :: continuations)).flatMap LoadedRun.wholeWords =
      reconstructed pairs base := by
  -- the first run leaves no word of the corpus out of the vocabulary
  have hrest : ∀ c ∈ chainFrom pairs (first.load pairs base).live continuations, c.wholeWords = [] := by
    intro c hc
    obtain ⟨-, hvocab, r, t, rfl⟩ := loaded_of_mem_chainFrom hc
    rw [wholeWords_load]
    refine wholeWords_eq_nil fun token hneeds hnone => ?_
    have hneeds : Needs (sampleTexts (first.load pairs base).1) token :=
      (Needs.congr (mem_sampleTexts first base) token).2 hneeds
    exact getVocab_of_needs hneeds (getVocab_live_eq_none (hvocab token hnone))
  rw [chainFrom, List.flatMap_cons, wholeWords_load, List.flatMap_eq_nil_iff.2 hrest, List.append_nil]

private theorem boundaryTokens_of_mem {rs : List CorpusRun} {t : Tokenizer} {c : LoadedRun}
    (h : c ∈ chainFrom pairs t rs) : c.boundaryTokens = c.wholeWords ++ markedPiecesOfRun c.1 c.2 := by
  have hnone := (loaded_of_mem_chainFrom h).1
  rw [wholeWords_of_unpatched hnone]
  exact boundaryTokens_liveOfRun c.1 hnone

end Corpus

/-- Reconstructed boundary tokens and live ones.  Over a chain, the whole-word steps mark the reconstructed
list, and the marker-less tokens of two or more characters that the live tokenizers have as boundary tokens
are its marker-less tokens. -/
theorem reconstructed_boundary_tokens (base : Tokenizer) (pairs : List (Str × Str)) (first : CorpusRun)
    (continuations : List CorpusRun) :
    (chainFrom pairs base (first :: continuations)).flatMap LoadedRun.wholeWords = reconstructed pairs base ∧
      ∀ token, (token ∈ (chainFrom pairs base (first :: continuations)).flatMap LoadedRun.boundaryTokens ∧
          1 < token.length ∧ token.startsWith wordBoundaryMarker = false) ↔
        token ∈ reconstructed pairs base ∧ token.startsWith wordBoundaryMarker = false := by
  have hwords := @wholeWords_of_chain pairs base first continuations
  refine ⟨hwords, fun token => ⟨?_, ?_⟩⟩
  · rintro ⟨hmem, -, hmarker⟩
    obtain ⟨c, hc, hmem⟩ := List.mem_flatMap.1 hmem
    rw [boundaryTokens_of_mem hc] at hmem
    have hword : token ∈ c.wholeWords := by
      -- the pieces that are boundary tokens begin with the marker
      refine (List.mem_append.1 hmem).resolve_right fun hpiece => ?_
      rw [(mem_added_of_markedPiece hpiece).2] at hmarker
      cases hmarker
    rw [← hwords]
    exact ⟨List.mem_flatMap.2 ⟨c, hc, hword⟩, hmarker⟩
  · rintro ⟨hmem, hmarker⟩
    have hlen : 1 < token.length := of_decide_eq_true (List.mem_filter.1 hmem).2
    rw [← hwords] at hmem
    obtain ⟨c, hc, hword⟩ := List.mem_flatMap.1 hmem
    refine ⟨List.mem_flatMap.2 ⟨c, hc, ?_⟩, hlen, hmarker⟩
    rw [boundaryTokens_of_mem hc]
    exact List.mem_append_left _ hword

/-- A word that begins with the marker is reconstructed, and is no marker-less token. -/
theorem reconstructed_word_with_marker :
    ¬ ∀ (base : Tokenizer) (pairs : List (Str × Str)) (first : CorpusRun) (continuations : List CorpusRun)
      (token : Str),
      (token ∈ (chainFrom pairs base (first :: continuations)).flatMap LoadedRun.boundaryTokens ∧
          1 < token.length ∧ token.startsWith wordBoundaryMarker = false) ↔
        token ∈ reconstructed pairs base := by
  intro h
  have hmem : "▁zq".toList ∈ reconstructed [("ri".toList, "▁zq".toList)] (.load []) := by decide +kernel
  have hmarker := ((h (.load []) _ ⟨.both, fun _ => []⟩ [] _).2 hmem).2.2
  exact absurd hmarker (by decide)

end KaqTranslator
