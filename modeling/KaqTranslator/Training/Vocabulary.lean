import KaqTranslator.Text

/-!
# New tokens for a corpus (`vocab_gap.py`, `subword_vocab.py`, `direction.py`)

Which tokens a training run adds to a vocabulary: the characters and words of its texts that the vocabulary
lacks, and the pieces of a SentencePiece model trained on them.  What `sentencepiece` makes of the texts is a
parameter: the list of the pieces of the trained model.

A vocabulary is the `dict` that `get_vocab()` returns.
-/

namespace KaqTranslator

/-- `tokenizer.get_vocab()`: the identifiers of the tokens. -/
abbrev Vocab := Str → Option ℕ

/-! ### `vocab_gap.py` -/

def extractCharacters (texts : List Str) : List Str := texts.flatMap fun text => text.map fun c => [c]

def findMissingCharacters (texts : List Str) (vocab : Vocab) : List Str :=
  (extractCharacters texts).filter fun c => (vocab c).isNone && !c.allSpace

def findMissingWords (texts : List Str) (vocab : Vocab) : List Str :=
  (texts.flatMap Str.split).filter fun w => (vocab w).isNone

/-! ### `select_new_tokens` (`vocab_extension.py`) -/

def selectNewTokens (candidate_tokens : List Str) (existing_vocab : Vocab) : List Str :=
  (Str.sortedSet candidate_tokens).filter fun token => (existing_vocab token).isNone

/-- `compute_new_tokens_for_texts` (`tokenizer_extension.py`) -/
def computeNewTokensForTexts (sample_texts : List Str) (base_vocab : Vocab) : List Str :=
  selectNewTokens (findMissingCharacters sample_texts base_vocab ++ findMissingWords sample_texts base_vocab)
    base_vocab

/-! ### `subword_vocab.py` -/

def markerChar : Char := '▁'

def wordBoundaryMarker : Str := [markerChar]

def specialPieces : List Str := ["<unk>".toList, "<s>".toList, "</s>".toList, "<pad>".toList]

def defaultMinSubwordLength : ℕ := 2

/-- `extract_vocab_pieces`, from the pieces of the model -/
def extractVocabPieces (pieces : List Str) : List Str := pieces.filter fun piece => piece ∉ specialPieces

def selectHighValueSubwords (pieces : List Str) (min_subword_length : ℕ) : List Str :=
  pieces.filter fun piece => min_subword_length ≤ (piece.removePrefix wordBoundaryMarker).length

/-- `compute_new_subword_tokens`; `train` gives the pieces of the model trained on the texts -/
def computeNewSubwordTokens (train : List Str → List Str) (texts : List Str) (base_vocab : Vocab)
    (min_subword_length : ℕ) : List Str :=
  selectNewTokens (selectHighValueSubwords (extractVocabPieces (train texts)) min_subword_length) base_vocab

/-! ### `direction.py` -/

/-- `SPANISH` and `KAQCHIKEL` -/
inductive Language where
  | es
  | cak
  deriving DecidableEq

/-- `DIRECTION_TAGS` -/
def directionTag : Language → Str
  | .es => "__es__".toList
  | .cak => "__cak__".toList

def allDirectionTagTokens : List Str := [directionTag .es, directionTag .cak]

structure TranslationExample where
  source_text : Str
  target_text : Str
  source_lang : Language
  target_lang : Language

/-- `DIRECTION_CHOICES` -/
inductive DirectionChoice where
  | esToCak
  | cakToEs
  | both
  deriving DecidableEq

/-- `build_direction_examples`, from pairs of a Spanish and a Kaqchikel sentence -/
def buildDirectionExamples (pairs : List (Str × Str)) (direction : DirectionChoice) : List TranslationExample :=
  (if direction = .esToCak ∨ direction = .both then pairs.map fun p => ⟨p.1, p.2, .es, .cak⟩ else []) ++
    if direction = .cakToEs ∨ direction = .both then pairs.map fun p => ⟨p.2, p.1, .cak, .es⟩ else []

def collectTextsForLanguage (examples : List TranslationExample) (language : Language) : List Str :=
  examples.flatMap fun e =>
    (if e.source_lang = language then [e.source_text] else []) ++
      (if e.target_lang = language then [e.target_text] else [])

def stripLeadingDirectionTag (text : Str) (target_lang : Language) : Str :=
  if text.startsWith (directionTag target_lang) then Str.lstrip (text.drop (directionTag target_lang).length)
  else text

theorem mem_collectTextsForLanguage {pairs : List (Str × Str)} {direction : DirectionChoice} {text : Str} :
    text ∈ collectTextsForLanguage (buildDirectionExamples pairs direction) .cak ↔
      text ∈ pairs.map Prod.snd := by
  cases direction <;> simp [collectTextsForLanguage, buildDirectionExamples, eq_comm]

/-! ### What is selected -/

theorem mem_selectNewTokens {candidates : List Str} {vocab : Vocab} {token : Str} :
    token ∈ selectNewTokens candidates vocab ↔ token ∈ candidates ∧ vocab token = none := by
  rw [selectNewTokens, List.mem_filter, Str.mem_sortedSet, Option.isNone_iff_eq_none]

theorem nodup_selectNewTokens (candidates : List Str) (vocab : Vocab) :
    (selectNewTokens candidates vocab).Nodup :=
  (Str.nodup_sortedSet candidates).filter _

/-- The texts need the token: it is one of their characters, or one of their words. -/
def Needs (texts : List Str) (token : Str) : Prop :=
  (token ∈ extractCharacters texts ∧ token.allSpace = false) ∨ token ∈ texts.flatMap Str.split

theorem mem_computeNewTokensForTexts {texts : List Str} {vocab : Vocab} {token : Str} :
    token ∈ computeNewTokensForTexts texts vocab ↔ Needs texts token ∧ vocab token = none := by
  simp only [computeNewTokensForTexts, mem_selectNewTokens, findMissingCharacters, findMissingWords,
    List.mem_append, List.mem_filter, Bool.and_eq_true, Option.isNone_iff_eq_none, Bool.not_eq_true', Needs]
  constructor
  · rintro ⟨⟨hc, -, hspace⟩ | ⟨hw, -⟩, hnone⟩
    · exact ⟨.inl ⟨hc, hspace⟩, hnone⟩
    · exact ⟨.inr hw, hnone⟩
  · rintro ⟨⟨hc, hspace⟩ | hw, hnone⟩
    · exact ⟨.inl ⟨hc, hnone, hspace⟩, hnone⟩
    · exact ⟨.inr ⟨hw, hnone⟩, hnone⟩

theorem Needs.congr {texts texts' : List Str} (h : ∀ text, text ∈ texts ↔ text ∈ texts') (token : Str) :
    Needs texts token ↔ Needs texts' token := by
  simp only [Needs, extractCharacters, List.mem_flatMap, h]

/-- Only the set of the texts counts. -/
theorem computeNewTokensForTexts_congr {texts texts' : List Str} (h : ∀ text, text ∈ texts ↔ text ∈ texts')
    (vocab : Vocab) : computeNewTokensForTexts texts vocab = computeNewTokensForTexts texts' vocab := by
  unfold computeNewTokensForTexts selectNewTokens
  refine congrArg _ (Str.sortedSet_congr fun token => ?_)
  simp only [findMissingCharacters, findMissingWords, extractCharacters, List.mem_append, List.mem_filter,
    List.mem_flatMap, h]

theorem not_space_of_mem_computeNewTokensForTexts {texts : List Str} {vocab : Vocab} {token : Str}
    (h : token ∈ computeNewTokensForTexts texts vocab) : token ≠ [] ∧ ∀ c ∈ token, isspace c = false := by
  rcases (mem_computeNewTokensForTexts.1 h).1 with ⟨hchar, hspace⟩ | hword
  · obtain ⟨text, -, hc⟩ := List.mem_flatMap.1 hchar
    obtain ⟨c, -, rfl⟩ := List.mem_map.1 hc
    refine ⟨by simp, fun d hd => ?_⟩
    obtain rfl := List.mem_singleton.1 hd
    simpa [Str.allSpace] using hspace
  · obtain ⟨text, -, hw⟩ := List.mem_flatMap.1 hword
    exact Str.mem_split hw

end KaqTranslator
