import KaqTranslator.Library.Runs
import KaqTranslator.Training.WarmStart

/-!
# Extending a tokenizer and its model (`tokenizer_extension.py`, `extend_vocabulary_for_examples` of `train.py`)

`Tokenizer` is a loaded Hugging Face tokenizer, as far as these modules use it: its vocabulary, and the set
that `_mark_word_boundary_tokens` stashes on the instance.  Saving and reloading keeps the vocabulary and
drops the set.

`SentencePiece` is what the tokenizer decodes with when it has not been patched.  It turns the marker of the
pieces it knows into spaces and copies every other token literally, up to surrounding white space.
-/

namespace KaqTranslator

open Runs

variable {K : Type*} [Field K] {d : ℕ}

/-! ### Decoding -/

/-- What a token contributes to the text: a native piece has its markers turned into spaces. -/
def surface (native : Str → Bool) (token : Str) : Str :=
  if native token then token.map fun c => if c = markerChar then ' ' else c else token

structure SentencePiece where
  native : Str → Bool
  convert : List Str → Str
  convert_spec : ∀ tokens, ∃ l r : Str, l.Blank ∧ r.Blank ∧
    tokens.flatMap (surface native) = l ++ convert tokens ++ r

def SentencePiece.stripping (native : Str → Bool) : SentencePiece :=
  ⟨native, fun tokens => Str.strip (tokens.flatMap (surface native)), fun _ => Str.strip_eq _⟩

/-- The marker is taken off a run's leading token when it is a boundary token. -/
def unmarkHead (boundary_tokens : List Str) : List Str → List Str
  | [] => []
  | token :: rest =>
    if token ∈ boundary_tokens then token.removePrefix wordBoundaryMarker :: rest else token :: rest

/-- `convert_tokens_to_string_with_word_boundaries` -/
def convertWithWordBoundaries (sp : SentencePiece) (boundary_tokens : List Str) (tokens : List Str) : Str :=
  let runs := cut (fun t => t ∈ boundary_tokens || t.startsWith wordBoundaryMarker) tokens
  let decoded := runs.map fun run => sp.convert (unmarkHead boundary_tokens run)
  (Str.join [' '] (decoded.filter fun part => !part.isEmpty)).strip

/-! ### Tokenizers -/

structure Tokenizer where
  getVocab : Vocab
  size : ℕ  -- `len(tokenizer)`
  getVocab_lt : ∀ token id, getVocab token = some id → id < size
  boundaryTokens : Option (List Str)  -- `_translator_word_boundary_added_tokens`, when the attribute is there

namespace Tokenizer

/-- A freshly loaded tokenizer, from its tokens in the order of their identifiers. -/
def load (tokens : List Str) : Tokenizer where
  getVocab token := if token ∈ tokens then some (tokens.idxOf token) else none
  size := tokens.length
  getVocab_lt := by
    intro token id h
    split at h
    · rename_i hmem
      cases h
      exact List.idxOf_lt_length_of_mem hmem
    · cases h
  boundaryTokens := none

/-- One turn of `add_tokens`: a token that is not there gets the next identifier. -/
def addToken (t : Tokenizer) (token : Str) : Tokenizer :=
  if h : t.getVocab token = none then
    { t with
      getVocab := Function.update t.getVocab token (some t.size)
      size := t.size + 1
      getVocab_lt := by
        intro token' id hid
        by_cases heq : token' = token
        · subst heq
          rw [Function.update_self] at hid
          cases hid
          exact Nat.lt_succ_self _
        · rw [Function.update_of_ne heq] at hid
          exact Nat.lt_succ_of_lt (t.getVocab_lt token' id hid) }
  else t

def addTokens (t : Tokenizer) (new_tokens : List Str) : Tokenizer := new_tokens.foldl addToken t

def markWordBoundaryTokens (t : Tokenizer) (tokens : List Str) : Tokenizer :=
  if tokens = [] then t else { t with boundaryTokens := some (t.boundaryTokens.getD [] ++ tokens) }

/-- `convert_tokens_to_string` of the instance -/
def convertTokensToString (t : Tokenizer) (sp : SentencePiece) (tokens : List Str) : Str :=
  match t.boundaryTokens with
  | none => sp.convert tokens
  | some boundary_tokens => convertWithWordBoundaries sp boundary_tokens tokens

/-- `save_pretrained`, then `from_pretrained` -/
def reload (t : Tokenizer) : Tokenizer := { t with boundaryTokens := none }

end Tokenizer

def selectWholeWordTokens (tokens : List Str) : List Str := tokens.filter fun token => 1 < token.length

def extendTokenizerVocab (tokenizer : Tokenizer) (sample_texts : List Str) : Tokenizer × List Str :=
  let new_tokens := computeNewTokensForTexts sample_texts tokenizer.getVocab
  if new_tokens = [] then (tokenizer, [])
  else ((tokenizer.addTokens new_tokens).markWordBoundaryTokens (selectWholeWordTokens new_tokens), new_tokens)

def extendTokenizerVocabWithSubwords (tokenizer : Tokenizer) (train : List Str → List Str)
    (kaqchikel_texts : List Str) : Tokenizer × List Str :=
  let new_tokens := computeNewSubwordTokens train kaqchikel_texts tokenizer.getVocab defaultMinSubwordLength
  if new_tokens = [] then (tokenizer, [])
  else
    ((tokenizer.addTokens new_tokens).markWordBoundaryTokens
      (new_tokens.filter fun token => token.startsWith wordBoundaryMarker), new_tokens)

/-- What the whole-word step adds. -/
theorem extendTokenizerVocab_snd (tokenizer : Tokenizer) (sample_texts : List Str) :
    (extendTokenizerVocab tokenizer sample_texts).2 =
      computeNewTokensForTexts sample_texts tokenizer.getVocab := by
  simp only [extendTokenizerVocab]
  split
  · rename_i hnil
    exact hnil.symm
  · rfl

/-- What the subword step adds. -/
theorem extendTokenizerVocabWithSubwords_snd (tokenizer : Tokenizer) (train : List Str → List Str)
    (kaqchikel_texts : List Str) :
    (extendTokenizerVocabWithSubwords tokenizer train kaqchikel_texts).2 =
      computeNewSubwordTokens train kaqchikel_texts tokenizer.getVocab defaultMinSubwordLength := by
  simp only [extendTokenizerVocabWithSubwords]
  split
  · rename_i hnil
    exact hnil.symm
  · rfl

def reconstructWholeWordBoundaryTokens (base_vocab : Vocab) (sample_texts : List Str) : List Str :=
  selectWholeWordTokens (computeNewTokensForTexts sample_texts base_vocab)

def patchWordBoundaryDecodingForCheckpoint (tokenizer : Tokenizer) (base_vocab : Vocab)
    (sample_texts : List Str) : Tokenizer × List Str :=
  let boundary_tokens := reconstructWholeWordBoundaryTokens base_vocab sample_texts
  (tokenizer.markWordBoundaryTokens boundary_tokens, boundary_tokens)

/-! ### The model -/

/-- `model.resize_token_embeddings`: `fresh` are the rows that the library allocates. -/
def resizeTokenEmbeddings (embeddings : List (Row K d)) (new_size : ℕ) (fresh : ℕ → Row K d) : List (Row K d) :=
  embeddings.take new_size ++ (List.range (new_size - embeddings.length)).map fresh

def warmStart (embeddings : List (Row K d)) (added_tokens : List Str) (base_vocab : Vocab)
    (strategy : EmbeddingInit) (noise : Noise embeddings) : List (Row K d) :=
  match strategy with
  | .mean => resizeEmbeddingMatrix embeddings added_tokens.length noise
  | .compositional => resizeEmbeddingMatrixCompositional embeddings added_tokens base_vocab noise

/-- `resize_embeddings_for_new_tokens`: the rows from `old_size` on are those of the warm start. -/
def resizeEmbeddingsForNewTokens (embeddings : List (Row K d)) (added_tokens : List Str) (base_vocab : Vocab)
    (strategy : EmbeddingInit) (noise : Noise embeddings) (fresh : ℕ → Row K d) : List (Row K d) :=
  if added_tokens.length = 0 then embeddings
  else
    let old_size := embeddings.length
    let new_size := old_size + added_tokens.length
    let resized := warmStart embeddings added_tokens base_vocab strategy noise
    let weight := resizeTokenEmbeddings embeddings new_size fresh
    weight.take old_size ++ (resized.take new_size).drop old_size ++ weight.drop new_size

/-- What `extend_vocabulary_for_examples` leaves and returns. -/
structure Extension (K : Type*) (d : ℕ) where
  tokenizer : Tokenizer
  embeddings : List (Row K d)
  added_tokens : List Str
  compositional_coverage : Option ℕ

/-- The two extension steps of `extend_vocabulary_for_examples`: the tokenizer and the added tokens. -/
def extendTokenizerForExamples (tokenizer : Tokenizer) (train : List Str → List Str)
    (examples : List TranslationExample) : Tokenizer × List Str :=
  let kaqchikel_texts := collectTextsForLanguage examples .cak
  let whole := extendTokenizerVocab tokenizer (kaqchikel_texts ++ allDirectionTagTokens)
  if kaqchikel_texts = [] then whole
  else
    let subwords := extendTokenizerVocabWithSubwords whole.1 train kaqchikel_texts
    (subwords.1, whole.2 ++ subwords.2)

def extendVocabularyForExamples (tokenizer : Tokenizer) (embeddings : List (Row K d))
    (train : List Str → List Str) (examples : List TranslationExample) (strategy : EmbeddingInit)
    (noise : Noise embeddings) (fresh : ℕ → Row K d) : Extension K d :=
  let base_vocab := tokenizer.getVocab
  let extended := extendTokenizerForExamples tokenizer train examples
  { tokenizer := extended.1
    embeddings := resizeEmbeddingsForNewTokens embeddings extended.2 base_vocab strategy noise fresh
    added_tokens := extended.2
    compositional_coverage :=
      if strategy = .compositional then some (countDecomposableTokens extended.2 base_vocab) else none }

end KaqTranslator
