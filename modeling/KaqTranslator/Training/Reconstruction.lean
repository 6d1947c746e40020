import KaqTranslator.Training.WordBoundary

/-!
# Reloaded decoding against live decoding

A live tokenizer has the whole words and the marked subword pieces that it was extended with as boundary
tokens.  A reloaded one, patched by `patch_word_boundary_decoding_for_checkpoint`, has the whole words only.
A marked piece still starts a run, but its own marker stays in the text: `reloaded_decoding_iff` says that the
two decode alike exactly where there are no marked pieces.
-/

namespace KaqTranslator

open Runs

/-! ### Boundary tokens -/

namespace Tokenizer

@[simp] theorem boundaryTokens_addToken (t : Tokenizer) (token : Str) :
    (t.addToken token).boundaryTokens = t.boundaryTokens := by
  unfold addToken
  split <;> rfl

@[simp] theorem boundaryTokens_addTokens (t : Tokenizer) (tokens : List Str) :
    (t.addTokens tokens).boundaryTokens = t.boundaryTokens := by
  induction tokens generalizing t with
  | nil => rfl
  | cons token tokens ih => rw [addTokens, List.foldl_cons, ← addTokens, ih, boundaryTokens_addToken]

theorem boundaryTokens_mark (t : Tokenizer) (tokens : List Str) :
    (t.markWordBoundaryTokens tokens).boundaryTokens =
      if tokens = [] then t.boundaryTokens else some (t.boundaryTokens.getD [] ++ tokens) := by
  unfold markWordBoundaryTokens
  split <;> rfl

theorem boundaryTokens_mark_getD (t : Tokenizer) (tokens : List Str) :
    (t.markWordBoundaryTokens tokens).boundaryTokens.getD [] = t.boundaryTokens.getD [] ++ tokens := by
  rw [boundaryTokens_mark]
  split
  · rename_i h
    rw [h, List.append_nil]
  · rfl

end Tokenizer

def markedPieces (tokens : List Str) : List Str :=
  tokens.filter fun token => token.startsWith wordBoundaryMarker

theorem boundaryTokens_extendTokenizerVocab (t : Tokenizer) (texts : List Str) :
    (extendTokenizerVocab t texts).1.boundaryTokens =
      (t.markWordBoundaryTokens (reconstructWholeWordBoundaryTokens t.getVocab texts)).boundaryTokens := by
  simp only [extendTokenizerVocab, reconstructWholeWordBoundaryTokens]
  split
  · rename_i h
    simp [h, selectWholeWordTokens, Tokenizer.markWordBoundaryTokens]
  · rw [Tokenizer.boundaryTokens_mark, Tokenizer.boundaryTokens_mark, Tokenizer.boundaryTokens_addTokens]

theorem boundaryTokens_extendTokenizerVocabWithSubwords (t : Tokenizer) (train : List Str → List Str)
    (texts : List Str) :
    (extendTokenizerVocabWithSubwords t train texts).1.boundaryTokens =
      (t.markWordBoundaryTokens
        (markedPieces (extendTokenizerVocabWithSubwords t train texts).2)).boundaryTokens := by
  simp only [extendTokenizerVocabWithSubwords]
  split
  · simp [markedPieces, Tokenizer.markWordBoundaryTokens]
  · rw [Tokenizer.boundaryTokens_mark, Tokenizer.boundaryTokens_mark, Tokenizer.boundaryTokens_addTokens]
    rfl

/-! ### Where two decoders differ -/

section Differ

variable {sp : SentencePiece} {t t' : Tokenizer}

private theorem weight_le_of_marked
    (hsub : ∀ token ∈ t'.boundaryTokens.getD [], token ∈ t.boundaryTokens.getD [])
    (hmarked : ∀ token ∈ t.boundaryTokens.getD [], token ∉ t'.boundaryTokens.getD [] →
      sp.native token = false ∧ token.startsWith wordBoundaryMarker = true) (u : Str) :
    sp.weight (t.boundaryTokens.getD []) u ≤ sp.weight (t'.boundaryTokens.getD []) u := by
  by_cases h : u ∈ t.boundaryTokens.getD []
  · by_cases h' : u ∈ t'.boundaryTokens.getD []
    · rw [SentencePiece.weight, SentencePiece.weight, if_pos h, if_pos h']
    · obtain ⟨hnat, hmark⟩ := hmarked u h h'
      exact Nat.le_of_lt (weight_lt_of_marked hnat hmark h h')
  · rw [SentencePiece.weight, SentencePiece.weight, if_neg h, if_neg fun h' => h (hsub u h')]

theorem markers_convertTokensToString_le
    (hsub : ∀ token ∈ t'.boundaryTokens.getD [], token ∈ t.boundaryTokens.getD [])
    (hmarked : ∀ token ∈ t.boundaryTokens.getD [], token ∉ t'.boundaryTokens.getD [] →
      sp.native token = false ∧ token.startsWith wordBoundaryMarker = true) (tokens : List Str) :
    markers (t.convertTokensToString sp tokens) ≤ markers (t'.convertTokensToString sp tokens) := by
  rw [t.markers_convertTokensToString, t'.markers_convertTokensToString]
  exact List.sum_le_sum fun u _ => weight_le_of_marked hsub hmarked u

/-- A marked piece that only one of the tokenizers has as a boundary token shows in the text. -/
theorem markers_convertTokensToString_lt
    (hsub : ∀ token ∈ t'.boundaryTokens.getD [], token ∈ t.boundaryTokens.getD [])
    (hmarked : ∀ token ∈ t.boundaryTokens.getD [], token ∉ t'.boundaryTokens.getD [] →
      sp.native token = false ∧ token.startsWith wordBoundaryMarker = true)
    {tokens : List Str} {token : Str} (hmem : token ∈ tokens) (htoken : token ∈ t.boundaryTokens.getD [])
    (hnot : token ∉ t'.boundaryTokens.getD []) :
    markers (t.convertTokensToString sp tokens) < markers (t'.convertTokensToString sp tokens) := by
  rw [t.markers_convertTokensToString, t'.markers_convertTokensToString]
  refine List.sum_lt_sum _ _ (fun u _ => weight_le_of_marked hsub hmarked u) ⟨token, hmem, ?_⟩
  obtain ⟨hnat, hmark⟩ := hmarked token htoken hnot
  exact weight_lt_of_marked hnat hmark htoken hnot

theorem convertTokensToString_ne
    (hsub : ∀ token ∈ t'.boundaryTokens.getD [], token ∈ t.boundaryTokens.getD [])
    (hmarked : ∀ token ∈ t.boundaryTokens.getD [], token ∉ t'.boundaryTokens.getD [] →
      sp.native token = false ∧ token.startsWith wordBoundaryMarker = true)
    {tokens : List Str} {token : Str} (hmem : token ∈ tokens) (htoken : token ∈ t.boundaryTokens.getD [])
    (hnot : token ∉ t'.boundaryTokens.getD []) :
    t.convertTokensToString sp tokens ≠ t'.convertTokensToString sp tokens :=
  fun heq => (markers_convertTokensToString_lt hsub hmarked hmem htoken hnot).ne (congrArg markers heq)

end Differ

theorem convertWithWordBoundaries_congr (sp : SentencePiece) {b b' tokens : List Str}
    (h : ∀ token ∈ tokens, token ∈ b ↔ token ∈ b') :
    convertWithWordBoundaries sp b tokens = convertWithWordBoundaries sp b' tokens := by
  have hcut : cut (fun t => t ∈ b || t.startsWith wordBoundaryMarker) tokens =
      cut (fun t => t ∈ b' || t.startsWith wordBoundaryMarker) tokens :=
    cut_congr fun t ht => by simp only [h t ht]
  have hdecoded : ∀ run ∈ cut (fun t => t ∈ b' || t.startsWith wordBoundaryMarker) tokens,
      sp.convert (unmarkHead b run) = sp.convert (unmarkHead b' run) := by
    intro run hrun
    cases run with
    | nil => rfl
    | cons t rest => simp only [unmarkHead, h t (mem_of_mem_cut hrun (List.mem_cons_self ..))]
  simp only [convertWithWordBoundaries, hcut, List.map_congr_left hdecoded]

/-! ### Live and reloaded -/

theorem Adds.getVocab_eq_none {t t' : Tokenizer} {new : List Str} (h : Adds t t' new) {token : Str}
    (hnone : t'.getVocab token = none) : t.getVocab token = none ∧ token ∉ new := by
  have hnot : token ∉ new := by
    intro hmem
    obtain ⟨i, hi⟩ := List.getElem?_of_mem hmem
    rw [h.ids i token hi] at hnone
    cases hnone
  exact ⟨(h.old token hnot) ▸ hnone, hnot⟩

section Checkpoint

variable (base : Tokenizer) (texts : List Str) (train : List Str → List Str) (kaqchikel_texts : List Str)

def liveTokenizer : Tokenizer × List Str :=
  extendTokenizerVocabWithSubwords (extendTokenizerVocab base texts).1 train kaqchikel_texts

/-- The same tokenizer, saved, reloaded and patched. -/
def patchedTokenizer : Tokenizer :=
  (patchWordBoundaryDecodingForCheckpoint (liveTokenizer base texts train kaqchikel_texts).1.reload
    base.getVocab texts).1

def addedMarkedPieces : List Str := markedPieces (liveTokenizer base texts train kaqchikel_texts).2

variable {base}

theorem boundaryTokens_liveTokenizer (hbase : base.boundaryTokens = none) :
    (liveTokenizer base texts train kaqchikel_texts).1.boundaryTokens.getD [] =
      reconstructWholeWordBoundaryTokens base.getVocab texts ++
        addedMarkedPieces base texts train kaqchikel_texts := by
  rw [liveTokenizer, boundaryTokens_extendTokenizerVocabWithSubwords, Tokenizer.boundaryTokens_mark_getD,
    boundaryTokens_extendTokenizerVocab, Tokenizer.boundaryTokens_mark_getD, hbase]
  rfl

variable (base) in
theorem boundaryTokens_patchedTokenizer :
    (patchedTokenizer base texts train kaqchikel_texts).boundaryTokens =
      if reconstructWholeWordBoundaryTokens base.getVocab texts = [] then none
      else some (reconstructWholeWordBoundaryTokens base.getVocab texts) := by
  rw [patchedTokenizer, patchWordBoundaryDecodingForCheckpoint, Tokenizer.boundaryTokens_mark]
  rfl

variable (base) in
private theorem boundaryTokens_patchedTokenizer_getD :
    (patchedTokenizer base texts train kaqchikel_texts).boundaryTokens.getD [] =
      reconstructWholeWordBoundaryTokens base.getVocab texts := by
  rw [patchedTokenizer, patchWordBoundaryDecodingForCheckpoint, Tokenizer.boundaryTokens_mark_getD]
  rfl

variable {texts train kaqchikel_texts}

theorem not_mem_of_addedMarkedPieces {token : Str}
    (h : token ∈ addedMarkedPieces base texts train kaqchikel_texts) :
    token.startsWith wordBoundaryMarker = true ∧ base.getVocab token = none ∧
      token ∉ reconstructWholeWordBoundaryTokens base.getVocab texts := by
  obtain ⟨hmem, hmarked⟩ := List.mem_filter.1 h
  have hfresh := (adds_extendTokenizerVocabWithSubwords _ train kaqchikel_texts).fresh token hmem
  obtain ⟨hnone, hnot⟩ := (adds_extendTokenizerVocab base texts).getVocab_eq_none hfresh
  rw [extendTokenizerVocab_snd] at hnot
  exact ⟨hmarked, hnone, fun hword => hnot (List.mem_filter.1 hword).1⟩

/-- A marked piece tells the two decoders apart: only the live one takes its marker off. -/
theorem liveTokenizer_decoding_ne {sp : SentencePiece} (hbase : base.boundaryTokens = none)
    (hnative : ∀ token, sp.native token = true → base.getVocab token ≠ none) {tokens : List Str} {token : Str}
    (hmem : token ∈ tokens) (hpiece : token ∈ addedMarkedPieces base texts train kaqchikel_texts) :
    (liveTokenizer base texts train kaqchikel_texts).1.convertTokensToString sp tokens ≠
      (patchedTokenizer base texts train kaqchikel_texts).convertTokensToString sp tokens := by
  have hlive := boundaryTokens_liveTokenizer texts train kaqchikel_texts hbase
  have hpatched := boundaryTokens_patchedTokenizer_getD base texts train kaqchikel_texts
  refine convertTokensToString_ne ?_ ?_ hmem ?_ ?_
  · intro u hu
    rw [hpatched] at hu
    rw [hlive]
    exact List.mem_append_left _ hu
  · intro u hu hu'
    rw [hlive] at hu
    rw [hpatched] at hu'
    have hu_piece := (List.mem_append.1 hu).resolve_left hu'
    obtain ⟨hmarked, hnone, -⟩ := not_mem_of_addedMarkedPieces hu_piece
    exact ⟨Bool.eq_false_iff.2 fun h => hnative u h hnone, hmarked⟩
  · rw [hlive]
    exact List.mem_append_right _ hpiece
  · rw [hpatched]
    exact (not_mem_of_addedMarkedPieces hpiece).2.2

private theorem boundaryTokens_liveTokenizer_eq_patched (hbase : base.boundaryTokens = none)
    (hpieces : addedMarkedPieces base texts train kaqchikel_texts = []) :
    (liveTokenizer base texts train kaqchikel_texts).1.boundaryTokens =
      (patchedTokenizer base texts train kaqchikel_texts).boundaryTokens := by
  rw [addedMarkedPieces, liveTokenizer] at hpieces
  rw [boundaryTokens_patchedTokenizer, liveTokenizer, boundaryTokens_extendTokenizerVocabWithSubwords, hpieces,
    Tokenizer.boundaryTokens_mark, if_pos rfl, boundaryTokens_extendTokenizerVocab,
    Tokenizer.boundaryTokens_mark, hbase]
  rfl

theorem liveTokenizer_decoding_eq (sp : SentencePiece) (hbase : base.boundaryTokens = none)
    (hwords : reconstructWholeWordBoundaryTokens base.getVocab texts ≠ []) {tokens : List Str}
    (hnot : ∀ token ∈ tokens, token ∉ addedMarkedPieces base texts train kaqchikel_texts) :
    (liveTokenizer base texts train kaqchikel_texts).1.convertTokensToString sp tokens =
      (patchedTokenizer base texts train kaqchikel_texts).convertTokensToString sp tokens := by
  have hlive := boundaryTokens_liveTokenizer texts train kaqchikel_texts hbase
  have hpatched : (patchedTokenizer base texts train kaqchikel_texts).boundaryTokens =
      some (reconstructWholeWordBoundaryTokens base.getVocab texts) := by
    rw [boundaryTokens_patchedTokenizer, if_neg hwords]
  have hsome : (liveTokenizer base texts train kaqchikel_texts).1.boundaryTokens =
      some (reconstructWholeWordBoundaryTokens base.getVocab texts ++
        addedMarkedPieces base texts train kaqchikel_texts) := by
    cases hb : (liveTokenizer base texts train kaqchikel_texts).1.boundaryTokens with
    | none =>
      rw [hb] at hlive
      exact absurd (List.append_eq_nil_iff.1 hlive.symm).1 hwords
    | some b => rw [← hlive, hb, Option.getD_some]
  simp only [Tokenizer.convertTokensToString, hpatched, hsome]
  apply convertWithWordBoundaries_congr
  intro token hmem
  rw [List.mem_append]
  exact or_iff_left (hnot token hmem)

/-- Reloaded decoding equals live decoding, for every token list, if and only if no added subword piece
carries the marker; and when there are whole words to reconstruct, for exactly the token lists without such a
piece. -/
theorem reloaded_decoding_iff {sp : SentencePiece} (hbase : base.boundaryTokens = none)
    (hnative : ∀ token, sp.native token = true → base.getVocab token ≠ none) :
    ((∀ tokens, (liveTokenizer base texts train kaqchikel_texts).1.convertTokensToString sp tokens =
        (patchedTokenizer base texts train kaqchikel_texts).convertTokensToString sp tokens) ↔
      addedMarkedPieces base texts train kaqchikel_texts = []) ∧
    (reconstructWholeWordBoundaryTokens base.getVocab texts ≠ [] → ∀ tokens,
      ((liveTokenizer base texts train kaqchikel_texts).1.convertTokensToString sp tokens =
        (patchedTokenizer base texts train kaqchikel_texts).convertTokensToString sp tokens) ↔
      ∀ token ∈ tokens, token ∉ addedMarkedPieces base texts train kaqchikel_texts) := by
  refine ⟨⟨fun hall => ?_, fun hnil tokens => ?_⟩, fun hwords tokens => ⟨fun heq token hmem hpiece => ?_, ?_⟩⟩
  · by_contra hpieces
    obtain ⟨token, hpiece⟩ := List.exists_mem_of_ne_nil _ hpieces
    have hmem : token ∈ [token] := List.mem_singleton_self token
    exact liveTokenizer_decoding_ne hbase hnative hmem hpiece (hall [token])
  · have hsame := boundaryTokens_liveTokenizer_eq_patched hbase hnil
    rw [Tokenizer.convertTokensToString, hsame]
    rfl
  · exact liveTokenizer_decoding_ne hbase hnative hmem hpiece heq
  · exact liveTokenizer_decoding_eq sp hbase hwords

end Checkpoint

/-! ### A word-initial piece -/

def riBase : Tokenizer := .load ["▁ri".toList]

def riDecoder : SentencePiece := .stripping fun token => token = "▁ri".toList

/-- A SentencePiece model with a word-initial piece and a continuation piece. -/
def zqvPieces (_ : List Str) : List Str := ["▁zqv".toList, "wkr".toList]

/-- The reloaded tokenizer leaves the marker of the added piece in the text. -/
theorem reloaded_decoding_keeps_marker :
    (liveTokenizer riBase ["zq".toList] zqvPieces ["zq".toList]).1.convertTokensToString riDecoder
        ["▁ri".toList, "▁zqv".toList, "wkr".toList, "zq".toList] = "ri zqvwkr zq".toList ∧
      (patchedTokenizer riBase ["zq".toList] zqvPieces ["zq".toList]).convertTokensToString riDecoder
        ["▁ri".toList, "▁zqv".toList, "wkr".toList, "zq".toList] = "ri ▁zqvwkr zq".toList := by
  decide +kernel

/-- On a list without that piece the two agree. -/
theorem reloaded_decoding_without_piece :
    (liveTokenizer riBase ["zq".toList] zqvPieces ["zq".toList]).1.convertTokensToString riDecoder
        ["▁ri".toList, "zq".toList, "wkr".toList] =
      (patchedTokenizer riBase ["zq".toList] zqvPieces ["zq".toList]).convertTokensToString riDecoder
        ["▁ri".toList, "zq".toList, "wkr".toList] := by
  have hnative : ∀ token, riDecoder.native token = true → riBase.getVocab token ≠ none := by
    intro token h
    rw [of_decide_eq_true h]
    decide
  exact ((reloaded_decoding_iff rfl hnative).2 (by decide +kernel) _).2 (by decide +kernel)

end KaqTranslator
