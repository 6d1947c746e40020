import Mathlib.Algebra.Order.BigOperators.Group.List
import KaqTranslator.Training.Alignment

/-!
# Markers left in a text

How two decoders can be told apart by the texts that they make.  The number of markers left in a text is a sum
over the tokens, in which each token counts for itself (`Tokenizer.markers_convertTokensToString`): a boundary
token counts without its own marker, and a native piece not at all.
-/

namespace KaqTranslator

open Runs

/-! ### Markers -/

def markers (s : Str) : ℕ := s.count markerChar

@[simp] theorem markers_nil : markers [] = 0 := rfl

@[simp] theorem markers_append (s t : Str) : markers (s ++ t) = markers s + markers t := List.count_append ..

theorem markers_of_blank {s : Str} (h : s.Blank) : markers s = 0 := by
  rw [markers, List.count_eq_zero]
  intro hmem
  have hspace : isspace markerChar = true := h _ hmem
  exact absurd hspace (by decide)

private theorem markers_strip (s : Str) : markers s.strip = markers s := by
  obtain ⟨l, r, hl, hr, hs⟩ := s.strip_eq
  conv_rhs => rw [hs]
  have hl' : markers l = 0 := markers_of_blank hl
  have hr' : markers r = 0 := markers_of_blank hr
  rw [markers_append, markers_append]
  omega

private theorem markers_flatMap (f : Str → Str) (tokens : List Str) :
    markers (tokens.flatMap f) = (tokens.map fun t => markers (f t)).sum := by
  induction tokens with
  | nil => rfl
  | cons t tokens ih => rw [List.flatMap_cons, markers_append, ih, List.map_cons, List.sum_cons]

theorem markers_join {sep : Str} (hsep : markers sep = 0) (parts : List Str) :
    markers (Str.join sep parts) = (parts.map markers).sum := by
  induction parts with
  | nil => rfl
  | cons part parts ih =>
    cases parts with
    | nil => simp [Str.join]
    | cons part' parts =>
      rw [Str.join, List.intercalate_cons_cons, ← Str.join, markers_append, markers_append, hsep, ih,
        Nat.add_zero, ← List.sum_cons, ← List.map_cons]

private theorem markers_filter (parts : List Str) :
    ((parts.filter fun part => !part.isEmpty).map markers).sum = (parts.map markers).sum := by
  induction parts with
  | nil => rfl
  | cons part parts ih => cases part <;> simp [ih]

theorem SentencePiece.markers_convert (sp : SentencePiece) (tokens : List Str) :
    markers (sp.convert tokens) = (tokens.map fun t => markers (surface sp.native t)).sum := by
  obtain ⟨l, r, hl, hr, hs⟩ := sp.convert_spec tokens
  have hl' : markers l = 0 := markers_of_blank hl
  have hr' : markers r = 0 := markers_of_blank hr
  rw [← markers_flatMap, hs, markers_append, markers_append]
  omega

/-- The markers that a token leaves in the text. -/
def SentencePiece.weight (sp : SentencePiece) (boundary_tokens : List Str) (token : Str) : ℕ :=
  markers (surface sp.native (if token ∈ boundary_tokens then token.removePrefix wordBoundaryMarker else token))

private theorem markers_convert_unmarkHead (sp : SentencePiece) {boundary_tokens run : List Str}
    (h : IsRun (fun t => t ∈ boundary_tokens || t.startsWith wordBoundaryMarker) run) :
    markers (sp.convert (unmarkHead boundary_tokens run)) = (run.map (sp.weight boundary_tokens)).sum := by
  obtain ⟨token, rest, rfl, hrest⟩ := h
  have htail : rest.map (sp.weight boundary_tokens) = rest.map fun t => markers (surface sp.native t) := by
    apply List.map_congr_left
    intro t ht
    have hstart := hrest t ht
    simp only [Bool.or_eq_false_iff, decide_eq_false_iff_not] at hstart
    rw [SentencePiece.weight, if_neg hstart.1]
  rw [List.map_cons, List.sum_cons, htail, sp.markers_convert, unmarkHead, SentencePiece.weight]
  split <;> rw [List.map_cons, List.sum_cons]

theorem Tokenizer.markers_convertTokensToString (t : Tokenizer) (sp : SentencePiece) (tokens : List Str) :
    markers (t.convertTokensToString sp tokens) = (tokens.map (sp.weight (t.boundaryTokens.getD []))).sum := by
  unfold convertTokensToString
  split
  · rename_i h
    have hweight : tokens.map (sp.weight (t.boundaryTokens.getD [])) =
        tokens.map fun t => markers (surface sp.native t) := by
      apply List.map_congr_left
      intro token _
      rw [h, Option.getD_none, SentencePiece.weight, if_neg List.not_mem_nil]
    rw [sp.markers_convert, hweight]
  · rename_i boundary_tokens h
    rw [h, Option.getD_some]
    obtain ⟨hflat, hruns⟩ :=
      cut_spec (fun t => t ∈ boundary_tokens || t.startsWith wordBoundaryMarker) tokens
    rw [convertWithWordBoundaries, markers_strip, markers_join (by decide), markers_filter, List.map_map]
    conv_rhs => rw [← hflat]
    rw [List.map_flatten, List.sum_flatten, List.map_map]
    apply congrArg List.sum
    apply List.map_congr_left
    intro run hrun
    exact markers_convert_unmarkHead sp (hruns run hrun)

theorem markers_surface_le (native : Str → Bool) (token : Str) :
    markers (surface native token) ≤ markers token := by
  unfold surface
  split
  · have hzero : markers (token.map fun c => if c = markerChar then ' ' else c) = 0 := by
      rw [markers, List.count_eq_zero, List.mem_map]
      rintro ⟨c, -, hc⟩
      split at hc
      · exact absurd hc (by decide)
      · contradiction
    rw [hzero]
    exact Nat.zero_le _
  · exact Nat.le_refl _

/-- Taking its marker off a token that is not native leaves one marker less. -/
theorem weight_lt_of_marked {sp : SentencePiece} {boundary_tokens boundary_tokens' : List Str} {token : Str}
    (hnative : sp.native token = false) (hmarked : token.startsWith wordBoundaryMarker = true)
    (hmem : token ∈ boundary_tokens) (hmem' : token ∉ boundary_tokens') :
    sp.weight boundary_tokens token < sp.weight boundary_tokens' token := by
  obtain ⟨rest, rfl⟩ : ∃ rest, token = markerChar :: rest := by
    obtain ⟨rest, hrest⟩ := List.isPrefixOf_iff_prefix.1 hmarked
    exact ⟨rest, hrest.symm⟩
  have hremove : Str.removePrefix (markerChar :: rest) wordBoundaryMarker = rest := by
    rw [Str.removePrefix, if_pos hmarked]
    rfl
  rw [SentencePiece.weight, SentencePiece.weight, if_pos hmem, if_neg hmem', hremove]
  have hle : markers (surface sp.native rest) ≤ markers rest := markers_surface_le sp.native rest
  have hsurface : surface sp.native (markerChar :: rest) = markerChar :: rest := by simp [surface, hnative]
  have hcount : markers (markerChar :: rest) = markers rest + 1 := List.count_cons_self ..
  rw [hsurface, hcount]
  omega

end KaqTranslator
