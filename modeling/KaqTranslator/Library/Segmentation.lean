import Mathlib.Data.List.Basic
import Mathlib.Data.List.Infix

/-!
# Maximum matching

A text is cut from the left, always by the longest known piece that begins where the last one has ended
(`Cuts`).  The pieces and what is left make up the text (`Cuts.flatten_append`), and each piece is the longest
at its position (`Cuts.isLongest`).  The cuts can get stuck where other cuts of the text would have gone on;
but then some letter is not a piece by itself (`Stuck.exists_letter`).
-/

namespace Segmentation

variable {α : Type*} {known : List α → Prop} {s t rest piece piece' : List α} {pieces pieces' : List (List α)}

/-! ### The longest piece -/

/-- The longest known piece with which `s` begins; the empty piece does not count. -/
structure IsLongest (known : List α → Prop) (s piece : List α) : Prop where
  ne_nil : piece ≠ []
  begins : piece <+: s
  isKnown : known piece
  longest : ∀ other, known other → other <+: s → other.length ≤ piece.length

theorem IsLongest.eq (h : IsLongest known s piece) (h' : IsLongest known s piece') : piece = piece' := by
  have hle : piece.length ≤ piece'.length := h'.longest piece h.isKnown h.begins
  have hge : piece'.length ≤ piece.length := h.longest piece' h'.isKnown h'.begins
  exact (List.prefix_of_prefix_length_le h.begins h'.begins hle).eq_of_length (le_antisymm hle hge)

/-- No known piece begins at the text, although it is not over. -/
structure Stuck (known : List α → Prop) (s : List α) : Prop where
  ne_nil : s ≠ []
  unknown : ∀ piece, piece ≠ [] → piece <+: s → ¬ known piece

theorem Stuck.exists_letter (h : Stuck known s) : ∃ c ∈ s, ¬ known [c] := by
  obtain ⟨c, s, rfl⟩ := List.exists_cons_of_ne_nil h.ne_nil
  have hbegins : [c] <+: c :: s := ⟨s, rfl⟩
  exact ⟨c, List.mem_cons_self, h.unknown [c] (List.cons_ne_nil _ _) hbegins⟩

/-! ### Cuts -/

/-- `s` is cut into `pieces`, and `rest` is left. -/
inductive Cuts (known : List α → Prop) : List α → List (List α) → List α → Prop
  | nil (s : List α) : Cuts known s [] s
  | cons {s piece rest : List α} {pieces : List (List α)} (hpiece : IsLongest known s piece)
      (htail : Cuts known (s.drop piece.length) pieces rest) : Cuts known s (piece :: pieces) rest

theorem Cuts.append (h : Cuts known s pieces t) (h' : Cuts known t pieces' rest) :
    Cuts known s (pieces ++ pieces') rest := by
  induction h with
  | nil s => exact h'
  | cons hpiece _ ih => exact .cons hpiece (ih h')

theorem Cuts.concat (h : Cuts known s pieces rest) (hpiece : IsLongest known rest piece) :
    Cuts known s (pieces ++ [piece]) (rest.drop piece.length) :=
  h.append (.cons hpiece (.nil _))

theorem Cuts.flatten_append (h : Cuts known s pieces rest) : pieces.flatten ++ rest = s := by
  induction h with
  | nil s => rfl
  | cons hpiece _ ih =>
    rw [List.flatten_cons, List.append_assoc, ih]
    exact List.prefix_iff_eq_append.1 hpiece.begins

/-- Each piece is the longest at its position. -/
theorem Cuts.isLongest {before after : List (List α)} (h : Cuts known s (before ++ piece :: after) rest) :
    IsLongest known (s.drop before.flatten.length) piece := by
  induction before generalizing s with
  | nil =>
    cases h with
    | cons hpiece _ => exact hpiece
  | cons first before ih =>
    cases h with
    | cons _ htail =>
      have hlongest := ih htail
      rwa [List.drop_drop, ← List.length_append, ← List.flatten_cons] at hlongest

theorem Cuts.mem (h : Cuts known s pieces rest) (hmem : piece ∈ pieces) : piece ≠ [] ∧ known piece := by
  obtain ⟨before, after, rfl⟩ := List.append_of_mem hmem
  exact ⟨h.isLongest.ne_nil, h.isLongest.isKnown⟩

theorem Cuts.subset (h : Cuts known s pieces rest) : rest ⊆ s :=
  fun _ hc => h.flatten_append ▸ List.mem_append_right _ hc

end Segmentation
