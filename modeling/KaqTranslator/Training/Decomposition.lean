import KaqTranslator.Library.Loops
import KaqTranslator.Library.Segmentation
import KaqTranslator.Training.WarmStart

/-!
# The greedy loop (`vocab_extension.py`)

The loop of `decompose_token_into_known_pieces` has a position in the token.  A round tries the candidates
that begin there, the longest first; it moves the position behind the one it finds, or returns `None`.

The pieces are cuts of the token up to the position (`PieceLoop.Cut`), and there is at most one round for each
character (`PieceLoop.exists_over`).  What the loop returns is the decomposition by recursion on the rest of
the token (`PieceLoop.run_eq`), so both are known by the cuts (`decomposeTokenIntoKnownPieces_eq_some_iff`,
`decomposeTokenIntoKnownPieces_eq_none_iff`).
-/

namespace KaqTranslator

open Segmentation

/-! ### The loop -/

/-- `token[position:end]`, for `end` in `range(length, position, -1)` -/
def candidates (token : Str) (position : ℕ) : List Str :=
  (List.range (token.length - position)).map fun k => (token.take (token.length - k)).drop position

/-- The state of the loop; it is stuck when it has returned `None`. -/
structure PieceLoop where
  pieces : List Str
  position : ℕ
  stuck : Bool

namespace PieceLoop

def start : PieceLoop := ⟨[], 0, false⟩

def step (known : Str → Bool) (token : Str) (loop : PieceLoop) : Option PieceLoop :=
  if loop.stuck then none
  else if loop.position < token.length then
    match (candidates token loop.position).find? known with
    | none => some { loop with stuck := true }
    | some piece =>
      some { loop with pieces := loop.pieces ++ [piece], position := loop.position + piece.length }
  else none

/-- `decompose_token_into_known_pieces`, if its loop is over after `fuel` rounds; `known` is `in vocab` -/
def run (known : Str → Bool) (token : Str) (fuel : ℕ) : Option (Option (List Str)) :=
  if token = [] then some none
  else
    (Loops.runWhile (step known token) fuel start).map fun loop =>
      if loop.stuck then none else some loop.pieces

end PieceLoop

/-! ### The longest candidate -/

section Candidates

variable {known : Str → Bool} {s piece : Str}

/-- The candidates at a position are the beginnings of what is left there. -/
theorem find?_candidates (known : Str → Bool) (token : Str) (position : ℕ) :
    (candidates token position).find? known = longestMatch known (token.drop position) := by
  have hcandidates : candidates token position =
      (List.range (token.drop position).length).reverse.map fun n => (token.drop position).take (n + 1) := by
    apply List.ext_getElem
    · simp [candidates]
    · intro k hk _
      have hlt : k < token.length - position := by simpa [candidates] using hk
      have hend : token.length - position - 1 - k + 1 = token.length - k - position := by omega
      simp [candidates, List.drop_take, hend]
  rw [hcandidates]
  rfl

/-- The shorter candidates come later. -/
private theorem pairwise_beginnings (s : Str) :
    ((List.range s.length).reverse.map fun n => s.take (n + 1)).Pairwise fun a b => b.length ≤ a.length := by
  rw [List.pairwise_map, List.pairwise_reverse]
  refine List.pairwise_lt_range.imp fun {m n} hlt => ?_
  rw [List.length_take, List.length_take]
  omega

theorem isLongest_of_longestMatch (h : longestMatch known s = some piece) :
    IsLongest (known · = true) s piece := by
  obtain ⟨hne, hbegins, hknown⟩ := longestMatch_eq_some h
  refine ⟨hne, hbegins, hknown, fun other hother hprefix => ?_⟩
  obtain ⟨-, before, after, hsplit, hbefore⟩ := List.find?_eq_some_iff_append.1 h
  have hpairs := pairwise_beginnings s
  rw [hsplit, List.pairwise_append, List.pairwise_cons] at hpairs
  by_cases hnil : other = []
  · rw [hnil]
    exact Nat.zero_le _
  · -- what is tried before the piece is not known
    have hmem := mem_beginnings.2 ⟨hnil, hprefix⟩
    rw [hsplit, List.mem_append, List.mem_cons] at hmem
    rcases hmem with hmem | rfl | hmem
    · have hunknown := hbefore other hmem
      rw [hother] at hunknown
      cases hunknown
    · exact le_rfl
    · exact hpairs.2.1.1 other hmem

theorem longestMatch_eq_none_iff :
    longestMatch known s = none ↔ ∀ piece, piece ≠ [] → piece <+: s → ¬ known piece = true := by
  unfold longestMatch
  rw [List.find?_eq_none]
  constructor
  · exact fun h piece hne hprefix => h piece (mem_beginnings.2 ⟨hne, hprefix⟩)
  · intro h piece hmem
    obtain ⟨hne, hprefix⟩ := mem_beginnings.1 hmem
    exact h piece hne hprefix

theorem longestMatch_of_isLongest (h : IsLongest (known · = true) s piece) :
    longestMatch known s = some piece := by
  cases hmatch : longestMatch known s with
  | none => exact absurd h.isKnown (longestMatch_eq_none_iff.1 hmatch piece h.ne_nil h.begins)
  | some piece' => rw [(isLongest_of_longestMatch hmatch).eq h]

end Candidates

/-! ### Decompositions and cuts -/

section Cuts

variable {known : Str → Bool} {s rest : Str} {pieces : List Str}

theorem decomposeFrom_of_cuts (h : Cuts (known · = true) s pieces rest) :
    decomposeFrom known s = (decomposeFrom known rest).map (pieces ++ ·) := by
  induction h with
  | nil s => exact Option.map_id'.symm
  | cons hpiece _ ih =>
    have hne := hpiece.begins.ne_nil hpiece.ne_nil
    rw [decomposeFrom_of_some hne (longestMatch_of_isLongest hpiece), ih, Option.map_map]
    rfl

theorem decomposeFrom_of_stuck (h : Cuts (known · = true) s pieces rest) (hrest : Stuck (known · = true) rest) :
    decomposeFrom known s = none := by
  have hnone : longestMatch known rest = none := longestMatch_eq_none_iff.2 hrest.unknown
  rw [decomposeFrom_of_cuts h, decomposeFrom_of_none hrest.ne_nil hnone, Option.map_none]

theorem decomposeFrom_of_cuts_nil (h : Cuts (known · = true) s pieces []) :
    decomposeFrom known s = some pieces := by
  rw [decomposeFrom_of_cuts h, decomposeFrom_nil, Option.map_some, List.append_nil]

end Cuts

/-! ### Rounds -/

namespace PieceLoop

section Rounds

variable {known : Str → Bool} {token : Str} {loop next : PieceLoop}

/-- A round finds the longest candidate and goes on behind it, or gets stuck. -/
theorem step_eq_some (h : loop.step known token = some next) :
    loop.stuck = false ∧ loop.position < token.length ∧
      (next = { loop with stuck := true } ∧ Stuck (known · = true) (token.drop loop.position) ∨
        ∃ piece, IsLongest (known · = true) (token.drop loop.position) piece ∧
          next = { loop with pieces := loop.pieces ++ [piece], position := loop.position + piece.length }) := by
  unfold step at h
  rw [find?_candidates] at h
  split at h
  · cases h
  rename_i hstuck
  split at h
  · rename_i hlt
    refine ⟨by simpa using hstuck, hlt, ?_⟩
    split at h
    · rename_i hnone
      refine Or.inl ⟨(Option.some.inj h).symm, ?_, longestMatch_eq_none_iff.1 hnone⟩
      rw [ne_eq, List.drop_eq_nil_iff]
      omega
    · rename_i piece hpiece
      exact Or.inr ⟨piece, isLongest_of_longestMatch hpiece, (Option.some.inj h).symm⟩
  · cases h

theorem step_eq_none (h : loop.step known token = none) :
    loop.stuck = true ∨ token.drop loop.position = [] := by
  unfold step at h
  split at h
  · rename_i hstuck
    exact Or.inl hstuck
  · split at h
    · split at h <;> cases h
    · rename_i hnlt
      exact Or.inr (List.drop_eq_nil_iff.2 (not_lt.1 hnlt))

/-- The pieces are cuts of the token up to the position. -/
structure Cut (known : Str → Bool) (token : Str) (loop : PieceLoop) : Prop where
  cuts : Cuts (known · = true) token loop.pieces (token.drop loop.position)
  stuck : loop.stuck = true → Stuck (known · = true) (token.drop loop.position)

theorem cut_start (known : Str → Bool) (token : Str) : Cut known token start :=
  ⟨.nil token, fun h => by cases h⟩

theorem cut_of_step (hcut : loop.Cut known token) (h : loop.step known token = some next) :
    next.Cut known token := by
  obtain ⟨hstuck, -, ⟨rfl, hrest⟩ | ⟨piece, hpiece, rfl⟩⟩ := step_eq_some h
  · exact ⟨hcut.cuts, fun _ => hrest⟩
  · constructor
    · have hcuts := hcut.cuts.concat hpiece
      rwa [List.drop_drop] at hcuts
    · intro h
      rw [hstuck] at h
      cases h

/-- The characters that are left, or none if the loop is stuck -/
def remaining (token : Str) (loop : PieceLoop) : ℕ := if loop.stuck then 0 else token.length - loop.position

theorem remaining_lt_of_step (h : loop.step known token = some next) :
    next.remaining token < loop.remaining token := by
  obtain ⟨hstuck, hlt, hnext⟩ := step_eq_some h
  have hloop : loop.remaining token = token.length - loop.position := by
    rw [remaining, hstuck]
    rfl
  rw [hloop]
  rcases hnext with ⟨rfl, -⟩ | ⟨piece, hpiece, rfl⟩
  · show 0 < token.length - loop.position
    omega
  · have hpos : 0 < piece.length := List.length_pos_iff.2 hpiece.ne_nil
    show (if loop.stuck then 0 else token.length - (loop.position + piece.length)) < _
    rw [hstuck, if_neg Bool.false_ne_true]
    omega

/-- The loop is over after one round for each character at most. -/
theorem exists_over (known : Str → Bool) {fuel : ℕ} (hfuel : token.length < fuel) :
    ∃ loop, Loops.runWhile (step known token) fuel start = some loop ∧ loop.Cut known token ∧
      (loop.stuck = true ∨ token.drop loop.position = []) := by
  have hround : ∀ loop next, Cut known token loop → loop.step known token = some next →
      Cut known token next ∧ next.remaining token < loop.remaining token :=
    fun loop next hcut h => ⟨cut_of_step hcut h, remaining_lt_of_step h⟩
  obtain ⟨loop, hrun, hcut⟩ := Loops.exists_runWhile hround (cut_start known token) hfuel
  exact ⟨loop, hrun, hcut, step_eq_none (Loops.reaches_of_runWhile hrun).2⟩

end Rounds

/-- The loop returns the decomposition by recursion. -/
theorem run_eq (known : Str → Bool) (token : Str) {fuel : ℕ} (hfuel : token.length < fuel) :
    run known token fuel = some (decomposeTokenIntoKnownPieces token known) := by
  unfold run decomposeTokenIntoKnownPieces
  split
  · rfl
  · obtain ⟨loop, hrun, hcut, hover⟩ := exists_over known hfuel
    rw [hrun, Option.map_some]
    cases hstuck : loop.stuck with
    | true =>
      rw [decomposeFrom_of_stuck hcut.cuts (hcut.stuck hstuck)]
      rfl
    | false =>
      have hcuts := hcut.cuts
      rw [hover.resolve_left (by simp [hstuck])] at hcuts
      rw [decomposeFrom_of_cuts_nil hcuts]
      rfl

end PieceLoop

/-! ### What is returned -/

section Returned

variable {known : Str → Bool} {token : Str} {pieces : List Str}

/-- The cuts end with the token, or they get stuck. -/
theorem exists_cuts (known : Str → Bool) (token : Str) :
    ∃ pieces rest, Cuts (known · = true) token pieces rest ∧ (rest = [] ∨ Stuck (known · = true) rest) := by
  obtain ⟨loop, -, hcut, hover⟩ := PieceLoop.exists_over known (Nat.lt_succ_self token.length)
  refine ⟨_, _, hcut.cuts, ?_⟩
  rcases hover with hstuck | hnil
  · exact Or.inr (hcut.stuck hstuck)
  · exact Or.inl hnil

theorem decomposeTokenIntoKnownPieces_eq_some_iff :
    decomposeTokenIntoKnownPieces token known = some pieces ↔
      token ≠ [] ∧ Cuts (known · = true) token pieces [] := by
  constructor
  · intro h
    unfold decomposeTokenIntoKnownPieces at h
    split at h
    · cases h
    · rename_i hne
      refine ⟨hne, ?_⟩
      obtain ⟨pieces', rest, hcuts, rfl | hstuck⟩ := exists_cuts known token
      · rw [decomposeFrom_of_cuts_nil hcuts] at h
        obtain rfl := Option.some.inj h
        exact hcuts
      · rw [decomposeFrom_of_stuck hcuts hstuck] at h
        cases h
  · rintro ⟨hne, hcuts⟩
    rw [decomposeTokenIntoKnownPieces, if_neg hne, decomposeFrom_of_cuts_nil hcuts]

theorem decomposeTokenIntoKnownPieces_eq_none_iff :
    decomposeTokenIntoKnownPieces token known = none ↔
      token = [] ∨ ∃ pieces rest, Cuts (known · = true) token pieces rest ∧ Stuck (known · = true) rest := by
  by_cases hne : token = []
  · rw [decomposeTokenIntoKnownPieces, if_pos hne]
    exact iff_of_true rfl (Or.inl hne)
  · rw [decomposeTokenIntoKnownPieces, if_neg hne, or_iff_right hne]
    constructor
    · intro h
      obtain ⟨pieces, rest, hcuts, rfl | hstuck⟩ := exists_cuts known token
      · rw [decomposeFrom_of_cuts_nil hcuts] at h
        cases h
      · exact ⟨pieces, rest, hcuts, hstuck⟩
    · rintro ⟨pieces, rest, hcuts, hstuck⟩
      exact decomposeFrom_of_stuck hcuts hstuck

-- the cuts get stuck at the last character, although `a` and `bc` make up the token
example : PieceLoop.run (fun piece => piece ∈ ["a", "ab", "bc"].map String.toList) "abc".toList 4 =
    some none := by
  decide +kernel

end Returned

/-- Greedy decomposition, for any vocabulary.  The loop is over after one round for each character at most.
The pieces that it returns are not empty, they are in the vocabulary and make up the token, and each is the
longest entry that begins at its position; and if it returns `None` for a token that is not empty, a character
of the token is not an entry. -/
theorem greedy_decomposition (known : Str → Bool) (token : Str) {fuel : ℕ} (hfuel : token.length < fuel) :
    ∃ result, PieceLoop.run known token fuel = some result ∧
      (∀ pieces, result = some pieces →
        pieces ≠ [] ∧ (∀ piece ∈ pieces, piece ≠ [] ∧ known piece = true) ∧ pieces.flatten = token ∧
          ∀ before piece after, pieces = before ++ piece :: after →
            IsLongest (known · = true) (token.drop before.flatten.length) piece) ∧
      (result = none → token ≠ [] → ∃ c ∈ token, known [c] = false) := by
  refine ⟨_, PieceLoop.run_eq known token hfuel, fun pieces h => ?_, fun h hne => ?_⟩
  · obtain ⟨hne, hcuts⟩ := decomposeTokenIntoKnownPieces_eq_some_iff.1 h
    have hflatten : pieces.flatten = token := by
      rw [← List.append_nil pieces.flatten]
      exact hcuts.flatten_append
    refine ⟨?_, fun piece hpiece => hcuts.mem hpiece, hflatten, ?_⟩
    · rintro rfl
      exact hne hflatten.symm
    · rintro before piece after rfl
      exact hcuts.isLongest
  · obtain ⟨pieces, rest, hcuts, hstuck⟩ := (decomposeTokenIntoKnownPieces_eq_none_iff.1 h).resolve_left hne
    obtain ⟨c, hc, hunknown⟩ := hstuck.exists_letter
    exact ⟨c, hcuts.subset hc, Bool.eq_false_iff.2 hunknown⟩

/-- The entries of a vocabulary, the empty string among them -/
private def entriesOfAbc (piece : Str) : Bool := piece ∈ ["", "a", "b", "ab", "c"].map String.toList

/-- The longer match is preferred. -/
theorem greedy_decomposition_abc :
    PieceLoop.run entriesOfAbc "abc".toList 4 = some (some ["ab".toList, "c".toList]) ∧
      IsLongest (entriesOfAbc · = true) "abc".toList "ab".toList := by
  have hrun : PieceLoop.run entriesOfAbc "abc".toList 4 = some (some ["ab".toList, "c".toList]) := by
    decide +kernel
  have hfuel : "abc".toList.length < 4 := by decide +kernel
  obtain ⟨result, hresult, hpieces, -⟩ := greedy_decomposition entriesOfAbc "abc".toList hfuel
  obtain rfl : some ["ab".toList, "c".toList] = result := Option.some.inj (hrun.symm.trans hresult)
  exact ⟨hrun, (hpieces _ rfl).2.2.2 [] _ _ rfl⟩

end KaqTranslator
