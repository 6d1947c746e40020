import Mathlib.Algebra.CharZero.Defs
import Mathlib.Algebra.Field.Defs
import Mathlib.Algebra.BigOperators.Group.List.Basic
import Mathlib.Data.List.GetD
import Mathlib.Data.List.Sort
import KaqTranslator.Training.Vocabulary

/-!
# Warm-started embedding rows (`vocab_extension.py`)

The embedding matrix is the list of its rows, over a field in place of floating-point numbers.  The noise that
`rng.normal` draws, scaled by the deviation of each dimension, is a parameter (`Noise`).

Every piece of a greedy decomposition is known, and the pieces make up the token (`decomposeFrom_spec`).  In a
matrix whose rows are all equal every center is that row (`compositionalCenters_of_forall_eq`).
-/

namespace KaqTranslator

variable {K : Type*} [Field K] {d : ℕ}

abbrev Row (K : Type*) (d : ℕ) := Fin d → K

/-- `mean(axis=0)` -/
def meanRow (rows : List (Row K d)) : Row K d := fun j => (rows.map fun row => row j).sum / rows.length

/-- What `rng.normal(…) * std_row` can be: anything, but zero in a dimension in which all rows agree. -/
structure Noise (embeddings : List (Row K d)) where
  row : ℕ → Row K d  -- by the position of the new token
  constant : ∀ i j, (∀ a ∈ embeddings, ∀ b ∈ embeddings, a j = b j) → row i j = 0

def Noise.zero (embeddings : List (Row K d)) : Noise embeddings := ⟨fun _ => 0, fun _ _ _ => rfl⟩

/-- `EMBEDDING_INIT_STRATEGIES` -/
inductive EmbeddingInit where
  | mean
  | compositional
  deriving DecidableEq

def resizeEmbeddingMatrix (embeddings : List (Row K d)) (num_new_tokens : ℕ) (noise : Noise embeddings) :
    List (Row K d) :=
  embeddings ++ (List.range num_new_tokens).map fun i => meanRow embeddings + noise.row i

/-! ### Greedy decomposition -/

def longestMatch (known : Str → Bool) (s : Str) : Option Str :=
  ((List.range s.length).reverse.map fun n => s.take (n + 1)).find? known

/-- The matcher tries what the text begins with. -/
theorem mem_beginnings {s piece : Str} :
    piece ∈ (List.range s.length).reverse.map (fun n => s.take (n + 1)) ↔ piece ≠ [] ∧ piece <+: s := by
  simp only [List.mem_map, List.mem_reverse, List.mem_range]
  constructor
  · rintro ⟨n, hn, rfl⟩
    refine ⟨fun hnil => ?_, List.take_prefix ..⟩
    have hlen := congrArg List.length hnil
    rw [List.length_take, List.length_nil] at hlen
    omega
  · rintro ⟨hne, hprefix⟩
    have hpos : 0 < piece.length := List.length_pos_iff.2 hne
    have hle : piece.length ≤ s.length := hprefix.length_le
    refine ⟨piece.length - 1, by omega, ?_⟩
    rw [Nat.sub_add_cancel hpos]
    exact (List.prefix_iff_eq_take.1 hprefix).symm

theorem longestMatch_eq_some {known : Str → Bool} {s piece : Str} (h : longestMatch known s = some piece) :
    piece ≠ [] ∧ piece <+: s ∧ known piece = true := by
  obtain ⟨hne, hprefix⟩ := mem_beginnings.1 (List.mem_of_find?_eq_some h)
  exact ⟨hne, hprefix, List.find?_some h⟩

/-- The loop of `decompose_token_into_known_pieces`, at what is left of the token. -/
def decomposeFrom (known : Str → Bool) (s : Str) : Option (List Str) :=
  if s = [] then some []
  else
    match _h : longestMatch known s with
    | none => none
    | some piece => (decomposeFrom known (s.drop piece.length)).map (piece :: ·)
termination_by s.length
decreasing_by
  obtain ⟨hne, hpre, -⟩ := longestMatch_eq_some _h
  have hpos := List.length_pos_iff.2 hne
  have hle := hpre.length_le
  rw [List.length_drop]
  omega

def decomposeTokenIntoKnownPieces (token : Str) (known : Str → Bool) : Option (List Str) :=
  if token = [] then none else decomposeFrom known token

/-- `sorted(range(len(tokens)), key=lambda i: (len(tokens[i]), i))`, with the tokens -/
def processingOrder (tokens : List Str) : List (Str × ℕ) :=
  tokens.zipIdx.insertionSort fun a b => a.1.length < b.1.length ∨ a.1.length = b.1.length ∧ a.2 ≤ b.2

/-- The loop body of `count_decomposable_tokens`. -/
def countStep (state : (Str → Bool) × ℕ) (entry : Str × ℕ) : (Str → Bool) × ℕ :=
  (Function.update state.1 entry.1 true,
    if (decomposeTokenIntoKnownPieces entry.1 state.1).isSome then state.2 + 1 else state.2)

def countDecomposableTokens (tokens : List Str) (vocab : Vocab) : ℕ :=
  ((processingOrder tokens).foldl countStep (fun token => (vocab token).isSome, 0)).2

/-! ### Compositional initialisation -/

/-- The state of the loop of `resize_embedding_matrix_compositional`. -/
structure Centers (K : Type*) (d : ℕ) where
  /-- the keys of `available_pieces`, with the identifiers of those of the base vocabulary -/
  availablePieces : Str → Option (Option ℕ)
  resolvedCenters : Str → Option (Row K d)
  centers : ℕ → Row K d  -- `centers`, by the position of the token

/-- The row of a piece: the center of a token of the batch, or a row of the matrix. -/
def Centers.pieceRow (st : Centers K d) (embeddings : List (Row K d)) (piece : Str) : Row K d :=
  match st.resolvedCenters piece, st.availablePieces piece with
  | some center, _ => center
  | none, some (some id) => embeddings.getD id 0
  | none, _ => 0

def Centers.resolve (embeddings : List (Row K d)) (st : Centers K d) (entry : Str × ℕ) : Centers K d :=
  let center :=
    match decomposeTokenIntoKnownPieces entry.1 fun piece => (st.availablePieces piece).isSome with
    | none => meanRow embeddings
    | some pieces => meanRow (pieces.map (st.pieceRow embeddings))
  let centers := Function.update st.centers entry.2 center
  if (st.availablePieces entry.1).isSome then { st with centers }
  else
    { availablePieces := Function.update st.availablePieces entry.1 (some none)
      resolvedCenters := Function.update st.resolvedCenters entry.1 (some center)
      centers }

def compositionalCenters (embeddings : List (Row K d)) (new_tokens : List Str) (base_vocab : Vocab) :
    ℕ → Row K d :=
  ((processingOrder new_tokens).foldl (Centers.resolve embeddings)
    ⟨fun piece => (base_vocab piece).map some, fun _ => none, fun _ => 0⟩).centers

def resizeEmbeddingMatrixCompositional (embeddings : List (Row K d)) (new_tokens : List Str)
    (base_vocab : Vocab) (noise : Noise embeddings) : List (Row K d) :=
  embeddings ++ (List.range new_tokens.length).map fun i =>
    compositionalCenters embeddings new_tokens base_vocab i + noise.row i

/-! ### Decompositions -/

section Equations

variable {known : Str → Bool} {s piece : Str}

theorem decomposeFrom_nil (known : Str → Bool) : decomposeFrom known [] = some [] := by
  rw [decomposeFrom, if_pos rfl]

theorem decomposeFrom_of_none (hne : s ≠ []) (h : longestMatch known s = none) :
    decomposeFrom known s = none := by
  rw [decomposeFrom, if_neg hne]
  split
  · rfl
  · rename_i piece hpiece
    rw [h] at hpiece
    cases hpiece

theorem decomposeFrom_of_some (hne : s ≠ []) (h : longestMatch known s = some piece) :
    decomposeFrom known s = (decomposeFrom known (s.drop piece.length)).map (piece :: ·) := by
  rw [decomposeFrom, if_neg hne]
  split
  · rename_i hnone
    rw [h] at hnone
    cases hnone
  · rename_i piece' hpiece'
    obtain rfl : piece = piece' := Option.some.inj (h.symm.trans hpiece')
    rfl

end Equations

theorem decomposeFrom_spec {known : Str → Bool} {s : Str} {pieces : List Str}
    (h : decomposeFrom known s = some pieces) : pieces.flatten = s ∧ ∀ piece ∈ pieces, known piece = true := by
  induction s using decomposeFrom.induct known generalizing pieces with
  | case1 =>
    rw [decomposeFrom_nil] at h
    obtain rfl := Option.some.inj h
    exact ⟨rfl, fun _ hmem => (List.not_mem_nil hmem).elim⟩
  | case2 s hne hnone =>
    rw [decomposeFrom_of_none hne hnone] at h
    cases h
  | case3 s hne piece hpiece ih =>
    obtain ⟨-, hprefix, hknown⟩ := longestMatch_eq_some hpiece
    rw [decomposeFrom_of_some hne hpiece] at h
    obtain ⟨rest, hrest, rfl⟩ := Option.map_eq_some_iff.1 h
    obtain ⟨hflat, hall⟩ := ih hrest
    constructor
    · rw [List.flatten_cons, hflat]
      exact List.prefix_iff_eq_append.1 hprefix
    · intro piece' hmem
      rcases List.mem_cons.1 hmem with rfl | hmem
      · exact hknown
      · exact hall piece' hmem

theorem decomposeTokenIntoKnownPieces_spec {known : Str → Bool} {token : Str} {pieces : List Str}
    (h : decomposeTokenIntoKnownPieces token known = some pieces) :
    pieces ≠ [] ∧ pieces.flatten = token ∧ ∀ piece ∈ pieces, known piece = true := by
  unfold decomposeTokenIntoKnownPieces at h
  split at h
  · cases h
  · rename_i hne
    obtain ⟨hflat, hall⟩ := decomposeFrom_spec h
    refine ⟨?_, hflat, hall⟩
    rintro rfl
    exact hne hflat.symm

theorem mem_processingOrder {tokens : List Str} {i : ℕ} (hi : i < tokens.length) :
    (tokens[i], i) ∈ processingOrder tokens := by
  rw [processingOrder, List.mem_insertionSort, List.mk_mem_zipIdx_iff_getElem?]
  exact List.getElem?_eq_getElem hi

/-! ### A matrix of equal rows -/

section Uniform

variable {embeddings : List (Row K d)} {c : Row K d}

theorem meanRow_of_forall_eq [CharZero K] (hne : embeddings ≠ []) (h : ∀ row ∈ embeddings, row = c) :
    meanRow embeddings = c := by
  funext j
  have hrows : (embeddings.map fun row => row j) = List.replicate embeddings.length (c j) := by
    rw [List.eq_replicate_iff]
    refine ⟨List.length_map _, fun x hx => ?_⟩
    obtain ⟨row, hrow, rfl⟩ := List.mem_map.1 hx
    rw [h row hrow]
  have hlength : (embeddings.length : K) ≠ 0 :=
    Nat.cast_ne_zero.2 (List.length_pos_iff.2 hne).ne'
  rw [meanRow, hrows, List.sum_replicate, nsmul_eq_mul, mul_div_cancel_left₀ _ hlength]

/-- Every piece that is available has the row `c`. -/
structure Centers.Uniform (st : Centers K d) (embeddings : List (Row K d)) (c : Row K d) : Prop where
  native : ∀ piece id, st.availablePieces piece = some (some id) → id < embeddings.length
  sibling : ∀ piece, st.availablePieces piece = some none → st.resolvedCenters piece ≠ none
  resolved : ∀ piece center, st.resolvedCenters piece = some center → center = c

private theorem Centers.Uniform.pieceRow {st : Centers K d} (hst : st.Uniform embeddings c)
    (h : ∀ row ∈ embeddings, row = c) {piece : Str} (hpiece : (st.availablePieces piece).isSome = true) :
    st.pieceRow embeddings piece = c := by
  unfold Centers.pieceRow
  cases hresolved : st.resolvedCenters piece with
  | some center => exact hst.resolved piece center hresolved
  | none =>
    obtain ⟨id?, hid⟩ := Option.isSome_iff_exists.1 hpiece
    cases id? with
    | none => exact absurd hresolved (hst.sibling piece hid)
    | some id =>
      have hlt : id < embeddings.length := hst.native piece id hid
      rw [hid]
      show embeddings.getD id 0 = c
      rw [List.getD_eq_getElem _ _ hlt]
      exact h _ (List.getElem_mem hlt)

private theorem Centers.Uniform.resolve [CharZero K] {st : Centers K d} (hst : st.Uniform embeddings c)
    (hne : embeddings ≠ []) (h : ∀ row ∈ embeddings, row = c) (entry : Str × ℕ) :
    (st.resolve embeddings entry).Uniform embeddings c ∧
      (st.resolve embeddings entry).centers = Function.update st.centers entry.2 c := by
  have hcenter : (match decomposeTokenIntoKnownPieces entry.1 fun piece =>
        (st.availablePieces piece).isSome with
      | none => meanRow embeddings
      | some pieces => meanRow (pieces.map (st.pieceRow embeddings))) = c := by
    split
    · exact meanRow_of_forall_eq hne h
    · rename_i pieces hpieces
      obtain ⟨hnil, -, hknown⟩ := decomposeTokenIntoKnownPieces_spec hpieces
      refine meanRow_of_forall_eq (by simpa using hnil) fun row hrow => ?_
      obtain ⟨piece, hpiece, rfl⟩ := List.mem_map.1 hrow
      exact hst.pieceRow h (hknown piece hpiece)
  unfold Centers.resolve
  simp only [hcenter]
  split
  · exact ⟨⟨hst.native, hst.sibling, hst.resolved⟩, rfl⟩
  · refine ⟨⟨?_, ?_, ?_⟩, rfl⟩
    · intro piece id hid
      dsimp only at hid
      by_cases hpiece : piece = entry.1
      · subst hpiece
        simp at hid
      · rw [Function.update_of_ne hpiece] at hid
        exact hst.native piece id hid
    · intro piece hid
      dsimp only at hid ⊢
      by_cases hpiece : piece = entry.1
      · subst hpiece
        simp
      · rw [Function.update_of_ne hpiece] at hid
        rw [Function.update_of_ne hpiece]
        exact hst.sibling piece hid
    · intro piece center hresolved
      dsimp only at hresolved
      by_cases hpiece : piece = entry.1
      · subst hpiece
        rw [Function.update_self] at hresolved
        exact (Option.some.inj hresolved).symm
      · rw [Function.update_of_ne hpiece] at hresolved
        exact hst.resolved piece center hresolved

private theorem Centers.Uniform.foldl [CharZero K] {st : Centers K d} (hst : st.Uniform embeddings c)
    (hne : embeddings ≠ []) (h : ∀ row ∈ embeddings, row = c) (entries : List (Str × ℕ)) {i : ℕ}
    (hi : st.centers i = c ∨ ∃ token, (token, i) ∈ entries) :
    (entries.foldl (Centers.resolve embeddings) st).centers i = c := by
  induction entries generalizing st with
  | nil =>
    rcases hi with hi | ⟨token, hmem⟩
    · exact hi
    · cases hmem
  | cons entry entries ih =>
    obtain ⟨hst', hcenters⟩ := hst.resolve hne h entry
    refine ih hst' ?_
    rw [hcenters]
    by_cases hpos : i = entry.2
    · left
      rw [hpos, Function.update_self]
    · rw [Function.update_of_ne hpos]
      rcases hi with hi | ⟨token, hmem⟩
      · exact Or.inl hi
      · rcases List.mem_cons.1 hmem with rfl | hmem
        · exact absurd rfl hpos
        · exact Or.inr ⟨token, hmem⟩

/-- In a matrix of equal rows every center of the compositional strategy is that row. -/
theorem compositionalCenters_of_forall_eq [CharZero K] (hne : embeddings ≠ [])
    (h : ∀ row ∈ embeddings, row = c) {new_tokens : List Str} {base_vocab : Vocab}
    (hvocab : ∀ piece id, base_vocab piece = some id → id < embeddings.length) {i : ℕ}
    (hi : i < new_tokens.length) : compositionalCenters embeddings new_tokens base_vocab i = c := by
  refine Centers.Uniform.foldl ⟨?_, ?_, ?_⟩ hne h _ (Or.inr ⟨_, mem_processingOrder hi⟩)
  · intro piece id hid
    obtain ⟨id', hid', hsome⟩ := Option.map_eq_some_iff.1 hid
    obtain rfl := Option.some.inj hsome
    exact hvocab piece id' hid'
  · intro piece hid
    obtain ⟨id, -, hnone⟩ := Option.map_eq_some_iff.1 hid
    cases hnone
  · intro piece center hresolved
    cases hresolved

end Uniform

end KaqTranslator
