import Mathlib.Algebra.Field.Basic
import Mathlib.Data.List.Find
import KaqTranslator.Library.Loops
import KaqTranslator.Training.Decomposition

/-!
# What the compositional strategy computes (`vocab_extension.py`)

The loop of `resize_embedding_matrix_compositional` resolves the new tokens shortest first, against a pool of
pieces that grows.  What it computes for a token is defined by recursion on the token (`recursiveCenter`),
from the base vocabulary and the strictly shorter new tokens.

The greedy matcher only looks at the infixes of its token, so that the pool counts on them alone; at a token
that is new, the pool on its infixes is the base vocabulary and the shorter new tokens (`pool_eq_knownBelow`).
-/

namespace KaqTranslator

open Segmentation

variable {K : Type*} [Field K] {d : ℕ}

/-! ### The greedy matcher -/

section Greedy

variable {known known' : Str → Bool} {s token : Str}

private theorem longestMatch_congr (h : ∀ piece, piece ≠ [] → piece <:+: s → known piece = known' piece) :
    longestMatch known s = longestMatch known' s := by
  unfold longestMatch
  apply List.find?_congr
  intro piece hpiece
  obtain ⟨hne, hprefix⟩ := mem_beginnings.1 hpiece
  exact h piece hne hprefix.isInfix

/-- The matcher reads the pool on the infixes of its token. -/
private theorem decomposeFrom_congr (h : ∀ piece, piece ≠ [] → piece <:+: s → known piece = known' piece) :
    decomposeFrom known s = decomposeFrom known' s := by
  induction s using decomposeFrom.induct known with
  | case1 => rw [decomposeFrom_nil, decomposeFrom_nil]
  | case2 s hne hnone =>
    have hnone' : longestMatch known' s = none := (longestMatch_congr h).symm.trans hnone
    rw [decomposeFrom_of_none hne hnone, decomposeFrom_of_none hne hnone']
  | case3 s hne piece hpiece ih =>
    have hpiece' : longestMatch known' s = some piece := (longestMatch_congr h).symm.trans hpiece
    have hrest : decomposeFrom known (s.drop piece.length) = decomposeFrom known' (s.drop piece.length) :=
      ih fun q hq hsub => h q hq (hsub.trans (List.drop_suffix ..).isInfix)
    rw [decomposeFrom_of_some hne hpiece, decomposeFrom_of_some hne hpiece', hrest]

theorem decomposeTokenIntoKnownPieces_congr
    (h : ∀ piece, piece ≠ [] → piece <:+: token → known piece = known' piece) :
    decomposeTokenIntoKnownPieces token known = decomposeTokenIntoKnownPieces token known' := by
  unfold decomposeTokenIntoKnownPieces
  rw [decomposeFrom_congr h]

/-- A token whose characters are all known is never stuck, whatever the matches. -/
theorem decomposeFrom_isSome (h : ∀ c ∈ s, known [c] = true) : (decomposeFrom known s).isSome := by
  obtain ⟨pieces, rest, hcuts, rfl | hstuck⟩ := exists_cuts known s
  · rw [decomposeFrom_of_cuts_nil hcuts]
    rfl
  · obtain ⟨c, hc, hunknown⟩ := hstuck.exists_letter
    exact absurd (h c (hcuts.subset hc)) hunknown

/-- A known token is its own piece: no entry that begins it is longer. -/
theorem decomposeTokenIntoKnownPieces_self (hne : token ≠ []) (h : known token = true) :
    decomposeTokenIntoKnownPieces token known = some [token] := by
  have hlongest : IsLongest (known · = true) token token :=
    ⟨hne, List.prefix_rfl, h, fun _ _ hprefix => hprefix.length_le⟩
  have hcuts : Cuts (known · = true) token [token] (token.drop token.length) := .cons hlongest (.nil _)
  rw [List.drop_length] at hcuts
  exact decomposeTokenIntoKnownPieces_eq_some_iff.2 ⟨hne, hcuts⟩

/-- A character that is not known has no decomposition. -/
theorem decomposeTokenIntoKnownPieces_singleton {c : Char} (h : known [c] = false) :
    decomposeTokenIntoKnownPieces [c] known = none := by
  have hmatch : longestMatch known [c] = none := by
    show List.find? known [[c]] = none
    rw [List.find?_cons, h, List.find?_nil]
  rw [decomposeTokenIntoKnownPieces, if_neg (List.cons_ne_nil _ _),
    decomposeFrom_of_none (List.cons_ne_nil _ _) hmatch]

end Greedy

/-! ### The processing order -/

section Order

variable {tokens : List Str} {token : Str} {i : ℕ}

/-- `key=lambda i: (len(tokens[i]), i)`, compared -/
private abbrev shorterFirst (a b : Str × ℕ) : Prop :=
  a.1.length < b.1.length ∨ a.1.length = b.1.length ∧ a.2 ≤ b.2

private instance : Std.Total shorterFirst := ⟨fun a b => by unfold shorterFirst; omega⟩

private instance : IsTrans (Str × ℕ) shorterFirst := ⟨fun a b c hab hbc => by unfold shorterFirst at *; omega⟩

theorem perm_processingOrder (tokens : List Str) : (processingOrder tokens).Perm tokens.zipIdx :=
  List.perm_insertionSort _ _

theorem mem_processingOrder_iff : (token, i) ∈ processingOrder tokens ↔ tokens[i]? = some token := by
  rw [(perm_processingOrder tokens).mem_iff, List.mk_mem_zipIdx_iff_getElem?]

theorem perm_map_fst_processingOrder (tokens : List Str) :
    ((processingOrder tokens).map Prod.fst).Perm tokens := by
  have hperm := (perm_processingOrder tokens).map Prod.fst
  rwa [List.zipIdx_map_fst] at hperm

theorem nodup_map_snd_processingOrder (tokens : List Str) : ((processingOrder tokens).map Prod.snd).Nodup := by
  rw [((perm_processingOrder tokens).map Prod.snd).nodup_iff, List.zipIdx_map_snd]
  exact List.nodup_range'

private theorem pairwise_processingOrder (tokens : List Str) : (processingOrder tokens).Pairwise shorterFirst :=
  List.pairwise_insertionSort shorterFirst _

variable {before after : List (Str × ℕ)}

/-- What comes before an entry is a token that is shorter, or as long and at an earlier position. -/
theorem shorter_of_before (h : processingOrder tokens = before ++ (token, i) :: after) {entry : Str × ℕ}
    (hentry : entry ∈ before) :
    entry.1.length < token.length ∨ entry.1.length = token.length ∧ entry.2 < i := by
  have hpairwise := pairwise_processingOrder tokens
  have hnodup := nodup_map_snd_processingOrder tokens
  rw [h, List.pairwise_append] at hpairwise
  rw [h, List.map_append, List.map_cons, List.nodup_append'] at hnodup
  have hle : shorterFirst entry (token, i) := hpairwise.2.2 entry hentry _ List.mem_cons_self
  have hne : entry.2 ≠ i := fun heq =>
    hnodup.2.2 (List.mem_map_of_mem hentry) (heq ▸ List.mem_cons_self)
  unfold shorterFirst at hle
  dsimp only at hle
  omega

/-- All the shorter tokens come before an entry. -/
theorem mem_before_of_shorter (h : processingOrder tokens = before ++ (token, i) :: after) {piece : Str}
    (hmem : piece ∈ tokens) (hlt : piece.length < token.length) : piece ∈ before.map Prod.fst := by
  have horder : piece ∈ (processingOrder tokens).map Prod.fst :=
    (perm_map_fst_processingOrder tokens).mem_iff.2 hmem
  rw [h, List.map_append, List.map_cons, List.mem_append, List.mem_cons] at horder
  rcases horder with hbefore | rfl | hafter
  · exact hbefore
  · exact absurd hlt (Nat.lt_irrefl _)
  · obtain ⟨entry, hentry, rfl⟩ := List.mem_map.1 hafter
    have hpairwise := pairwise_processingOrder tokens
    rw [h, List.pairwise_append, List.pairwise_cons] at hpairwise
    have hle : shorterFirst (token, i) entry := hpairwise.2.1.1 entry hentry
    unfold shorterFirst at hle
    dsimp only at hle
    omega

/-- The loop has met the token before when it stands at an earlier position. -/
theorem mem_before_iff (h : processingOrder tokens = before ++ (token, i) :: after) :
    token ∈ before.map Prod.fst ↔ token ∈ tokens.take i := by
  have hget : ∀ {j : ℕ}, (token, j) ∈ processingOrder tokens ↔ tokens[j]? = some token :=
    mem_processingOrder_iff
  constructor
  · intro hmem
    obtain ⟨⟨token', j⟩, hentry, rfl⟩ := List.mem_map.1 hmem
    have hlt : j < i := by
      have hle := shorter_of_before h hentry
      dsimp only at hle
      omega
    have hj : tokens[j]? = some token' := hget.1 (h ▸ List.mem_append_left _ hentry)
    rw [List.mem_take_iff_getElem]
    obtain ⟨hlen, hj⟩ := List.getElem?_eq_some_iff.1 hj
    exact ⟨j, by omega, hj⟩
  · intro hmem
    obtain ⟨j, hj, hget'⟩ := List.mem_take_iff_getElem.1 hmem
    have horder : (token, j) ∈ processingOrder tokens :=
      hget.2 (hget' ▸ List.getElem?_eq_getElem (by omega))
    rw [h, List.mem_append, List.mem_cons] at horder
    rcases horder with hbefore | hlast | hafter
    · exact List.mem_map_of_mem hbefore
    · have hji : j = i := congrArg Prod.snd hlast
      omega
    · have hpairwise := pairwise_processingOrder tokens
      rw [h, List.pairwise_append, List.pairwise_cons] at hpairwise
      have hle : shorterFirst (token, i) (token, j) := hpairwise.2.1.1 _ hafter
      unfold shorterFirst at hle
      dsimp only at hle
      omega

end Order

/-! ### The pool of pieces -/

section Pool

variable {base_vocab : Vocab} {new_tokens : List Str} {token : Str} {i : ℕ} {before after : List (Str × ℕ)}

/-- The pool of the loop, when it has passed the entries `before`. -/
def pool (base_vocab : Vocab) (before : List (Str × ℕ)) (piece : Str) : Bool :=
  (base_vocab piece).isSome || decide (piece ∈ before.map Prod.fst)

/-- The pool of the recursive meaning: the base vocabulary, and the strictly shorter new tokens. -/
def knownBelow (base_vocab : Vocab) (new_tokens : List Str) (token piece : Str) : Bool :=
  (base_vocab piece).isSome || decide (piece ∈ new_tokens ∧ piece.length < token.length)

/-- At a token that is not in it, the pool is that of the recursive meaning, as far as the matcher looks. -/
private theorem pool_eq_knownBelow (h : processingOrder new_tokens = before ++ (token, i) :: after)
    (htoken : token ∉ before.map Prod.fst ∨ (base_vocab token).isSome = true) {piece : Str}
    (hsub : piece <:+: token) :
    pool base_vocab before piece = knownBelow base_vocab new_tokens token piece := by
  cases hbase : (base_vocab piece).isSome with
  | true => simp [pool, knownBelow, hbase]
  | false =>
    have hiff : piece ∈ before.map Prod.fst ↔ piece ∈ new_tokens ∧ piece.length < token.length := by
      constructor
      · intro hmem
        have hne : piece ≠ token := by
          rintro rfl
          rcases htoken with hnot | hsome
          · exact hnot hmem
          · rw [hbase] at hsome
            cases hsome
        have hlt : piece.length < token.length :=
          Nat.lt_of_le_of_ne hsub.length_le fun heq => hne (hsub.sublist.eq_of_length heq)
        refine ⟨(perm_map_fst_processingOrder new_tokens).mem_iff.1 ?_, hlt⟩
        rw [h, List.map_append]
        exact List.mem_append_left _ hmem
      · rintro ⟨hmem, hlt⟩
        exact mem_before_of_shorter h hmem hlt
    simp only [pool, knownBelow, hbase, hiff]

/-- What the loop does at an entry.  A token that has been met before is its own piece; any other is
decomposed as in the recursive meaning. -/
theorem decompose_pool (base_vocab : Vocab)
    (h : processingOrder new_tokens = before ++ (token, i) :: after) :
    decomposeTokenIntoKnownPieces token (pool base_vocab before) =
      if token ∈ before.map Prod.fst ∧ base_vocab token = none ∧ token ≠ [] then some [token]
      else decomposeTokenIntoKnownPieces token (knownBelow base_vocab new_tokens token) := by
  split
  · rename_i hmet
    apply decomposeTokenIntoKnownPieces_self hmet.2.2
    simp [pool, hmet.1]
  · rename_i hmet
    apply decomposeTokenIntoKnownPieces_congr
    intro piece hpiece hsub
    refine pool_eq_knownBelow h ?_ hsub
    by_contra hnot
    rw [not_or, not_not, Option.not_isSome_iff_eq_none] at hnot
    refine hmet ⟨hnot.1, hnot.2, ?_⟩
    rintro rfl
    exact hpiece (List.infix_nil.1 hsub)

/-- The decision of the loop at an entry. -/
theorem isSome_decompose_pool (base_vocab : Vocab)
    (h : processingOrder new_tokens = before ++ (token, i) :: after) :
    (decomposeTokenIntoKnownPieces token (pool base_vocab before)).isSome = true ↔
      token ≠ [] ∧ (token ∈ before.map Prod.fst ∨
        (decomposeTokenIntoKnownPieces token (knownBelow base_vocab new_tokens token)).isSome = true) := by
  have hne : (decomposeTokenIntoKnownPieces token (knownBelow base_vocab new_tokens token)).isSome = true →
      token ≠ [] := by
    rintro hsome rfl
    rw [decomposeTokenIntoKnownPieces, if_pos rfl] at hsome
    cases hsome
  rw [decompose_pool base_vocab h]
  split
  · rename_i hmet
    exact iff_of_true rfl ⟨hmet.2.2, Or.inl hmet.1⟩
  · rename_i hmet
    refine ⟨fun hsome => ⟨hne hsome, Or.inr hsome⟩, ?_⟩
    rintro ⟨htoken, hmem | hsome⟩
    · -- the base vocabulary has the token
      have hbase : base_vocab token ≠ none := fun hnone => hmet ⟨hmem, hnone, htoken⟩
      have hknown : knownBelow base_vocab new_tokens token token = true := by
        simp [knownBelow, Option.isSome_iff_ne_none.2 hbase]
      rw [decomposeTokenIntoKnownPieces_self htoken hknown]
      rfl
    · exact hsome

end Pool

/-! ### The recursive meaning -/

section RecursiveMeaning

private theorem meanRow_singleton (row : Row K d) : meanRow [row] = row := by
  funext j
  rw [meanRow, List.map_singleton, List.sum_singleton, List.length_singleton, Nat.cast_one, div_one]

variable (embeddings : List (Row K d)) (base_vocab : Vocab) (new_tokens : List Str)

private theorem length_lt_of_piece {base_vocab : Vocab} {new_tokens pieces : List Str} {token piece : Str}
    (h : decomposeTokenIntoKnownPieces token (knownBelow base_vocab new_tokens token) = some pieces)
    (hpiece : piece ∈ pieces) (hbase : base_vocab piece = none) : piece.length < token.length := by
  have hknown := (decomposeTokenIntoKnownPieces_spec h).2.2 piece hpiece
  simp only [knownBelow, hbase, Option.isSome_none, Bool.false_or, decide_eq_true_eq] at hknown
  exact hknown.2

/-- The center of a token, by recursion on its length.  A piece has its row of the matrix when the base
vocabulary has it, and its own center otherwise. -/
def recursiveCenter (token : Str) : Row K d :=
  match _hpieces : decomposeTokenIntoKnownPieces token (knownBelow base_vocab new_tokens token) with
  | none => meanRow embeddings
  | some pieces =>
    meanRow (pieces.attach.map fun piece =>
      match _hbase : base_vocab piece.1 with
      | some id => embeddings.getD id 0
      | none => recursiveCenter piece.1)
termination_by token.length
decreasing_by exact length_lt_of_piece _hpieces piece.2 _hbase

def recursivePieceRow (piece : Str) : Row K d :=
  match base_vocab piece with
  | some id => embeddings.getD id 0
  | none => recursiveCenter embeddings base_vocab new_tokens piece

theorem recursiveCenter_eq (token : Str) :
    recursiveCenter embeddings base_vocab new_tokens token =
      match decomposeTokenIntoKnownPieces token (knownBelow base_vocab new_tokens token) with
      | none => meanRow embeddings
      | some pieces => meanRow (pieces.map (recursivePieceRow embeddings base_vocab new_tokens)) := by
  rw [recursiveCenter]
  split
  · rename_i hnone
    rw [hnone]
  · rename_i pieces hpieces
    rw [hpieces]
    dsimp only
    apply congrArg meanRow
    refine (List.map_congr_left fun piece _ => ?_).trans List.attach_map_val
    show _ = recursivePieceRow embeddings base_vocab new_tokens piece.1
    unfold recursivePieceRow
    split
    · rename_i id hid
      rw [hid]
    · rename_i hnone
      rw [hnone]

end RecursiveMeaning

/-! ### The loop -/

section Loop

variable {embeddings : List (Row K d)} {base_vocab : Vocab} {new_tokens : List Str}

/-- The state before the first entry. -/
def Centers.start (base_vocab : Vocab) : Centers K d :=
  ⟨fun piece => (base_vocab piece).map some, fun _ => none, fun _ => 0⟩

/-- The pieces that the loop finds for a token. -/
def Centers.piecesOf (st : Centers K d) (token : Str) : Option (List Str) :=
  decomposeTokenIntoKnownPieces token fun piece => (st.availablePieces piece).isSome

/-- The center that the loop computes for a token: a composed one, or the mean row. -/
def Centers.centerOf (st : Centers K d) (embeddings : List (Row K d)) (token : Str) : Row K d :=
  match st.piecesOf token with
  | none => meanRow embeddings
  | some pieces => meanRow (pieces.map (st.pieceRow embeddings))

theorem Centers.resolve_eq (st : Centers K d) (embeddings : List (Row K d)) (entry : Str × ℕ) :
    st.resolve embeddings entry =
      if (st.availablePieces entry.1).isSome then
        { st with centers := Function.update st.centers entry.2 (st.centerOf embeddings entry.1) }
      else
        { availablePieces := Function.update st.availablePieces entry.1 (some none)
          resolvedCenters :=
            Function.update st.resolvedCenters entry.1 (some (st.centerOf embeddings entry.1))
          centers := Function.update st.centers entry.2 (st.centerOf embeddings entry.1) } := rfl

/-- The state of the loop when it has passed the entries `before`: the pool, and the recursive centers of the
tokens that it has met. -/
structure Centers.Passed (embeddings : List (Row K d)) (base_vocab : Vocab) (new_tokens : List Str)
    (before : List (Str × ℕ)) (st : Centers K d) : Prop where
  native : ∀ piece id, base_vocab piece = some id → st.availablePieces piece = some (some id)
  sibling : ∀ piece, base_vocab piece = none →
    st.availablePieces piece = if piece ∈ before.map Prod.fst then some none else none
  resolved : ∀ piece, st.resolvedCenters piece =
    if piece ∈ before.map Prod.fst ∧ base_vocab piece = none then
      some (recursiveCenter embeddings base_vocab new_tokens piece)
    else none
  centers : ∀ entry ∈ before, st.centers entry.2 = recursiveCenter embeddings base_vocab new_tokens entry.1

namespace Centers.Passed

variable {before : List (Str × ℕ)} {st : Centers K d}

theorem start (embeddings : List (Row K d)) (base_vocab : Vocab) (new_tokens : List Str) :
    Passed embeddings base_vocab new_tokens [] (Centers.start base_vocab) where
  native piece id hid := by
    show (base_vocab piece).map some = some (some id)
    rw [hid]
    rfl
  sibling piece hnone := by
    show (base_vocab piece).map some = _
    rw [hnone]
    rfl
  resolved piece := by simp [Centers.start]
  centers entry hentry := by cases hentry

theorem isSome_availablePieces (hst : st.Passed embeddings base_vocab new_tokens before) (piece : Str) :
    (st.availablePieces piece).isSome = pool base_vocab before piece := by
  unfold pool
  cases hbase : base_vocab piece with
  | some id =>
    rw [hst.native piece id hbase]
    rfl
  | none =>
    rw [hst.sibling piece hbase]
    split
    · rename_i hmem
      simp [hmem]
    · rename_i hmem
      simp [hmem]

/-- A piece of the pool has its row of the recursive meaning. -/
theorem pieceRow (hst : st.Passed embeddings base_vocab new_tokens before) {piece : Str}
    (hpool : pool base_vocab before piece = true) :
    st.pieceRow embeddings piece = recursivePieceRow embeddings base_vocab new_tokens piece := by
  unfold Centers.pieceRow recursivePieceRow
  cases hbase : base_vocab piece with
  | some id =>
    have hresolved : st.resolvedCenters piece = none := by
      rw [hst.resolved piece, if_neg]
      rintro ⟨-, hnone⟩
      rw [hbase] at hnone
      cases hnone
    rw [hresolved, hst.native piece id hbase]
  | none =>
    have hmem : piece ∈ before.map Prod.fst := by simpa [pool, hbase] using hpool
    rw [hst.resolved piece, if_pos ⟨hmem, hbase⟩]

theorem piecesOf (hst : st.Passed embeddings base_vocab new_tokens before) (token : Str) :
    st.piecesOf token = decomposeTokenIntoKnownPieces token (pool base_vocab before) :=
  congrArg (decomposeTokenIntoKnownPieces token) (funext hst.isSome_availablePieces)

/-- The center that the loop computes at an entry is the recursive one. -/
theorem centerOf {token : Str} {i : ℕ} {after : List (Str × ℕ)}
    (hst : st.Passed embeddings base_vocab new_tokens before)
    (h : processingOrder new_tokens = before ++ (token, i) :: after) :
    st.centerOf embeddings token = recursiveCenter embeddings base_vocab new_tokens token := by
  have hpieces := decompose_pool base_vocab h
  unfold Centers.centerOf
  rw [hst.piecesOf]
  by_cases hmet : token ∈ before.map Prod.fst ∧ base_vocab token = none ∧ token ≠ []
  · -- a duplicate is its own piece, and its center is there already
    have hknown : pool base_vocab before token = true := by simp [pool, hmet.1]
    rw [hpieces, if_pos hmet]
    show meanRow [st.pieceRow embeddings token] = _
    rw [hst.pieceRow hknown, recursivePieceRow, hmet.2.1, meanRow_singleton]
  · rw [if_neg hmet] at hpieces
    rw [recursiveCenter_eq, ← hpieces]
    split
    · rfl
    · rename_i pieces hsome
      have hknown := (decomposeTokenIntoKnownPieces_spec hsome).2.2
      apply congrArg meanRow
      exact List.map_congr_left fun piece hpiece => hst.pieceRow (hknown piece hpiece)

private theorem centers_append {token : Str} {i : ℕ} {after : List (Str × ℕ)}
    (hst : st.Passed embeddings base_vocab new_tokens before)
    (h : processingOrder new_tokens = before ++ (token, i) :: after) {entry : Str × ℕ}
    (hentry : entry ∈ before ++ [(token, i)]) :
    Function.update st.centers i (st.centerOf embeddings token) entry.2 =
      recursiveCenter embeddings base_vocab new_tokens entry.1 := by
  obtain ⟨token', j⟩ := entry
  by_cases hij : j = i
  · -- the entries of one position are entries of one token
    subst hij
    have hlast : (token, j) ∈ processingOrder new_tokens := by
      rw [h]
      exact List.mem_append_right _ List.mem_cons_self
    have horder : (token', j) ∈ processingOrder new_tokens := by
      rw [h, List.append_cons]
      exact List.mem_append_left _ hentry
    rw [mem_processingOrder_iff] at hlast horder
    obtain rfl : token' = token := Option.some.inj (horder.symm.trans hlast)
    rw [Function.update_self, hst.centerOf h]
  · rw [Function.update_of_ne hij]
    refine hst.centers (token', j) ((List.mem_append.1 hentry).resolve_right fun hlast => hij ?_)
    exact congrArg Prod.snd (List.mem_singleton.1 hlast)

theorem resolve {entry : Str × ℕ} {after : List (Str × ℕ)}
    (hst : st.Passed embeddings base_vocab new_tokens before)
    (h : processingOrder new_tokens = before ++ entry :: after) :
    (st.resolve embeddings entry).Passed embeddings base_vocab new_tokens (before ++ [entry]) := by
  obtain ⟨token, i⟩ := entry
  have hmem : ∀ piece, piece ∈ (before ++ [(token, i)]).map Prod.fst ↔
      piece ∈ before.map Prod.fst ∨ piece = token := by
    intro piece
    rw [List.map_append, List.mem_append, List.map_singleton, List.mem_singleton]
  have hcenters := fun entry => @hst.centers_append _ _ _ _ _ _ _ _ token i after h entry
  rw [Centers.resolve_eq]
  split
  · rename_i havailable
    rw [hst.isSome_availablePieces] at havailable
    have hold : ∀ piece, base_vocab piece = none →
        (piece ∈ (before ++ [(token, i)]).map Prod.fst ↔ piece ∈ before.map Prod.fst) := by
      intro piece hnone
      rw [hmem, or_iff_left_of_imp]
      rintro rfl
      simpa [pool, hnone] using havailable
    refine ⟨hst.native, ?_, ?_, fun entry => hcenters entry⟩
    · intro piece hnone
      rw [hst.sibling piece hnone, if_congr (hold piece hnone) rfl rfl]
    · intro piece
      rw [hst.resolved piece]
      exact if_congr (and_congr_left fun hnone => (hold piece hnone).symm) rfl rfl
  · rename_i hfresh
    rw [hst.isSome_availablePieces, pool, Bool.or_eq_true, not_or, Option.not_isSome_iff_eq_none] at hfresh
    refine ⟨?_, ?_, ?_, fun entry => hcenters entry⟩
    · intro piece id hid
      dsimp only at hfresh ⊢
      have hne : piece ≠ token := by
        rintro rfl
        rw [hfresh.1] at hid
        cases hid
      rw [Function.update_of_ne hne]
      exact hst.native piece id hid
    · intro piece hnone
      dsimp only
      by_cases hpiece : piece = token
      · subst hpiece
        rw [Function.update_self, if_pos ((hmem piece).2 (Or.inr rfl))]
      · rw [Function.update_of_ne hpiece, hst.sibling piece hnone]
        refine if_congr ?_ rfl rfl
        rw [hmem, or_iff_left hpiece]
    · intro piece
      dsimp only
      by_cases hpiece : piece = token
      · subst hpiece
        rw [Function.update_self, if_pos ⟨(hmem piece).2 (Or.inr rfl), hfresh.1⟩, hst.centerOf h]
      · rw [Function.update_of_ne hpiece, hst.resolved piece]
        refine if_congr ?_ rfl rfl
        rw [hmem, or_iff_left hpiece]

end Centers.Passed

theorem passed_of_before (embeddings : List (Row K d)) (base_vocab : Vocab) {before after : List (Str × ℕ)}
    (h : processingOrder new_tokens = before ++ after) :
    (before.foldl (Centers.resolve embeddings) (Centers.start base_vocab)).Passed embeddings base_vocab
      new_tokens before :=
  Loops.foldl_invariant (Centers.Passed.start embeddings base_vocab new_tokens)
    (fun _ _ _ _ h hst => hst.resolve h) h

theorem compositionalCenters_eq {i : ℕ} {token : Str} (h : new_tokens[i]? = some token) :
    compositionalCenters embeddings new_tokens base_vocab i =
      recursiveCenter embeddings base_vocab new_tokens token := by
  have hpassed := passed_of_before embeddings base_vocab (List.append_nil (processingOrder new_tokens)).symm
  exact hpassed.centers (token, i) (mem_processingOrder_iff.2 h)

theorem recursiveCenter_congr {new_tokens' : List Str} (h : ∀ token, token ∈ new_tokens ↔ token ∈ new_tokens') :
    recursiveCenter embeddings base_vocab new_tokens = recursiveCenter embeddings base_vocab new_tokens' := by
  have hknown : knownBelow base_vocab new_tokens = knownBelow base_vocab new_tokens' := by
    funext token piece
    simp only [knownBelow, h]
  funext token
  induction hlen : token.length using Nat.strong_induction_on generalizing token with
  | _ n ih =>
    rw [recursiveCenter_eq, recursiveCenter_eq, hknown]
    split
    · rfl
    · rename_i pieces hpieces
      apply congrArg meanRow
      apply List.map_congr_left
      intro piece hpiece
      unfold recursivePieceRow
      cases hbase : base_vocab piece with
      | some id => rfl
      | none => exact ih _ (hlen ▸ length_lt_of_piece hpieces hpiece hbase) piece rfl

end Loop

/-- The compositional strategy.  The center of a new token is its recursive center, whatever the order of the
new tokens; the rows of the matrix stay, and a row is added for every new token, its center with its noise. -/
theorem compositional_rows (embeddings : List (Row K d)) (base_vocab : Vocab) (new_tokens : List Str)
    (noise : Noise embeddings) :
    (∀ i : Fin new_tokens.length, compositionalCenters embeddings new_tokens base_vocab i =
        recursiveCenter embeddings base_vocab new_tokens new_tokens[i]) ∧
      (∀ new_tokens' : List Str, new_tokens.Perm new_tokens' →
        ∀ (i : Fin new_tokens.length) (j : Fin new_tokens'.length), new_tokens[i] = new_tokens'[j] →
          compositionalCenters embeddings new_tokens base_vocab i =
            compositionalCenters embeddings new_tokens' base_vocab j) ∧
      ∃ new_rows : List (Row K d), new_rows.length = new_tokens.length ∧
        resizeEmbeddingMatrixCompositional embeddings new_tokens base_vocab noise = embeddings ++ new_rows ∧
        ∀ i : Fin new_tokens.length, new_rows[i.val]? =
          some (recursiveCenter embeddings base_vocab new_tokens new_tokens[i] + noise.row i) := by
  have hcenters : ∀ (tokens : List Str) (i : Fin tokens.length),
      compositionalCenters embeddings tokens base_vocab i =
        recursiveCenter embeddings base_vocab tokens tokens[i] := fun tokens i =>
    compositionalCenters_eq (List.getElem?_eq_getElem i.isLt)
  refine ⟨hcenters new_tokens, ?_, _, ?_, rfl, ?_⟩
  · intro new_tokens' hperm i j hij
    rw [hcenters, hcenters, hij, recursiveCenter_congr fun _ => hperm.mem_iff]
  · rw [List.length_map, List.length_range]
  · intro i
    rw [List.getElem?_map, List.getElem?_range i.isLt, Option.map_some, hcenters]

end KaqTranslator
