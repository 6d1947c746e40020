import Mathlib.Data.Finset.Card
import Mathlib.Data.Finset.Dedup
import KaqTranslator.Training.Chain
import KaqTranslator.Training.Composition

/-!
# Which rows are composed (`vocab_extension.py`)

`composedPositions` is the trace of the loop of `resize_embedding_matrix_compositional`: the positions of the
new tokens that it composes, the others having the mean row.  `count_decomposable_tokens` takes the same
decisions over a pool of its own (`countDecomposableTokens_eq`), and its count has a closed form in which the
order of the tokens plays no part (`countDecomposableTokens_add`).

Of the tokens of a corpus, only the missing characters are not composed (`only_missing_characters_fall_back`).
-/

namespace KaqTranslator

variable {K : Type*} [Field K] {d : ℕ}

/-! ### The trace of the loop -/

section Trace

variable {embeddings : List (Row K d)} {base_vocab : Vocab} {new_tokens : List Str}

/-- The positions that the loop composes, from the state `st` on. -/
def Centers.composedFrom (embeddings : List (Row K d)) : Centers K d → List (Str × ℕ) → List ℕ
  | _, [] => []
  | st, entry :: entries =>
    (if (st.piecesOf entry.1).isSome then [entry.2] else []) ++
      composedFrom embeddings (st.resolve embeddings entry) entries

def composedPositions (embeddings : List (Row K d)) (new_tokens : List Str) (base_vocab : Vocab) : List ℕ :=
  Centers.composedFrom embeddings (Centers.start base_vocab) (processingOrder new_tokens)

private theorem composedFrom_sublist (embeddings : List (Row K d)) (st : Centers K d)
    (entries : List (Str × ℕ)) : (st.composedFrom embeddings entries).Sublist (entries.map Prod.snd) := by
  induction entries generalizing st with
  | nil => exact List.Sublist.slnil
  | cons entry entries ih =>
    unfold Centers.composedFrom
    split
    · exact (ih _).cons_cons _
    · exact (ih _).cons _

private theorem mem_composedFrom {st : Centers K d} {entries : List (Str × ℕ)} {i : ℕ} :
    i ∈ st.composedFrom embeddings entries ↔ ∃ before token after, entries = before ++ (token, i) :: after ∧
      ((before.foldl (Centers.resolve embeddings) st).piecesOf token).isSome = true := by
  induction entries generalizing st with
  | nil => simp [Centers.composedFrom]
  | cons entry entries ih =>
    unfold Centers.composedFrom
    rw [List.mem_append, ih]
    constructor
    · rintro (hmem | ⟨before, token, after, rfl, hsome⟩)
      · split at hmem
        · rename_i hsome
          obtain rfl := List.mem_singleton.1 hmem
          exact ⟨[], entry.1, entries, rfl, hsome⟩
        · cases hmem
      · exact ⟨entry :: before, token, after, rfl, hsome⟩
    · rintro ⟨_ | ⟨entry', before⟩, token, after, hcut, hsome⟩
      · obtain ⟨rfl, rfl⟩ := List.cons.inj hcut
        have hsome : (st.piecesOf token).isSome = true := hsome
        left
        rw [if_pos hsome]
        exact List.mem_singleton.2 rfl
      · obtain ⟨rfl, rfl⟩ := List.cons.inj hcut
        exact Or.inr ⟨before, token, after, rfl, hsome⟩

/-- A position is composed when its token is a duplicate, or is decomposed in the recursive meaning; the empty
token never is. -/
theorem mem_composedPositions {i : ℕ} {token : Str} (h : new_tokens[i]? = some token) :
    i ∈ composedPositions embeddings new_tokens base_vocab ↔ token ≠ [] ∧ (token ∈ new_tokens.take i ∨
      (decomposeTokenIntoKnownPieces token (knownBelow base_vocab new_tokens token)).isSome = true) := by
  have hpieces : ∀ {before after : List (Str × ℕ)}, processingOrder new_tokens = before ++ (token, i) :: after →
      (((before.foldl (Centers.resolve embeddings) (Centers.start base_vocab)).piecesOf token).isSome = true ↔
        token ≠ [] ∧ (token ∈ new_tokens.take i ∨
          (decomposeTokenIntoKnownPieces token (knownBelow base_vocab new_tokens token)).isSome = true)) := by
    intro before after hcut
    rw [(passed_of_before embeddings base_vocab hcut).piecesOf, isSome_decompose_pool base_vocab hcut,
      mem_before_iff hcut]
  unfold composedPositions
  rw [mem_composedFrom]
  constructor
  · rintro ⟨before, token', after, hcut, hsome⟩
    have horder : (token', i) ∈ processingOrder new_tokens := by
      rw [hcut]
      exact List.mem_append_right _ List.mem_cons_self
    obtain rfl : token' = token := Option.some.inj ((mem_processingOrder_iff.1 horder).symm.trans h)
    exact (hpieces hcut).1 hsome
  · intro hcomposed
    obtain ⟨before, after, hcut⟩ := List.append_of_mem (mem_processingOrder_iff.2 h)
    exact ⟨before, token, after, hcut, (hpieces hcut).2 hcomposed⟩

theorem compositionalCenters_of_not_composed {i : ℕ} {token : Str} (h : new_tokens[i]? = some token)
    (hi : i ∉ composedPositions embeddings new_tokens base_vocab) :
    compositionalCenters embeddings new_tokens base_vocab i = meanRow embeddings := by
  have hnone : decomposeTokenIntoKnownPieces token (knownBelow base_vocab new_tokens token) = none := by
    by_cases hnil : token = []
    · rw [decomposeTokenIntoKnownPieces, if_pos hnil]
    · rw [mem_composedPositions h] at hi
      exact Option.not_isSome_iff_eq_none.1 fun hsome => hi ⟨hnil, Or.inr hsome⟩
  rw [compositionalCenters_eq h, recursiveCenter_eq, hnone]

theorem compositionalCenters_of_composed {i : ℕ} {token : Str} (h : new_tokens[i]? = some token)
    (hi : i ∈ composedPositions embeddings new_tokens base_vocab) :
    ∃ pieces : List Str, pieces ≠ [] ∧ pieces.flatten = token ∧
      compositionalCenters embeddings new_tokens base_vocab i =
        meanRow (pieces.map (recursivePieceRow embeddings base_vocab new_tokens)) := by
  obtain ⟨before, token', after, hcut, hsome⟩ := mem_composedFrom.1 hi
  have horder : (token', i) ∈ processingOrder new_tokens := by
    rw [hcut]
    exact List.mem_append_right _ List.mem_cons_self
  obtain rfl : token' = token := Option.some.inj ((mem_processingOrder_iff.1 horder).symm.trans h)
  have hpassed := passed_of_before embeddings base_vocab hcut
  obtain ⟨pieces, hpieces⟩ := Option.isSome_iff_exists.1 hsome
  have hcenter := hpassed.centerOf hcut
  rw [Centers.centerOf, hpieces] at hcenter
  rw [hpassed.piecesOf] at hpieces
  obtain ⟨hne, hflat, hknown⟩ := decomposeTokenIntoKnownPieces_spec hpieces
  refine ⟨pieces, hne, hflat, ?_⟩
  rw [compositionalCenters_eq h, ← hcenter]
  apply congrArg meanRow
  exact List.map_congr_left fun piece hpiece => hpassed.pieceRow (hknown piece hpiece)

/-! ### The count -/

private theorem isSome_availablePieces_resolve (embeddings : List (Row K d)) (st : Centers K d)
    (entry : Str × ℕ) :
    (fun piece => ((st.resolve embeddings entry).availablePieces piece).isSome) =
      Function.update (fun piece => (st.availablePieces piece).isSome) entry.1 true := by
  funext piece
  rw [Centers.resolve_eq]
  by_cases hpiece : piece = entry.1
  · subst hpiece
    split
    · rename_i havailable
      rw [Function.update_self]
      exact havailable
    · rw [Function.update_self]
      show (Function.update st.availablePieces entry.1 (some none) entry.1).isSome = true
      rw [Function.update_self]
      rfl
  · rw [Function.update_of_ne hpiece]
    split
    · rfl
    · show (Function.update st.availablePieces entry.1 (some none) piece).isSome = _
      rw [Function.update_of_ne hpiece]

private theorem foldl_countStep (embeddings : List (Row K d)) (entries : List (Str × ℕ)) (st : Centers K d)
    (n : ℕ) :
    (entries.foldl countStep (fun piece => (st.availablePieces piece).isSome, n)).2 =
      n + (st.composedFrom embeddings entries).length := by
  induction entries generalizing st n with
  | nil => rfl
  | cons entry entries ih =>
    rw [List.foldl_cons, countStep, ← isSome_availablePieces_resolve embeddings, ih,
      Centers.composedFrom, List.length_append]
    show (if (st.piecesOf entry.1).isSome = true then n + 1 else n) + _ = _
    split
    · rw [List.length_singleton]
      omega
    · rw [List.length_nil]
      omega

/-- The two loops take the same decisions. -/
theorem countDecomposableTokens_eq (embeddings : List (Row K d)) (new_tokens : List Str) (base_vocab : Vocab) :
    countDecomposableTokens new_tokens base_vocab =
      (composedPositions embeddings new_tokens base_vocab).length := by
  have hstart : (fun piece => ((Centers.start (K := K) (d := d) base_vocab).availablePieces piece).isSome) =
      fun piece => (base_vocab piece).isSome := by
    funext piece
    show ((base_vocab piece).map some).isSome = _
    rw [Option.isSome_map]
  have hcount := foldl_countStep embeddings (processingOrder new_tokens) (Centers.start base_vocab) 0
  rw [hstart, Nat.zero_add] at hcount
  exact hcount

/-- The tokens of the batch that the matcher fails on, each once. -/
def undecomposed (base_vocab : Vocab) (new_tokens passed : List Str) : Finset Str :=
  passed.toFinset.filter fun token =>
    token ≠ [] ∧ decomposeTokenIntoKnownPieces token (knownBelow base_vocab new_tokens token) = none

private theorem undecomposed_append (passed : List Str) (token : Str) :
    undecomposed base_vocab new_tokens (passed ++ [token]) =
      if token ≠ [] ∧ decomposeTokenIntoKnownPieces token (knownBelow base_vocab new_tokens token) = none then
        insert token (undecomposed base_vocab new_tokens passed)
      else undecomposed base_vocab new_tokens passed := by
  have hinsert : (passed ++ [token]).toFinset = insert token passed.toFinset := by
    ext piece
    simp only [List.mem_toFinset, List.mem_append, List.mem_singleton, Finset.mem_insert]
    exact or_comm
  unfold undecomposed
  rw [hinsert, Finset.filter_insert]

private theorem update_pool (before : List (Str × ℕ)) (entry : Str × ℕ) :
    Function.update (pool base_vocab before) entry.1 true = pool base_vocab (before ++ [entry]) := by
  funext piece
  have hmem : piece ∈ (before ++ [entry]).map Prod.fst ↔ piece ∈ before.map Prod.fst ∨ piece = entry.1 := by
    rw [List.map_append, List.mem_append, List.map_singleton, List.mem_singleton]
  by_cases hpiece : piece = entry.1
  · subst hpiece
    rw [Function.update_self, pool, decide_eq_true (hmem.2 (Or.inr rfl)), Bool.or_true]
  · rw [Function.update_of_ne hpiece, pool, pool]
    simp only [hmem, or_iff_left hpiece]

/-- The state of the loop of `count_decomposable_tokens` when it has passed the entries `before`: the tokens
that it has not counted are the empty ones, and one occurrence of each that the matcher fails on. -/
structure Counted (base_vocab : Vocab) (new_tokens : List Str) (before : List (Str × ℕ))
    (state : (Str → Bool) × ℕ) : Prop where
  known : state.1 = pool base_vocab before
  count : state.2 + ((before.map Prod.fst).count [] +
    (undecomposed base_vocab new_tokens (before.map Prod.fst)).card) = before.length

private theorem Counted.countStep {before after : List (Str × ℕ)} {entry : Str × ℕ} {state : (Str → Bool) × ℕ}
    (h : processingOrder new_tokens = before ++ entry :: after)
    (hstate : Counted base_vocab new_tokens before state) :
    Counted base_vocab new_tokens (before ++ [entry]) (countStep state entry) := by
  obtain ⟨token, i⟩ := entry
  obtain ⟨known, n⟩ := state
  obtain rfl : known = pool base_vocab before := hstate.known
  have hn : n + ((before.map Prod.fst).count [] +
      (undecomposed base_vocab new_tokens (before.map Prod.fst)).card) = before.length := hstate.count
  have hdecision := isSome_decompose_pool base_vocab h
  refine ⟨update_pool before (token, i), ?_⟩
  rw [List.map_append, List.map_singleton, List.count_append, List.length_append, List.length_singleton]
  show (if (decomposeTokenIntoKnownPieces token (pool base_vocab before)).isSome = true then n + 1 else n) +
    (_ + [token].count [] + (undecomposed base_vocab new_tokens (before.map Prod.fst ++ [token])).card) = _
  rw [undecomposed_append]
  by_cases hnil : token = []
  · -- an empty token is not counted
    subst hnil
    rw [if_neg fun hsome => (hdecision.1 hsome).1 rfl, if_neg fun hfails => hfails.1 rfl,
      List.count_singleton_self]
    omega
  have hcount : [token].count [] = 0 :=
    List.count_eq_zero.2 fun hmem => hnil (List.mem_singleton.1 hmem).symm
  rw [hcount]
  cases hpieces : decomposeTokenIntoKnownPieces token (knownBelow base_vocab new_tokens token) with
  | some pieces =>
    have hsome : (decomposeTokenIntoKnownPieces token (pool base_vocab before)).isSome = true :=
      hdecision.2 ⟨hnil, Or.inr (by rw [hpieces]; rfl)⟩
    rw [if_pos hsome, if_neg fun hfails => Option.some_ne_none pieces hfails.2]
    omega
  | none =>
    have hmem : token ∈ undecomposed base_vocab new_tokens (before.map Prod.fst) ↔
        token ∈ before.map Prod.fst := by
      rw [undecomposed, Finset.mem_filter, List.mem_toFinset, and_iff_left ⟨hnil, hpieces⟩]
    rw [if_pos (c := token ≠ [] ∧ none = none) ⟨hnil, rfl⟩]
    by_cases hmet : token ∈ before.map Prod.fst
    · rw [if_pos (hdecision.2 ⟨hnil, Or.inl hmet⟩), Finset.insert_eq_of_mem (hmem.2 hmet)]
      omega
    · -- the first occurrence of a token that the matcher fails on
      have hfails : ¬ (decomposeTokenIntoKnownPieces token (pool base_vocab before)).isSome = true := by
        rw [hdecision, hpieces]
        rintro ⟨-, hmem' | hsome⟩
        · exact hmet hmem'
        · cases hsome
      rw [if_neg hfails, Finset.card_insert_of_notMem (hmet ∘ hmem.1)]
      omega

/-- The count in closed form. -/
theorem countDecomposableTokens_add (new_tokens : List Str) (base_vocab : Vocab) :
    countDecomposableTokens new_tokens base_vocab + (new_tokens.count [] +
      (undecomposed base_vocab new_tokens new_tokens).card) = new_tokens.length := by
  have hperm := perm_map_fst_processingOrder new_tokens
  have hinit : Counted base_vocab new_tokens [] (fun piece => (base_vocab piece).isSome, 0) := by
    refine ⟨?_, rfl⟩
    funext piece
    simp [pool]
  have hloop := (Loops.foldl_invariant hinit (fun _ _ _ _ h hstate => hstate.countStep h)
    (List.append_nil (processingOrder new_tokens)).symm).count
  have hundecomposed : undecomposed base_vocab new_tokens ((processingOrder new_tokens).map Prod.fst) =
      undecomposed base_vocab new_tokens new_tokens := by
    unfold undecomposed
    rw [List.toFinset_eq_of_perm _ _ hperm]
  have hlength : (processingOrder new_tokens).length = new_tokens.length := by
    rw [← hperm.length_eq, List.length_map]
  rw [hperm.count_eq, hundecomposed, hlength] at hloop
  exact hloop

end Trace

/-- The coverage figure.  `count_decomposable_tokens` counts the positions that the compositional strategy
composes, each of them once, and its count does not depend on the order of the list.  At a position that is
composed the center is the mean of the rows of its pieces, at any other the mean row. -/
theorem coverage_counts_composed (embeddings : List (Row K d)) (base_vocab : Vocab) (new_tokens : List Str) :
    countDecomposableTokens new_tokens base_vocab =
        (composedPositions embeddings new_tokens base_vocab).length ∧
      (composedPositions embeddings new_tokens base_vocab).Nodup ∧
      (∀ i ∈ composedPositions embeddings new_tokens base_vocab, i < new_tokens.length) ∧
      (∀ i : Fin new_tokens.length,
        (i.val ∈ composedPositions embeddings new_tokens base_vocab →
          ∃ pieces : List Str, pieces ≠ [] ∧ pieces.flatten = new_tokens.get i ∧
            compositionalCenters embeddings new_tokens base_vocab i =
              meanRow (pieces.map (recursivePieceRow embeddings base_vocab new_tokens))) ∧
        (i.val ∉ composedPositions embeddings new_tokens base_vocab →
          compositionalCenters embeddings new_tokens base_vocab i = meanRow embeddings)) ∧
      ∀ new_tokens' : List Str, new_tokens.Perm new_tokens' →
        countDecomposableTokens new_tokens base_vocab = countDecomposableTokens new_tokens' base_vocab := by
  have hsublist := composedFrom_sublist embeddings (Centers.start base_vocab)
    (processingOrder new_tokens)
  refine ⟨countDecomposableTokens_eq embeddings new_tokens base_vocab,
    hsublist.nodup (nodup_map_snd_processingOrder new_tokens), ?_, ?_, ?_⟩
  · intro i hi
    obtain ⟨⟨token, j⟩, hentry, rfl⟩ := List.mem_map.1 (hsublist.subset hi)
    exact (List.getElem?_eq_some_iff.1 (mem_processingOrder_iff.1 hentry)).1
  · intro i
    have hget : new_tokens[i.val]? = some (new_tokens.get i) := List.getElem?_eq_getElem i.isLt
    exact ⟨compositionalCenters_of_composed hget, compositionalCenters_of_not_composed hget⟩
  · intro new_tokens' hperm
    have hknown : knownBelow base_vocab new_tokens = knownBelow base_vocab new_tokens' := by
      funext token piece
      simp only [knownBelow, hperm.mem_iff]
    have hundecomposed : undecomposed base_vocab new_tokens new_tokens =
        undecomposed base_vocab new_tokens' new_tokens' := by
      unfold undecomposed
      rw [hknown, List.toFinset_eq_of_perm _ _ hperm]
    have hcount := countDecomposableTokens_add new_tokens base_vocab
    have hcount' := countDecomposableTokens_add new_tokens' base_vocab
    rw [hperm.count_eq, hundecomposed, hperm.length_eq] at hcount
    omega

/-! ### The tokens of a corpus -/

section Corpus

variable {texts further : List Str} {base_vocab : Vocab} {token : Str}

/-- Every character of a word of the texts is in the vocabulary, or is a new token. -/
private theorem knownBelow_of_mem_word (hword : token ∈ texts.flatMap Str.split) (hlength : 1 < token.length)
    {c : Char} (hc : c ∈ token) :
    knownBelow base_vocab (computeNewTokensForTexts texts base_vocab ++ further) token [c] = true := by
  cases hbase : base_vocab [c] with
  | some id => simp [knownBelow, hbase]
  | none =>
    obtain ⟨text, htext, hsplit⟩ := List.mem_flatMap.1 hword
    have hspace : Str.allSpace [c] = false := by simp [Str.allSpace, (Str.mem_split hsplit).2 c hc]
    have hneeds : Needs texts [c] := by
      left
      refine ⟨List.mem_flatMap.2 ⟨text, htext, ?_⟩, hspace⟩
      exact List.mem_map.2 ⟨c, Str.subset_of_mem_split hsplit hc, rfl⟩
    have hmem : [c] ∈ computeNewTokensForTexts texts base_vocab :=
      mem_computeNewTokensForTexts.2 ⟨hneeds, hbase⟩
    rw [knownBelow, decide_eq_true ⟨List.mem_append_left _ hmem, hlength⟩, Bool.or_true]

private theorem mem_findMissingCharacters_iff (h : token ∈ computeNewTokensForTexts texts base_vocab) :
    token ∈ findMissingCharacters texts base_vocab ↔ token.length = 1 := by
  obtain ⟨hneeds, hnone⟩ := mem_computeNewTokensForTexts.1 h
  obtain ⟨hne, hspace⟩ := not_space_of_mem_computeNewTokensForTexts h
  constructor
  · intro hmem
    obtain ⟨text, -, hc⟩ := List.mem_flatMap.1 (List.mem_filter.1 hmem).1
    obtain ⟨c, -, rfl⟩ := List.mem_map.1 hc
    rfl
  · intro hlength
    obtain ⟨c, rfl⟩ := List.length_eq_one_iff.1 hlength
    have hchar : [c] ∈ extractCharacters texts := by
      rcases hneeds with ⟨hchar, -⟩ | hword
      · exact hchar
      · obtain ⟨text, htext, hsplit⟩ := List.mem_flatMap.1 hword
        exact List.mem_flatMap.2
          ⟨text, htext, List.mem_map.2 ⟨c, Str.subset_of_mem_split hsplit List.mem_cons_self, rfl⟩⟩
    refine List.mem_filter.2 ⟨hchar, ?_⟩
    simp [hnone, Str.allSpace, hspace c List.mem_cons_self]

/-- Of the new tokens of the texts, those of two or more characters are composed. -/
theorem mem_composedPositions_computeNewTokensForTexts (embeddings : List (Row K d)) (further : List Str)
    {i : ℕ} (h : (computeNewTokensForTexts texts base_vocab)[i]? = some token) :
    i ∈ composedPositions embeddings (computeNewTokensForTexts texts base_vocab ++ further) base_vocab ↔
      1 < token.length := by
  have hmem : token ∈ computeNewTokensForTexts texts base_vocab := List.mem_of_getElem? h
  obtain ⟨hlt, hget⟩ := List.getElem?_eq_some_iff.1 h
  have hget' : (computeNewTokensForTexts texts base_vocab ++ further)[i]? = some token := by
    rw [List.getElem?_append_left hlt, h]
  have hnone : base_vocab token = none := (mem_computeNewTokensForTexts.1 hmem).2
  have hne : token ≠ [] := (not_space_of_mem_computeNewTokensForTexts hmem).1
  have hpos : 0 < token.length := List.length_pos_iff.2 hne
  -- the token does not occur before
  have hfirst : token ∉ (computeNewTokensForTexts texts base_vocab ++ further).take i := by
    rw [List.take_append_of_le_length hlt.le]
    intro hbefore
    obtain ⟨j, hj, hgetj⟩ := List.mem_take_iff_getElem.1 hbefore
    have hij : j = i := (nodup_selectNewTokens _ _).getElem_inj_iff.1 (hgetj.trans hget.symm)
    omega
  rw [mem_composedPositions hget', or_iff_right hfirst, and_iff_right hne]
  constructor
  · intro hsome
    by_contra hlength
    obtain ⟨c, rfl⟩ := List.length_eq_one_iff.1 (by omega : token.length = 1)
    have hunknown : knownBelow base_vocab (computeNewTokensForTexts texts base_vocab ++ further) [c] [c] =
        false := by
      simp [knownBelow, hnone]
    rw [decomposeTokenIntoKnownPieces_singleton hunknown] at hsome
    cases hsome
  · intro hlength
    have hword : token ∈ texts.flatMap Str.split := by
      rcases (mem_computeNewTokensForTexts.1 hmem).1 with ⟨hchar, -⟩ | hword
      · obtain ⟨text, -, hc⟩ := List.mem_flatMap.1 hchar
        obtain ⟨c, -, rfl⟩ := List.mem_map.1 hc
        exact absurd hlength (Nat.lt_irrefl _)
      · exact hword
    rw [decomposeTokenIntoKnownPieces, if_neg hne]
    exact decomposeFrom_isSome fun c hc => knownBelow_of_mem_word hword hlength hc

end Corpus

/-- The new tokens of a corpus, in one batch with any further tokens.  Those with the mean row are the
characters of the texts that the vocabulary lacks, and every token of more characters is composed.  When they
are added, every word of the texts and every character that is no white space is in the vocabulary. -/
theorem only_missing_characters_fall_back (tokenizer : Tokenizer) (texts further : List Str)
    (embeddings : List (Row K d)) :
    let added_tokens := computeNewTokensForTexts texts tokenizer.getVocab
    (∀ i : Fin added_tokens.length,
        (i.val ∉ composedPositions embeddings (added_tokens ++ further) tokenizer.getVocab ↔
          added_tokens[i] ∈ findMissingCharacters texts tokenizer.getVocab) ∧
        (i.val ∈ composedPositions embeddings (added_tokens ++ further) tokenizer.getVocab ↔
          1 < added_tokens[i].length) ∧
        (added_tokens[i] ∈ findMissingCharacters texts tokenizer.getVocab →
          compositionalCenters embeddings (added_tokens ++ further) tokenizer.getVocab i =
            meanRow embeddings)) ∧
      (∀ character ∈ findMissingCharacters texts tokenizer.getVocab, character ∈ added_tokens) ∧
      (extendTokenizerVocab tokenizer texts).2 = added_tokens ∧
      (∀ word ∈ texts.flatMap Str.split, (extendTokenizerVocab tokenizer texts).1.getVocab word ≠ none) ∧
      ∀ character ∈ extractCharacters texts, character.allSpace = false →
        (extendTokenizerVocab tokenizer texts).1.getVocab character ≠ none := by
  intro added_tokens
  refine ⟨fun i => ?_, ?_, extendTokenizerVocab_snd tokenizer texts, ?_, ?_⟩
  · have hget : added_tokens[i.val]? = some added_tokens[i] := List.getElem?_eq_getElem i.isLt
    have hmem : added_tokens[i] ∈ added_tokens := List.getElem_mem i.isLt
    have hpos : 0 < added_tokens[i].length :=
      List.length_pos_iff.2 (not_space_of_mem_computeNewTokensForTexts hmem).1
    have hcomposed := mem_composedPositions_computeNewTokensForTexts embeddings further hget
    have hmissing : i.val ∉ composedPositions embeddings (added_tokens ++ further) tokenizer.getVocab ↔
        added_tokens[i] ∈ findMissingCharacters texts tokenizer.getVocab := by
      rw [hcomposed, mem_findMissingCharacters_iff hmem]
      omega
    refine ⟨hmissing, hcomposed, fun hchar => ?_⟩
    have hget' : (added_tokens ++ further)[i.val]? = some added_tokens[i] := by
      rw [List.getElem?_append_left i.isLt, hget]
    exact compositionalCenters_of_not_composed hget' (hmissing.2 hchar)
  · intro character hmem
    obtain ⟨hchar, hmissing⟩ := List.mem_filter.1 hmem
    rw [Bool.and_eq_true, Option.isNone_iff_eq_none, Bool.not_eq_true'] at hmissing
    exact mem_computeNewTokensForTexts.2 ⟨Or.inl ⟨hchar, hmissing.2⟩, hmissing.1⟩
  · exact fun word hword => getVocab_of_needs (Or.inr hword)
  · exact fun character hchar hspace => getVocab_of_needs (Or.inl ⟨hchar, hspace⟩)

end KaqTranslator
