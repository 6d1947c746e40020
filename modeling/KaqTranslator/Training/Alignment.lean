import Mathlib.Algebra.Field.Rat
import Mathlib.Tactic.LinearCombination
import KaqTranslator.Training.TokenizerExtension

/-!
# Rows and identifiers of the added tokens

The tokenizer gives its new tokens the identifiers from its size on (`Adds`); the model puts their
warm-started rows after its last row (`extendVocabularyForExamples_embeddings`).  Unless all rows of the
matrix are equal, the two agree exactly when it has as many rows as the vocabulary has tokens
(`embeddings_aligned_iff`).  A matrix that is padded, as that of the base model is, shifts every new token to
the row of another one or to a padding row (`padded_rows_shift`).
-/

namespace KaqTranslator

variable {K : Type*} [Field K] {d : ℕ}

/-! ### Identifiers -/

/-- The tokenizer `t'` is `t` with the tokens `new` added, in order. -/
structure Adds (t t' : Tokenizer) (new : List Str) : Prop where
  nodup : new.Nodup
  fresh : ∀ token ∈ new, t.getVocab token = none
  size : t'.size = t.size + new.length
  ids : ∀ i token, new[i]? = some token → t'.getVocab token = some (t.size + i)
  old : ∀ token, token ∉ new → t'.getVocab token = t.getVocab token

theorem Adds.refl (t : Tokenizer) : Adds t t [] :=
  ⟨List.nodup_nil, fun _ h => (List.not_mem_nil h).elim, rfl, fun _ _ h => by simp at h, fun _ _ => rfl⟩

theorem Adds.append {t t' t'' : Tokenizer} {a b : List Str} (ha : Adds t t' a) (hb : Adds t' t'' b) :
    Adds t t'' (a ++ b) := by
  have hdisj : ∀ token ∈ a, token ∉ b := by
    intro token hta htb
    obtain ⟨i, hi⟩ := List.getElem?_of_mem hta
    have := ha.ids i token hi
    rw [hb.fresh token htb] at this
    cases this
  refine ⟨List.nodup_append.2 ⟨ha.nodup, hb.nodup, fun x hx y hy e => hdisj x hx (e ▸ hy)⟩, ?_, ?_, ?_, ?_⟩
  · intro token h
    rcases List.mem_append.1 h with h | h
    · exact ha.fresh token h
    · by_cases hta : token ∈ a
      · exact ha.fresh token hta
      · rw [← ha.old token hta, hb.fresh token h]
  · rw [hb.size, ha.size, List.length_append, Nat.add_assoc]
  · intro i token h
    by_cases hi : i < a.length
    · rw [List.getElem?_append_left hi] at h
      rw [hb.old token (hdisj token (List.mem_of_getElem? h)), ha.ids i token h]
    · have hle := Nat.le_of_not_lt hi
      rw [List.getElem?_append_right hle] at h
      rw [hb.ids _ token h, ha.size]
      congr 1
      omega
  · intro token h
    rw [List.mem_append, not_or] at h
    rw [hb.old token h.2, ha.old token h.1]

theorem Tokenizer.adds_addToken {t : Tokenizer} {token : Str} (h : t.getVocab token = none) :
    Adds t (t.addToken token) [token] := by
  rw [addToken, dif_pos h]
  refine ⟨List.nodup_singleton _, by simpa using h, rfl, fun i token' hi => ?_, fun token' hne => ?_⟩
  · cases i with
    | zero =>
      obtain rfl : token = token' := by simpa using hi
      exact Function.update_self ..
    | succ i => simp at hi
  · exact Function.update_of_ne (by simpa using hne) _ _

theorem Tokenizer.adds_addTokens {t : Tokenizer} {new : List Str} (hnd : new.Nodup)
    (h : ∀ token ∈ new, t.getVocab token = none) : Adds t (t.addTokens new) new := by
  induction new generalizing t with
  | nil => exact Adds.refl t
  | cons token new ih =>
    obtain ⟨hnot, hnd⟩ := List.nodup_cons.1 hnd
    have hone := adds_addToken (h token (List.mem_cons_self ..))
    refine hone.append (ih hnd fun token' hmem => ?_)
    rw [hone.old token' (by rw [List.mem_singleton]; rintro rfl; exact hnot hmem)]
    exact h token' (List.mem_cons_of_mem _ hmem)

theorem Adds.mark {t t' : Tokenizer} {new : List Str} (h : Adds t t' new) (tokens : List Str) :
    Adds t (t'.markWordBoundaryTokens tokens) new := by
  unfold Tokenizer.markWordBoundaryTokens
  split
  · exact h
  · exact ⟨h.nodup, h.fresh, h.size, h.ids, h.old⟩

theorem adds_extendTokenizerVocab (t : Tokenizer) (sample_texts : List Str) :
    Adds t (extendTokenizerVocab t sample_texts).1 (extendTokenizerVocab t sample_texts).2 := by
  simp only [extendTokenizerVocab]
  split
  · exact Adds.refl t
  · exact (Tokenizer.adds_addTokens (nodup_selectNewTokens ..) fun _ h => (mem_selectNewTokens.1 h).2).mark _

theorem adds_extendTokenizerVocabWithSubwords (t : Tokenizer) (train : List Str → List Str) (texts : List Str) :
    Adds t (extendTokenizerVocabWithSubwords t train texts).1
      (extendTokenizerVocabWithSubwords t train texts).2 := by
  simp only [extendTokenizerVocabWithSubwords]
  split
  · exact Adds.refl t
  · exact (Tokenizer.adds_addTokens (nodup_selectNewTokens ..) fun _ h => (mem_selectNewTokens.1 h).2).mark _

theorem adds_extendTokenizerForExamples (t : Tokenizer) (train : List Str → List Str)
    (examples : List TranslationExample) :
    Adds t (extendTokenizerForExamples t train examples).1 (extendTokenizerForExamples t train examples).2 := by
  simp only [extendTokenizerForExamples]
  split
  · exact adds_extendTokenizerVocab ..
  · exact (adds_extendTokenizerVocab ..).append (adds_extendTokenizerVocabWithSubwords ..)

/-! ### Rows -/

/-- The center of the warm-started row of the new token at a position. -/
def warmCenter (embeddings : List (Row K d)) (added_tokens : List Str) (base_vocab : Vocab)
    (strategy : EmbeddingInit) (i : ℕ) : Row K d :=
  match strategy with
  | .mean => meanRow embeddings
  | .compositional => compositionalCenters embeddings added_tokens base_vocab i

theorem warmStart_eq (embeddings : List (Row K d)) (added_tokens : List Str) (base_vocab : Vocab)
    (strategy : EmbeddingInit) (noise : Noise embeddings) :
    warmStart embeddings added_tokens base_vocab strategy noise =
      embeddings ++ (List.range added_tokens.length).map fun i =>
        warmCenter embeddings added_tokens base_vocab strategy i + noise.row i := by
  cases strategy <;> rfl

theorem warmStart_getElem? {embeddings : List (Row K d)} {added_tokens : List Str} {base_vocab : Vocab}
    {strategy : EmbeddingInit} {noise : Noise embeddings} {i : ℕ} (hi : i < added_tokens.length) :
    (warmStart embeddings added_tokens base_vocab strategy noise)[embeddings.length + i]? =
      some (warmCenter embeddings added_tokens base_vocab strategy i + noise.row i) := by
  rw [warmStart_eq, List.getElem?_append_right (Nat.le_add_right ..), Nat.add_sub_cancel_left]
  simp [hi]

/-- The new matrix is the warm-started one: the old rows, then one row for each new token. -/
theorem resizeEmbeddingsForNewTokens_eq (embeddings : List (Row K d)) (added_tokens : List Str)
    (base_vocab : Vocab) (strategy : EmbeddingInit) (noise : Noise embeddings) (fresh : ℕ → Row K d) :
    resizeEmbeddingsForNewTokens embeddings added_tokens base_vocab strategy noise fresh =
      warmStart embeddings added_tokens base_vocab strategy noise := by
  rw [warmStart_eq, resizeEmbeddingsForNewTokens]
  split
  · rename_i h
    simp [h]
  · simp [warmStart_eq, resizeTokenEmbeddings, List.take_of_length_le, List.drop_of_length_le]

/-- In a matrix of equal rows the warm start adds that row again, for noise in a constant dimension is
zero. -/
theorem warmStart_getElem?_of_forall_eq [CharZero K] {embeddings : List (Row K d)} {c : Row K d}
    (hne : embeddings ≠ []) (h : ∀ row ∈ embeddings, row = c) {added_tokens : List Str} {base_vocab : Vocab}
    (hvocab : ∀ piece id, base_vocab piece = some id → id < embeddings.length) (strategy : EmbeddingInit)
    (noise : Noise embeddings) {k : ℕ} (hk : k < embeddings.length + added_tokens.length) :
    (warmStart embeddings added_tokens base_vocab strategy noise)[k]? = some c := by
  by_cases hold : k < embeddings.length
  · rw [warmStart_eq, List.getElem?_append_left hold, List.getElem?_eq_getElem hold]
    exact congrArg some (h _ (List.getElem_mem hold))
  · obtain ⟨i, rfl⟩ := Nat.exists_eq_add_of_le (Nat.le_of_not_lt hold)
    have hi : i < added_tokens.length := by omega
    have hcenter : warmCenter embeddings added_tokens base_vocab strategy i = c := by
      cases strategy with
      | mean => exact meanRow_of_forall_eq hne h
      | compositional => exact compositionalCenters_of_forall_eq hne h hvocab hi
    have hnoise : noise.row i = 0 := by
      funext j
      apply noise.constant
      intro a ha b hb
      rw [h a ha, h b hb]
    rw [warmStart_getElem? hi, hcenter, hnoise, add_zero]

/-! ### Alignment -/

/-- The row at the identifier of every added token is the warm-start row of its position, and the rows of the
tokens that were there are as they were. -/
structure Extension.Aligned (E : Extension K d) (t : Tokenizer) (embeddings : List (Row K d))
    (strategy : EmbeddingInit) (noise : Noise embeddings) : Prop where
  added : ∀ i token, E.added_tokens[i]? = some token → ∃ id row, E.tokenizer.getVocab token = some id ∧
    E.embeddings[id]? = some row ∧
    (warmStart embeddings E.added_tokens t.getVocab strategy noise)[embeddings.length + i]? = some row
  old : ∀ token id, t.getVocab token = some id → E.embeddings[id]? = embeddings[id]?

section Alignment

variable (t : Tokenizer) (embeddings : List (Row K d)) (train : List Str → List Str)
  (examples : List TranslationExample) (strategy : EmbeddingInit) (noise : Noise embeddings)
  (fresh : ℕ → Row K d)

theorem extendVocabularyForExamples_embeddings :
    (extendVocabularyForExamples t embeddings train examples strategy noise fresh).embeddings =
      warmStart embeddings (extendTokenizerForExamples t train examples).2 t.getVocab strategy noise :=
  resizeEmbeddingsForNewTokens_eq ..

variable {t embeddings}

theorem extendVocabularyForExamples_old (hrows : t.size ≤ embeddings.length) {token : Str} {id : ℕ}
    (h : t.getVocab token = some id) :
    (extendVocabularyForExamples t embeddings train examples strategy noise fresh).embeddings[id]? =
      embeddings[id]? := by
  have hlt := Nat.lt_of_lt_of_le (t.getVocab_lt token id h) hrows
  rw [extendVocabularyForExamples_embeddings, warmStart_eq, List.getElem?_append_left hlt]

variable {strategy noise}

/-- In a padded matrix the first added token has the first padding row. -/
private theorem row_of_first_added (hrows : t.size < embeddings.length) {token : Str}
    (h : (extendTokenizerForExamples t train examples).2[0]? = some token)
    (haligned : (extendVocabularyForExamples t embeddings train examples strategy noise fresh).Aligned t
      embeddings strategy noise) :
    embeddings[t.size]? =
      some (warmCenter embeddings (extendTokenizerForExamples t train examples).2 t.getVocab strategy 0 +
        noise.row 0) := by
  obtain ⟨id, row, hid, hrow, hwarm⟩ := haligned.added 0 token h
  have hids : (extendTokenizerForExamples t train examples).1.getVocab token = some (t.size + 0) :=
    (adds_extendTokenizerForExamples t train examples).ids 0 token h
  obtain rfl : t.size = id := Option.some.inj (hids.symm.trans hid)
  have hpos : 0 < (extendTokenizerForExamples t train examples).2.length :=
    List.length_pos_of_mem (List.mem_of_getElem? h)
  rw [extendVocabularyForExamples_embeddings, warmStart_eq, List.getElem?_append_left hrows] at hrow
  exact (hrow.trans hwarm.symm).trans (warmStart_getElem? hpos)

/-- Where all rows are equal it does not matter which row a token has. -/
theorem aligned_of_forall_eq [CharZero K] (hrows : t.size ≤ embeddings.length) (hne : embeddings ≠ [])
    (h : ∀ a ∈ embeddings, ∀ b ∈ embeddings, a = b) :
    (extendVocabularyForExamples t embeddings train examples strategy noise fresh).Aligned t embeddings strategy
      noise := by
  obtain ⟨c, hc⟩ := List.exists_mem_of_ne_nil _ hne
  have hvocab : ∀ piece id, t.getVocab piece = some id → id < embeddings.length := by
    intro piece id hid
    exact Nat.lt_of_lt_of_le (t.getVocab_lt piece id hid) hrows
  have hrow : ∀ {k : ℕ}, k < embeddings.length + (extendTokenizerForExamples t train examples).2.length →
      (warmStart embeddings (extendTokenizerForExamples t train examples).2 t.getVocab strategy noise)[k]? =
        some c := by
    intro k hk
    exact warmStart_getElem?_of_forall_eq hne (fun row hmem => h row hmem c hc) hvocab strategy noise hk
  constructor
  · intro i token hadded
    change (extendTokenizerForExamples t train examples).2[i]? = some token at hadded
    obtain ⟨hi, -⟩ := List.getElem?_eq_some_iff.1 hadded
    refine ⟨t.size + i, c, (adds_extendTokenizerForExamples t train examples).ids i token hadded, ?_, ?_⟩
    · rw [extendVocabularyForExamples_embeddings]
      exact hrow (by omega)
    · exact hrow (by omega)
  · intro token id hid
    exact extendVocabularyForExamples_old _ _ _ _ _ hrows hid

/-- A matrix with as many rows as there are tokens is aligned, and so is one to which nothing is added. -/
theorem aligned_of_length_eq (hor : (extendTokenizerForExamples t train examples).2 = [] ∨
      embeddings.length = t.size) (hrows : t.size ≤ embeddings.length) :
    (extendVocabularyForExamples t embeddings train examples strategy noise fresh).Aligned t embeddings strategy
      noise := by
  constructor
  · intro i token hadded
    change (extendTokenizerForExamples t train examples).2[i]? = some token at hadded
    rcases hor with hnil | hsize
    · rw [hnil] at hadded
      cases hadded
    · obtain ⟨hi, -⟩ := List.getElem?_eq_some_iff.1 hadded
      refine ⟨t.size + i, _, (adds_extendTokenizerForExamples t train examples).ids i token hadded, ?_,
        warmStart_getElem? hi⟩
      rw [extendVocabularyForExamples_embeddings, ← hsize]
      exact warmStart_getElem? hi
  · intro token id hid
    exact extendVocabularyForExamples_old _ _ _ _ _ hrows hid

end Alignment

/-- Embedding and vocabulary are aligned, whatever noise is drawn, if and only if no token is added, the
matrix has as many rows as the vocabulary has tokens, or all its rows are equal. -/
theorem embeddings_aligned_iff [CharZero K] {t : Tokenizer} {embeddings : List (Row K d)}
    (hrows : t.size ≤ embeddings.length) (train : List Str → List Str) (examples : List TranslationExample)
    (strategy : EmbeddingInit) (fresh : ℕ → Row K d) :
    (∀ noise, (extendVocabularyForExamples t embeddings train examples strategy noise fresh).Aligned t
      embeddings strategy noise) ↔
    ((extendTokenizerForExamples t train examples).2 = [] ∨ embeddings.length = t.size ∨
      ∀ a ∈ embeddings, ∀ b ∈ embeddings, a = b) := by
  constructor
  · intro haligned
    by_contra hnot
    rw [not_or, not_or] at hnot
    obtain ⟨hne, hsize, hrow⟩ := hnot
    obtain ⟨token, rest, hadded⟩ := List.exists_cons_of_ne_nil hne
    have hlt : t.size < embeddings.length := by omega
    obtain ⟨j, hj⟩ : ∃ j, ¬ ∀ a ∈ embeddings, ∀ b ∈ embeddings, a j = b j := by
      by_contra hall
      simp only [not_exists, not_not] at hall
      exact hrow fun a ha b hb => funext fun j => hall j a ha b hb
    -- noise that takes the first row away from the padding row
    let center := warmCenter embeddings (extendTokenizerForExamples t train examples).2 t.getVocab strategy 0
    classical
    let noise : Noise embeddings :=
      { row := fun _ j =>
          if ∀ a ∈ embeddings, ∀ b ∈ embeddings, a j = b j then 0 else embeddings[t.size] j - center j + 1
        constant := fun _ _ h => if_pos h }
    have hfirst := row_of_first_added train examples fresh hlt (by rw [hadded]; rfl) (haligned noise)
    rw [List.getElem?_eq_getElem hlt] at hfirst
    have hzero := congrFun (Option.some.inj hfirst) j
    simp only [Pi.add_apply, noise, center, if_neg hj] at hzero
    exact one_ne_zero (show (1 : K) = 0 by linear_combination -hzero)
  · rintro (hnil | hsize | hequal) noise
    · exact aligned_of_length_eq train examples fresh (Or.inl hnil) hrows
    · exact aligned_of_length_eq train examples fresh (Or.inr hsize) hrows
    · by_cases hne : embeddings = []
      · have hsize : embeddings.length = t.size := by
          rw [hne, List.length_nil] at hrows ⊢
          omega
        exact aligned_of_length_eq train examples fresh (Or.inr hsize) hrows
      · exact aligned_of_forall_eq train examples fresh hrows hne hequal

/-- A tokenizer that lacks one direction tag, and a matrix with a padding row. -/
def paddedTokenizer : Tokenizer :=
  .load [['_'], ['e'], ['s'], ['c'], ['a'], ['k'], "__es__".toList]

def paddedRows : List (Row ℚ 1) := [0, 0, 0, 0, 0, 0, 0, fun _ => 8]

/-- The tag is added and has the padding row, not the mean, which is the row after it. -/
theorem padded_rows_shift :
    let E := extendVocabularyForExamples paddedTokenizer paddedRows (fun _ => []) [] .mean (.zero _) fun _ => 0
    E.added_tokens = ["__cak__".toList] ∧ E.tokenizer.getVocab "__cak__".toList = some 7 ∧
      E.embeddings[7]? = some (fun _ => 8) ∧ E.embeddings[8]? = some (fun _ => 1) ∧
      ¬ E.Aligned paddedTokenizer paddedRows .mean (.zero _) := by
  intro E
  have hmean : meanRow paddedRows + 0 = fun _ => 1 := by
    funext j
    simp [meanRow, paddedRows]
  have hpadding : E.embeddings[7]? = some (fun _ => 8) := by
    rw [extendVocabularyForExamples_embeddings]
    rfl
  have hwarm : E.embeddings[8]? = some (fun _ => 1) := by
    rw [extendVocabularyForExamples_embeddings, ← hmean]
    rfl
  refine ⟨rfl, rfl, hpadding, hwarm, fun haligned => ?_⟩
  have hrow : (fun _ => 8) = meanRow paddedRows + 0 :=
    Option.some.inj (row_of_first_added (fun _ => []) [] (fun _ => 0) (by decide) rfl haligned)
  rw [hmean] at hrow
  have := congrFun hrow 0
  norm_num at this

/-- So the noise does not save it. -/
theorem padded_rows_not_aligned :
    ¬ ∀ noise, (extendVocabularyForExamples paddedTokenizer paddedRows (fun _ => []) [] .mean noise
      fun _ => 0).Aligned paddedTokenizer paddedRows .mean noise := by
  rw [embeddings_aligned_iff (by decide)]
  rintro (hnone | hsize | hequal)
  · cases hnone
  · cases hsize
  · have hrow : (0 : Row ℚ 1) = fun _ => 8 := hequal _ (by simp [paddedRows]) _ (by simp [paddedRows])
    have := congrFun hrow 0
    norm_num at this

end KaqTranslator
