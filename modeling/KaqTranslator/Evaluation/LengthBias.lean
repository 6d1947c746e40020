import Mathlib.Algebra.BigOperators.Field
import Mathlib.Algebra.Order.BigOperators.Group.List
import Mathlib.Algebra.Order.Field.Basic
import Mathlib.Algebra.Order.Ring.Rat
import Mathlib.Data.List.GetD
import Mathlib.Tactic.FieldSimp
import Mathlib.Tactic.Linarith

/-!
# Length-bias rectification (`evaluation/length_bias.py`)

A row is clipped at `delta` and divided by what is left of its sum; if nothing is left, it is the row itself
that is divided by its sum.  Both divisors are made of sums that are not zero (`rectifyRow_of_pos`,
`rectifyRow_of_not_pos`), both branches are monotone in the entry, and `alpha / V` is what label smoothing has
added to each entry (`rectifyRow_smoothed`).  A division by zero has no result here.
-/

namespace KaqTranslator

variable {K : Type*} [Field K] [LinearOrder K]

/-- `x / y`, which is nothing if it divides by zero -/
def divide (x y : K) : Option K := if y = 0 then none else some (x / y)

/-- `rectify_probabilities`, of one row -/
def rectifyRow (delta : K) (probs : List K) : Option (List K) := do
  let rectified := probs.map fun p => max (p - delta) 0
  let row_sum := rectified.sum
  let zero_row := decide (row_sum ≤ 0)
  let safe_row_sum := if zero_row then 1 else row_sum
  let normalized ← rectified.mapM fun p => divide p safe_row_sum
  let fallback ← probs.mapM fun p => divide p probs.sum
  return if zero_row then fallback else normalized

def rectifyProbabilities (probs : List (List K)) (delta : K) : Option (List (List K)) :=
  probs.mapM (rectifyRow delta)

/-- A probability distribution -/
structure IsDistribution (q : List K) : Prop where
  nonneg : ∀ x ∈ q, 0 ≤ x
  sum : q.sum = 1

/-- A row as a model puts it out: no entry is negative, and not all are zero. -/
structure IsWeighting (probs : List K) : Prop where
  nonneg : ∀ p ∈ probs, 0 ≤ p
  sum_pos : 0 < probs.sum

/-- What rectification makes of a row -/
structure Rectifies (probs result : List K) : Prop where
  length : result.length = probs.length
  distribution : IsDistribution result
  order : ∀ i < probs.length, ∀ j < probs.length, probs.getD j 0 ≤ probs.getD i 0 →
    result.getD j 0 ≤ result.getD i 0

/-! ### One row -/

theorem mapM_divide {y : K} (hy : y ≠ 0) (xs : List K) :
    xs.mapM (fun x => divide x y) = some (xs.map (· / y)) := by
  induction xs with
  | nil => rfl
  | cons x xs ih =>
    rw [List.mapM_cons, ih, divide, if_neg hy]
    rfl

/-- Neither quotient divides by zero: the sum of the row is not zero, and a sum of zero is replaced by one. -/
theorem rectifyRow_of_pos {delta : K} {probs : List K} (hsum : probs.sum ≠ 0)
    (hpos : 0 < (probs.map fun p => max (p - delta) 0).sum) :
    rectifyRow delta probs =
      some (probs.map fun p => max (p - delta) 0 / (probs.map fun p => max (p - delta) 0).sum) := by
  have hzero : decide ((probs.map fun p => max (p - delta) 0).sum ≤ 0) = false := by
    rw [decide_eq_false_iff_not]
    exact not_le.2 hpos
  unfold rectifyRow
  dsimp only
  rw [hzero, if_neg Bool.false_ne_true, mapM_divide hpos.ne', mapM_divide hsum, List.map_map]
  rfl

theorem rectifyRow_of_not_pos {delta : K} {probs : List K} (hsum : probs.sum ≠ 0)
    (hpos : ¬ 0 < (probs.map fun p => max (p - delta) 0).sum) :
    rectifyRow delta probs = some (probs.map (· / probs.sum)) := by
  have hzero : decide ((probs.map fun p => max (p - delta) 0).sum ≤ 0) = true := decide_eq_true (not_lt.1 hpos)
  unfold rectifyRow
  dsimp only
  rw [hzero, if_pos rfl, mapM_divide one_ne_zero, mapM_divide hsum]
  rfl

theorem rectifies_map {f : K → K} (hf : Monotone f) {probs : List K} (hnonneg : ∀ p ∈ probs, 0 ≤ f p)
    (hsum : (probs.map f).sum = 1) : Rectifies probs (probs.map f) := by
  constructor
  case length => exact List.length_map f
  case distribution => exact ⟨List.forall_mem_map.2 hnonneg, hsum⟩
  case order =>
    intro i hi j hj hle
    have hget : ∀ k < probs.length, (probs.map f).getD k 0 = f (probs.getD k 0) := by
      intro k hk
      rw [List.getD_eq_getElem _ _ (by rwa [List.length_map]), List.getD_eq_getElem _ _ hk, List.getElem_map]
    rw [hget j hj, hget i hi]
    exact hf hle

/-- All rows, one after the other -/
private theorem mapM_rectifyRow {delta : K} {R : List K → List K → Prop} {probs : List (List K)}
    (h : ∀ row ∈ probs, ∃ result, rectifyRow delta row = some result ∧ R row result) :
    ∃ results, rectifyProbabilities probs delta = some results ∧ List.Forall₂ R probs results := by
  unfold rectifyProbabilities
  induction probs with
  | nil => exact ⟨[], rfl, .nil⟩
  | cons row probs ih =>
    obtain ⟨hrow, hprobs⟩ := List.forall_mem_cons.1 h
    obtain ⟨result, hresult, hR⟩ := hrow
    obtain ⟨results, hresults, hall⟩ := ih hprobs
    refine ⟨result :: results, ?_, .cons hR hall⟩
    rw [List.mapM_cons, hresult, hresults]
    rfl

variable [IsStrictOrderedRing K]

/-- Both branches divide by a positive sum, and do not change the order. -/
theorem exists_rectifyRow (delta : K) {probs : List K} (h : IsWeighting probs) :
    ∃ result, rectifyRow delta probs = some result ∧ Rectifies probs result := by
  by_cases hpos : 0 < (probs.map fun p => max (p - delta) 0).sum
  · refine ⟨_, rectifyRow_of_pos h.sum_pos.ne' hpos, rectifies_map ?_ ?_ ?_⟩
    · intro p q hpq
      exact div_le_div_of_nonneg_right (max_le_max_right 0 (sub_le_sub_right hpq delta)) hpos.le
    · exact fun p _ => div_nonneg (le_max_right _ _) hpos.le
    · exact (Multiset.sum_map_div (probs : Multiset K) _ _).trans (div_self hpos.ne')
  · refine ⟨_, rectifyRow_of_not_pos h.sum_pos.ne' hpos, rectifies_map ?_ ?_ ?_⟩
    · exact fun p q hpq => div_le_div_of_nonneg_right hpq h.sum_pos.le
    · exact fun p hp => div_nonneg (h.nonneg p hp) h.sum_pos.le
    · refine (Multiset.sum_map_div (probs : Multiset K) id _).trans ?_
      exact (congrArg (· / probs.sum) (congrArg List.sum (List.map_id probs))).trans (div_self h.sum_pos.ne')

/-! ### The inverse of label smoothing -/

/-- What a model learns that is trained with label smoothing -/
def smoothed (alpha : K) (q : List K) : List K := q.map fun x => (1 - alpha) * x + alpha / q.length

theorem rectifyRow_smoothed {alpha : K} (halpha : 0 ≤ alpha) (halpha' : alpha < 1) {q : List K}
    (hq : IsDistribution q) : rectifyRow (alpha / q.length) (smoothed alpha q) = some q := by
  have hone : 0 < 1 - alpha := sub_pos.2 halpha'
  have hclip : ((smoothed alpha q).map fun p => max (p - alpha / q.length) 0) = q.map ((1 - alpha) * ·) := by
    rw [smoothed, List.map_map]
    refine List.map_congr_left fun x hx => ?_
    rw [Function.comp_apply, add_sub_cancel_right]
    exact max_eq_left (mul_nonneg hone.le (hq.nonneg x hx))
  have hsum : (q.map ((1 - alpha) * ·)).sum = 1 - alpha := by
    rw [List.sum_map_mul_left, List.map_id', hq.sum, mul_one]
  have hpos : 0 < ((smoothed alpha q).map fun p => max (p - alpha / q.length) 0).sum := by
    rw [hclip, hsum]
    exact hone
  have htotal : 0 < (smoothed alpha q).sum := by
    have hshare : 0 ≤ (q.map fun _ => alpha / (q.length : K)).sum := by
      apply List.sum_nonneg
      rintro x hx
      obtain ⟨-, -, rfl⟩ := List.mem_map.1 hx
      exact div_nonneg halpha (Nat.cast_nonneg _)
    rw [smoothed, List.sum_map_add, hsum]
    exact add_pos_of_pos_of_nonneg hone hshare
  have hid : (q.map ((1 - alpha) * ·)).map (· / (1 - alpha)) = q := by
    rw [List.map_map]
    refine (List.map_congr_left fun x _ => ?_).trans (List.map_id' q)
    exact mul_div_cancel_left₀ x hone.ne'
  calc rectifyRow (alpha / q.length) (smoothed alpha q)
      = some (((smoothed alpha q).map fun p => max (p - alpha / q.length) 0).map
          (· / ((smoothed alpha q).map fun p => max (p - alpha / q.length) 0).sum)) := by
        rw [rectifyRow_of_pos htotal.ne' hpos, List.map_map]
        rfl
    _ = some q := by rw [hclip, hsum, hid]

/-! ### All rows -/

/-- Rectification.  Rows of weights become distributions with their entries in the same order, whatever
`delta` is, and nothing is divided by zero; and it undoes the smoothing of distributions with `delta = alpha /
V`. -/
theorem rectify_probabilities_exact :
    (∀ (delta : K) (probs : List (List K)), (∀ row ∈ probs, IsWeighting row) →
        ∃ results, rectifyProbabilities probs delta = some results ∧ List.Forall₂ Rectifies probs results) ∧
      ∀ (alpha : K) (V : ℕ) (qs : List (List K)), 0 ≤ alpha → alpha < 1 →
        (∀ q ∈ qs, IsDistribution q ∧ q.length = V) →
          rectifyProbabilities (qs.map (smoothed alpha)) (alpha / V) = some qs := by
  constructor
  · intro delta probs hprobs
    exact mapM_rectifyRow fun row hrow => exists_rectifyRow delta (hprobs row hrow)
  · intro alpha V qs halpha halpha' hqs
    unfold rectifyProbabilities
    induction qs with
    | nil => rfl
    | cons q qs ih =>
      obtain ⟨⟨hq, hlength⟩, hrest⟩ := List.forall_mem_cons.1 hqs
      have hrow : rectifyRow (alpha / V) (smoothed alpha q) = some q := by
        rw [← hlength]
        exact rectifyRow_smoothed halpha halpha' hq
      rw [List.map_cons, List.mapM_cons, hrow, ih hrest]
      rfl

/-- The clipped row of the paper's equation, and a row that falls back -/
theorem rectify_probabilities_exact_rows :
    ∃ results, rectifyProbabilities [[(1 / 2 : ℚ), 1 / 4, 1 / 4], [0, 1 / 8, 1 / 8]] (1 / 4) = some results ∧
      List.Forall₂ Rectifies [[1 / 2, 1 / 4, 1 / 4], [0, 1 / 8, 1 / 8]] results := by
  have hfirst : IsWeighting [(1 / 2 : ℚ), 1 / 4, 1 / 4] := ⟨by decide +kernel, by decide +kernel⟩
  have hsecond : IsWeighting [(0 : ℚ), 1 / 8, 1 / 8] := ⟨by decide +kernel, by decide +kernel⟩
  refine rectify_probabilities_exact.1 (1 / 4) _ ?_
  exact List.forall_mem_cons.2 ⟨hfirst, List.forall_mem_singleton.2 hsecond⟩

end KaqTranslator
