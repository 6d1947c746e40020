import Mathlib.Algebra.BigOperators.Fin
import Mathlib.Algebra.Order.BigOperators.Group.List
import Mathlib.Algebra.Order.BigOperators.Ring.Finset
import Mathlib.Algebra.Order.Field.Basic
import Mathlib.Tactic.Linarith
import Mathlib.Tactic.LinearCombination

/-!
# Centroids

The squared distances of points to `c` add up to those to their mean, and the distance from the mean to `c`
once for each point (`sum_sqDist`).  So the mean is the best centre (`sum_sqDist_mean_le`); and how much
nearer a mean is to one point than to another is how much nearer its points are, on the average
(`sum_closeness`).
-/

namespace Centroids

variable {ι : Type*} [Fintype ι] {K : Type*} [Field K]

/-- The square of the Euclidean distance -/
def sqDist (x y : ι → K) : K := ∑ i, (x i - y i) ^ 2

def mean (xs : List (ι → K)) : ι → K := fun i => (xs.map fun x => x i).sum / xs.length

theorem sqDist_self (x : ι → K) : sqDist x x = 0 := by
  simp [sqDist]

/-- In one dimension -/
private theorem sum_sq_sub (xs : List K) (m c : K) :
    (xs.map fun x => (x - c) ^ 2).sum =
      (xs.map fun x => (x - m) ^ 2).sum + 2 * (m - c) * (xs.sum - xs.length * m) + xs.length * (m - c) ^ 2 := by
  induction xs with
  | nil => simp
  | cons x xs ih =>
    rw [List.map_cons, List.map_cons, List.sum_cons, List.sum_cons, List.sum_cons, List.length_cons, ih]
    push_cast
    ring

private theorem sum_sqDist_eq (xs : List (ι → K)) (c : ι → K) :
    (xs.map fun x => sqDist x c).sum = ∑ i, (xs.map fun x => (x i - c i) ^ 2).sum := by
  induction xs with
  | nil => simp
  | cons x xs ih =>
    rw [List.map_cons, List.sum_cons, ih, sqDist, ← Finset.sum_add_distrib]
    rfl

/-- The squared distances to a point, through the mean -/
theorem sum_sqDist [CharZero K] {xs : List (ι → K)} (hxs : xs ≠ []) (c : ι → K) :
    (xs.map fun x => sqDist x c).sum =
      (xs.map fun x => sqDist x (mean xs)).sum + xs.length * sqDist (mean xs) c := by
  have hlength : (xs.length : K) ≠ 0 := by
    rw [Nat.cast_ne_zero]
    exact fun h => hxs (List.length_eq_zero_iff.1 h)
  rw [sum_sqDist_eq, sum_sqDist_eq, sqDist, Finset.mul_sum, ← Finset.sum_add_distrib]
  refine Finset.sum_congr rfl fun i _ => ?_
  have hsum : (xs.map fun x => x i).sum - xs.length * mean xs i = 0 := by
    rw [mean, mul_div_cancel₀ _ hlength, sub_self]
  have hcoordinate := sum_sq_sub (xs.map fun x => x i) (mean xs i) (c i)
  rw [List.length_map, hsum, List.map_map, List.map_map] at hcoordinate
  simpa [Function.comp_def] using hcoordinate

/-- How much nearer `x` is to `a` than to `b` -/
def closeness (a b x : ι → K) : K := sqDist x b - sqDist x a

theorem closeness_swap (a b x : ι → K) : closeness b a x = - closeness a b x := by
  rw [closeness, closeness, neg_sub]

theorem sum_closeness [CharZero K] {xs : List (ι → K)} (hxs : xs ≠ []) (a b : ι → K) :
    (xs.map (closeness a b)).sum = xs.length * closeness a b (mean xs) := by
  have hsub : ∀ ys : List (ι → K), (ys.map (closeness a b)).sum =
      (ys.map fun x => sqDist x b).sum - (ys.map fun x => sqDist x a).sum := by
    intro ys
    induction ys with
    | nil => simp
    | cons y ys ih =>
      simp only [List.map_cons, List.sum_cons, ih, closeness]
      ring
  rw [hsub, sum_sqDist hxs a, sum_sqDist hxs b, closeness]
  ring

section Ordered

variable [LinearOrder K] [IsStrictOrderedRing K]

theorem sqDist_nonneg (x y : ι → K) : 0 ≤ sqDist x y := Finset.sum_nonneg fun _ _ => sq_nonneg _

theorem sqDist_pos {x y : ι → K} (h : x ≠ y) : 0 < sqDist x y := by
  obtain ⟨i, hi⟩ := Function.ne_iff.1 h
  have hpos : 0 < (x i - y i) ^ 2 := by
    have hne := sub_ne_zero.2 hi
    positivity
  exact hpos.trans_le (Finset.single_le_sum (fun j _ => sq_nonneg (x j - y j)) (Finset.mem_univ i))

theorem closeness_self_pos {a b : ι → K} (h : a ≠ b) : 0 < closeness a b a := by
  rw [closeness, sqDist_self, sub_zero]
  exact sqDist_pos h

/-- The mean is the best centre. -/
theorem sum_sqDist_mean_le {xs : List (ι → K)} (hxs : xs ≠ []) (c : ι → K) :
    (xs.map fun x => sqDist x (mean xs)).sum ≤ (xs.map fun x => sqDist x c).sum := by
  rw [sum_sqDist hxs c]
  exact le_add_of_nonneg_right (mul_nonneg (Nat.cast_nonneg _) (sqDist_nonneg _ _))

/-! ### Which side the mean is on -/

variable {xs : List (ι → K)} {a b : ι → K}

theorem closeness_mean_nonneg (hxs : xs ≠ []) (h : ∀ x ∈ xs, 0 ≤ closeness a b x) :
    0 ≤ closeness a b (mean xs) := by
  have hlength : (0 : K) < xs.length := by exact_mod_cast List.length_pos_iff.2 hxs
  have hsum : 0 ≤ (xs.map (closeness a b)).sum := List.sum_nonneg (List.forall_mem_map.2 h)
  rw [sum_closeness hxs] at hsum
  exact nonneg_of_mul_nonneg_right hsum hlength

theorem closeness_mean_neg (hxs : xs ≠ []) (h : ∀ x ∈ xs, closeness a b x < 0) :
    closeness a b (mean xs) < 0 := by
  have hlength : (0 : K) ≤ xs.length := Nat.cast_nonneg _
  have hsum : (xs.map (closeness a b)).sum < (xs.map fun _ => (0 : K)).sum :=
    List.sum_lt_sum_of_ne_nil hxs _ _ h
  rw [sum_closeness hxs, List.map_const', List.sum_replicate, smul_zero] at hsum
  exact neg_of_mul_neg_right hsum hlength

/-- A mean that is nearer to `a` has a point that is. -/
theorem exists_closeness_pos (hxs : xs ≠ []) (h : 0 < closeness a b (mean xs)) :
    ∃ x ∈ xs, 0 < closeness a b x := by
  by_contra hnone
  have hall : ∀ x ∈ xs, 0 ≤ closeness b a x := by
    intro x hx
    rw [closeness_swap]
    exact neg_nonneg.2 (not_lt.1 fun hpos => hnone ⟨x, hx, hpos⟩)
  have hmean := closeness_mean_nonneg hxs hall
  rw [closeness_swap] at hmean
  linarith

end Ordered

end Centroids
