import Mathlib.Algebra.BigOperators.Group.List.Basic
import Mathlib.Algebra.CharZero.Defs
import Mathlib.Algebra.Field.Defs
import Mathlib.Data.List.ProdSigma
import Mathlib.Tactic.LinearCombination
import Mathlib.Tactic.Ring

/-!
# Ranks

The rank of a value among others is one more than the number of those below it, and half the number of the
others that are equal to it (`midrank`).  A pair of values is above, below or tied
(`above_add_above_add_tied`), and the ranks of the values of one list among those of two add up to the pairs
in which the first list is above the second, the tied ones counting half, and a number that depends on its
length alone (`sum_midrank`).
-/

namespace Ranks

variable {α : Type*} [LinearOrder α]

/-- The pairs whose first value is above the second -/
def above (xs ys : List α) : ℕ := (xs ×ˢ ys).countP fun p => p.2 < p.1

/-- The pairs whose values are equal -/
def tied (xs ys : List α) : ℕ := (xs ×ˢ ys).countP fun p => p.1 = p.2

theorem above_cons (x : α) (xs ys : List α) : above (x :: xs) ys = ys.countP (· < x) + above xs ys := by
  rw [above, List.product_cons, List.countP_append, List.countP_map]
  rfl

theorem tied_cons (x : α) (xs ys : List α) : tied (x :: xs) ys = ys.countP (x = ·) + tied xs ys := by
  rw [tied, List.product_cons, List.countP_append, List.countP_map]
  rfl

theorem above_cons_right (xs : List α) (y : α) (ys : List α) :
    above xs (y :: ys) = xs.countP (y < ·) + above xs ys := by
  induction xs with
  | nil => rfl
  | cons x xs ih =>
    rw [above_cons, above_cons, ih, List.countP_cons, List.countP_cons]
    omega

/-- A pair is above, below or tied. -/
theorem above_add_above_add_tied (xs ys : List α) :
    above xs ys + above ys xs + tied xs ys = xs.length * ys.length := by
  have hone : ∀ (x : α) (ys : List α),
      ys.countP (· < x) + ys.countP (x < ·) + ys.countP (x = ·) = ys.length := by
    intro x ys
    induction ys with
    | nil => rfl
    | cons y ys ih =>
      rw [List.countP_cons, List.countP_cons, List.countP_cons, List.length_cons, ← ih]
      rcases lt_trichotomy x y with h | h | h
      · simp [h, h.not_gt, h.ne]
        omega
      · simp [h]
        omega
      · simp [h, h.not_gt, h.ne']
        omega
  induction xs with
  | nil =>
    have hright : above ys ([] : List α) = 0 := by rw [above, List.product_nil, List.countP_nil]
    rw [hright, List.length_nil, Nat.zero_mul]
    rfl
  | cons x xs ih =>
    rw [above_cons, above_cons_right, tied_cons, List.length_cons, Nat.succ_mul, ← ih, ← hone x ys]
    omega

theorem tied_comm (xs ys : List α) : tied xs ys = tied ys xs := by
  have hxy := above_add_above_add_tied xs ys
  have hyx := above_add_above_add_tied ys xs
  rw [Nat.mul_comm] at hyx
  omega

/-! ### Ranks -/

variable {K : Type*} [Field K]

/-- The rank of `v` among the values, which count from 1, if those that are equal share theirs -/
def midrank (K : Type*) [Field K] (values : List α) (v : α) : K :=
  values.countP (· < v) + (values.countP (v = ·) + 1) / 2

theorem midrank_of_perm {values values' : List α} (h : values.Perm values') (v : α) :
    midrank K values v = midrank K values' v := by
  rw [midrank, midrank, h.countP_eq, h.countP_eq]

/-- The rank of values that are equal, where the others are known to be below or above -/
theorem midrank_of_split {before ties after : List α} {v : α} (hbefore : ∀ a ∈ before, a < v)
    (hties : ∀ a ∈ ties, a = v) (hafter : ∀ a ∈ after, v < a) :
    midrank K (before ++ ties ++ after) v = before.length + (ties.length + 1) / 2 := by
  have hless : (before ++ ties ++ after).countP (· < v) = before.length := by
    rw [List.countP_append, List.countP_append,
      List.countP_eq_length.2 fun a ha => decide_eq_true (hbefore a ha),
      List.countP_eq_zero.2 fun a ha => by simp [hties a ha],
      List.countP_eq_zero.2 fun a ha => by simp [(hafter a ha).le]]
    rfl
  have hequal : (before ++ ties ++ after).countP (v = ·) = ties.length := by
    rw [List.countP_append, List.countP_append, List.countP_eq_zero.2 fun a ha => by simp [(hbefore a ha).ne'],
      List.countP_eq_length.2 fun a ha => decide_eq_true (hties a ha).symm,
      List.countP_eq_zero.2 fun a ha => by simp [(hafter a ha).ne]]
    omega
  rw [midrank, hless, hequal]

private theorem sum_midrank_of (xs values : List α) :
    (xs.map (midrank K values)).sum = above xs values + (tied xs values + xs.length) / 2 := by
  induction xs with
  | nil => simp [above, tied]
  | cons x xs ih =>
    rw [List.map_cons, List.sum_cons, ih, midrank, above_cons, tied_cons, List.length_cons]
    push_cast
    ring

private theorem above_append_right (xs ys zs : List α) : above xs (ys ++ zs) = above xs ys + above xs zs := by
  induction xs with
  | nil => rfl
  | cons x xs ih =>
    rw [above_cons, above_cons, above_cons, ih, List.countP_append]
    omega

private theorem tied_append_right (xs ys zs : List α) : tied xs (ys ++ zs) = tied xs ys + tied xs zs := by
  induction xs with
  | nil => rfl
  | cons x xs ih =>
    rw [tied_cons, tied_cons, tied_cons, ih, List.countP_append]
    omega

/-- The ranks of the first values among all values -/
theorem sum_midrank [CharZero K] (xs ys : List α) :
    (xs.map (midrank K (xs ++ ys))).sum =
      (above xs ys + tied xs ys / 2) + xs.length * (xs.length + 1) / 2 := by
  -- among themselves, every value is above as many as are above it
  have hself : (2 * above xs xs + tied xs xs : K) = xs.length * xs.length := by
    have h := above_add_above_add_tied xs xs
    rw [← Nat.two_mul] at h
    exact_mod_cast h
  rw [sum_midrank_of, above_append_right, tied_append_right]
  push_cast
  linear_combination hself / 2

end Ranks
