import Mathlib.Algebra.Field.Basic
import Mathlib.Algebra.Ring.Nat
import Mathlib.Data.List.GetD

/-!
# Tensors

A tensor is a shape and its numbers in a row, as many as the shape has places.  Two tensors of one shape are
added number by number.  A place that is not there counts as 0, so that a tensor is known by its shape and the
numbers at all places (`ext_number`).
-/

structure Tensor (K : Type*) where
  shape : List ℕ
  numbers : List K
  length_numbers : numbers.length = shape.prod
  deriving DecidableEq

namespace Tensor

variable {K : Type*}

def number [Zero K] (t : Tensor K) (i : ℕ) : K := t.numbers.getD i 0

/-- The sum of two tensors of one shape -/
def add [Add K] (s t : Tensor K) (h : t.shape = s.shape) : Tensor K where
  shape := s.shape
  numbers := List.zipWith (· + ·) s.numbers t.numbers
  length_numbers := by rw [List.length_zipWith, s.length_numbers, t.length_numbers, h, Nat.min_self]

def div [Div K] (t : Tensor K) (c : K) : Tensor K where
  shape := t.shape
  numbers := t.numbers.map (· / c)
  length_numbers := by rw [List.length_map, t.length_numbers]

theorem number_add [AddMonoid K] (s t : Tensor K) (h : t.shape = s.shape) (i : ℕ) :
    (s.add t h).number i = s.number i + t.number i := by
  have hlength : s.numbers.length = t.numbers.length := by rw [s.length_numbers, t.length_numbers, h]
  show (List.zipWith (· + ·) s.numbers t.numbers).getD i 0 = s.numbers.getD i 0 + t.numbers.getD i 0
  by_cases hi : i < s.numbers.length
  · have hi' : i < t.numbers.length := by omega
    have hsum : i < (List.zipWith (· + ·) s.numbers t.numbers).length := by
      rw [List.length_zipWith]
      omega
    rw [List.getD_eq_getElem _ _ hsum, List.getD_eq_getElem _ _ hi, List.getD_eq_getElem _ _ hi',
      List.getElem_zipWith]
  · have hi' : t.numbers.length ≤ i := by omega
    have hsum : (List.zipWith (· + ·) s.numbers t.numbers).length ≤ i := by
      rw [List.length_zipWith]
      omega
    rw [List.getD_eq_default _ _ hsum, List.getD_eq_default _ _ (by omega), List.getD_eq_default _ _ hi',
      add_zero]

theorem number_div [DivisionRing K] (t : Tensor K) (c : K) (i : ℕ) : (t.div c).number i = t.number i / c := by
  have hmap : (t.numbers.map (· / c)).getD i (0 / c) = t.numbers.getD i 0 / c := List.getD_map _ 0 (· / c)
  rwa [zero_div] at hmap

theorem ext_number [Zero K] {s t : Tensor K} (hshape : s.shape = t.shape) (h : ∀ i, s.number i = t.number i) :
    s = t := by
  obtain ⟨shape, xs, hxs⟩ := s
  obtain ⟨shape', ys, hys⟩ := t
  obtain rfl : shape = shape' := hshape
  have hlength : xs.length = ys.length := hxs.trans hys.symm
  obtain rfl : xs = ys := by
    apply List.ext_getElem hlength
    intro i hi hi'
    have hnumber : xs.getD i 0 = ys.getD i 0 := h i
    rwa [List.getD_eq_getElem _ _ hi, List.getD_eq_getElem _ _ hi'] at hnumber
  rfl

end Tensor
