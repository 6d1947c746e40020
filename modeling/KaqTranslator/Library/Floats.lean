import Mathlib.Data.Rat.Defs
import Mathlib.Algebra.Order.Ring.Rat

/-!
# Floats

Floating-point numbers with their infinities and NaN.  How a finite result is rounded, and when it overflows,
is a parameter; what the operations do with an infinity or NaN is not.  The two zeros are one number, so a
quotient by zero has the sign of its numerator.
-/

inductive Double where
  | nan
  | inf (negative : Bool)
  | finite (x : ℚ)
  deriving DecidableEq

namespace Double

/-- What becomes of a finite result, and of a square root -/
structure Rounding where
  round : ℚ → Double
  sqrt : ℚ → Double

/-- `x == y`, which is false for NaN and itself -/
def eq : Double → Double → Bool
  | nan, _ => false
  | _, nan => false
  | inf a, inf b => a == b
  | finite x, finite y => x == y
  | _, _ => false

/-- `x < y` -/
def less : Double → Double → Bool
  | nan, _ => false
  | _, nan => false
  | inf a, inf b => a && !b
  | inf a, finite _ => a
  | finite _, inf b => !b
  | finite x, finite y => x < y

/-- The order in which arrays are sorted, with NaN at the end -/
def sortsBefore (x y : Double) : Bool := less x y || (decide (y = nan) && decide (x ≠ nan))

variable (r : Rounding)

def add : Double → Double → Double
  | nan, _ => nan
  | _, nan => nan
  | inf a, inf b => if a = b then inf a else nan
  | inf a, finite _ => inf a
  | finite _, inf b => inf b
  | finite x, finite y => r.round (x + y)

def mul : Double → Double → Double
  | nan, _ => nan
  | _, nan => nan
  | inf a, inf b => inf (a != b)
  | inf a, finite y => if y = 0 then nan else inf (a != decide (y < 0))
  | finite x, inf b => if x = 0 then nan else inf (decide (x < 0) != b)
  | finite x, finite y => r.round (x * y)

def div : Double → Double → Double
  | nan, _ => nan
  | _, nan => nan
  | inf _, inf _ => nan
  | inf a, finite y => inf (a != decide (y < 0))
  | finite _, inf _ => finite 0
  | finite x, finite y => if y = 0 then (if x = 0 then nan else inf (decide (x < 0))) else r.round (x / y)

def sqrt : Double → Double
  | nan => nan
  | inf negative => if negative then nan else inf false
  | finite x => if x < 0 then nan else r.sqrt x

def sum : List Double → Double
  | [] => finite 0
  | x :: xs => xs.foldl (add r) x

theorem eq_self_iff {x : Double} : eq x x = true ↔ x ≠ nan := by
  cases x <;> simp [eq]

theorem eq_self_of_eq {x y : Double} (h : eq x y = true) : eq x x = true := by
  rw [eq_self_iff]
  rintro rfl
  cases h

end Double
