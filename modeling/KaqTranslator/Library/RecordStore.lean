import Mathlib.Logic.Function.Basic
import Mathlib.Data.List.Basic

/-!
# A store of attribute records with conditional updates

The items of a key-value store are partial maps from attributes to values.  `updateItem` is an atomic
conditional update with upsert semantics: the condition is read on the stored item (on no attributes when
nothing is stored), and a missing item starts from the attributes of its key alone.  When every update of a
family falsifies its own condition (`Closes`), only the first of them has an effect
(`foldl_conditionalWrite`).

A `History` keeps every version of every item, so that a read which is not strongly consistent can be answered
from any of them (`History.answer`), the absence before the first write included.
-/

namespace RecordStore

variable {K A V : Type*}

/-- An item: its attributes and their values. -/
abbrev Item (A V : Type*) := A → Option V

abbrev Table (K A V : Type*) := K → Option (Item A V)

inductive Condition (A V : Type*) where
  | attributeNotExists (a : A)
  | equals (a : A) (v : V)
  | or (c d : Condition A V)

def Condition.eval [DecidableEq V] : Condition A V → Item A V → Bool
  | attributeNotExists a, r => (r a).isNone
  | equals a v, r => decide (r a = some v)
  | or c d, r => c.eval r || d.eval r

section Writes

variable [DecidableEq A]

/-- `SET a₁ = v₁, a₂ = v₂, …`. -/
def Item.set (r : Item A V) : List (A × V) → Item A V
  | [] => r
  | (a, v) :: fields => Item.set (Function.update r a (some v)) fields

variable [DecidableEq V]

/-- An atomic conditional update of the item stored at one key; `none` when the condition fails.  `blank` is
the item that holds the attributes of the key alone. -/
def updateItem (blank : Item A V) (c : Condition A V) (fields : List (A × V)) (r : Option (Item A V)) :
    Option (Item A V) :=
  if c.eval (r.getD fun _ => none) then some (Item.set (r.getD blank) fields) else none

/-- The conditional update of a writer that ignores a failed condition: what is stored after it. -/
def conditionalWrite (blank : Item A V) (c : Condition A V) (r : Option (Item A V)) (fields : List (A × V)) :
    Option (Item A V) :=
  match updateItem blank c fields r with
  | some r' => some r'
  | none => r

variable {blank : Item A V} {c : Condition A V} {fields : List (A × V)}

theorem conditionalWrite_of_eval {r : Item A V} (h : c.eval r = true) :
    conditionalWrite blank c (some r) fields = some (Item.set r fields) := by
  simp [conditionalWrite, updateItem, h]

theorem conditionalWrite_of_not_eval {r : Item A V} (h : c.eval r = false) :
    conditionalWrite blank c (some r) fields = some r := by
  simp [conditionalWrite, updateItem, h]

theorem conditionalWrite_none (h : c.eval (fun _ => none) = true) :
    conditionalWrite blank c none fields = some (Item.set blank fields) := by
  simp [conditionalWrite, updateItem, h]

/-- After the update its own condition fails. -/
def Closes (c : Condition A V) (fields : List (A × V)) : Prop :=
  ∀ r : Item A V, c.eval (Item.set r fields) = false

theorem foldl_conditionalWrite_closed {ws : List (List (A × V))} {r : Item A V} (h : c.eval r = false) :
    ws.foldl (conditionalWrite blank c) (some r) = some r := by
  induction ws with
  | nil => rfl
  | cons w ws ih => rw [List.foldl_cons, conditionalWrite_of_not_eval h, ih]

/-- The first write wins: of updates that each close the condition, only the first has an effect. -/
theorem foldl_conditionalWrite {ws : List (List (A × V))} (hws : ∀ w ∈ ws, Closes c w) {r : Item A V}
    (h : c.eval r = true) :
    ws.foldl (conditionalWrite blank c) (some r) = some (Item.set r (ws.head?.getD [])) := by
  cases ws with
  | nil => rfl
  | cons w ws =>
    rw [List.foldl_cons, conditionalWrite_of_eval h,
      foldl_conditionalWrite_closed (hws w (List.mem_cons_self ..) r)]
    rfl

end Writes

/-! ### Versions and reads that are not strongly consistent -/

/-- The versions of every item, newest first; `none` is a deletion. -/
abbrev History (K A V : Type*) := K → List (Option (Item A V))

def History.current (h : History K A V) : Table K A V := fun k => (h k).headD none

/-- What a read is answered with when it sees the `n`-th newest version; past the first write, the absence. -/
def History.answer (h : History K A V) (k : K) (n : ℕ) : Option (Item A V) := (h k).getD n none

def History.record [DecidableEq K] (h : History K A V) (k : K) (r : Option (Item A V)) : History K A V :=
  Function.update h k (r :: h k)

@[simp] theorem History.current_record [DecidableEq K] (h : History K A V) (k : K) (r : Option (Item A V)) :
    (h.record k r).current = Function.update h.current k r := by
  funext j
  by_cases hj : j = k
  · subst hj; simp [current, record]
  · simp [current, record, hj]

theorem History.current_eq_answer (h : History K A V) (k : K) : h.current k = h.answer k 0 := by
  unfold current answer
  cases h k <;> rfl

theorem History.answer_mem {h : History K A V} {k : K} {n : ℕ} {r : Item A V} (ha : h.answer k n = some r) :
    some r ∈ h k := by
  unfold answer at ha
  rw [List.getD_eq_getElem?_getD] at ha
  cases hn : (h k)[n]? with
  | none => rw [hn] at ha; cases ha
  | some v =>
    rw [hn, Option.getD_some] at ha
    exact ha ▸ List.mem_of_getElem? hn

theorem History.mem_record [DecidableEq K] {h : History K A V} {k j : K} {r v : Option (Item A V)} :
    v ∈ h.record k r j ↔ (j = k ∧ v = r) ∨ v ∈ h j := by
  by_cases hj : j = k
  · subst hj; simp [record]
  · simp [record, hj]

end RecordStore
