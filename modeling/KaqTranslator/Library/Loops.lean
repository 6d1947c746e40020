import Mathlib.Data.List.Induction
import Mathlib.Logic.Relation

/-!
# Loops

A loop that changes a state at every element of a list is a `foldl`.  `foldl_invariant` is the rule for an
invariant that speaks of the elements already passed: at each step the list is cut at the current element.

`bisect` is the loop that looks for a large number that passes a test.  Nothing is assumed of the test: what
it finds is the lower end of the search, or has passed the test (`bisect_induction`).  It finds the largest
number that passes if and only if no smaller one fails among the midpoints on the way there (`bisect_eq_iff`).

A loop that may not end is run for a number of rounds (`runWhile`); one that has a number of rounds, and can
be over before (`runFor`), ends anyway.
-/

namespace Loops

variable {α σ : Type*} {f : σ → α → σ} {as : List α} {P : List α → σ → Prop} {s : σ}

theorem foldl_invariant (hinit : P [] s)
    (hstep : ∀ before a after s, as = before ++ a :: after → P before s → P (before ++ [a]) (f s a))
    {before after : List α} (h : as = before ++ after) : P before (before.foldl f s) := by
  induction before using List.reverseRecOn generalizing after with
  | nil => exact hinit
  | append_singleton before a ih =>
    have hcut : as = before ++ a :: after := by rw [h, List.append_assoc, List.singleton_append]
    rw [List.foldl_append, List.foldl_cons, List.foldl_nil]
    exact hstep before a after _ hcut (ih hcut)

/-! ### Bisection -/

section Bisection

variable {fits : ℕ → Bool} {low high : ℕ}

/-- `while (low < high)`, with the midpoint rounded up -/
def bisect (fits : ℕ → Bool) (low high : ℕ) : ℕ :=
  if low < high then
    let mid := (low + high + 1) / 2
    if fits mid then bisect fits mid high else bisect fits low (mid - 1)
  else low
termination_by high - low

theorem bisect_induction {Q : ℕ → Prop} (hlow : Q low) (hfits : ∀ mid, fits mid = true → Q mid) :
    Q (bisect fits low high) := by
  fun_induction bisect fits low high with
  | case1 low high hlt mid hmid ih => exact ih (hfits mid hmid)
  | case2 low high hlt mid hmid ih => exact ih hlow
  | case3 low high hnlt => exact hlow

theorem bisect_le (h : low ≤ high) : bisect fits low high ≤ high := by
  fun_induction bisect fits low high with
  | case1 low high hlt mid hmid ih => exact ih (by omega)
  | case2 low high hlt mid hmid ih =>
    have hle := ih (by omega)
    omega
  | case3 low high hnlt => exact h

/-- The midpoints that a search for `target` tries -/
def probes (target low high : ℕ) : List ℕ :=
  if low < high then
    let mid := (low + high + 1) / 2
    mid :: if mid ≤ target then probes target mid high else probes target low (mid - 1)
  else []
termination_by high - low

theorem bisect_eq_iff {target : ℕ} (hlow : low ≤ target) (hhigh : target ≤ high)
    (habove : ∀ n, target < n → n ≤ high → fits n = false) :
    bisect fits low high = target ↔ ∀ mid ∈ probes target low high, mid ≤ target → fits mid = true := by
  fun_induction probes target low high with
  | case1 low high hlt mid ihhigh ihlow =>
    have hmid : mid = (low + high + 1) / 2 := rfl
    have hstep : bisect fits low high =
        if fits mid then bisect fits mid high else bisect fits low (mid - 1) := by
      rw [bisect, if_pos hlt]
    rw [hstep, List.forall_mem_cons]
    by_cases hle : mid ≤ target
    · rw [if_pos hle]
      cases hfits : fits mid with
      | true =>
        rw [if_pos rfl, ihhigh hle hhigh habove]
        exact ⟨fun h => ⟨fun _ => rfl, h⟩, fun h => h.2⟩
      | false =>
        -- the search goes on below the target
        have hbelow : bisect fits low (mid - 1) ≤ mid - 1 := bisect_le (by omega)
        rw [if_neg Bool.false_ne_true]
        exact iff_of_false (by omega) fun h => Bool.false_ne_true (h.1 hle)
    · have hfits : fits mid = false := habove mid (by omega) (by omega)
      rw [if_neg hle, hfits, if_neg Bool.false_ne_true,
        ihlow hlow (by omega) fun n hn hn' => habove n hn (by omega)]
      exact ⟨fun h => ⟨fun hle' => absurd hle' hle, h⟩, fun h => h.2⟩
  | case2 low high hnlt =>
    have heq : bisect fits low high = target := by
      rw [bisect, if_neg hnlt]
      omega
    exact iff_of_true heq fun _ h => by cases h

end Bisection

/-! ### Loops that may not end -/

section While

variable {step : σ → Option σ} {s t : σ}

/-- The loop with the body `step`, which gives nothing when it is over; nothing if it is not over after `fuel`
rounds -/
def runWhile (step : σ → Option σ) : ℕ → σ → Option σ
  | 0, _ => none
  | fuel + 1, s =>
    match step s with
    | none => some s
    | some t => runWhile step fuel t

/-- The loop comes from `s` to `t`. -/
def Reaches (step : σ → Option σ) : σ → σ → Prop := Relation.ReflTransGen fun s t => step s = some t

theorem Reaches.invariant {P : σ → Prop} (hstep : ∀ s t, P s → step s = some t → P t) (h : Reaches step s t)
    (hP : P s) : P t := by
  induction h with
  | refl => exact hP
  | tail _ hnext ih => exact hstep _ _ ih hnext

theorem reaches_of_runWhile {fuel : ℕ} (h : runWhile step fuel s = some t) :
    Reaches step s t ∧ step t = none := by
  induction fuel generalizing s with
  | zero => cases h
  | succ fuel ih =>
    rw [runWhile] at h
    cases hnext : step s with
    | none =>
      rw [hnext] at h
      obtain rfl := Option.some.inj h
      exact ⟨.refl, hnext⟩
    | some u =>
      rw [hnext] at h
      exact ⟨(ih h).1.head hnext, (ih h).2⟩

/-- A loop of which every round makes a number smaller is over after that many rounds. -/
theorem exists_runWhile {P : σ → Prop} {m : σ → ℕ} (hstep : ∀ s t, P s → step s = some t → P t ∧ m t < m s)
    (hP : P s) {fuel : ℕ} (hfuel : m s < fuel) : ∃ t, runWhile step fuel s = some t ∧ P t := by
  induction fuel generalizing s with
  | zero => exact absurd hfuel (Nat.not_lt_zero _)
  | succ fuel ih =>
    rw [runWhile]
    cases hnext : step s with
    | none => exact ⟨s, rfl, hP⟩
    | some u =>
      obtain ⟨hu, hlt⟩ := hstep s u hP hnext
      exact ih hu (by omega)

/-- A loop of at most `n` rounds -/
def runFor (step : σ → Option σ) : ℕ → σ → σ
  | 0, s => s
  | n + 1, s =>
    match step s with
    | none => s
    | some t => runFor step n t

theorem reaches_runFor (n : ℕ) (s : σ) : Reaches step s (runFor step n s) := by
  induction n generalizing s with
  | zero => exact .refl
  | succ n ih =>
    rw [runFor]
    cases hnext : step s with
    | none => exact .refl
    | some t => exact (ih t).head hnext

end While

end Loops
