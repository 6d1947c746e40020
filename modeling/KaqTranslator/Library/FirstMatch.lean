import Mathlib.Data.List.Basic
import Mathlib.Data.List.TakeWhile

/-!
# The first match of a pattern in a text

A matcher `m` says what a pattern captures when it is tried at the beginning of a text; `search m` tries it at
every position, from the left.  A match may reach beyond the part of the text in which it begins, so
`searchIn` looks for the first match that begins in `x`, in the text `x ++ y`, and `search_append` is the rule
by which a search is cut.  A part in which no match can begin is skipped by `searchIn_eq_none`.

`capture space cls` is the end of a pattern `\s*([…]+)` whose class `cls` holds no white space: it captures a
non-empty run of `cls` after any white space.
-/

namespace FirstMatch

variable {α β : Type*}

def search (m : List α → Option β) : List α → Option β
  | [] => m []
  | c :: s => (m (c :: s)).or (search m s)

/-- The first match that begins in `x`, in the text `x ++ y`. -/
def searchIn (m : List α → Option β) : List α → List α → Option β
  | [], _ => none
  | c :: x, y => (m (c :: (x ++ y))).or (searchIn m x y)

/-- The first match at the beginning of a line. -/
def searchLines [DecidableEq α] (lf : α) (m : List α → Option β) (s : List α) : Option β :=
  (m s).or (afterBreaks s)
where
  afterBreaks : List α → Option β
    | [] => none
    | c :: s => if c = lf then (m s).or (afterBreaks s) else afterBreaks s

variable {m : List α → Option β}

theorem search_append (x y : List α) : search m (x ++ y) = (searchIn m x y).or (search m y) := by
  induction x with
  | nil => rfl
  | cons c x ih => rw [List.cons_append, search, ih, searchIn, Option.or_assoc]

theorem searchIn_append (x x' y : List α) :
    searchIn m (x ++ x') y = (searchIn m x (x' ++ y)).or (searchIn m x' y) := by
  induction x with
  | nil => rfl
  | cons c x ih => rw [List.cons_append, searchIn, ih, searchIn, List.append_assoc, Option.or_assoc]

theorem searchIn_eq_none {x y : List α} (h : ∀ u v, x = u ++ v → v ≠ [] → m (v ++ y) = none) :
    searchIn m x y = none := by
  induction x with
  | nil => rfl
  | cons c x ih =>
    have hc : m (c :: (x ++ y)) = none := h [] (c :: x) rfl (by simp)
    have hx : searchIn m x y = none := by
      refine ih fun u v hx hv => h (c :: u) v ?_ hv
      rw [hx, List.cons_append]
    rw [searchIn, hc, hx]
    rfl

theorem searchIn_cons_of_none {c : α} {x y : List α} (h : m (c :: (x ++ y)) = none) :
    searchIn m (c :: x) y = searchIn m x y := by
  rw [searchIn, h, Option.none_or]

/-- No match begins with a character of `x`. -/
theorem searchIn_eq_none_of_head {x : List α} (h : ∀ c ∈ x, ∀ s, m (c :: s) = none) (y : List α) :
    searchIn m x y = none := by
  refine searchIn_eq_none fun u v hx hv => ?_
  cases v with
  | nil => exact absurd rfl hv
  | cons c v => exact h c (hx ▸ List.mem_append_right _ (List.mem_cons_self ..)) _

theorem search_eq_some {s : List α} {w : β} (h : search m s = some w) : ∃ u, m u = some w := by
  induction s with
  | nil => exact ⟨[], h⟩
  | cons c s ih =>
    rw [search] at h
    exact (Option.or_eq_some_iff.1 h).elim (fun h => ⟨c :: s, h⟩) fun h => ih h.2

theorem searchLines_eq_some [DecidableEq α] {lf : α} {s : List α} {w : β} (h : searchLines lf m s = some w) :
    ∃ u, m u = some w := by
  have hafter : ∀ s, searchLines.afterBreaks lf m s = some w → ∃ u, m u = some w := by
    intro s h
    induction s with
    | nil => cases h
    | cons c s ih =>
      rw [searchLines.afterBreaks] at h
      split at h
      · exact (Option.or_eq_some_iff.1 h).elim (fun h => ⟨s, h⟩) fun h => ih h.2
      · exact ih h
  exact (Option.or_eq_some_iff.1 h).elim (fun h => ⟨s, h⟩) fun h => hafter s h.2

/-! ### Captures -/

section Capture

variable (space cls : α → Bool)

def capture (s : List α) : Option (List α) :=
  let v := (s.dropWhile space).takeWhile cls
  if v.isEmpty then none else some v

variable {space cls}

theorem capture_eq_some {s w : List α} (h : capture space cls s = some w) : w ≠ [] ∧ ∀ c ∈ w, cls c = true := by
  simp only [capture] at h
  split at h
  · cases h
  · rename_i hne
    obtain rfl := Option.some.inj h
    exact ⟨by simpa using hne, fun c hc => List.mem_takeWhile_imp hc⟩

/-- A run of `cls` between white space is captured. -/
theorem capture_run {b e : α} {v rest : List α} (hb : space b = true) (hv : v ≠ [])
    (hcls : ∀ c ∈ v, cls c = true) (hspace : ∀ c, cls c = true → space c = false) (he : cls e = false) :
    capture space cls (b :: (v ++ e :: rest)) = some v := by
  have hdrop : (b :: (v ++ e :: rest)).dropWhile space = v ++ e :: rest := by
    cases v with
    | nil => exact absurd rfl hv
    | cons c v =>
      have hc : space c = false := hspace c (hcls c (List.mem_cons_self ..))
      rw [List.dropWhile_cons_of_pos hb, List.cons_append, List.dropWhile_cons_of_neg (by simp [hc])]
  have htake : (v ++ e :: rest).takeWhile cls = v := by
    rw [List.takeWhile_append_of_pos hcls, List.takeWhile_cons_of_neg (by simp [he]), List.append_nil]
  simp only [capture, hdrop, htake]
  rw [if_neg (by simpa using hv)]

end Capture

end FirstMatch
