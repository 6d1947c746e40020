import Mathlib.Data.List.Basic

/-!
# Teacher forcing

Each output of a causal function on sequences depends on the inputs up to its position alone.  To train one on
a sequence of labels, it is given the labels one position late, behind a start symbol (`shiftRight`), and is
asked for the label at each position; sequences of several lengths are filled up to one width, and the
positions of the filling are not asked for (`supervised`).  What it is asked for is then what it is asked for
when it is run on the labels one by one, and the filling makes no difference (`supervised_padRight`).
-/

namespace Causal

variable {α β : Type*} {f : List α → List β}

structure IsCausal (f : List α → List β) : Prop where
  length : ∀ xs, (f xs).length = xs.length
  take : ∀ xs n, f (xs.take n) = (f xs).take n

/-- The output at the last position -/
def next (f : List α → List β) (xs : List α) : Option β := (f xs).getLast?

/-- The output after `context`, with the first of the labels, and so on with that label behind the context -/
def teacherForced (f : List α → List β) (context : List α) : List α → List (Option β × α)
  | [] => []
  | x :: xs => (next f context, x) :: teacherForced f (context ++ [x]) xs

def padRight (width : ℕ) (filling : α) (xs : List α) : List α :=
  xs ++ List.replicate (width - xs.length) filling

theorem length_padRight {width : ℕ} {xs : List α} (h : xs.length ≤ width) (filling : α) :
    (padRight width filling xs).length = width := by
  rw [padRight, List.length_append, List.length_replicate]
  omega

section Shift

variable [DecidableEq α]

/-- The labels one position late, with `pad` for the ones that are ignored -/
def shiftRight (start ignored pad : α) (xs : List α) : List α :=
  start :: xs.dropLast.map fun x => if x = ignored then pad else x

/-- The outputs at the positions that are not ignored, with their labels -/
def supervised (ignored : α) (outputs : List β) (labels : List α) : List (β × α) :=
  (outputs.zip labels).filter fun p => p.2 ≠ ignored

end Shift

theorem getElem?_teacherForced (f : List α → List β) (context xs : List α) (j : ℕ) :
    (teacherForced f context xs)[j]? = xs[j]?.map fun x => (next f (context ++ xs.take j), x) := by
  induction xs generalizing context j with
  | nil => simp [teacherForced]
  | cons x xs ih =>
    cases j with
    | zero => simp [teacherForced]
    | succ j => simp [teacherForced, ih]

theorem IsCausal.getElem?_eq_next (h : IsCausal f) {xs : List α} {j : ℕ} (hj : j < xs.length) :
    (f xs)[j]? = next f (xs.take (j + 1)) := by
  have hlength : j < (f xs).length := by
    rw [h.length]
    exact hj
  have hlast : ((f xs).take (j + 1)).getLast? = (f xs)[j]? := by
    rw [List.getLast?_eq_getElem?, List.length_take, List.getElem?_take]
    have hmin : min (j + 1) (f xs).length - 1 = j := by omega
    rw [hmin, if_pos (by omega)]
  rw [next, h.take, hlast]

/-- The labels behind the start symbol give, position by position, what the labels one by one give. -/
theorem IsCausal.zip_eq_teacherForced (h : IsCausal f) (start : α) (labels : List α) :
    ((f (start :: labels.dropLast)).zip labels).map (fun p => (some p.1, p.2)) =
      teacherForced f [start] labels := by
  refine List.ext_getElem? fun j => ?_
  rw [getElem?_teacherForced, List.getElem?_map, List.zip_eq_zipWith, List.getElem?_zipWith]
  by_cases hj : j < labels.length
  · have hinput : (start :: labels.dropLast).length = labels.length := by
      rw [List.length_cons, List.length_dropLast]
      omega
    have hlength : j < (f (start :: labels.dropLast)).length := by
      rw [h.length]
      omega
    have hcontext : (start :: labels.dropLast).take (j + 1) = [start] ++ labels.take j := by
      rw [List.take_succ_cons, List.dropLast_eq_take, List.take_take, Nat.min_eq_left (by omega)]
      rfl
    have hnext : (f (start :: labels.dropLast))[j]? = next f ([start] ++ labels.take j) := by
      rw [h.getElem?_eq_next (by omega), hcontext]
    rw [← hnext, List.getElem?_eq_getElem hj, List.getElem?_eq_getElem hlength]
    rfl
  · rw [List.getElem?_eq_none (by omega : labels.length ≤ j)]
    cases (f (start :: labels.dropLast))[j]? <;> rfl

section Padding

variable [DecidableEq α] {start ignored pad : α} {labels : List α}

theorem take_shiftRight_padRight (hlabels : ∀ x ∈ labels, x ≠ ignored) (hne : labels ≠ []) (width : ℕ) :
    (shiftRight start ignored pad (padRight width ignored labels)).take labels.length =
      start :: labels.dropLast := by
  have hpos : 0 < labels.length := List.length_pos_of_ne_nil hne
  have hlabels' : labels.dropLast.map (fun x => if x = ignored then pad else x) = labels.dropLast := by
    refine (List.map_congr_left fun x hx => if_neg (hlabels x (List.dropLast_subset _ hx))).trans ?_
    exact List.map_id' _
  obtain ⟨n, hn⟩ : ∃ n, labels.length = n + 1 := ⟨labels.length - 1, by omega⟩
  have htake : (padRight width ignored labels).dropLast.take n = labels.dropLast := by
    rw [List.dropLast_eq_take, List.take_take, List.dropLast_eq_take, padRight, List.length_append, hn,
      Nat.min_eq_left (by omega), List.take_append_of_le_length (by omega)]
    rfl
  rw [shiftRight, hn, List.take_succ_cons, ← List.map_take, htake, hlabels']

/-- The positions of the filling have no label. -/
theorem supervised_append_replicate (outputs : List β) (hlabels : ∀ x ∈ labels, x ≠ ignored) (n : ℕ) :
    supervised ignored outputs (labels ++ List.replicate n ignored) =
      (outputs.take labels.length).zip labels := by
  unfold supervised
  induction labels generalizing outputs with
  | nil =>
    have hall : ∀ p ∈ outputs.zip (List.replicate n ignored), ¬ (decide (p.2 ≠ ignored) = true) := by
      intro p hp
      simpa using List.eq_of_mem_replicate (List.of_mem_zip hp).2
    simpa using List.filter_eq_nil_iff.2 hall
  | cons x labels ih =>
    obtain ⟨hx, hrest⟩ := List.forall_mem_cons.1 hlabels
    cases outputs with
    | nil => simp
    | cons output outputs =>
      have htail := ih outputs hrest
      simpa [List.filter_cons, hx] using htail

/-- Filled up with labels that are ignored, a sequence is asked for what it is asked for label by label. -/
theorem supervised_padRight (h : IsCausal f) (hlabels : ∀ x ∈ labels, x ≠ ignored) (hne : labels ≠ [])
    (width : ℕ) : (supervised ignored (f (shiftRight start ignored pad (padRight width ignored labels)))
      (padRight width ignored labels)).map (fun p => (some p.1, p.2)) = teacherForced f [start] labels := by
  rw [padRight, supervised_append_replicate _ hlabels, ← h.take, ← padRight,
    take_shiftRight_padRight hlabels hne, h.zip_eq_teacherForced]

end Padding

end Causal
