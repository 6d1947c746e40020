import Mathlib.Data.List.SplitBy

/-!
# Cutting a list into runs

`cut p` cuts a list before the elements that satisfy `p`, with a loop that keeps the finished runs and the
current one.  It is `List.splitBy` (`cut_eq_splitBy`).  The runs are non-empty, their concatenation is the
list, and only the first element of a run can satisfy `p` (`cut_spec`); the first element of every run but the
first does (`starts_of_mem_tail_cut`).  The cut depends on `p` at the elements of the list alone
(`cut_congr`).
-/

namespace Runs

variable {α : Type*} {p q : α → Bool}

/-- One turn of the loop: the finished runs, and the current one. -/
def step (p : α → Bool) (state : List (List α) × List α) (a : α) : List (List α) × List α :=
  if p a && !state.2.isEmpty then (state.1 ++ [state.2], [a]) else (state.1, state.2 ++ [a])

def cut (p : α → Bool) (as : List α) : List (List α) :=
  let state := as.foldl (step p) ([], [])
  if state.2.isEmpty then state.1 else state.1 ++ [state.2]

/-- A non-empty list, in which only the first element can satisfy `p`. -/
def IsRun (p : α → Bool) (run : List α) : Prop := ∃ a rest, run = a :: rest ∧ ∀ b ∈ rest, p b = false

/-- The loop of `cut` and that of `splitBy`, which keeps its lists in reverse. -/
private theorem foldl_step (p : α → Bool) (as : List α) (a : α) (run : List α) (runs : List (List α)) :
    let state := as.foldl (step p) (runs.reverse, (a :: run).reverse)
    state.2.isEmpty = false ∧
      state.1 ++ [state.2] = List.splitBy.loop (fun _ b => !p b) as a run runs := by
  induction as generalizing a run runs with
  | nil =>
    show (a :: run).reverse.isEmpty = false ∧ runs.reverse ++ [(a :: run).reverse] = _
    exact ⟨by simp, List.reverse_cons.symm⟩
  | cons b as ih =>
    rw [List.foldl_cons, List.splitBy.loop, step]
    cases hb : p b with
    | true =>
      have hnext := ih b [] ((a :: run).reverse :: runs)
      rw [List.reverse_cons] at hnext
      simpa using hnext
    | false =>
      have hnext := ih b (a :: run) runs
      rw [List.reverse_cons] at hnext
      simpa using hnext

theorem cut_eq_splitBy (p : α → Bool) (as : List α) : cut p as = as.splitBy fun _ b => !p b := by
  cases as with
  | nil => rfl
  | cons a as =>
    obtain ⟨hne, hruns⟩ := foldl_step p as a [] []
    have hstart : step p ([], []) a = ([], [a]) := by simp [step]
    rw [cut, List.foldl_cons, hstart]
    exact (if_neg (Bool.eq_false_iff.1 hne)).trans hruns

private theorem forall_mem_of_isChain {Q : α → Prop} {a : α} {as : List α}
    (h : (a :: as).IsChain fun _ b => Q b) : ∀ b ∈ as, Q b := by
  induction as generalizing a with
  | nil => exact fun b hb => (List.not_mem_nil hb).elim
  | cons c as ih =>
    rw [List.isChain_cons_cons] at h
    intro b hb
    rcases List.mem_cons.1 hb with rfl | hb
    · exact h.1
    · exact ih h.2 b hb

/-- The runs are the list, cut before elements that satisfy `p`. -/
theorem cut_spec (p : α → Bool) (as : List α) :
    (cut p as).flatten = as ∧ ∀ run ∈ cut p as, IsRun p run := by
  rw [cut_eq_splitBy]
  refine ⟨List.flatten_splitBy _ as, fun run hrun => ?_⟩
  obtain ⟨a, rest, rfl⟩ := List.exists_cons_of_ne_nil (List.ne_nil_of_mem_splitBy hrun)
  refine ⟨a, rest, rfl, fun b hb => ?_⟩
  have hchain : (a :: rest).IsChain fun _ b => (!p b) = true := List.isChain_of_mem_splitBy hrun
  have hb := forall_mem_of_isChain hchain b hb
  rwa [Bool.not_eq_true'] at hb

/-- Every run but the first begins with an element that satisfies `p`. -/
theorem starts_of_mem_tail_cut {as run : List α} (h : run ∈ (cut p as).tail) :
    ∃ a rest, run = a :: rest ∧ p a = true := by
  have hchain := List.isChain_getLast_head_splitBy (fun _ b => !p b) as
  rw [← cut_eq_splitBy] at hchain
  cases hcut : cut p as with
  | nil =>
    rw [hcut] at h
    cases h
  | cons first runs =>
    rw [hcut] at h hchain
    have hheads : (first :: runs).IsChain fun _ run => ∃ a rest, run = a :: rest ∧ p a = true := by
      refine hchain.imp ?_
      rintro _ run ⟨-, hne, hstart⟩
      obtain ⟨a, rest, rfl⟩ := List.exists_cons_of_ne_nil hne
      exact ⟨a, rest, rfl, by simpa using hstart⟩
    exact forall_mem_of_isChain hheads run h

theorem mem_of_mem_cut {as run : List α} (hrun : run ∈ cut p as) {a : α} (ha : a ∈ run) : a ∈ as := by
  rw [← (cut_spec p as).1]
  exact List.mem_flatten.2 ⟨run, hrun, ha⟩

theorem cut_congr {as : List α} (h : ∀ a ∈ as, p a = q a) : cut p as = cut q as := by
  have hstep : as.foldl (step p) ([], []) = as.foldl (step q) ([], []) := by
    refine List.foldl_ext _ _ _ fun state a ha => ?_
    rw [step, step, h a ha]
  simp only [cut, hstep]

end Runs
