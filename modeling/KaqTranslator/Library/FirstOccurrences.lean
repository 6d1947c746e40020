import Mathlib.Data.List.Sort

/-!
# First occurrences

A loop with a set of what it has seen keeps an element that passes a test where it first occurs, and drops it
wherever it occurs again (`keepFirst`).  What is left is known without the loop: each element that passes,
once, in the order of the first occurrences (`FirstOccurrences`), and no other list is so
(`FirstOccurrences.unique`).
-/

variable {α : Type*} [DecidableEq α] {p : α → Prop} {as bs cs seen : List α} {a b : α}

/-- The elements of `as` that pass, each once, in the order of their first occurrences -/
structure FirstOccurrences (p : α → Prop) (as bs : List α) : Prop where
  nodup : bs.Nodup
  mem_iff : ∀ a, a ∈ bs ↔ a ∈ as ∧ p a
  ordered : bs.Pairwise fun a b => as.idxOf a < as.idxOf b

namespace FirstOccurrences

theorem unique (hbs : FirstOccurrences p as bs) (hcs : FirstOccurrences p as cs) : bs = cs := by
  have hperm : bs.Perm cs :=
    (List.perm_ext_iff_of_nodup hbs.nodup hcs.nodup).2 fun a => (hbs.mem_iff a).trans (hcs.mem_iff a).symm
  apply hperm.eq_of_pairwise _ hbs.ordered hcs.ordered
  intro a b _ _ hab hba
  omega

theorem filter (h : FirstOccurrences p as bs) (q : α → Bool) :
    FirstOccurrences (fun a => p a ∧ q a = true) as (bs.filter q) where
  nodup := h.nodup.filter q
  mem_iff a := by rw [List.mem_filter, h.mem_iff, and_assoc]
  ordered := h.ordered.filter q

/-- A list without repetitions whose elements all pass -/
theorem self (hnodup : bs.Nodup) (hp : ∀ a ∈ bs, p a) : FirstOccurrences p bs bs where
  nodup := hnodup
  mem_iff a := ⟨fun h => ⟨h, hp a h⟩, fun h => h.1⟩
  ordered := by
    rw [List.pairwise_iff_getElem]
    intro i j hi hj hij
    rw [hnodup.idxOf_getElem i hi, hnodup.idxOf_getElem j hj]
    exact hij

/-- What two lists share, from either side -/
theorem mem_iff_swap {ds : List α} (h : FirstOccurrences (· ∈ as) bs cs) (h' : FirstOccurrences (· ∈ bs) as ds)
    (a : α) : a ∈ cs ↔ a ∈ ds := by
  rw [h.mem_iff, h'.mem_iff]
  exact and_comm

end FirstOccurrences

/-! ### The loop -/

section Loop

variable [DecidablePred p]

/-- The loop that has seen the elements of `seen` -/
def keepFirst (p : α → Prop) [DecidablePred p] (seen : List α) : List α → List α
  | [] => []
  | a :: as => if p a ∧ a ∉ seen then a :: keepFirst p (a :: seen) as else keepFirst p seen as

theorem mem_keepFirst : a ∈ keepFirst p seen as ↔ a ∈ as ∧ p a ∧ a ∉ seen := by
  induction as generalizing seen with
  | nil => simp [keepFirst]
  | cons b as ih =>
    rw [keepFirst]
    by_cases hb : p b ∧ b ∉ seen
    · rw [if_pos hb, List.mem_cons, ih, List.mem_cons, List.mem_cons]
      constructor
      · rintro (rfl | ⟨hmem, hp, hseen⟩)
        · exact ⟨Or.inl rfl, hb⟩
        · exact ⟨Or.inr hmem, hp, fun h => hseen (Or.inr h)⟩
      · rintro ⟨rfl | hmem, hp, hseen⟩
        · exact Or.inl rfl
        · by_cases hab : a = b
          · exact Or.inl hab
          · exact Or.inr ⟨hmem, hp, fun h => h.elim hab hseen⟩
    · rw [if_neg hb, ih, List.mem_cons]
      constructor
      · exact fun h => ⟨Or.inr h.1, h.2⟩
      · rintro ⟨rfl | hmem, h⟩
        · exact absurd h hb
        · exact ⟨hmem, h⟩

theorem nodup_keepFirst (p : α → Prop) [DecidablePred p] (seen as : List α) : (keepFirst p seen as).Nodup := by
  induction as generalizing seen with
  | nil => exact List.nodup_nil
  | cons b as ih =>
    rw [keepFirst]
    split
    · refine List.nodup_cons.2 ⟨fun h => ?_, ih _⟩
      exact (mem_keepFirst.1 h).2.2 List.mem_cons_self
    · exact ih _

/-- Behind an element that is not kept again, all positions grow by one. -/
private theorem pairwise_idxOf_cons (h : bs.Pairwise fun a b => as.idxOf a < as.idxOf b) (hb : b ∉ bs) :
    bs.Pairwise fun a c => (b :: as).idxOf a < (b :: as).idxOf c := by
  refine h.imp_of_mem fun {a c} ha hc hac => ?_
  have hne : ∀ a ∈ bs, b ≠ a := by
    rintro a ha rfl
    exact hb ha
  rw [List.idxOf_cons_ne _ (hne a ha), List.idxOf_cons_ne _ (hne c hc)]
  exact Nat.succ_lt_succ hac

theorem ordered_keepFirst (p : α → Prop) [DecidablePred p] (seen as : List α) :
    (keepFirst p seen as).Pairwise fun a b => as.idxOf a < as.idxOf b := by
  induction as generalizing seen with
  | nil => exact List.Pairwise.nil
  | cons b as ih =>
    rw [keepFirst]
    by_cases hb : p b ∧ b ∉ seen
    · have hrest : b ∉ keepFirst p (b :: seen) as := fun h => (mem_keepFirst.1 h).2.2 List.mem_cons_self
      rw [if_pos hb]
      refine List.pairwise_cons.2 ⟨fun c hc => ?_, pairwise_idxOf_cons (ih _) hrest⟩
      have hne : b ≠ c := by
        rintro rfl
        exact hrest hc
      rw [List.idxOf_cons_self, List.idxOf_cons_ne _ hne]
      exact Nat.succ_pos _
    · have hrest : b ∉ keepFirst p seen as := fun h => hb (mem_keepFirst.1 h).2
      rw [if_neg hb]
      exact pairwise_idxOf_cons (ih _) hrest

theorem firstOccurrences_keepFirst (p : α → Prop) [DecidablePred p] (as : List α) :
    FirstOccurrences p as (keepFirst p [] as) where
  nodup := nodup_keepFirst p [] as
  mem_iff a := by
    rw [mem_keepFirst]
    exact ⟨fun h => ⟨h.1, h.2.1⟩, fun h => ⟨h.1, h.2, List.not_mem_nil⟩⟩
  ordered := ordered_keepFirst p [] as

/-- A test before the loop is a test in the loop. -/
theorem keepFirst_filter (p : α → Prop) [DecidablePred p] (seen as : List α) :
    keepFirst (fun _ => True) seen (as.filter p) = keepFirst p seen as := by
  induction as generalizing seen with
  | nil => rfl
  | cons a as ih =>
    rw [List.filter_cons, keepFirst]
    by_cases ha : p a
    · rw [if_pos (decide_eq_true ha), keepFirst, ih, ih]
      exact if_congr (and_congr_left fun _ => (iff_true_intro ha).symm) rfl rfl
    · have hfail : ¬ decide (p a) = true := by rwa [decide_eq_true_iff]
      rw [if_neg hfail, if_neg fun h => ha h.1, ih]

/-- What occurs again makes no difference, wherever it is inserted. -/
theorem keepFirst_insert {before after : List α} (h : p a → a ∈ before ∨ a ∈ seen) :
    keepFirst p seen (before ++ a :: after) = keepFirst p seen (before ++ after) := by
  induction before generalizing seen with
  | nil =>
    have hdrop : ¬ (p a ∧ a ∉ seen) := fun hkeep => hkeep.2 ((h hkeep.1).resolve_left List.not_mem_nil)
    rw [List.nil_append, List.nil_append, keepFirst, if_neg hdrop]
  | cons b before ih =>
    rw [List.cons_append, List.cons_append, keepFirst, keepFirst]
    by_cases hb : p b ∧ b ∉ seen
    · have hlater : p a → a ∈ before ∨ a ∈ b :: seen := by
        intro hp
        rcases h hp with hmem | hmem
        · rcases List.mem_cons.1 hmem with rfl | hmem
          · exact Or.inr List.mem_cons_self
          · exact Or.inl hmem
        · exact Or.inr (List.mem_cons_of_mem _ hmem)
      rw [if_pos hb, if_pos hb, ih hlater]
    · have hlater : p a → a ∈ before ∨ a ∈ seen := by
        intro hp
        rcases h hp with hmem | hmem
        · rcases List.mem_cons.1 hmem with rfl | hmem
          · exact Or.inr (not_not.1 fun hseen => hb ⟨hp, hseen⟩)
          · exact Or.inl hmem
        · exact Or.inr hmem
      rw [if_neg hb, if_neg hb, ih hlater]

end Loop
