import Mathlib.Data.List.Basic
import Mathlib.Data.List.Perm.Basic

/-!
# Work in batches

Items are grouped by a key, in the order in which the keys come up (`groups`), a group is cut into slices of a
fixed size (`slices`), a function is applied to each slice as a whole, and what it returns is written at the
positions of the items (`scatter`).

The groups are a permutation of the items (`perm_groups`), the slices of a list make it up (`flatten_slices`),
and a function that treats the rows of a batch independently is a map (`Rowwise`).
-/

namespace Batches

variable {κ α β γ : Type*}

/-! ### Groups -/

section Groups

variable [DecidableEq κ]

/-- `d.setdefault(k, []).append(a)`, on a dictionary in insertion order -/
def setdefaultAppend (k : κ) (a : α) : List (κ × List α) → List (κ × List α)
  | [] => [(k, [a])]
  | (k', as) :: d => if k' = k then (k', as ++ [a]) :: d else (k', as) :: setdefaultAppend k a d

def groups (key : α → κ) (as : List α) : List (κ × List α) :=
  as.foldl (fun d a => setdefaultAppend (key a) a d) []

theorem perm_setdefaultAppend (k : κ) (a : α) (d : List (κ × List α)) :
    ((setdefaultAppend k a d).flatMap Prod.snd).Perm (d.flatMap Prod.snd ++ [a]) := by
  induction d with
  | nil => exact List.Perm.refl _
  | cons e d ih =>
    obtain ⟨k', as⟩ := e
    unfold setdefaultAppend
    split
    · rw [List.flatMap_cons, List.flatMap_cons, List.append_assoc, List.append_assoc]
      exact List.perm_append_comm.append_left as
    · rw [List.flatMap_cons, List.flatMap_cons, List.append_assoc]
      exact ih.append_left as

theorem key_setdefaultAppend {key : α → κ} {a : α} {d : List (κ × List α)}
    (h : ∀ e ∈ d, ∀ b ∈ e.2, key b = e.1) : ∀ e ∈ setdefaultAppend (key a) a d, ∀ b ∈ e.2, key b = e.1 := by
  induction d with
  | nil =>
    intro e he b hb
    obtain rfl := List.mem_singleton.1 he
    obtain rfl := List.mem_singleton.1 hb
    rfl
  | cons e d ih =>
    obtain ⟨k', as⟩ := e
    have hhead : ∀ b ∈ as, key b = k' := h (k', as) List.mem_cons_self
    have htail : ∀ e ∈ d, ∀ b ∈ e.2, key b = e.1 := fun e he => h e (List.mem_cons_of_mem _ he)
    unfold setdefaultAppend
    split
    · rename_i hk
      intro e he b hb
      rcases List.mem_cons.1 he with rfl | he
      · rcases List.mem_append.1 hb with hb | hb
        · exact hhead b hb
        · rw [List.mem_singleton.1 hb]
          exact hk.symm
      · exact htail e he b hb
    · intro e he b hb
      rcases List.mem_cons.1 he with rfl | he
      · exact hhead b hb
      · exact ih htail e he b hb

/-- The groups hold every item once. -/
theorem perm_groups (key : α → κ) (as : List α) : ((groups key as).flatMap Prod.snd).Perm as := by
  have hloop : ∀ (as : List α) (d : List (κ × List α)),
      ((as.foldl (fun d a => setdefaultAppend (key a) a d) d).flatMap Prod.snd).Perm
        (d.flatMap Prod.snd ++ as) := by
    intro as
    induction as with
    | nil =>
      intro d
      rw [List.append_nil]
      exact List.Perm.refl _
    | cons a as ih =>
      intro d
      have hstep := (perm_setdefaultAppend (key a) a d).append_right as
      rw [List.append_assoc] at hstep
      exact (ih _).trans hstep
  exact hloop as []

/-- The items of a group have its key. -/
theorem key_of_mem_groups {key : α → κ} {as : List α} {e : κ × List α} (he : e ∈ groups key as) :
    ∀ a ∈ e.2, key a = e.1 := by
  have hloop : ∀ (as : List α) (d : List (κ × List α)), (∀ e ∈ d, ∀ b ∈ e.2, key b = e.1) →
      ∀ e ∈ as.foldl (fun d a => setdefaultAppend (key a) a d) d, ∀ b ∈ e.2, key b = e.1 := by
    intro as
    induction as with
    | nil => exact fun d hd => hd
    | cons a as ih => exact fun d hd => ih _ (key_setdefaultAppend hd)
  exact hloop as [] (fun e he => by cases he) e he

end Groups

/-! ### Slices -/

/-- `range(0, stop, step)` -/
def rangeStep (stop step : ℕ) : List ℕ := (List.range ((stop + step - 1) / step)).map (· * step)

/-- `as[start : start + size]`, for every `start` of `range(0, len(as), size)` -/
def slices (size : ℕ) (as : List α) : List (List α) :=
  (rangeStep as.length size).map fun start => (as.drop start).take size

theorem flatten_slices {size : ℕ} (hsize : 1 ≤ size) (as : List α) : (slices size as).flatten = as := by
  have htake : ∀ k, ((List.range k).map fun i => (as.drop (i * size)).take size).flatten =
      as.take (k * size) := by
    intro k
    induction k with
    | zero => rw [Nat.zero_mul]; rfl
    | succ k ih =>
      rw [List.range_succ, List.map_append, List.flatten_append, ih, List.map_singleton, List.flatten_singleton,
        Nat.succ_mul, List.take_add]
  have hall : as.length ≤ (as.length + size - 1) / size * size := by
    have hmod := Nat.div_add_mod (as.length + size - 1) size
    have hlt := Nat.mod_lt (as.length + size - 1) hsize
    rw [Nat.mul_comm] at hmod
    omega
  rw [slices, rangeStep, List.map_map]
  exact (htake _).trans (List.take_of_length_le hall)

/-! ### Rows -/

/-- A function on batches that treats every row by itself. -/
def Rowwise (f : List α → List β) : Prop := ∃ row : α → β, ∀ as, f as = as.map row

theorem Rowwise.map (row : α → β) : Rowwise (List.map row) := ⟨row, fun _ => rfl⟩

theorem Rowwise.comp {g : List β → List γ} {f : List α → List β} (hg : Rowwise g) (hf : Rowwise f) :
    Rowwise fun as => g (f as) := by
  obtain ⟨row, hrow⟩ := hf
  obtain ⟨row', hrow'⟩ := hg
  refine ⟨fun a => row' (row a), fun as => ?_⟩
  show g (f as) = _
  rw [hrow, hrow', List.map_map]
  rfl

/-! ### Scattering the results -/

/-- The results, each written at its position. -/
def scatter {n : ℕ} (slots : List β) (writes : List (Fin n × β)) : List β :=
  writes.foldl (fun slots w => slots.set w.1 w.2) slots

theorem length_scatter {n : ℕ} (slots : List β) (writes : List (Fin n × β)) :
    (scatter slots writes).length = slots.length := by
  induction writes generalizing slots with
  | nil => rfl
  | cons w writes ih => exact (ih _).trans (List.length_set ..)

/-- When all the writes at a position agree, their value is there. -/
theorem getElem?_scatter {n : ℕ} {slots : List β} {writes : List (Fin n × β)} {i : Fin n} {b : β}
    (hi : i.val < slots.length) (h : ∀ w ∈ writes, w.1 = i → w.2 = b)
    (hslot : slots[i.val]? = some b ∨ i ∈ writes.map Prod.fst) : (scatter slots writes)[i.val]? = some b := by
  induction writes generalizing slots with
  | nil => exact hslot.resolve_right List.not_mem_nil
  | cons w writes ih =>
    refine ih ((List.length_set ..).symm ▸ hi) (fun w hw => h w (List.mem_cons_of_mem _ hw)) ?_
    show (slots.set w.1 w.2)[i.val]? = some b ∨ _
    by_cases hw : w.1 = i
    · left
      rw [hw, List.getElem?_set_self hi, h w List.mem_cons_self hw]
    · rw [List.getElem?_set_ne fun heq => hw (Fin.ext heq)]
      refine hslot.imp_right fun hmem => (List.mem_cons.1 hmem).resolve_left fun heq => hw heq.symm

end Batches
