import KaqTranslator.Library.Dict
import Mathlib.Algebra.BigOperators.Group.List.Basic
import Mathlib.Algebra.Ring.Nat

/-!
# Counters

A counter is a dictionary of numbers in which a key that is not there counts as 0.  After items have been
added, in any order, each key of theirs has the sum of its items (`count_addAll`), so that the order does not
matter (`same_addAll_of_perm`); and the sum of all values has grown by the sum of all items (`total_addAll`).
-/

namespace Dict

variable {κ : Type*} [DecidableEq κ]

/-- `counter[key]` -/
def count (d : Dict κ ℕ) (key : κ) : ℕ := (d.lookup key).getD 0

/-- `counter[key] += n` -/
def add (d : Dict κ ℕ) (key : κ) (n : ℕ) : Dict κ ℕ := d.insert key (d.count key + n)

def addAll (d : Dict κ ℕ) (items : List (κ × ℕ)) : Dict κ ℕ := items.foldl (fun d p => d.add p.1 p.2) d

/-- `sum(counter.values())` -/
def total (d : Dict κ ℕ) : ℕ := (d.entries.map Sigma.snd).sum

/-- What the items add to a key -/
def added (items : List (κ × ℕ)) (key : κ) : ℕ := ((items.filter fun p => p.1 = key).map Prod.snd).sum

@[simp] theorem addAll_nil (d : Dict κ ℕ) : d.addAll [] = d := rfl

@[simp] theorem addAll_cons (d : Dict κ ℕ) (p : κ × ℕ) (items : List (κ × ℕ)) :
    d.addAll (p :: items) = (d.add p.1 p.2).addAll items := rfl

theorem addAll_append (d : Dict κ ℕ) (items items' : List (κ × ℕ)) :
    d.addAll (items ++ items') = (d.addAll items).addAll items' := List.foldl_append

theorem Same.count_eq {d e : Dict κ ℕ} (h : d.Same e) (key : κ) : d.count key = e.count key := by
  rw [count, count, h key]

theorem added_cons (p : κ × ℕ) (items : List (κ × ℕ)) (key : κ) :
    added (p :: items) key = (if p.1 = key then p.2 else 0) + added items key := by
  unfold added
  by_cases hkey : p.1 = key
  · rw [if_pos hkey, List.filter_cons_of_pos (by simpa using hkey), List.map_cons, List.sum_cons]
  · rw [if_neg hkey, List.filter_cons_of_neg (by simpa using hkey), Nat.zero_add]

theorem added_of_perm {items items' : List (κ × ℕ)} (h : items.Perm items') (key : κ) :
    added items key = added items' key :=
  ((h.filter _).map _).sum_eq

theorem count_add (d : Dict κ ℕ) (key key' : κ) (n : ℕ) :
    (d.add key n).count key' = d.count key' + if key = key' then n else 0 := by
  rw [count, add, lookup_insert_eq]
  by_cases h : key' = key
  · rw [if_pos h, if_pos h.symm, h]
    rfl
  · rw [if_neg h, if_neg fun h' => h h'.symm]
    rfl

theorem count_addAll (d : Dict κ ℕ) (items : List (κ × ℕ)) (key : κ) :
    (d.addAll items).count key = d.count key + added items key := by
  induction items generalizing d with
  | nil => rfl
  | cons p items ih => rw [addAll_cons, ih, count_add, added_cons, Nat.add_assoc]

theorem mem_addAll (d : Dict κ ℕ) (items : List (κ × ℕ)) (key : κ) :
    key ∈ d.addAll items ↔ key ∈ d ∨ key ∈ items.map Prod.fst := by
  induction items generalizing d with
  | nil => simp
  | cons p items ih =>
    rw [addAll_cons, ih, add, AList.mem_insert, List.map_cons, List.mem_cons, or_comm (a := key = p.1),
      or_assoc]

/-- Counters with the same keys and the same numbers -/
theorem same_of_count {d e : Dict κ ℕ} (hkeys : ∀ key, key ∈ d ↔ key ∈ e)
    (hcount : ∀ key, d.count key = e.count key) : d.Same e := by
  intro key
  by_cases hd : key ∈ d
  · obtain ⟨n, hn⟩ := Option.isSome_iff_exists.1 (AList.lookup_isSome.2 hd)
    obtain ⟨m, hm⟩ := Option.isSome_iff_exists.1 (AList.lookup_isSome.2 ((hkeys key).1 hd))
    have hnm := hcount key
    rw [count, count, hn, hm] at hnm
    rw [hn, hm]
    exact congrArg some hnm
  · rw [AList.lookup_eq_none.2 hd, AList.lookup_eq_none.2 fun he => hd ((hkeys key).2 he)]

theorem same_addAll_of_perm {items items' : List (κ × ℕ)} (h : items.Perm items') (d : Dict κ ℕ) :
    (d.addAll items).Same (d.addAll items') := by
  apply same_of_count
  · intro key
    rw [mem_addAll, mem_addAll, (h.map Prod.fst).mem_iff]
  · intro key
    rw [count_addAll, count_addAll, added_of_perm h]

/-! ### The sum of the values -/

private theorem sum_kerase (items : List (Σ _ : κ, ℕ)) (key : κ) :
    (items.map Sigma.snd).sum = (items.dlookup key).getD 0 + ((items.kerase key).map Sigma.snd).sum := by
  induction items with
  | nil => rfl
  | cons p items ih =>
    by_cases hkey : key = p.1
    · subst hkey
      rw [List.kerase_cons_eq rfl, show p = ⟨p.1, p.2⟩ from rfl, List.dlookup_cons_eq, List.map_cons,
        List.sum_cons]
      rfl
    · rw [List.kerase_cons_ne hkey, List.dlookup_cons_ne items p hkey, List.map_cons, List.map_cons,
        List.sum_cons, List.sum_cons, ih]
      omega

theorem total_add (d : Dict κ ℕ) (key : κ) (n : ℕ) : (d.add key n).total = d.total + n := by
  have hadd : (d.add key n).total = d.count key + n + ((d.entries.kerase key).map Sigma.snd).sum :=
    List.sum_cons
  have hsum : d.total = d.count key + ((d.entries.kerase key).map Sigma.snd).sum := sum_kerase d.entries key
  rw [hadd, hsum, Nat.add_right_comm]

theorem total_addAll (d : Dict κ ℕ) (items : List (κ × ℕ)) :
    (d.addAll items).total = d.total + (items.map Prod.snd).sum := by
  induction items generalizing d with
  | nil => rfl
  | cons p items ih => rw [addAll_cons, ih, total_add, List.map_cons, List.sum_cons, Nat.add_assoc]

end Dict
