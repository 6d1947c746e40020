import Mathlib.Data.List.AList

/-!
# Dictionaries

A dictionary is an association list without duplicate keys (`AList`), and two of them are the same if they
look up the same (`Same`).  `update` assigns items one after the other; for items with different keys their
order does not matter (`lookup_update`, `same_update_of_perm`).
-/

abbrev Dict (κ α : Type*) := AList fun _ : κ => α

namespace Dict

variable {κ α β : Type*}

theorem keys_map {ι : Type*} (f : κ → ι) (g : α → β) (items : List (Σ _ : κ, α)) :
    (items.map fun p => (⟨f p.1, g p.2⟩ : Σ _ : ι, β)).keys = items.keys.map f := by
  show List.map Sigma.fst (List.map _ _) = List.map f (List.map Sigma.fst _)
  rw [List.map_map, List.map_map]
  rfl

theorem keys_map_values (g : α → β) (items : List (Σ _ : κ, α)) :
    (items.map fun p => (⟨p.1, g p.2⟩ : Σ _ : κ, β)).keys = items.keys :=
  (keys_map id g items).trans (List.map_id _)

/-- `{key: f(value) for key, value in d.items()}` -/
def mapValues (f : α → β) (d : Dict κ α) : Dict κ β where
  entries := d.entries.map fun p => ⟨p.1, f p.2⟩
  nodupKeys := by
    rw [List.NodupKeys, keys_map_values]
    exact d.nodupKeys

variable [DecidableEq κ]

/-- `d[key] = value`, for one item after the other -/
def update (d : Dict κ α) (items : List (Σ _ : κ, α)) : Dict κ α :=
  items.foldl (fun d p => d.insert p.1 p.2) d

/-- `d == e` -/
def Same (d e : Dict κ α) : Prop := ∀ key, d.lookup key = e.lookup key

def ofItems (items : List (Σ _ : κ, α)) : Dict κ α := update ∅ items

@[simp] theorem update_nil (d : Dict κ α) : d.update [] = d := rfl

@[simp] theorem update_cons (d : Dict κ α) (p : Σ _ : κ, α) (items : List (Σ _ : κ, α)) :
    d.update (p :: items) = update (d.insert p.1 p.2) items := rfl

/-- One more assignment -/
theorem insert_ofItems (items : List (Σ _ : κ, α)) (key : κ) (value : α) :
    (ofItems items).insert key value = ofItems (items ++ [⟨key, value⟩]) := by
  unfold ofItems update
  rw [List.foldl_append]
  rfl

theorem lookup_insert_eq (d : Dict κ α) (key key' : κ) (value : α) :
    (d.insert key value).lookup key' = if key' = key then some value else d.lookup key' := by
  by_cases h : key' = key
  · subst h
    rw [if_pos rfl, AList.lookup_insert]
  · rw [if_neg h, AList.lookup_insert_ne h]

theorem lookup_update {items : List (Σ _ : κ, α)} (h : items.NodupKeys) (d : Dict κ α) (key : κ) :
    (d.update items).lookup key = (items.dlookup key).or (d.lookup key) := by
  induction items generalizing d with
  | nil => simp
  | cons p items ih =>
    obtain ⟨hp, hitems⟩ := List.nodupKeys_cons.1 h
    rw [update_cons, ih hitems, lookup_insert_eq]
    by_cases hkey : key = p.1
    · subst hkey
      have hnone : items.dlookup p.1 = none := List.dlookup_eq_none.2 hp
      rw [if_pos rfl, hnone, Option.none_or, show p = ⟨p.1, p.2⟩ from rfl, List.dlookup_cons_eq,
        Option.some_or]
    · rw [if_neg hkey, List.dlookup_cons_ne items p hkey]

theorem lookup_update_of_notMem {items : List (Σ _ : κ, α)} {key : κ} (h : key ∉ items.keys) (d : Dict κ α) :
    (d.update items).lookup key = d.lookup key := by
  induction items generalizing d with
  | nil => rfl
  | cons p items ih =>
    rw [List.keys_cons, List.mem_cons, not_or] at h
    rw [update_cons, ih h.2, lookup_insert_eq, if_neg h.1]

/-- One value for several keys -/
theorem lookup_update_const (d : Dict κ α) (keys : List κ) (value : α) (key : κ) :
    (d.update (keys.map fun key => ⟨key, value⟩)).lookup key =
      if key ∈ keys then some value else d.lookup key := by
  induction keys generalizing d with
  | nil => exact (if_neg List.not_mem_nil).symm
  | cons key' keys ih =>
    rw [List.map_cons, update_cons, ih, lookup_insert_eq]
    by_cases hmem : key ∈ keys
    · rw [if_pos hmem, if_pos (List.mem_cons_of_mem _ hmem)]
    · by_cases heq : key = key'
      · rw [if_neg hmem, if_pos heq, if_pos (heq ▸ List.mem_cons_self)]
      · rw [if_neg hmem, if_neg heq, if_neg fun h => (List.mem_cons.1 h).elim heq hmem]

theorem lookup_ofItems {items : List (Σ _ : κ, α)} (h : items.NodupKeys) (key : κ) :
    (ofItems items).lookup key = items.dlookup key := by
  rw [ofItems, lookup_update h, AList.lookup_empty, Option.or_none]

theorem perm_ofItems {items : List (Σ _ : κ, α)} (h : items.NodupKeys) :
    (ofItems items).entries.Perm items := by
  refine List.lookup_ext (ofItems items).nodupKeys h fun key value => ?_
  rw [← lookup_ofItems h key]
  rfl

theorem lookup_mapValues (f : α → β) (d : Dict κ α) (key : κ) :
    (d.mapValues f).lookup key = (d.lookup key).map f :=
  @List.dlookup_map₂ κ _ (fun _ => α) (fun _ => β) d.entries (fun _ => f) key

theorem Same.update {d e : Dict κ α} (h : d.Same e) (items : List (Σ _ : κ, α)) :
    (d.update items).Same (e.update items) := by
  induction items generalizing d e with
  | nil => exact h
  | cons p items ih =>
    apply ih
    intro key
    rw [lookup_insert_eq, lookup_insert_eq, h key]

theorem same_update_of_perm {items items' : List (Σ _ : κ, α)} (h : items.NodupKeys)
    (hperm : items.Perm items') (d : Dict κ α) : (d.update items).Same (d.update items') := by
  intro key
  have h' : items'.NodupKeys := (List.perm_nodupKeys hperm).1 h
  rw [lookup_update h, lookup_update h', List.perm_dlookup key h hperm]

/-- The same dictionaries have the same items, in some order. -/
theorem Same.perm {d e : Dict κ α} (h : d.Same e) : d.entries.Perm e.entries :=
  List.lookup_ext d.nodupKeys e.nodupKeys fun key value => Eq.to_iff (congrArg (value ∈ ·) (h key))

end Dict
