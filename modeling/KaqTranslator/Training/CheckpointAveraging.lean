import KaqTranslator.Text
import KaqTranslator.Library.Dict
import KaqTranslator.Library.Tensors
import Mathlib.Algebra.BigOperators.Group.List.Basic
import Mathlib.Algebra.Field.Rat
import Mathlib.Data.Finset.Dedup
import Mathlib.Data.List.Sort
import Mathlib.Data.Set.List

/-!
# Averaging checkpoints (`training/checkpoint_averaging.py`)

The last checkpoints of a training run are read one after the other, and their tensors are added up key by
key.  Over exact numbers the dtypes do not matter.

In one state dict every key comes up once, so that adding its tensors adds its number at every place
(`exists_foldlM_accumulate`); after any number of state dicts with the keys and shapes of the first, the
accumulator holds the sums (`Accumulated`).  The first that has other keys or shapes ends the run, and nothing
has been written by then.
-/

namespace KaqTranslator

/-! ### State dicts -/

abbrev StateDict (K : Type*) := Dict Str (Tensor K)

section Layout

variable {K : Type*}

/-- The keys and their shapes -/
def layout (d : StateDict K) (key : Str) : Option (List ℕ) := (d.lookup key).map Tensor.shape

theorem layout_eq_some {d : StateDict K} {key : Str} {t : Tensor K} (h : d.lookup key = some t) :
    layout d key = some t.shape := by
  rw [layout, h, Option.map_some]

theorem mem_iff_layout (d : StateDict K) (key : Str) : key ∈ d ↔ (layout d key).isSome := by
  rw [layout, Option.isSome_map, AList.lookup_isSome]

end Layout

inductive AveragingError (ε : Type*)
  /-- `f"n must be positive, got {n}"` -/
  | notPositive (n : ℤ)
  /-- `"checkpoint_dirs must be non-empty"` -/
  | noCheckpoints
  /-- `"state_dicts must be non-empty"` -/
  | noStateDicts
  /-- `f"state_dicts[{index}] has different keys than state_dicts[0]"` -/
  | differentKeys (index : ℕ)
  /-- `f"Mismatched shape for key {key!r}: state_dicts[0] has …, state_dicts[{index}] has …"` -/
  | mismatchedShape (key : Str) (first : List ℕ) (index : ℕ) (shape : List ℕ)
  /-- `FileNotFoundError`, for the weights of a checkpoint -/
  | weightsNotFound (checkpoint_dir : Str)
  /-- The error of `load_file` -/
  | load (e : ε)

section Average

variable {K ε : Type*} [Field K]

/-- The body of the loop over the items of `state_dicts[index]` -/
def accumulate (index : ℕ) (accumulator : StateDict K) (item : Σ _ : Str, Tensor K) :
    Except (AveragingError ε) (StateDict K) :=
  match accumulator.lookup item.1 with
  | none => .ok (accumulator.insert item.1 item.2)
  | some sum =>
    if h : item.2.shape = sum.shape then .ok (accumulator.insert item.1 (sum.add item.2 h))
    else .error (.mismatchedShape item.1 sum.shape index item.2.shape)

structure AverageLoop (K : Type*) where
  accumulator : StateDict K
  referenceKeys : Option (Finset Str)
  count : ℕ

def AverageLoop.step (loop : AverageLoop K) (index : ℕ) (state_dict : StateDict K) :
    Except (AveragingError ε) (AverageLoop K) :=
  let keys := state_dict.keys.toFinset
  -- the keys of the first state dict become the reference
  let reference_keys := loop.referenceKeys.getD keys
  if keys ≠ reference_keys then .error (.differentKeys index)
  else
    (state_dict.entries.foldlM (accumulate index) loop.accumulator).map fun accumulator =>
      ⟨accumulator, some reference_keys, loop.count + 1⟩

/-- The next state dict, which is loaded when its turn comes -/
def AverageLoop.next (loop : AverageLoop K) (p : Except (AveragingError ε) (StateDict K) × ℕ) :
    Except (AveragingError ε) (AverageLoop K) :=
  p.1.bind (loop.step p.2)

/-- `average_state_dicts`, of an iterable that may fail at every state dict -/
def averageStateDicts (state_dicts : List (Except (AveragingError ε) (StateDict K))) :
    Except (AveragingError ε) (StateDict K) :=
  (state_dicts.zipIdx.foldlM AverageLoop.next ⟨∅, none, 0⟩).bind fun loop =>
    if loop.count = 0 then .error .noStateDicts
    else .ok (loop.accumulator.mapValues fun value => value.div loop.count)

/-! ### One state dict -/

def number (d : StateDict K) (key : Str) (i : ℕ) : K := (d.lookup key).elim 0 fun t => t.number i

/-- A state dict is known by its layout and its numbers. -/
theorem same_of_number {d e : StateDict K} (hlayout : layout d = layout e)
    (hnumber : ∀ key i, number d key i = number e key i) : d.Same e := by
  intro key
  have hkey : (d.lookup key).map Tensor.shape = (e.lookup key).map Tensor.shape := congrFun hlayout key
  have hnum := hnumber key
  unfold number at hnum
  cases hd : d.lookup key with
  | none =>
    rw [hd, Option.map_none] at hkey
    exact (Option.map_eq_none_iff.1 hkey.symm).symm
  | some s =>
    cases he : e.lookup key with
    | none =>
      rw [hd, he] at hkey
      cases hkey
    | some t =>
      rw [hd, he] at hkey hnum
      exact congrArg some (Tensor.ext_number (Option.some.inj hkey) hnum)

section Accumulate

variable (index : ℕ) {accumulator : StateDict K} {item : Σ _ : Str, Tensor K}

theorem exists_accumulate (h : ∀ shape, layout accumulator item.1 = some shape → item.2.shape = shape) :
    ∃ accumulator', accumulate (ε := ε) index accumulator item = .ok accumulator' ∧
      layout accumulator' item.1 = some item.2.shape ∧
      (∀ i, number accumulator' item.1 i = number accumulator item.1 i + item.2.number i) ∧
      ∀ key, key ≠ item.1 → accumulator'.lookup key = accumulator.lookup key := by
  unfold accumulate number
  cases hlookup : accumulator.lookup item.1 with
  | none =>
    refine ⟨_, rfl, layout_eq_some (AList.lookup_insert _), fun i => ?_,
      fun key hkey => AList.lookup_insert_ne hkey⟩
    rw [AList.lookup_insert]
    exact (zero_add _).symm
  | some sum =>
    have hshape : item.2.shape = sum.shape := h _ (layout_eq_some hlookup)
    refine ⟨_, dif_pos hshape, ?_, fun i => ?_, fun key hkey => AList.lookup_insert_ne hkey⟩
    · have hinsert := layout_eq_some (@AList.lookup_insert Str _ _ item.1 (sum.add item.2 hshape) accumulator)
      rw [hshape]
      exact hinsert
    · rw [AList.lookup_insert]
      exact Tensor.number_add sum item.2 hshape i

theorem accumulate_eq_error {shape : List ℕ} (h : layout accumulator item.1 = some shape)
    (hne : item.2.shape ≠ shape) :
    accumulate (ε := ε) index accumulator item = .error (.mismatchedShape item.1 shape index item.2.shape) := by
  obtain ⟨sum, hsum, rfl⟩ := Option.map_eq_some_iff.1 h
  unfold accumulate
  rw [hsum]
  exact dif_neg hne

end Accumulate

section Items

variable (index : ℕ) {items : List (Σ _ : Str, Tensor K)}

/-- Every item adds its tensor at its key, or brings it there. -/
theorem exists_foldlM_accumulate (hitems : items.NodupKeys) {accumulator : StateDict K}
    (h : ∀ item ∈ items, ∀ shape, layout accumulator item.1 = some shape → item.2.shape = shape) :
    ∃ accumulator', items.foldlM (accumulate (ε := ε) index) accumulator = .ok accumulator' ∧
      (∀ key, layout accumulator' key = (layout accumulator key).or ((items.dlookup key).map Tensor.shape)) ∧
      ∀ key i, number accumulator' key i =
        number accumulator key i + (items.dlookup key).elim 0 fun t => t.number i := by
  induction items generalizing accumulator with
  | nil => exact ⟨accumulator, rfl, fun key => Option.or_none.symm, fun key i => (add_zero _).symm⟩
  | cons item items ih =>
    obtain ⟨hfresh, hitems⟩ := List.nodupKeys_cons.1 hitems
    obtain ⟨next, hstep, hshape, hnumber, hother⟩ :=
      exists_accumulate (ε := ε) index (h item List.mem_cons_self)
    have hne : ∀ item' ∈ items, item'.1 ≠ item.1 := by
      intro item' hitem' heq
      exact hfresh (heq ▸ List.mem_keys_of_mem hitem')
    have hrest : ∀ item' ∈ items, ∀ shape, layout next item'.1 = some shape → item'.2.shape = shape := by
      intro item' hitem' shape hlayout
      rw [layout, hother _ (hne item' hitem')] at hlayout
      exact h item' (List.mem_cons_of_mem _ hitem') shape hlayout
    obtain ⟨last, hrun, hlayout, hnumbers⟩ := ih hitems hrest
    refine ⟨last, ?_, fun key => ?_, fun key i => ?_⟩
    · rw [List.foldlM_cons, hstep]
      exact hrun
    · rw [hlayout]
      by_cases hkey : key = item.1
      · subst hkey
        have hfits := h item List.mem_cons_self
        rw [hshape, Option.some_or, show item = ⟨item.1, item.2⟩ from rfl, List.dlookup_cons_eq]
        cases hacc : layout accumulator item.1 with
        | none => rfl
        | some shape =>
          rw [hfits shape hacc]
          rfl
      · rw [List.dlookup_cons_ne items item hkey, layout, layout, hother key hkey]
    · rw [hnumbers]
      by_cases hkey : key = item.1
      · subst hkey
        have hnone : items.dlookup item.1 = none := List.dlookup_eq_none.2 hfresh
        rw [hnumber, hnone, show item = ⟨item.1, item.2⟩ from rfl, List.dlookup_cons_eq]
        exact add_zero _
      · rw [List.dlookup_cons_ne items item hkey, number, number, hother key hkey]

/-- An item of another shape ends the loop. -/
theorem exists_foldlM_accumulate_eq_error (hitems : items.NodupKeys) {accumulator : StateDict K}
    (h : ∃ item ∈ items, ∃ shape, layout accumulator item.1 = some shape ∧ item.2.shape ≠ shape) :
    ∃ e, items.foldlM (accumulate (ε := ε) index) accumulator = .error e := by
  induction items generalizing accumulator with
  | nil =>
    obtain ⟨item, hitem, -⟩ := h
    cases hitem
  | cons item items ih =>
    obtain ⟨hfresh, hitems⟩ := List.nodupKeys_cons.1 hitems
    rw [List.foldlM_cons]
    by_cases hhead : ∀ shape, layout accumulator item.1 = some shape → item.2.shape = shape
    · obtain ⟨next, hstep, -, -, hother⟩ := exists_accumulate (ε := ε) index hhead
      rw [hstep]
      apply ih hitems
      obtain ⟨item', hitem', shape, hlayout, hne⟩ := h
      rcases List.mem_cons.1 hitem' with rfl | hitem'
      · exact absurd (hhead shape hlayout) hne
      · have hkey : item'.1 ≠ item.1 := fun heq => hfresh (heq ▸ List.mem_keys_of_mem hitem')
        refine ⟨item', hitem', shape, ?_, hne⟩
        rw [layout, hother _ hkey]
        exact hlayout
    · obtain ⟨shape, hhead⟩ := not_forall.1 hhead
      obtain ⟨hlayout, hne⟩ := Classical.not_imp.1 hhead
      rw [accumulate_eq_error index hlayout hne]
      exact ⟨_, rfl⟩

end Items

/-! ### The run -/

/-- After state dicts with the keys and shapes of the first, the accumulator holds their sums. -/
structure Accumulated (first : StateDict K) (ds : List (StateDict K)) (loop : AverageLoop K) : Prop where
  layout_eq : layout loop.accumulator = layout first
  number_eq : ∀ key i, number loop.accumulator key i = (ds.map fun d => number d key i).sum
  referenceKeys : loop.referenceKeys = some first.keys.toFinset
  count : loop.count = ds.length

section Step

variable (index : ℕ) {loop : AverageLoop K} {d : StateDict K}

theorem AverageLoop.exists_step (hkeys : loop.referenceKeys.getD d.keys.toFinset = d.keys.toFinset)
    (h : ∀ key shape shape', layout loop.accumulator key = some shape → layout d key = some shape' →
      shape' = shape) :
    ∃ next, loop.step (ε := ε) index d = .ok next ∧
      (∀ key, layout next.accumulator key = (layout loop.accumulator key).or (layout d key)) ∧
      (∀ key i, number next.accumulator key i =
        number loop.accumulator key i + number d key i) ∧
      next.referenceKeys = some d.keys.toFinset ∧ next.count = loop.count + 1 := by
  have hfits : ∀ item ∈ d.entries, ∀ shape, layout loop.accumulator item.1 = some shape →
      item.2.shape = shape := by
    intro item hitem shape hshape
    have hlookup : d.lookup item.1 = some item.2 := AList.mem_lookup_iff.2 hitem
    exact h item.1 shape _ hshape (layout_eq_some hlookup)
  obtain ⟨accumulator, hrun, hlayout, hnumber⟩ :=
    exists_foldlM_accumulate (ε := ε) index d.nodupKeys hfits
  refine ⟨⟨accumulator, some d.keys.toFinset, loop.count + 1⟩, ?_, hlayout, hnumber, rfl, rfl⟩
  unfold step
  dsimp only
  rw [if_neg (by rw [hkeys]; exact fun hne => hne rfl), hkeys, hrun]
  rfl

theorem Accumulated.exists_step {first : StateDict K} {ds : List (StateDict K)} (h : Accumulated first ds loop)
    (hd : layout d = layout first) :
    ∃ next, loop.step (ε := ε) index d = .ok next ∧ Accumulated first (ds ++ [d]) next := by
  have hkeys : d.keys.toFinset = first.keys.toFinset := by
    ext key
    rw [List.mem_toFinset, List.mem_toFinset, ← AList.mem_keys, ← AList.mem_keys, mem_iff_layout,
      mem_iff_layout, hd]
  have hfits : ∀ key shape shape', layout loop.accumulator key = some shape →
      layout d key = some shape' → shape' = shape := by
    intro key shape shape' hshape hshape'
    rw [h.layout_eq, ← hd, hshape'] at hshape
    exact Option.some.inj hshape
  obtain ⟨next, hstep, hlayout, hnumber, hreference, hcount⟩ :=
    AverageLoop.exists_step (ε := ε) index (by rw [h.referenceKeys, hkeys]; rfl) hfits
  refine ⟨next, hstep, ?_, fun key i => ?_, ?_, ?_⟩
  · funext key
    rw [hlayout, h.layout_eq, hd, Option.or_self]
  · rw [hnumber, h.number_eq, List.map_append, List.sum_append, List.map_singleton, List.sum_singleton]
  · rw [hreference, hkeys]
  · rw [hcount, h.count, List.length_append, List.length_singleton]

/-- The first state dict is the reference. -/
theorem exists_step_first (d : StateDict K) :
    ∃ next, AverageLoop.step (ε := ε) ⟨∅, none, 0⟩ index d = .ok next ∧ Accumulated d [d] next := by
  have hempty : ∀ key, layout (∅ : StateDict K) key = none := fun key => rfl
  obtain ⟨next, hstep, hlayout, hnumber, hreference, hcount⟩ :=
    @AverageLoop.exists_step K ε _ index ⟨∅, none, 0⟩ d rfl (fun key shape shape' h => by cases h)
  refine ⟨next, hstep, ?_, fun key i => ?_, hreference, hcount⟩
  · funext key
    rw [hlayout, hempty, Option.none_or]
  · rw [hnumber, List.map_singleton, List.sum_singleton]
    exact zero_add _

/-- Other keys, or another shape at one of them -/
theorem Accumulated.exists_step_eq_error {first : StateDict K} {ds : List (StateDict K)}
    (h : Accumulated first ds loop) (hd : layout d ≠ layout first) :
    ∃ e, loop.step (ε := ε) index d = .error e := by
  unfold AverageLoop.step
  dsimp only
  rw [h.referenceKeys, Option.getD_some]
  by_cases hkeys : d.keys.toFinset = first.keys.toFinset
  · rw [if_neg fun hne => hne hkeys]
    obtain ⟨key, hkey⟩ := Function.ne_iff.1 hd
    have hmem : key ∈ d ↔ key ∈ first := by
      rw [AList.mem_keys, AList.mem_keys, ← List.mem_toFinset, hkeys, List.mem_toFinset]
    rw [mem_iff_layout, mem_iff_layout] at hmem
    -- the key is in both, since it would be in neither otherwise
    have hsome : (layout d key).isSome := by
      by_contra hnone
      have hfirst : ¬ (layout first key).isSome := fun hsome => hnone (hmem.2 hsome)
      rw [Bool.not_eq_true, Option.isSome_eq_false_iff, Option.isNone_iff_eq_none] at hnone hfirst
      exact hkey (hnone.trans hfirst.symm)
    obtain ⟨shape, hshape⟩ := Option.isSome_iff_exists.1 (hmem.1 hsome)
    obtain ⟨shape', hshape'⟩ := Option.isSome_iff_exists.1 hsome
    obtain ⟨t, ht, rfl⟩ := Option.map_eq_some_iff.1 hshape'
    have hmis : ∃ item ∈ d.entries, ∃ shape, layout loop.accumulator item.1 = some shape ∧
        item.2.shape ≠ shape := by
      refine ⟨⟨key, t⟩, AList.mem_lookup_iff.1 ht, shape, ?_, fun heq => hkey ?_⟩
      · rw [h.layout_eq, hshape]
      · rw [hshape', hshape]
        exact congrArg some heq
    obtain ⟨e, hrun⟩ := exists_foldlM_accumulate_eq_error (ε := ε) index d.nodupKeys hmis
    rw [hrun]
    exact ⟨e, rfl⟩
  · rw [if_pos hkeys]
    exact ⟨_, rfl⟩

end Step

theorem Accumulated.exists_run {first : StateDict K} {ds : List (StateDict K)} {loop : AverageLoop K}
    (h : Accumulated first ds loop) {rest : List (StateDict K)}
    (hrest : ∀ d ∈ rest, layout d = layout first) (index : ℕ) :
    ∃ last, ((rest.map .ok).zipIdx index).foldlM (AverageLoop.next (ε := ε)) loop = .ok last ∧
      Accumulated first (ds ++ rest) last := by
  induction rest generalizing ds loop index with
  | nil => exact ⟨loop, rfl, by rwa [List.append_nil]⟩
  | cons d rest ih =>
    obtain ⟨next, hstep, hnext⟩ := h.exists_step (ε := ε) index (hrest d List.mem_cons_self)
    obtain ⟨last, hrun, hlast⟩ := ih hnext (fun d hd => hrest d (List.mem_cons_of_mem _ hd)) (index + 1)
    refine ⟨last, ?_, by rwa [List.append_assoc] at hlast⟩
    rw [List.map_cons, List.zipIdx_cons, List.foldlM_cons, AverageLoop.next]
    show (loop.step index d).bind _ = _
    rw [hstep]
    exact hrun

/-- The run fails at a state dict that is not there, or not laid out as the first. -/
theorem Accumulated.exists_run_eq_error {first : StateDict K} {ds : List (StateDict K)} {loop : AverageLoop K}
    (h : Accumulated first ds loop) {loads : List (Except (AveragingError ε) (StateDict K))}
    (hloads : ∃ load ∈ loads, ∀ d, load = .ok d → layout d ≠ layout first) (index : ℕ) :
    ∃ e, (loads.zipIdx index).foldlM AverageLoop.next loop = .error e := by
  induction loads generalizing ds loop index with
  | nil =>
    obtain ⟨load, hload, -⟩ := hloads
    cases hload
  | cons load loads ih =>
    rw [List.zipIdx_cons, List.foldlM_cons, AverageLoop.next]
    cases load with
    | error e => exact ⟨e, rfl⟩
    | ok d =>
      show ∃ e, (loop.step index d).bind _ = .error e
      by_cases hd : layout d = layout first
      · obtain ⟨next, hstep, hnext⟩ := h.exists_step (ε := ε) index hd
        rw [hstep]
        obtain ⟨load, hload, hbad⟩ := hloads
        rcases List.mem_cons.1 hload with rfl | hload
        · exact absurd hd (hbad d rfl)
        · exact ih hnext ⟨load, hload, hbad⟩ (index + 1)
      · obtain ⟨e, hstep⟩ := h.exists_step_eq_error (ε := ε) index hd
        rw [hstep]
        exact ⟨e, rfl⟩

/-! ### The mean -/

/-- The keys and shapes of all, and at every place the mean of their numbers -/
structure IsMean (averaged : StateDict K) (ds : List (StateDict K)) : Prop where
  layout_eq : ∀ d ∈ ds, layout averaged = layout d
  number_eq : ∀ key i, number averaged key i = (ds.map fun d => number d key i).sum / ds.length

theorem Accumulated.isMean {first : StateDict K} {ds : List (StateDict K)} {loop : AverageLoop K}
    (h : Accumulated first ds loop) (hds : ∀ d ∈ ds, layout d = layout first) :
    IsMean (loop.accumulator.mapValues fun value => value.div loop.count) ds where
  layout_eq := by
    intro d hd
    rw [hds d hd, ← h.layout_eq]
    funext key
    rw [layout, Dict.lookup_mapValues, Option.map_map]
    rfl
  number_eq := by
    intro key i
    rw [← h.number_eq key i, ← h.count]
    unfold number
    rw [Dict.lookup_mapValues]
    cases loop.accumulator.lookup key with
    | none => exact (zero_div _).symm
    | some t => exact t.number_div _ i

theorem exists_averageStateDicts {ds : List (StateDict K)} (hds : ds ≠ [])
    (h : ∀ d ∈ ds, ∀ d' ∈ ds, layout d = layout d') :
    ∃ averaged, averageStateDicts (ε := ε) (ds.map .ok) = .ok averaged ∧ IsMean averaged ds := by
  obtain ⟨first, rest, rfl⟩ := List.exists_cons_of_ne_nil hds
  have hfirst : ∀ d ∈ first :: rest, layout d = layout first := fun d hd => h d hd first List.mem_cons_self
  obtain ⟨loop, hstep, hloop⟩ := exists_step_first (ε := ε) 0 first
  obtain ⟨last, hrun, hlast⟩ :=
    hloop.exists_run (ε := ε) (fun d hd => hfirst d (List.mem_cons_of_mem _ hd)) 1
  have hcount : last.count ≠ 0 := by
    rw [hlast.count, List.length_append, List.length_singleton]
    omega
  refine ⟨_, ?_, hlast.isMean hfirst⟩
  rw [averageStateDicts, List.map_cons, List.zipIdx_cons, List.foldlM_cons, AverageLoop.next]
  show ((AverageLoop.step _ 0 first).bind _).bind _ = _
  rw [hstep]
  show Except.bind (List.foldlM _ loop _) _ = _
  rw [hrun]
  exact if_neg hcount

theorem exists_averageStateDicts_eq_error {load : Except (AveragingError ε) (StateDict K)}
    {loads : List (Except (AveragingError ε) (StateDict K))}
    (h : ∃ load' ∈ load :: loads, ∀ d, load' = .ok d → ∀ first, load = .ok first → layout d ≠ layout first) :
    ∃ e, averageStateDicts (load :: loads) = .error e := by
  rw [averageStateDicts, List.zipIdx_cons, List.foldlM_cons, AverageLoop.next]
  cases load with
  | error e => exact ⟨e, rfl⟩
  | ok first =>
    obtain ⟨loop, hstep, hloop⟩ := exists_step_first (ε := ε) 0 first
    obtain ⟨load', hload', hbad⟩ := h
    have hlater : load' ∈ loads := by
      rcases List.mem_cons.1 hload' with rfl | hlater
      · exact absurd rfl (hbad first rfl first rfl)
      · exact hlater
    obtain ⟨e, hrun⟩ := hloop.exists_run_eq_error ⟨load', hlater, fun d hd => hbad d hd first rfl⟩ 1
    refine ⟨e, ?_⟩
    show ((AverageLoop.step _ 0 first).bind _).bind _ = _
    rw [hstep]
    show Except.bind (List.foldlM _ loop _) _ = _
    rw [hrun]
    rfl

theorem IsMean.same_of_perm {ds ds' : List (StateDict K)} {averaged averaged' : StateDict K} (hds : ds ≠ [])
    (hperm : ds.Perm ds') (h : IsMean averaged ds) (h' : IsMean averaged' ds') : averaged.Same averaged' := by
  obtain ⟨d, hd⟩ := List.exists_mem_of_ne_nil ds hds
  apply same_of_number
  · exact (h.layout_eq d hd).trans (h'.layout_eq d (hperm.mem_iff.1 hd)).symm
  · intro key i
    rw [h.number_eq, h'.number_eq, hperm.length_eq, (hperm.map fun d => number d key i).sum_eq]

/-- The order of the state dicts does not matter. -/
theorem averageStateDicts_perm {ds ds' : List (StateDict K)} (hperm : ds.Perm ds') {averaged : StateDict K}
    (h : averageStateDicts (ε := ε) (ds.map .ok) = .ok averaged) :
    ∃ averaged', averageStateDicts (ε := ε) (ds'.map .ok) = .ok averaged' ∧ averaged.Same averaged' := by
  have hds : ds ≠ [] := by
    rintro rfl
    cases h
  have halike : ∀ d ∈ ds, ∀ d' ∈ ds, layout d = layout d' := by
    obtain ⟨first, rest, rfl⟩ := List.exists_cons_of_ne_nil hds
    have hfirst : ∀ d ∈ first :: rest, layout d = layout first := by
      intro d hd
      by_contra hne
      have hbad : ∃ load ∈ (Except.ok first : Except (AveragingError ε) (StateDict K)) :: rest.map .ok,
          ∀ d, load = .ok d → ∀ first', (Except.ok first : Except (AveragingError ε) _) = .ok first' →
            layout d ≠ layout first' := by
        refine ⟨.ok d, List.mem_map_of_mem (f := Except.ok) hd, fun d' hd' first' hfirst' => ?_⟩
        rwa [← Except.ok.inj hd', ← Except.ok.inj hfirst']
      obtain ⟨e, he⟩ := exists_averageStateDicts_eq_error hbad
      rw [List.map_cons, he] at h
      cases h
    exact fun d hd d' hd' => (hfirst d hd).trans (hfirst d' hd').symm
  obtain ⟨mean, hmean, hisMean⟩ := exists_averageStateDicts (ε := ε) hds halike
  have hds' : ds' ≠ [] := fun hnil => hds (List.perm_nil.1 (hnil ▸ hperm))
  obtain ⟨mean', hmean', hisMean'⟩ := exists_averageStateDicts (ε := ε) hds' fun d hd d' hd' =>
    halike d (hperm.mem_iff.2 hd) d' (hperm.mem_iff.2 hd')
  obtain rfl : mean = averaged := Except.ok.inj (hmean.symm.trans h)
  exact ⟨mean', hmean', hisMean.same_of_perm hds hperm hisMean'⟩

end Average

/-! ### Directories -/

variable {K β ε : Type*}

def weightsFilename : Str := "model.safetensors".toList

def excludedFilenames : List Str :=
  [weightsFilename, "optimizer.pt".toList, "scheduler.pt".toList, "rng_state.pth".toList,
    "trainer_state.json".toList, "training_args.bin".toList, "scaler.pt".toList]

/-- The number in a name that `^checkpoint-(\d+)$` matches -/
def checkpointStep (name : Str) : Option ℕ :=
  (name.dropPrefix? "checkpoint-".toList).bind fun rest =>
    -- `$` matches before a line feed at the end, too
    let digits := if rest.getLast? = some '\n' then rest.dropLast else rest
    if digits ≠ [] ∧ digits.all isDecimal then some (intOf digits) else none

/-- An entry of `checkpoints_root`, with the files in it if it is a directory -/
structure RootEntry (β : Type*) where
  name : Str
  files : Option (Dict Str β)

structure CheckpointDir (β : Type*) where
  name : Str
  files : Dict Str β

def numberedDirs (entries : List (RootEntry β)) : List (ℕ × CheckpointDir β) :=
  entries.filterMap fun entry =>
    entry.files.bind fun files => (checkpointStep entry.name).map fun step => (step, ⟨entry.name, files⟩)

def findCheckpointDirs (entries : List (RootEntry β)) : List (CheckpointDir β) :=
  ((numberedDirs entries).insertionSort fun p q => p.1 ≤ q.1).map Prod.snd

def selectLastNCheckpoints (checkpoint_dirs : List (CheckpointDir β)) (n : ℤ) :
    Except (AveragingError ε) (List (CheckpointDir β)) :=
  if n ≤ 0 then .error (.notPositive n)
  else .ok (checkpoint_dirs.drop (checkpoint_dirs.length - n.toNat))

section Checkpoints

variable [Field K] (load_file : β → Except ε (StateDict K)) (save_file : StateDict K → β)

def loadStateDict (checkpoint_dir : CheckpointDir β) : Except (AveragingError ε) (StateDict K) :=
  match checkpoint_dir.files.lookup weightsFilename with
  | none => .error (.weightsNotFound checkpoint_dir.name)
  | some file => (load_file file).mapError .load

/-- `average_checkpoints`, with the files of `output_dir` before and after, if it is there -/
def averageCheckpoints (checkpoint_dirs : List (CheckpointDir β)) (output_dir : Option (Dict Str β)) :
    Except (AveragingError ε) Unit × Option (Dict Str β) :=
  match checkpoint_dirs.getLast? with
  | none => (.error .noCheckpoints, output_dir)
  | some last_checkpoint_dir =>
    match averageStateDicts (checkpoint_dirs.map (loadStateDict load_file)) with
    | .error e => (.error e, output_dir)
    | .ok averaged =>
      let files := (output_dir.getD ∅).insert weightsFilename (save_file averaged)
      let copied := last_checkpoint_dir.files.entries.filter fun file => !excludedFilenames.contains file.1
      (.ok (), some (Dict.update files copied))

/-- `main`, with its exit code -/
def averagingMain (entries : List (RootEntry β)) (n : ℤ) (output_dir : Option (Dict Str β)) :
    Except (AveragingError ε) ℕ × Option (Dict Str β) :=
  let checkpoint_dirs := findCheckpointDirs entries
  if checkpoint_dirs.isEmpty then (.ok 1, output_dir)
  else
    match selectLastNCheckpoints checkpoint_dirs n with
    | .error e => (.error e, output_dir)
    | .ok selected =>
      let (result, output_dir) := averageCheckpoints load_file save_file selected output_dir
      (result.map fun _ => 0, output_dir)

end Checkpoints

/-! ### The selection -/

/-- The last `n` steps, or all, in ascending order -/
structure LastSteps {α : Type*} (numbered : List (ℕ × α)) (n : ℕ) (selected : List (ℕ × α)) : Prop where
  ascending : selected.Pairwise fun c d => c.1 < d.1
  subset : selected ⊆ numbered
  length : selected.length = min n numbered.length
  largest : ∀ c ∈ selected, ∀ d ∈ numbered, d ∉ selected → d.1 < c.1

section Selection

variable {α : Type*} {numbered numbered' : List (ℕ × α)}

theorem sortedSteps_perm (numbered : List (ℕ × α)) :
    (numbered.insertionSort fun p q => p.1 ≤ q.1).Perm numbered :=
  List.perm_insertionSort _ _

theorem pairwise_sortedSteps (h : (numbered.map Prod.fst).Nodup) :
    (numbered.insertionSort fun p q => p.1 ≤ q.1).Pairwise fun p q => p.1 < q.1 := by
  have htotal : Std.Total fun p q : ℕ × α => p.1 ≤ q.1 := ⟨fun p q => le_total p.1 q.1⟩
  have htrans : IsTrans (ℕ × α) fun p q => p.1 ≤ q.1 := ⟨fun _ _ _ => le_trans⟩
  have hle := List.pairwise_insertionSort (fun p q : ℕ × α => p.1 ≤ q.1) numbered
  have hne := List.pairwise_map.1 (((sortedSteps_perm numbered).map Prod.fst).nodup_iff.2 h)
  exact (hle.and hne).imp fun hpq => lt_of_le_of_ne hpq.1 hpq.2

/-- With distinct steps, the order of the listing is forgotten. -/
theorem sortedSteps_eq_of_perm (h : (numbered.map Prod.fst).Nodup) (hperm : numbered'.Perm numbered) :
    (numbered'.insertionSort fun p q => p.1 ≤ q.1) = numbered.insertionSort fun p q => p.1 ≤ q.1 := by
  have h' : (numbered'.map Prod.fst).Nodup := (hperm.map Prod.fst).nodup_iff.2 h
  have hsorted := ((sortedSteps_perm numbered').trans hperm).trans (sortedSteps_perm numbered).symm
  refine hsorted.eq_of_pairwise (fun p q _ _ hpq hqp => ?_) (pairwise_sortedSteps h') (pairwise_sortedSteps h)
  exact absurd (hpq.trans hqp) (lt_irrefl _)

theorem lastSteps_drop (h : (numbered.map Prod.fst).Nodup) (n : ℕ) {sorted : List (ℕ × α)}
    (hsorted : sorted = numbered.insertionSort fun p q => p.1 ≤ q.1) :
    LastSteps numbered n (sorted.drop (sorted.length - n)) := by
  have hperm : sorted.Perm numbered := hsorted ▸ sortedSteps_perm numbered
  have hpairs : sorted.Pairwise fun p q => p.1 < q.1 := hsorted ▸ pairwise_sortedSteps h
  constructor
  case ascending => exact hpairs.sublist (List.drop_sublist ..)
  case subset => exact fun c hc => hperm.mem_iff.1 (List.mem_of_mem_drop hc)
  case length =>
    rw [List.length_drop, hperm.length_eq]
    omega
  case largest =>
    intro c hc d hd hnot
    rw [← List.take_append_drop (sorted.length - n) sorted] at hpairs
    have htake : d ∈ sorted.take (sorted.length - n) := by
      have hall : d ∈ sorted.take (sorted.length - n) ++ sorted.drop (sorted.length - n) := by
        rw [List.take_append_drop]
        exact hperm.mem_iff.2 hd
      exact (List.mem_append.1 hall).resolve_right hnot
    exact (List.pairwise_append.1 hpairs).2.2 d htake c hc

end Selection

/-! ### Checkpoints -/

section Checkpoints

variable [Field K] (load_file : β → Except ε (StateDict K)) (save_file : StateDict K → β)

/-- What `load_file` reads from the weights file, if it is there and can be read -/
def weights (checkpoint_dir : CheckpointDir β) : Option (StateDict K) :=
  (loadStateDict load_file checkpoint_dir).toOption

/-- A checkpoint has no weights file, or other keys or tensor shapes than the first. -/
def Differs (first checkpoint_dir : CheckpointDir β) : Prop :=
  weights load_file checkpoint_dir = none ∨
    ∃ d d₀, weights load_file checkpoint_dir = some d ∧ weights load_file first = some d₀ ∧ layout d ≠ layout d₀

variable {load_file} {first : CheckpointDir β} {rest : List (CheckpointDir β)}

theorem toOption_eq_some {E A : Type*} {x : Except E A} {a : A} (h : x.toOption = some a) : x = .ok a := by
  cases x with
  | error e => cases h
  | ok b => exact congrArg Except.ok (Option.some.inj h)

theorem exists_averageCheckpoints_eq_error (h : ∃ c ∈ first :: rest, Differs load_file first c)
    (output_dir : Option (Dict Str β)) :
    ∃ e, averageCheckpoints load_file save_file (first :: rest) output_dir = (.error e, output_dir) := by
  obtain ⟨c, hc, hdiffers⟩ := h
  have hbad : ∃ load ∈ loadStateDict load_file first :: rest.map (loadStateDict load_file),
      ∀ d, load = .ok d → ∀ d₀, loadStateDict load_file first = .ok d₀ → layout d ≠ layout d₀ := by
    refine ⟨loadStateDict load_file c, List.mem_map_of_mem (f := loadStateDict load_file) hc,
      fun d hd d₀ hd₀ => ?_⟩
    have hweights : weights load_file c = some d := by
      rw [weights, hd]
      rfl
    have hfirst : weights load_file first = some d₀ := by
      rw [weights, hd₀]
      rfl
    rcases hdiffers with hnone | ⟨e, e₀, he, he₀, hne⟩
    · rw [hnone] at hweights
      cases hweights
    · rwa [Option.some.inj (he.symm.trans hweights), Option.some.inj (he₀.symm.trans hfirst)] at hne
  obtain ⟨e, he⟩ := exists_averageStateDicts_eq_error hbad
  refine ⟨e, ?_⟩
  unfold averageCheckpoints
  rw [List.getLast?_cons, List.map_cons, he]

/-- The files that are copied leave the weights as they are. -/
theorem lookup_weights_copied (files : Dict Str β) (last : CheckpointDir β) :
    (Dict.update files (last.files.entries.filter fun file => !excludedFilenames.contains file.1)).lookup
        weightsFilename =
      files.lookup weightsFilename := by
  have hnodup : (last.files.entries.filter fun file => !excludedFilenames.contains file.1).NodupKeys :=
    last.files.nodupKeys.sublist List.filter_sublist
  have hexcluded : excludedFilenames.contains weightsFilename = true :=
    List.contains_iff_mem.2 List.mem_cons_self
  have hnone :
      (last.files.entries.filter fun file => !excludedFilenames.contains file.1).dlookup weightsFilename =
        none := by
    rw [List.dlookup_eq_none, List.mem_keys]
    rintro ⟨file, hfile⟩
    have hkept := (List.mem_filter.1 hfile).2
    rw [hexcluded] at hkept
    cases hkept
  rw [Dict.lookup_update hnodup, hnone, Option.none_or]

omit [Field K] in
/-- Checkpoints that do not differ from the first have weights, and all of them one layout. -/
theorem exists_stateDicts (h : ∀ c ∈ first :: rest, ¬ Differs load_file first c) :
    ∃ ds : List (StateDict K), (first :: rest).map (loadStateDict load_file) = ds.map .ok ∧
      (first :: rest).map (weights load_file) = ds.map some ∧ ∀ d ∈ ds, ∀ d' ∈ ds, layout d = layout d' := by
  have hsome : ∀ c ∈ first :: rest, ∃ d, weights load_file c = some d :=
    fun c hc => Option.ne_none_iff_exists'.1 fun hnone => h c hc (Or.inl hnone)
  have hloads : (first :: rest).map (loadStateDict load_file) ∈ Set.range (List.map Except.ok) := by
    rw [Set.range_list_map]
    intro load hload
    obtain ⟨c, hc, rfl⟩ := List.mem_map.1 hload
    obtain ⟨d, hd⟩ := hsome c hc
    exact ⟨d, (toOption_eq_some hd).symm⟩
  obtain ⟨ds, hds⟩ := hloads
  have hweights : (first :: rest).map (weights load_file) = ds.map some := by
    calc (first :: rest).map (weights load_file)
        = ((first :: rest).map (loadStateDict load_file)).map Except.toOption := by
          rw [List.map_map]
          rfl
      _ = ds.map some := by
          rw [← hds, List.map_map]
          rfl
  obtain ⟨d₀, hd₀⟩ := hsome first List.mem_cons_self
  have hfirst : ∀ d ∈ ds, layout d = layout d₀ := by
    intro d hd
    have hmem : some d ∈ (first :: rest).map (weights load_file) := hweights ▸ List.mem_map_of_mem hd
    obtain ⟨c, hc, hcd⟩ := List.mem_map.1 hmem
    by_contra hne
    exact h c hc (Or.inr ⟨d, d₀, hcd, hd₀, hne⟩)
  exact ⟨ds, hds.symm, hweights, fun d hd d' hd' => (hfirst d hd).trans (hfirst d' hd').symm⟩

theorem exists_averageCheckpoints (h : ∀ c ∈ first :: rest, ¬ Differs load_file first c)
    (output_dir : Option (Dict Str β)) :
    ∃ ds averaged files, (first :: rest).map (weights load_file) = ds.map some ∧ IsMean averaged ds ∧
      averageCheckpoints load_file save_file (first :: rest) output_dir = (.ok (), some files) ∧
      files.lookup weightsFilename = some (save_file averaged) := by
  obtain ⟨ds, hloads, hweights, hlayouts⟩ := exists_stateDicts h
  have hne : ds ≠ [] := by
    rintro rfl
    cases hloads
  obtain ⟨averaged, haverage, hmean⟩ := exists_averageStateDicts (ε := ε) hne hlayouts
  obtain ⟨last, hlast⟩ : ∃ last, (first :: rest).getLast? = some last := ⟨_, List.getLast?_cons⟩
  obtain ⟨files, hrun, hfiles⟩ : ∃ files, averageCheckpoints load_file save_file (first :: rest) output_dir =
      (.ok (), some files) ∧ files.lookup weightsFilename = some (save_file averaged) := by
    unfold averageCheckpoints
    rw [hlast, hloads, haverage]
    refine ⟨_, rfl, ?_⟩
    rw [lookup_weights_copied, AList.lookup_insert]
  exact ⟨ds, averaged, files, hweights, hmean, hrun, hfiles⟩

variable (load_file)

theorem averagingMain_of_nil {entries : List (RootEntry β)} (h : findCheckpointDirs entries = []) (n : ℤ)
    (output_dir : Option (Dict Str β)) :
    averagingMain load_file save_file entries n output_dir = (.ok 1, output_dir) := by
  unfold averagingMain
  rw [h]
  rfl

theorem averagingMain_of_ne_nil {entries : List (RootEntry β)} (h : findCheckpointDirs entries ≠ []) {n : ℤ}
    (hn : 1 ≤ n) (output_dir : Option (Dict Str β)) :
    averagingMain load_file save_file entries n output_dir =
      let averaged := averageCheckpoints load_file save_file
        ((findCheckpointDirs entries).drop ((findCheckpointDirs entries).length - n.toNat)) output_dir
      (averaged.1.map fun _ => 0, averaged.2) := by
  have hselect : selectLastNCheckpoints (ε := ε) (findCheckpointDirs entries) n =
      .ok ((findCheckpointDirs entries).drop ((findCheckpointDirs entries).length - n.toNat)) :=
    if_neg (by omega)
  unfold averagingMain
  dsimp only
  rw [if_neg (by rwa [List.isEmpty_iff]), hselect]

/-- What comes of a run that has selected these checkpoints, in ascending order -/
structure AveragedFrom (selected : List (CheckpointDir β)) (output_dir : Option (Dict Str β))
    (outcome : Except (AveragingError ε) ℕ × Option (Dict Str β)) : Prop where
  nothing : selected = [] → outcome = (.ok 1, output_dir)
  fails_iff : (∃ e, outcome.1 = .error e) ↔ ∃ first ∈ selected.head?, ∃ c ∈ selected, Differs load_file first c
  unchanged : ∀ e, outcome.1 = .error e → outcome.2 = output_dir
  mean : ∀ first ∈ selected.head?, (∀ c ∈ selected, ¬ Differs load_file first c) →
    ∃ ds averaged files, selected.map (weights load_file) = ds.map some ∧ IsMean averaged ds ∧
      outcome = (.ok 0, some files) ∧ files.lookup weightsFilename = some (save_file averaged)

theorem averagedFrom_averagingMain {entries : List (RootEntry β)} {n : ℤ} (hn : 1 ≤ n)
    (output_dir : Option (Dict Str β)) {selected : List (CheckpointDir β)}
    (hselected : selected =
      (findCheckpointDirs entries).drop ((findCheckpointDirs entries).length - n.toNat)) :
    AveragedFrom load_file save_file selected output_dir
      (averagingMain load_file save_file entries n output_dir) := by
  cases selected with
  | nil =>
    have hlength := congrArg List.length hselected
    rw [List.length_nil, List.length_drop] at hlength
    have hnil : findCheckpointDirs entries = [] := List.length_eq_zero_iff.1 (by omega)
    rw [averagingMain_of_nil load_file save_file hnil]
    refine ⟨fun _ => rfl, ⟨?_, ?_⟩, ?_, ?_⟩
    · rintro ⟨e, he⟩
      cases he
    · rintro ⟨first, hfirst, -⟩
      cases hfirst
    · intro e he
      cases he
    · intro first hfirst
      cases hfirst
  | cons first rest =>
    have hne : findCheckpointDirs entries ≠ [] := by
      intro hnil
      rw [hnil, List.drop_nil] at hselected
      cases hselected
    rw [averagingMain_of_ne_nil load_file save_file hne hn, ← hselected]
    have hhead : ∀ c, c ∈ (first :: rest).head? → c = first := fun c hc => (Option.some.inj hc).symm
    by_cases hdiffers : ∃ c ∈ first :: rest, Differs load_file first c
    · obtain ⟨e, he⟩ := exists_averageCheckpoints_eq_error save_file hdiffers output_dir
      rw [he]
      refine ⟨fun h => (by cases h), ⟨fun _ => ⟨first, rfl, hdiffers⟩, fun _ => ⟨e, rfl⟩⟩, fun _ _ => rfl, ?_⟩
      intro c hc hsame
      obtain rfl := hhead c hc
      obtain ⟨d, hd, hdd⟩ := hdiffers
      exact absurd hdd (hsame d hd)
    · have hsame : ∀ c ∈ first :: rest, ¬ Differs load_file first c := fun c hc h => hdiffers ⟨c, hc, h⟩
      obtain ⟨ds, averaged, files, hweights, hmean, hrun, hfiles⟩ :=
        exists_averageCheckpoints save_file hsame output_dir
      rw [hrun]
      refine ⟨fun h => (by cases h), ⟨?_, ?_⟩, ?_, ?_⟩
      · rintro ⟨e, he⟩
        cases he
      · rintro ⟨c, hc, hbad⟩
        obtain rfl := hhead c hc
        exact absurd hbad hdiffers
      · intro e he
        cases he
      · exact fun _ _ _ => ⟨ds, averaged, files, hweights, hmean, rfl, hfiles⟩

end Checkpoints

/-! ### Averaging -/

section Averaging

variable [Field K] (load_file : β → Except ε (StateDict K)) (save_file : StateDict K → β)

/-- Averaging, for checkpoints with distinct steps.  The weights that are written are the mean of the last
ones; it fails if and only if one of them has no weights or is not laid out as the first, and then the output
directory is as it was.  Neither the order of the listing nor that of the state dicts matters. -/
theorem checkpoint_averaging_exact {entries : List (RootEntry β)}
    (hsteps : ((numberedDirs entries).map Prod.fst).Nodup) {n : ℤ} (hn : 1 ≤ n) :
    (∃ selected, LastSteps (numberedDirs entries) n.toNat selected ∧
      ∀ output_dir, AveragedFrom load_file save_file (selected.map Prod.snd) output_dir
        (averagingMain load_file save_file entries n output_dir)) ∧
      (∀ entries', entries'.Perm entries → ∀ output_dir,
        averagingMain load_file save_file entries' n output_dir =
          averagingMain load_file save_file entries n output_dir) ∧
      ∀ ds ds' : List (StateDict K), ds.Perm ds' → ∀ averaged,
        averageStateDicts (ε := ε) (ds.map .ok) = .ok averaged →
          ∃ averaged', averageStateDicts (ε := ε) (ds'.map .ok) = .ok averaged' ∧ averaged.Same averaged' := by
  refine ⟨?_, ?_, fun ds ds' hperm averaged h => averageStateDicts_perm hperm h⟩
  · refine ⟨_, lastSteps_drop hsteps n.toNat rfl, fun output_dir => ?_⟩
    apply averagedFrom_averagingMain load_file save_file hn
    rw [findCheckpointDirs, List.map_drop, List.length_map]
  · intro entries' hperm output_dir
    have hnumbered : (numberedDirs entries').Perm (numberedDirs entries) := hperm.filterMap _
    have hdirs : findCheckpointDirs entries' = findCheckpointDirs entries := by
      rw [findCheckpointDirs, findCheckpointDirs, sortedSteps_eq_of_perm hsteps hnumbered]
    unfold averagingMain
    rw [hdirs]

end Averaging

/-- A listing of three checkpoints and a file -/
private def sampleListing : List (RootEntry (StateDict ℚ)) :=
  let weightsOf (x : ℚ) : Dict Str (StateDict ℚ) :=
    AList.insert weightsFilename (AList.insert "bias".toList ⟨[1], [x], rfl⟩ ∅) ∅
  [⟨"checkpoint-9".toList, some (weightsOf 3)⟩, ⟨"checkpoint-10".toList, some (weightsOf 5)⟩,
    ⟨"checkpoint-11".toList, none⟩, ⟨"checkpoint-2".toList, some (weightsOf 7)⟩]

/-- The numbers of the names are compared, and 10 is the last. -/
theorem checkpoint_averaging_exact_sample :
    (numberedDirs sampleListing).map Prod.fst = [9, 10, 2] ∧
      ∃ selected, LastSteps (numberedDirs sampleListing) 2 selected ∧
        ∀ output_dir, AveragedFrom Except.ok id (selected.map Prod.snd) output_dir
          (averagingMain (ε := Empty) Except.ok id sampleListing 2 output_dir) := by
  have hsteps : (numberedDirs sampleListing).map Prod.fst = [9, 10, 2] := by decide +kernel
  have hnodup : ((numberedDirs sampleListing).map Prod.fst).Nodup := by
    rw [hsteps]
    decide
  have hn : (1 : ℤ) ≤ 2 := by decide
  exact ⟨hsteps, (checkpoint_averaging_exact Except.ok id hnodup hn).1⟩

end KaqTranslator
