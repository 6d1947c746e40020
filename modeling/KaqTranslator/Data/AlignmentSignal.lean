import KaqTranslator.Library.Batches
import KaqTranslator.Library.Floats
import KaqTranslator.Library.Loops
import KaqTranslator.Library.Ranks
import KaqTranslator.Text
import Mathlib.Algebra.Order.Field.Basic
import Mathlib.Data.List.Sort
import Mathlib.Tactic.FieldSimp
import Mathlib.Tactic.Linarith
import Mathlib.Tactic.NormNum
import Mathlib.Tactic.Positivity

/-!
# The alignment signal (`data/alignment_signal.py`)

`auc_separation` ranks the scores of both groups together and adds up the ranks of the first.  The loop of
`_average_ranks` goes from one group of ties to the next: over exact arithmetic the ranks are those of
`Ranks.midrank` (`RankLoop.exact_step`, `averageRanks_eq`), and their sum counts the pairs (`auc_pair_count`).

A group of ties is at least the value it begins with, if that value equals itself.  NaN does not, and there
the loop stands still (`RankLoop.ends_iff`); the cosine of an embedding with an infinity is NaN
(`rankLoop_stands_still`).
-/

namespace KaqTranslator

/-! ### Similarities -/

/-- `np.linalg.norm`, of one row -/
def norm (r : Double.Rounding) (row : List Double) : Double :=
  Double.sqrt r (Double.sum r (row.map fun x => Double.mul r x x))

/-- `cosine_similarities`, of two matrices with rows of one length -/
def cosineSimilarities (r : Double.Rounding) (a b : List (List Double)) : List Double :=
  List.zipWith (fun row_a row_b =>
    let denom := Double.mul r (norm r row_a) (norm r row_b)
    let dot := Double.sum r (List.zipWith (Double.mul r) row_a row_b)
    if Double.less (.finite 0) denom then Double.div r dot denom else .finite 0) a b

/-! ### Average ranks -/

variable {S K : Type*}

section AverageRanks

variable (less eq : S → S → Bool)

/-- `np.argsort(values, kind="stable")` -/
def argsort (values : List S) : List (Fin values.length) :=
  (List.finRange values.length).insertionSort fun i j => less (values.get j) (values.get i) = false

/-- The state of the loop: `i`, and `ranks_for_sorted[:i]` -/
structure RankLoop (K : Type*) where
  i : ℕ
  ranksForSorted : List K

/-- The body of the loop, which is over at the end of the values -/
def RankLoop.step [DivisionRing K] (sorted_values : List S) (loop : RankLoop K) : Option (RankLoop K) :=
  match sorted_values[loop.i]? with
  | none => none
  | some v =>
    let j := loop.i + ((sorted_values.drop loop.i).takeWhile fun w => eq w v).length
    let average_rank : K := (loop.i + 1 + j : ℕ) / (2 : ℕ)
    some ⟨j, loop.ranksForSorted ++ List.replicate (j - loop.i) average_rank⟩

/-- `_average_ranks`, if its loop is over after `fuel` rounds -/
def averageRanks [DivisionRing K] (fuel : ℕ) (values : List S) : Option (List K) :=
  let order := argsort less values
  let sorted_values := order.map values.get
  (Loops.runWhile (RankLoop.step eq sorted_values) fuel ⟨0, []⟩).map fun loop =>
    -- `ranks[order] = ranks_for_sorted`
    Batches.scatter (List.replicate values.length 0) (order.zip loop.ranksForSorted)

def aucSeparation [DivisionRing K] (fuel : ℕ) (positive_scores negative_scores : List S) :
    Option (Except ValueError K) :=
  let n_pos := positive_scores.length
  let n_neg := negative_scores.length
  if n_pos = 0 ∨ n_neg = 0 then
    some (.error ⟨"auc_separation requires at least one score in each group".toList⟩)
  else
    (averageRanks less eq fuel (positive_scores ++ negative_scores)).map fun ranks : List K =>
      let positive_rank_sum := (ranks.take n_pos).sum
      .ok ((positive_rank_sum - (n_pos * (n_pos + 1) : ℕ) / (2 : ℕ)) / (n_pos * n_neg : ℕ))

end AverageRanks

/-! ### The loop -/

section Loop

variable {less eq : S → S → Bool} {sorted_values : List S}

theorem argsort_perm (values : List S) : (argsort less values).Perm (List.finRange values.length) :=
  List.perm_insertionSort _ _

theorem sorted_perm (values : List S) : ((argsort less values).map values.get).Perm values := by
  have hmap := (@argsort_perm S less values).map values.get
  rwa [List.map_get_finRange] at hmap

variable [DivisionRing K]

/-- What one round does: the values that are equal to the one at `i` get the rank in the middle of theirs. -/
theorem RankLoop.step_eq_some {loop next : RankLoop K} (h : loop.step eq sorted_values = some next) :
    ∃ v, sorted_values[loop.i]? = some v ∧
      next.i = loop.i + ((sorted_values.drop loop.i).takeWhile fun w => eq w v).length ∧
      next.ranksForSorted = loop.ranksForSorted ++
        List.replicate (next.i - loop.i) (((loop.i : K) + 1 + next.i) / 2) := by
  unfold step at h
  cases hv : sorted_values[loop.i]? with
  | none =>
    rw [hv] at h
    cases h
  | some v =>
    rw [hv] at h
    obtain rfl := Option.some.inj h
    refine ⟨v, rfl, rfl, ?_⟩
    dsimp only
    push_cast
    rfl

/-- A round does not stand still if the value at `i` equals itself. -/
theorem RankLoop.lt_of_step {loop next : RankLoop K} (hself : ∀ v ∈ sorted_values, eq v v = true)
    (h : loop.step eq sorted_values = some next) : loop.i < next.i := by
  obtain ⟨v, hv, hi, -⟩ := step_eq_some h
  obtain ⟨hlt, hget⟩ := List.getElem?_eq_some_iff.1 hv
  have hdrop : sorted_values.drop loop.i = v :: sorted_values.drop (loop.i + 1) := by
    rw [List.drop_eq_getElem_cons hlt, hget]
  have hv' : eq v v = true := hself v (List.mem_of_getElem? hv)
  rw [hi, hdrop, List.takeWhile_cons, if_pos hv', List.length_cons]
  omega

/-- What the loop has passed equals itself: it stops at the first value that does not. -/
theorem RankLoop.self_of_step (heq : ∀ v w, eq v w = true → eq v v = true) {loop next : RankLoop K}
    (hpassed : ∀ v ∈ sorted_values.take loop.i, eq v v = true) (h : loop.step eq sorted_values = some next) :
    ∀ v ∈ sorted_values.take next.i, eq v v = true := by
  obtain ⟨u, -, hi, -⟩ := step_eq_some h
  intro v hv
  rw [hi, List.take_add, List.mem_append] at hv
  rcases hv with hv | hv
  · exact hpassed v hv
  · rw [← List.prefix_iff_eq_take.1 (List.takeWhile_prefix _)] at hv
    have hmatch : eq v u = true := List.mem_takeWhile_imp (p := fun w => eq w u) hv
    exact heq v u hmatch

theorem RankLoop.length_le_of_step_eq_none {loop : RankLoop K} (h : loop.step eq sorted_values = none) :
    sorted_values.length ≤ loop.i := by
  unfold step at h
  cases hv : sorted_values[loop.i]? with
  | none => exact List.getElem?_eq_none_iff.1 hv
  | some v =>
    rw [hv] at h
    cases h

/-- The loop, from the beginning of the values: every round goes on, and there is a last one. -/
def RankLoop.Ends (K : Type*) [DivisionRing K] (eq : S → S → Bool) (sorted_values : List S) : Prop :=
  (∀ loop next : RankLoop K, Loops.Reaches (step eq sorted_values) ⟨0, []⟩ loop →
      loop.step eq sorted_values = some next → loop.i < next.i) ∧
    ∃ fuel loop, Loops.runWhile (step (K := K) eq sorted_values) fuel ⟨0, []⟩ = some loop

theorem RankLoop.exists_run (hself : ∀ v ∈ sorted_values, eq v v = true) {fuel : ℕ}
    (hfuel : sorted_values.length < fuel) :
    ∃ loop, Loops.runWhile (step (K := K) eq sorted_values) fuel ⟨0, []⟩ = some loop := by
  have hdecreases : ∀ loop next : RankLoop K, True → loop.step eq sorted_values = some next →
      True ∧ sorted_values.length - next.i < sorted_values.length - loop.i := by
    intro loop next _ h
    obtain ⟨v, hv, -, -⟩ := step_eq_some h
    obtain ⟨hlt, -⟩ := List.getElem?_eq_some_iff.1 hv
    have hnext := lt_of_step hself h
    exact ⟨trivial, by omega⟩
  have hstart : sorted_values.length - (⟨0, []⟩ : RankLoop K).i < fuel := hfuel
  obtain ⟨loop, hloop, -⟩ := Loops.exists_runWhile (P := fun _ => True)
    (m := fun loop : RankLoop K => sorted_values.length - loop.i) hdecreases trivial hstart
  exact ⟨loop, hloop⟩

theorem RankLoop.ends_iff (heq : ∀ v w, eq v w = true → eq v v = true) :
    Ends K eq sorted_values ↔ ∀ v ∈ sorted_values, eq v v = true := by
  constructor
  · rintro ⟨-, fuel, loop, hrun⟩
    obtain ⟨hreaches, hover⟩ := Loops.reaches_of_runWhile hrun
    have hpassed := hreaches.invariant (fun _ _ => self_of_step heq) fun v hv => by cases hv
    rw [List.take_of_length_le (length_le_of_step_eq_none hover)] at hpassed
    exact hpassed
  · intro hself
    exact ⟨fun loop next _ => lt_of_step hself, _, exists_run hself (Nat.lt_succ_self _)⟩

end Loop

/-! ### The ranks in the order of the values -/

/-- In an order of all indices, each rank is written to its place. -/
private theorem scatter_map [Zero K] {n : ℕ} {order : List (Fin n)} (horder : order.Perm (List.finRange n))
    (f : Fin n → K) :
    Batches.scatter (List.replicate n 0) (order.zip (order.map f)) = (List.finRange n).map f := by
  rw [← List.map_prod_left_eq_zip]
  apply List.ext_getElem?
  intro k
  by_cases hk : k < n
  · have hslot : (⟨k, hk⟩ : Fin n).val < (List.replicate n (0 : K)).length := by
      rw [List.length_replicate]
      exact hk
    have hvalue : ∀ w ∈ order.map fun i => (i, f i), w.1 = ⟨k, hk⟩ → w.2 = f ⟨k, hk⟩ := by
      intro w hw hwk
      obtain ⟨i, -, rfl⟩ := List.mem_map.1 hw
      show f i = f ⟨k, hk⟩
      rw [← hwk]
    have hwritten : (⟨k, hk⟩ : Fin n) ∈ (order.map fun i => (i, f i)).map Prod.fst := by
      rw [List.map_map]
      exact List.mem_map.2 ⟨_, horder.mem_iff.2 (List.mem_finRange _), rfl⟩
    have hset := Batches.getElem?_scatter hslot hvalue (Or.inr hwritten)
    rw [hset, List.getElem?_map, List.getElem?_eq_getElem (by rwa [List.length_finRange]),
      List.getElem_finRange]
    rfl
  · have hle : n ≤ k := Nat.le_of_not_lt hk
    rw [List.getElem?_eq_none (by rwa [Batches.length_scatter, List.length_replicate]),
      List.getElem?_eq_none (by rwa [List.length_map, List.length_finRange])]

/-! ### Ranks over exact arithmetic -/

section Exact

variable [LinearOrder S] [Field K]

theorem pairwise_sorted (values : List S) :
    ((argsort (fun a b => decide (a < b)) values).map values.get).Pairwise (· ≤ ·) := by
  have htotal : Std.Total fun i j : Fin values.length => decide (values.get j < values.get i) = false :=
    ⟨fun i j => by simpa using le_total (values.get i) (values.get j)⟩
  have htrans : IsTrans (Fin values.length) fun i j => decide (values.get j < values.get i) = false :=
    ⟨fun i j k hij hjk => by
      simp only [decide_eq_false_iff_not, not_lt] at hij hjk ⊢
      exact hij.trans hjk⟩
  rw [List.pairwise_map]
  refine (List.pairwise_insertionSort _ (List.finRange values.length)).imp fun {i j} h => ?_
  simpa using h

variable {sorted_values : List S}

/-- At the head of the loop: what has been passed has its ranks, and is below what is still to come. -/
structure RankLoop.Exact (sorted_values : List S) (loop : RankLoop K) : Prop where
  ranks : loop.ranksForSorted = (sorted_values.take loop.i).map (Ranks.midrank K sorted_values)
  below : ∀ a ∈ sorted_values.take loop.i, ∀ b ∈ sorted_values.drop loop.i, a < b

/-- Behind the values that are equal to the smallest one, all are above it. -/
private theorem lt_of_mem_dropWhile {v : S} {vs : List S} (hle : ∀ a ∈ vs, v ≤ a) (hvs : vs.Pairwise (· ≤ ·)) :
    ∀ a ∈ vs.dropWhile fun w => decide (w = v), v < a := by
  induction vs with
  | nil => exact fun a ha => by cases ha
  | cons w vs ih =>
    obtain ⟨hw, hpairs⟩ := List.pairwise_cons.1 hvs
    rw [List.dropWhile_cons]
    by_cases heq : w = v
    · rw [if_pos (decide_eq_true heq)]
      exact ih (fun a ha => hle a (List.mem_cons_of_mem _ ha)) hpairs
    · have hlt : v < w := lt_of_le_of_ne (hle w List.mem_cons_self) fun h => heq h.symm
      rw [if_neg (by simpa using heq)]
      exact List.forall_mem_cons.2 ⟨hlt, fun a ha => hlt.trans_le (hw a ha)⟩

/-- From `v` on, the sorted values are those that are equal to it, and behind them those above it. -/
private theorem drop_eq_ties_append (hsorted : sorted_values.Pairwise (· ≤ ·)) {i : ℕ} {v : S}
    (hv : sorted_values[i]? = some v) {ties : List S}
    (hties : ties = (sorted_values.drop i).takeWhile fun w => decide (w = v)) :
    ∃ after, sorted_values.drop i = ties ++ after ∧ (∀ a ∈ ties, a = v) ∧ ∀ a ∈ after, v < a := by
  obtain ⟨hlt, hget⟩ := List.getElem?_eq_some_iff.1 hv
  have hdrop : sorted_values.drop i = v :: sorted_values.drop (i + 1) := by
    rw [List.drop_eq_getElem_cons hlt, hget]
  have hpairs : (sorted_values.drop i).Pairwise (· ≤ ·) := hsorted.sublist (List.drop_sublist ..)
  refine ⟨(sorted_values.drop i).dropWhile fun w => decide (w = v), ?_, ?_, ?_⟩
  · rw [hties, List.takeWhile_append_dropWhile]
  · intro a ha
    rw [hties] at ha
    exact of_decide_eq_true (List.mem_takeWhile_imp (p := fun w => decide (w = v)) ha)
  · refine lt_of_mem_dropWhile ?_ hpairs
    rw [hdrop] at hpairs ⊢
    exact List.forall_mem_cons.2 ⟨le_rfl, (List.pairwise_cons.1 hpairs).1⟩

theorem RankLoop.exact_step [CharZero K] (hsorted : sorted_values.Pairwise (· ≤ ·)) {loop next : RankLoop K}
    (hexact : loop.Exact sorted_values)
    (h : loop.step (fun a b => decide (a = b)) sorted_values = some next) : next.Exact sorted_values := by
  obtain ⟨v, hv, hi, hranks⟩ := step_eq_some h
  obtain ⟨hlt, -⟩ := List.getElem?_eq_some_iff.1 hv
  -- the values before, those that are equal, and those after them
  obtain ⟨ties, hties⟩ : ∃ ties, ties = (sorted_values.drop loop.i).takeWhile fun w => decide (w = v) :=
    ⟨_, rfl⟩
  obtain ⟨after, hrest, hequal, habove⟩ := drop_eq_ties_append hsorted hv hties
  rw [← hties] at hi
  have htake : sorted_values.take next.i = sorted_values.take loop.i ++ ties := by
    rw [hi, List.take_add, hrest, List.take_left]
  have hdrop : sorted_values.drop next.i = after := by
    rw [hi, ← List.drop_drop, hrest, List.drop_left]
  have hsplit : sorted_values.take loop.i ++ ties ++ after = sorted_values := by
    rw [List.append_assoc, ← hrest, List.take_append_drop]
  have hbelow : ∀ a ∈ sorted_values.take loop.i, a < v :=
    fun a ha => hexact.below a ha v (List.mem_of_getElem? (i := 0) (by rwa [List.getElem?_drop, Nat.add_zero]))
  constructor
  case ranks =>
    have hlength : (sorted_values.take loop.i).length = loop.i := List.length_take_of_le hlt.le
    have hrank : ∀ a ∈ ties, Ranks.midrank K sorted_values a = ((loop.i : K) + 1 + next.i) / 2 := by
      intro a ha
      have hmid := Ranks.midrank_of_split (K := K) hbelow hequal habove
      rw [hsplit, hlength] at hmid
      rw [hequal a ha, hmid, hi]
      push_cast
      ring
    rw [hranks, hexact.ranks, htake, List.map_append, List.map_congr_left hrank, List.map_const', hi,
      Nat.add_sub_cancel_left]
  case below =>
    rw [htake, hdrop]
    intro a ha b hb
    rcases List.mem_append.1 ha with ha | ha
    · exact (hbelow a ha).trans (habove b hb)
    · rw [hequal a ha]
      exact habove b hb

theorem averageRanks_eq [CharZero K] (values : List S) {fuel : ℕ} (hfuel : values.length < fuel) :
    averageRanks (fun a b => decide (a < b)) (fun a b => decide (a = b)) fuel values =
      some (values.map (Ranks.midrank K values)) := by
  obtain ⟨sorted_values, hsorted_values⟩ : ∃ sorted_values,
      sorted_values = (argsort (fun a b => decide (a < b)) values).map values.get := ⟨_, rfl⟩
  have hperm : sorted_values.Perm values := hsorted_values ▸ sorted_perm values
  have hself : ∀ v ∈ sorted_values, decide (v = v) = true := fun v _ => decide_eq_true rfl
  have hrounds : sorted_values.length < fuel := by rwa [hperm.length_eq]
  obtain ⟨loop, hrun⟩ := @RankLoop.exists_run S K (fun a b => decide (a = b)) sorted_values _ hself _ hrounds
  obtain ⟨hreaches, hover⟩ := Loops.reaches_of_runWhile hrun
  have hstart : RankLoop.Exact sorted_values (⟨0, []⟩ : RankLoop K) :=
    ⟨rfl, fun a ha => by cases ha⟩
  have hexact := hreaches.invariant
    (fun _ _ => RankLoop.exact_step (hsorted_values ▸ pairwise_sorted values)) hstart
  have hranks : loop.ranksForSorted = sorted_values.map (Ranks.midrank K sorted_values) := by
    rw [hexact.ranks, List.take_of_length_le (RankLoop.length_le_of_step_eq_none hover)]
  unfold averageRanks
  dsimp only
  have hmap : sorted_values.map (Ranks.midrank K sorted_values) =
      (argsort (fun a b => decide (a < b)) values).map fun k => Ranks.midrank K values (values.get k) := by
    have hmidrank : Ranks.midrank K sorted_values = Ranks.midrank K values :=
      funext (Ranks.midrank_of_perm hperm)
    rw [hmidrank, hsorted_values, List.map_map]
    rfl
  have hvalues : (List.finRange values.length).map (fun k => Ranks.midrank K values (values.get k)) =
      values.map (Ranks.midrank K values) := by
    calc (List.finRange values.length).map (fun k => Ranks.midrank K values (values.get k))
        = ((List.finRange values.length).map values.get).map (Ranks.midrank K values) := by
          rw [List.map_map]
          rfl
      _ = values.map (Ranks.midrank K values) := by rw [List.map_get_finRange]
  rw [← hsorted_values, hrun, Option.map_some, hranks, hmap, scatter_map (argsort_perm values), hvalues]

/-- The ranks of the positive scores add up to the pairs that they win, the tied ones counting half, and the
ranks that they would have alone. -/
theorem aucSeparation_eq [CharZero K] {positive_scores negative_scores : List S}
    (hpositive : positive_scores ≠ []) (hnegative : negative_scores ≠ []) {fuel : ℕ}
    (hfuel : positive_scores.length + negative_scores.length < fuel) :
    aucSeparation (fun a b => decide (a < b)) (fun a b => decide (a = b)) fuel positive_scores negative_scores =
      some (.ok
        ((Ranks.above positive_scores negative_scores + Ranks.tied positive_scores negative_scores / 2 : K) /
          (positive_scores.length * negative_scores.length))) := by
  have hempty : ¬ (positive_scores.length = 0 ∨ negative_scores.length = 0) := by
    rintro (h | h)
    · exact hpositive (List.length_eq_zero_iff.1 h)
    · exact hnegative (List.length_eq_zero_iff.1 h)
  have hlength : (positive_scores ++ negative_scores).length < fuel := by rwa [List.length_append]
  have htake : ∀ f : S → K, ((positive_scores ++ negative_scores).map f).take positive_scores.length =
      positive_scores.map f := by
    intro f
    rw [List.map_append]
    exact List.take_left' (List.length_map _)
  unfold aucSeparation
  dsimp only
  rw [if_neg hempty, averageRanks_eq _ hlength, Option.map_some, htake, Ranks.sum_midrank]
  push_cast
  rw [add_sub_cancel_right]

end Exact

section PairCount

variable [LinearOrder S] [Field K] [LinearOrder K] [IsStrictOrderedRing K]

/-- The area under the curve.  It is the share of the pairs of a positive and a negative score in which the
positive one is above, tied pairs counting half; so it lies between 0 and 1, and with the groups swapped it is
what is missing to 1. -/
theorem auc_pair_count {positive_scores negative_scores : List S} (hpositive : positive_scores ≠ [])
    (hnegative : negative_scores ≠ []) {fuel : ℕ}
    (hfuel : positive_scores.length + negative_scores.length < fuel) :
    ∃ auc : K,
      aucSeparation (fun a b => decide (a < b)) (fun a b => decide (a = b)) fuel positive_scores
        negative_scores = some (.ok auc) ∧
      auc = (Ranks.above positive_scores negative_scores + Ranks.tied positive_scores negative_scores / 2) /
        (positive_scores.length * negative_scores.length) ∧
      0 ≤ auc ∧ auc ≤ 1 ∧
      aucSeparation (fun a b => decide (a < b)) (fun a b => decide (a = b)) fuel negative_scores
        positive_scores = some (.ok (1 - auc)) := by
  have hpos : (0 : K) < positive_scores.length := by exact_mod_cast List.length_pos_iff.2 hpositive
  have hneg : (0 : K) < negative_scores.length := by exact_mod_cast List.length_pos_iff.2 hnegative
  have hpairs : (Ranks.above positive_scores negative_scores + Ranks.above negative_scores positive_scores +
      Ranks.tied positive_scores negative_scores : K) = positive_scores.length * negative_scores.length := by
    exact_mod_cast Ranks.above_add_above_add_tied positive_scores negative_scores
  have habove : (0 : K) ≤ Ranks.above negative_scores positive_scores := Nat.cast_nonneg _
  have htied : (0 : K) ≤ Ranks.tied positive_scores negative_scores := Nat.cast_nonneg _
  refine ⟨_, aucSeparation_eq hpositive hnegative hfuel, rfl, by positivity, ?_, ?_⟩
  · rw [div_le_one (mul_pos hpos hneg), ← hpairs]
    linarith
  · rw [aucSeparation_eq hnegative hpositive (by omega), Ranks.tied_comm negative_scores]
    congr 2
    field_simp
    linear_combination 2 * hpairs

end PairCount

/-- Scores with ties in a group and across the groups: of six pairs four are won, and two are tied. -/
theorem auc_pair_count_ties :
    ∃ auc : ℚ, aucSeparation (fun a b => decide (a < b)) (fun a b => decide (a = b)) 6 [3, 2, 2] [(2 : ℤ), 1] =
      some (.ok auc) ∧ auc = 5 / 6 := by
  have hne : ([3, 2, 2] : List ℤ) ≠ [] := List.cons_ne_nil _ _
  have hne' : ([2, 1] : List ℤ) ≠ [] := List.cons_ne_nil _ _
  obtain ⟨auc, hauc, hcount, -⟩ := @auc_pair_count ℤ ℚ _ _ _ _ _ _ hne hne' 6 (by decide)
  have habove : Ranks.above ([3, 2, 2] : List ℤ) [2, 1] = 4 := by decide
  have htied : Ranks.tied ([3, 2, 2] : List ℤ) [2, 1] = 2 := by decide
  refine ⟨auc, hauc, ?_⟩
  rw [hcount, habove, htied]
  norm_num

/-! ### Scores that are not numbers -/

/-- The loop over the scores that `auc_separation` ranks -/
def RankLoopEnds (scores : List Double) : Prop :=
  RankLoop.Ends ℚ Double.eq ((argsort Double.sortsBefore scores).map scores.get)

/-- The loop goes on in every round and ends if and only if no score is NaN, for which the test of equality
fails at the value itself. -/
theorem rankLoopEnds_iff (scores : List Double) : RankLoopEnds scores ↔ .nan ∉ scores := by
  have hself : (∀ v ∈ (argsort Double.sortsBefore scores).map scores.get, Double.eq v v = true) ↔
      .nan ∉ scores := by
    constructor
    · intro h hnan
      exact Double.eq_self_iff.1 (h .nan ((sorted_perm scores).mem_iff.2 hnan)) rfl
    · rintro h v hv
      apply Double.eq_self_iff.2
      rintro rfl
      exact h ((sorted_perm scores).mem_iff.1 hv)
  exact (RankLoop.ends_iff fun v w (h : Double.eq v w = true) => Double.eq_self_of_eq h).trans hself

/-- An embedding with an infinity, or a finite one whose square overflows, has a similarity that is NaN; and
then the loop does not end. -/
theorem rankLoop_stands_still :
    (∀ r, cosineSimilarities r [[.inf false]] [[.inf false]] = [.nan]) ∧
      (∀ r x, r.round (x * x) = .inf false → cosineSimilarities r [[.finite x]] [[.finite x]] = [.nan]) ∧
      ¬ RankLoopEnds ([.nan] ++ [.nan]) := by
  refine ⟨fun r => rfl, fun r x hx => ?_, fun h => ?_⟩
  · have hsquare : Double.mul r (.finite x) (.finite x) = .inf false := hx
    have hnorm : norm r [.finite x] = .inf false := by
      show Double.sqrt r (Double.mul r (.finite x) (.finite x)) = .inf false
      rw [hsquare]
      rfl
    show [if Double.less (.finite 0) (Double.mul r (norm r [.finite x]) (norm r [.finite x])) then
      Double.div r (Double.mul r (.finite x) (.finite x))
        (Double.mul r (norm r [.finite x]) (norm r [.finite x])) else .finite 0] = [.nan]
    rw [hnorm, hsquare]
    rfl
  · have hself := (RankLoop.ends_iff fun v w (hvw : Double.eq v w = true) => Double.eq_self_of_eq hvw).1 h
    have hnan : Double.nan ∈ [Double.nan] ++ [Double.nan] := List.mem_cons_self
    have hloop : Double.eq .nan .nan = true := hself .nan ((sorted_perm _).mem_iff.2 hnan)
    cases hloop

end KaqTranslator
