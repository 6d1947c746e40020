import KaqTranslator.Library.Centroids
import KaqTranslator.Library.Loops
import Mathlib.Algebra.Order.Ring.Rat
import Mathlib.Data.Finset.Max
import Mathlib.Data.List.GetD

/-!
# Two clusters (`data/dialect_signal.py`)

`kmeans_two_clusters` begins with the first row and the row farthest from it.  What each iteration keeps is
that the centroids are different and that each of them has a row (`KMeans.Separates`): the means of the rows
lie on the two sides of the plane between the old centroids, the side of centroid 0 with the plane, as ties go
to it; and a mean that is its own centroid has a row that is nearer to it than to the other
(`KMeans.separates_step`).  The sum of the squared distances decreases in both halves of an iteration
(`KMeans.spread_label_le`, `KMeans.spread_move_le`).
-/

namespace KaqTranslator

open Centroids

/-! ### Arrays -/

/-- `vectors[labels == cluster]` -/
def masked {R : Type*} (vectors : List R) (labels : List ℕ) (cluster : ℕ) : List R :=
  ((vectors.zip labels).filter fun p => p.2 = cluster).map Prod.fst

theorem masked_map {R : Type*} (vectors : List R) (f : R → ℕ) (cluster : ℕ) :
    masked vectors (vectors.map f) cluster = vectors.filter fun x => f x = cluster := by
  unfold masked
  induction vectors with
  | nil => rfl
  | cons x vectors ih =>
    rw [List.map_cons, List.zip_cons_cons, List.filter_cons, List.filter_cons]
    by_cases hx : f x = cluster
    · rw [if_pos (decide_eq_true hx), if_pos (decide_eq_true hx), List.map_cons, ih]
    · rw [if_neg (by simpa using hx), if_neg (by simpa using hx), ih]

/-- `np.argmax`, the first place of the largest number -/
def argmax {α : Type*} [LinearOrder α] (xs : List α) : ℕ := xs.findIdx fun x => xs.all fun y => y ≤ x

private theorem exists_largest {α : Type*} [LinearOrder α] {xs : List α} (h : xs ≠ []) :
    ∃ x ∈ xs, ∀ y ∈ xs, y ≤ x := by
  obtain ⟨x, hx, hmax⟩ := xs.toFinset.exists_max_image id ((List.toFinset_nonempty_iff xs).2 h)
  exact ⟨x, List.mem_toFinset.1 hx, fun y hy => hmax y (List.mem_toFinset.2 hy)⟩

/-- The place that `argmax` gives is one of the list, and no number is larger than the one there. -/
theorem argmax_spec {α : Type*} [LinearOrder α] {xs : List α} (h : xs ≠ []) :
    ∃ hlt : argmax xs < xs.length, ∀ y ∈ xs, y ≤ xs[argmax xs] := by
  obtain ⟨x, hx, hmax⟩ := exists_largest h
  have hall : (xs.all fun y => decide (y ≤ x)) = true :=
    List.all_eq_true.2 fun y hy => decide_eq_true (hmax y hy)
  have hlt : argmax xs < xs.length := List.findIdx_lt_length_of_exists ⟨x, hx, hall⟩
  have hlargest := List.findIdx_getElem (w := hlt)
  exact ⟨hlt, fun y hy => of_decide_eq_true (List.all_eq_true.1 hlargest y hy)⟩

variable {K : Type*} [Field K] [LinearOrder K] {d : ℕ}

/-! ### `kmeans_two_clusters` -/

/-- The state of the loop -/
structure KMeans (K : Type*) (d : ℕ) where
  centroid0 : Fin d → K
  centroid1 : Fin d → K
  labels : Option (List ℕ)

def KMeans.init (vectors : List (Fin d → K)) : KMeans K d :=
  let centroid_0 := vectors.getD 0 0
  let distances_from_0 := vectors.map fun x => sqDist x centroid_0
  let centroid_1 := vectors.getD (argmax distances_from_0) 0
  ⟨centroid_0, centroid_1, none⟩

/-- `(d1 < d0).astype(int)`, for one row -/
def KMeans.label (s : KMeans K d) (x : Fin d → K) : ℕ :=
  if sqDist x s.centroid1 < sqDist x s.centroid0 then 1 else 0

def updatedCentroid (vectors : List (Fin d → K)) (labels : List ℕ) (cluster : ℕ) (centroid : Fin d → K) :
    Fin d → K :=
  let rows := masked vectors labels cluster
  if rows.isEmpty then centroid else mean rows

/-- An iteration, which breaks if the labels have not changed -/
def KMeans.step (vectors : List (Fin d → K)) (s : KMeans K d) : Option (KMeans K d) :=
  let new_labels := vectors.map s.label
  if s.labels = some new_labels then none
  else some
    { centroid0 := updatedCentroid vectors new_labels 0 s.centroid0
      centroid1 := updatedCentroid vectors new_labels 1 s.centroid1
      labels := some new_labels }

/-- The labels; none if the assertion fails that there has been an iteration. -/
def kmeansTwoClusters (vectors : List (Fin d → K)) (max_iterations : ℕ) : Option (List ℕ) :=
  if vectors.length = 0 then some []
  else if vectors.length = 1 then some [0]
  else (Loops.runFor (KMeans.step vectors) max_iterations (KMeans.init vectors)).labels

/-- The sum of the squared distances to the assigned centroids -/
def spread (vectors : List (Fin d → K)) (labels : List ℕ) (s : KMeans K d) : K :=
  ((vectors.zip labels).map fun p => sqDist p.1 (if p.2 = 0 then s.centroid0 else s.centroid1)).sum

/-! ### Labels and rows -/

theorem KMeans.label_eq_zero_iff {s : KMeans K d} {x : Fin d → K} :
    s.label x = 0 ↔ sqDist x s.centroid0 ≤ sqDist x s.centroid1 := by
  rw [label]
  split
  · rename_i h
    exact iff_of_false one_ne_zero (not_le.2 h)
  · rename_i h
    exact iff_of_true rfl (not_lt.1 h)

theorem KMeans.label_eq_one_iff {s : KMeans K d} {x : Fin d → K} :
    s.label x = 1 ↔ sqDist x s.centroid1 < sqDist x s.centroid0 := by
  rw [label]
  split
  · rename_i h
    exact iff_of_true rfl h
  · rename_i h
    exact iff_of_false zero_ne_one h

/-- Each cluster has a sum of its own. -/
theorem spread_map (vectors : List (Fin d → K)) (t s : KMeans K d) :
    spread vectors (vectors.map t.label) s =
      ((vectors.filter fun x => t.label x = 0).map fun x => sqDist x s.centroid0).sum +
        ((vectors.filter fun x => t.label x = 1).map fun x => sqDist x s.centroid1).sum := by
  unfold spread
  induction vectors with
  | nil => simp
  | cons x vectors ih =>
    rw [List.map_cons, List.zip_cons_cons, List.map_cons, List.sum_cons, ih, List.filter_cons, List.filter_cons]
    by_cases hx : t.label x = 0
    · have hone : t.label x ≠ 1 := by
        rw [hx]
        exact zero_ne_one
      rw [if_pos hx, if_pos (decide_eq_true hx), if_neg (by simpa using hone), List.map_cons, List.sum_cons,
        add_assoc]
    · have hone : t.label x = 1 := by
        rw [KMeans.label_eq_one_iff]
        rw [KMeans.label_eq_zero_iff] at hx
        exact not_le.1 hx
      rw [if_neg hx, if_neg (by simpa using hx), if_pos (decide_eq_true hone), List.map_cons, List.sum_cons]
      ring

/-! ### The two clusters -/

/-- The centroids are different, and there is a row for each. -/
structure KMeans.Separates (vectors : List (Fin d → K)) (s : KMeans K d) : Prop where
  distinct : s.centroid0 ≠ s.centroid1
  zero : ∃ x ∈ vectors, s.label x = 0
  one : ∃ x ∈ vectors, s.label x = 1

theorem KMeans.labels_of_step {vectors : List (Fin d → K)} {s next : KMeans K d}
    (h : s.step vectors = some next) :
    next.labels = some (vectors.map s.label) := by
  unfold step at h
  dsimp only at h
  split at h
  · cases h
  · obtain rfl := Option.some.inj h
    rfl

/-- There are labels after the first iteration. -/
theorem KMeans.exists_labels_runFor {vectors : List (Fin d → K)} {n : ℕ} (hn : 1 ≤ n) :
    ∃ labels, (Loops.runFor (step vectors) n (init vectors)).labels = some labels := by
  obtain ⟨m, rfl⟩ := Nat.exists_eq_add_of_le' hn
  have hnew : (init vectors).labels ≠ some (vectors.map (init vectors).label) := fun h => by cases h
  obtain ⟨t, ht⟩ : ∃ t, (init vectors).step vectors = some t := by
    unfold step
    dsimp only
    rw [if_neg hnew]
    exact ⟨_, rfl⟩
  have hreaches := @Loops.reaches_runFor _ (step vectors) m t
  rw [Loops.runFor, ht]
  have hsome : (Loops.runFor (step vectors) m t).labels.isSome = true := by
    refine hreaches.invariant (P := fun u => u.labels.isSome = true) (fun u v _ hnext => ?_) ?_
    · rw [labels_of_step hnext]
      rfl
    · rw [labels_of_step ht]
      rfl
  exact Option.isSome_iff_exists.1 hsome

/-- What an iteration does: the rows are labelled, and the centroids move to the means of their rows. -/
theorem KMeans.step_eq_some {vectors : List (Fin d → K)} {s next : KMeans K d} (hs : s.Separates vectors)
    (h : s.step vectors = some next) :
    next.labels = some (vectors.map s.label) ∧
      next.centroid0 = mean (vectors.filter fun x => s.label x = 0) ∧
      next.centroid1 = mean (vectors.filter fun x => s.label x = 1) := by
  have hrows : ∀ cluster centroid, (∃ x ∈ vectors, s.label x = cluster) →
      updatedCentroid vectors (vectors.map s.label) cluster centroid =
        mean (vectors.filter fun x => s.label x = cluster) := by
    rintro cluster centroid ⟨x, hx, hlabel⟩
    have hmem : x ∈ vectors.filter fun x => s.label x = cluster := List.mem_filter.2 ⟨hx, decide_eq_true hlabel⟩
    have hnonempty : (vectors.filter fun x => s.label x = cluster).isEmpty = false :=
      List.isEmpty_eq_false_iff_exists_mem.2 ⟨x, hmem⟩
    unfold updatedCentroid
    dsimp only
    rw [masked_map, hnonempty, if_neg Bool.false_ne_true]
  unfold step at h
  dsimp only at h
  split at h
  · cases h
  · obtain rfl := Option.some.inj h
    exact ⟨rfl, hrows 0 _ hs.zero, hrows 1 _ hs.one⟩

theorem KMeans.Separates.mem_labels {vectors : List (Fin d → K)} {s : KMeans K d} (hs : s.Separates vectors) :
    0 ∈ vectors.map s.label ∧ 1 ∈ vectors.map s.label := by
  obtain ⟨x, hx, hxlabel⟩ := hs.zero
  obtain ⟨y, hy, hylabel⟩ := hs.one
  exact ⟨List.mem_map.2 ⟨x, hx, hxlabel⟩, List.mem_map.2 ⟨y, hy, hylabel⟩⟩

theorem KMeans.Separates.rows_ne_nil {vectors : List (Fin d → K)} {s : KMeans K d} (hs : s.Separates vectors) :
    (vectors.filter fun x => s.label x = 0) ≠ [] ∧ (vectors.filter fun x => s.label x = 1) ≠ [] := by
  obtain ⟨x, hx, hxlabel⟩ := hs.zero
  obtain ⟨y, hy, hylabel⟩ := hs.one
  exact ⟨List.ne_nil_of_mem (List.mem_filter.2 ⟨hx, decide_eq_true hxlabel⟩),
    List.ne_nil_of_mem (List.mem_filter.2 ⟨hy, decide_eq_true hylabel⟩)⟩

section Ordered

variable [IsStrictOrderedRing K] {vectors : List (Fin d → K)} {s next : KMeans K d}

/-- The means lie on the sides of their rows, so they are different; and each of them has a row that is nearer
to it than to the other. -/
theorem KMeans.separates_step (hs : s.Separates vectors) (h : s.step vectors = some next) :
    next.Separates vectors := by
  obtain ⟨-, h0, h1⟩ := step_eq_some hs h
  obtain ⟨hrows0, hrows1⟩ := hs.rows_ne_nil
  have hside0 : 0 ≤ closeness s.centroid0 s.centroid1 next.centroid0 := by
    rw [h0]
    refine closeness_mean_nonneg hrows0 fun x hx => ?_
    have hlabel := label_eq_zero_iff.1 (of_decide_eq_true (List.mem_filter.1 hx).2)
    exact sub_nonneg.2 hlabel
  have hside1 : closeness s.centroid0 s.centroid1 next.centroid1 < 0 := by
    rw [h1]
    refine closeness_mean_neg hrows1 fun x hx => ?_
    have hlabel := label_eq_one_iff.1 (of_decide_eq_true (List.mem_filter.1 hx).2)
    exact sub_neg.2 hlabel
  have hdistinct : next.centroid0 ≠ next.centroid1 := by
    intro heq
    rw [heq] at hside0
    exact absurd hside1 (not_lt.2 hside0)
  refine ⟨hdistinct, ?_, ?_⟩
  · have hmean : 0 <
        closeness next.centroid0 next.centroid1 (mean (vectors.filter fun x => s.label x = 0)) := by
      rw [← h0]
      exact closeness_self_pos hdistinct
    obtain ⟨z, hz, hpos⟩ := exists_closeness_pos hrows0 hmean
    exact ⟨z, (List.mem_filter.1 hz).1, label_eq_zero_iff.2 (sub_nonneg.1 hpos.le)⟩
  · have hmean : 0 <
        closeness next.centroid1 next.centroid0 (mean (vectors.filter fun x => s.label x = 1)) := by
      rw [← h1]
      exact closeness_self_pos hdistinct.symm
    obtain ⟨z, hz, hpos⟩ := exists_closeness_pos hrows1 hmean
    exact ⟨z, (List.mem_filter.1 hz).1, label_eq_one_iff.2 (sub_pos.1 hpos)⟩

/-- Moving the centroids to the means makes the sum of the squared distances smaller. -/
theorem KMeans.spread_move_le (hs : s.Separates vectors) (h : s.step vectors = some next) :
    spread vectors (vectors.map s.label) next ≤ spread vectors (vectors.map s.label) s := by
  obtain ⟨-, h0, h1⟩ := step_eq_some hs h
  obtain ⟨hrows0, hrows1⟩ := hs.rows_ne_nil
  rw [spread_map, spread_map, h0, h1]
  exact add_le_add (sum_sqDist_mean_le hrows0 _) (sum_sqDist_mean_le hrows1 _)

/-- Labelling the rows anew, by the nearer centroid, makes it smaller, too. -/
theorem KMeans.spread_label_le (vectors : List (Fin d → K)) (s t : KMeans K d) :
    spread vectors (vectors.map s.label) s ≤ spread vectors (vectors.map t.label) s := by
  unfold spread
  induction vectors with
  | nil => exact le_rfl
  | cons x vectors ih =>
    have hnearer : sqDist x (if s.label x = 0 then s.centroid0 else s.centroid1) ≤
        sqDist x (if t.label x = 0 then s.centroid0 else s.centroid1) := by
      by_cases hs : s.label x = 0
      · rw [if_pos hs]
        split
        · exact le_rfl
        · exact label_eq_zero_iff.1 hs
      · rw [if_neg hs]
        rw [label_eq_zero_iff] at hs
        split
        · exact (not_le.1 hs).le
        · exact le_rfl
    exact add_le_add hnearer ih

/-! ### The beginning -/

/-- The first row, and the row farthest from it: if there are two different rows, these are different. -/
theorem KMeans.separates_init (h : ∃ x ∈ vectors, ∃ y ∈ vectors, x ≠ y) :
    (init vectors).Separates vectors := by
  obtain ⟨x, hx, y, hy, hxy⟩ := h
  have hvectors : 0 < vectors.length := List.length_pos_of_mem hx
  have hfirst : (init vectors).centroid0 ∈ vectors := by
    show vectors.getD 0 0 ∈ vectors
    rw [List.getD_eq_getElem _ _ hvectors]
    exact List.getElem_mem hvectors
  obtain ⟨z, hz, hzfirst⟩ : ∃ z ∈ vectors, z ≠ (init vectors).centroid0 := by
    by_cases heq : x = (init vectors).centroid0
    · exact ⟨y, hy, fun h => hxy (heq.trans h.symm)⟩
    · exact ⟨x, hx, heq⟩
  have hdistances : (vectors.map fun v => sqDist v (init vectors).centroid0) ≠ [] := by
    intro hnil
    rw [List.map_eq_nil_iff.1 hnil] at hx
    cases hx
  obtain ⟨hlt, hlargest⟩ := argmax_spec hdistances
  have hlt' : argmax (vectors.map fun v => sqDist v (init vectors).centroid0) < vectors.length := by
    rwa [List.length_map] at hlt
  have hfarthest : (init vectors).centroid1 =
      vectors[argmax (vectors.map fun v => sqDist v (init vectors).centroid0)] :=
    List.getD_eq_getElem _ _ hlt'
  have hmem : (init vectors).centroid1 ∈ vectors := by
    rw [hfarthest]
    exact List.getElem_mem hlt'
  have hpos : 0 < sqDist (init vectors).centroid1 (init vectors).centroid0 := by
    have hle := hlargest _ (List.mem_map.2 ⟨z, hz, rfl⟩)
    rw [List.getElem_map, ← hfarthest] at hle
    exact (sqDist_pos hzfirst).trans_le hle
  refine ⟨?_, ⟨_, hfirst, label_eq_zero_iff.2 ?_⟩, ⟨_, hmem, label_eq_one_iff.2 ?_⟩⟩
  · intro heq
    rw [heq, sqDist_self] at hpos
    exact lt_irrefl _ hpos
  · rw [sqDist_self]
    exact sqDist_nonneg _ _
  · rw [sqDist_self]
    exact hpos

/-! ### After every iteration -/

/-- The labels, if there are any, are those of an iteration. -/
structure KMeans.Labelled (vectors : List (Fin d → K)) (s : KMeans K d) : Prop where
  separates : s.Separates vectors
  labels : ∀ labels, s.labels = some labels →
    ∃ t : KMeans K d, t.Separates vectors ∧ labels = vectors.map t.label

theorem KMeans.labelled_of_reaches (h : ∃ x ∈ vectors, ∃ y ∈ vectors, x ≠ y)
    (hs : Loops.Reaches (step vectors) (init vectors) s) : s.Labelled vectors := by
  refine hs.invariant (fun s next hlabelled hnext => ?_)
    ⟨separates_init h, fun labels hlabels => by cases hlabels⟩
  refine ⟨separates_step hlabelled.separates hnext, fun labels hlabels => ⟨s, hlabelled.separates, ?_⟩⟩
  rw [(step_eq_some hlabelled.separates hnext).1] at hlabels
  exact (Option.some.inj hlabels).symm

/-- The two clusters.  If there are two different rows, every iteration leaves two centroids that are
different and labels in which both clusters occur, and so does the whole loop; and the sum of the squared
distances to the assigned centroids does not increase, neither when the rows are labelled anew nor when the
centroids move. -/
theorem two_clusters (hdistinct : ∃ x ∈ vectors, ∃ y ∈ vectors, x ≠ y) {max_iterations : ℕ}
    (hmax : 1 ≤ max_iterations) :
    (∃ labels, kmeansTwoClusters vectors max_iterations = some labels ∧ labels.length = vectors.length ∧
        0 ∈ labels ∧ 1 ∈ labels) ∧
      ∀ s, Loops.Reaches (KMeans.step vectors) (KMeans.init vectors) s →
        s.centroid0 ≠ s.centroid1 ∧
        (∀ labels, s.labels = some labels → 0 ∈ labels ∧ 1 ∈ labels) ∧
        ∀ next, s.step vectors = some next → ∀ labels', next.labels = some labels' →
          spread vectors labels' next ≤ spread vectors labels' s ∧
          ∀ labels, s.labels = some labels → spread vectors labels' s ≤ spread vectors labels s := by
  constructor
  · obtain ⟨labels, hlabels⟩ := @KMeans.exists_labels_runFor K _ _ d vectors _ hmax
    obtain ⟨t, ht, rfl⟩ :=
      (KMeans.labelled_of_reaches hdistinct (Loops.reaches_runFor _ _)).labels labels hlabels
    have hlength : 1 < vectors.length := by
      obtain ⟨x, hx, y, hy, hxy⟩ := hdistinct
      match vectors, hx, hy with
      | [z], hx, hy => exact absurd ((List.mem_singleton.1 hx).trans (List.mem_singleton.1 hy).symm) hxy
      | _ :: _ :: _, _, _ => exact Nat.succ_lt_succ (Nat.succ_pos _)
    refine ⟨_, ?_, List.length_map _, ht.mem_labels⟩
    rw [kmeansTwoClusters, if_neg (by omega), if_neg (by omega), hlabels]
  · intro s hs
    obtain ⟨hseparates, hlabelled⟩ := KMeans.labelled_of_reaches hdistinct hs
    refine ⟨hseparates.distinct, fun labels hlabels => ?_, fun next hnext labels' hlabels' => ?_⟩
    · obtain ⟨t, ht, rfl⟩ := hlabelled labels hlabels
      exact ht.mem_labels
    · rw [KMeans.labels_of_step hnext] at hlabels'
      obtain rfl := Option.some.inj hlabels'
      refine ⟨KMeans.spread_move_le hseparates hnext, fun labels hlabels => ?_⟩
      obtain ⟨t, -, rfl⟩ := hlabelled labels hlabels
      exact KMeans.spread_label_le vectors s t

end Ordered

/-- Three rows, of which two are the same -/
theorem two_clusters_three_rows :
    ∃ labels, kmeansTwoClusters [(fun _ => 0 : Fin 1 → ℚ), fun _ => 0, fun _ => 1] 50 = some labels ∧
      labels.length = 3 ∧ 0 ∈ labels ∧ 1 ∈ labels := by
  have hne : (fun _ => 0 : Fin 1 → ℚ) ≠ fun _ => 1 := by
    intro h
    exact zero_ne_one (congrFun h 0)
  have hdistinct : ∃ x ∈ [(fun _ => 0 : Fin 1 → ℚ), fun _ => 0, fun _ => 1],
      ∃ y ∈ [(fun _ => 0 : Fin 1 → ℚ), fun _ => 0, fun _ => 1], x ≠ y :=
    ⟨_, List.mem_cons_self, _, List.mem_cons_of_mem _ (List.mem_cons_of_mem _ List.mem_cons_self), hne⟩
  exact (two_clusters hdistinct (by decide)).1

end KaqTranslator
