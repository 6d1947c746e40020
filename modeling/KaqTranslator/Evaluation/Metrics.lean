import KaqTranslator.Text
import Mathlib.Data.List.Induction

/-!
# Metrics (`evaluation/metrics.py`)

`compute_metrics` and `compute_metrics_by_direction` over any two corpus scores of a list of hypotheses and a
list of references, as `sacrebleu` computes them.  The buckets of a direction hold its hypotheses and its
references, in the order of the lists (`lookup_buckets`).
-/

namespace KaqTranslator

structure MetricsResult (S : Type) where
  bleu : S
  chrf : S
  num_sentences : ℕ
  deriving DecidableEq

section Scores

variable {S : Type} (corpusBleu corpusChrf : List Str → List Str → S)

def lengthMismatch (hypotheses references : List Str) : ValueError :=
  ⟨"hypotheses and references must be the same length (got ".toList ++ natStr hypotheses.length ++
    " hypotheses, ".toList ++ natStr references.length ++ " references)".toList⟩

def computeMetrics (hypotheses references : List Str) : Except ValueError (MetricsResult S) :=
  if hypotheses.length ≠ references.length then .error (lengthMismatch hypotheses references)
  else .ok ⟨corpusBleu hypotheses references, corpusChrf hypotheses references, hypotheses.length⟩

def lengthMismatchByDirection (hypotheses references directions : List Str) : ValueError :=
  ⟨"hypotheses, references, and directions must all be the same length (got ".toList ++
    natStr hypotheses.length ++ " hypotheses, ".toList ++ natStr references.length ++ " references, ".toList ++
    natStr directions.length ++ " directions)".toList⟩

/-- The `dict` of the buckets, in the order in which their keys were first set. -/
abbrev Buckets := List (Str × List Str × List Str)

/-- `buckets.setdefault(direction, ([], []))`, and the two `append`s. -/
def Buckets.add : Buckets → Str × Str × Str → Buckets
  | [], (hypothesis, reference, direction) => [(direction, [hypothesis], [reference])]
  | (d, hs, rs) :: bs, (hypothesis, reference, direction) =>
    if direction = d then (d, hs ++ [hypothesis], rs ++ [reference]) :: bs
    else (d, hs, rs) :: Buckets.add bs (hypothesis, reference, direction)

def triples (hypotheses references directions : List Str) : List (Str × Str × Str) :=
  hypotheses.zip (references.zip directions)

def computeMetricsByDirection (hypotheses references directions : List Str) :
    Except ValueError (List (Str × MetricsResult S)) :=
  if ¬ (hypotheses.length = references.length ∧ references.length = directions.length) then
    .error (lengthMismatchByDirection hypotheses references directions)
  else
    ((triples hypotheses references directions).foldl Buckets.add []).mapM fun b =>
      (computeMetrics corpusBleu corpusChrf b.2.1 b.2.2).map fun m => (b.1, m)

end Scores

/-! ### Buckets -/

/-- The hypotheses and the references of a direction. -/
def ofDirection (d : Str) (ts : List (Str × Str × Str)) : List Str × List Str :=
  ((ts.filter fun t => t.2.2 = d).map fun t => t.1, (ts.filter fun t => t.2.2 = d).map fun t => t.2.1)

private theorem lookup_add (bs : Buckets) (t : Str × Str × Str) (d : Str) :
    (bs.add t).lookup d =
      if t.2.2 = d then
        some (((bs.lookup d).getD ([], [])).1 ++ [t.1], ((bs.lookup d).getD ([], [])).2 ++ [t.2.1])
      else bs.lookup d := by
  obtain ⟨h, r, d'⟩ := t
  induction bs with
  | nil =>
    by_cases hd : d' = d
    · simp [Buckets.add, hd]
    · have hne : (d == d') = false := beq_eq_false_iff_ne.2 (Ne.symm hd)
      simp [Buckets.add, hd, List.lookup_cons, hne]
  | cons b bs ih =>
    obtain ⟨e, hs, rs⟩ := b
    by_cases he : d' = e
    · by_cases hd : d' = d
      · simp [Buckets.add, ← he, hd]
      · have hne : (d == d') = false := beq_eq_false_iff_ne.2 (Ne.symm hd)
        simp [Buckets.add, ← he, hd, List.lookup_cons, hne]
    · by_cases hde : d = e
      · have hd : ¬ d' = d := hde ▸ he
        simp [Buckets.add, hd, ← hde]
      · simp only [Buckets.add, he, if_false, List.lookup_cons, beq_eq_false_iff_ne.2 hde, ih]

theorem lookup_buckets (ts : List (Str × Str × Str)) (d : Str) :
    (ts.foldl Buckets.add []).lookup d =
      if d ∈ ts.map (fun t => t.2.2) then some (ofDirection d ts) else none := by
  induction ts using List.reverseRecOn with
  | nil => rfl
  | append_singleton ts t ih =>
    rw [List.foldl_concat, lookup_add, ih]
    by_cases hd : t.2.2 = d
    · by_cases hmem : d ∈ ts.map fun t => t.2.2
      · simp [hd, hmem, ofDirection]
      · have hnone : (ts.filter fun t => t.2.2 = d) = [] := by
          rw [List.filter_eq_nil_iff]
          intro u hu hud
          exact hmem (List.mem_map.2 ⟨u, hu, by simpa using hud⟩)
        simp [hd, hmem, ofDirection, hnone]
    · have hmem : (d ∈ (ts ++ [t]).map fun t => t.2.2) ↔ d ∈ ts.map fun t => t.2.2 := by simp [Ne.symm hd]
      have hkeep : ofDirection d (ts ++ [t]) = ofDirection d ts := by simp [ofDirection, hd]
      rw [if_neg hd, hkeep]
      exact ite_congr (propext hmem.symm) (fun _ => rfl) fun _ => rfl

private theorem length_of_mem_buckets (ts : List (Str × Str × Str)) :
    ∀ b ∈ ts.foldl Buckets.add [], b.2.1.length = b.2.2.length := by
  have hadd : ∀ (bs : Buckets) t, (∀ b ∈ bs, b.2.1.length = b.2.2.length) →
      ∀ b ∈ bs.add t, b.2.1.length = b.2.2.length := by
    rintro bs ⟨h, r, d⟩ hbs
    induction bs with
    | nil => simp [Buckets.add]
    | cons b bs ih =>
      obtain ⟨hb, hrest⟩ := List.forall_mem_cons.1 hbs
      rw [Buckets.add]
      split
      · exact List.forall_mem_cons.2 ⟨by simpa using hb, hrest⟩
      · exact List.forall_mem_cons.2 ⟨hb, ih hrest⟩
  induction ts using List.reverseRecOn with
  | nil => simp
  | append_singleton ts t ih =>
    rw [List.foldl_concat]
    exact hadd _ t ih

/-! ### The metrics of aligned lists -/

private theorem mapM_eq_ok {A B E : Type} {f : A → Except E B} {g : A → B} {xs : List A}
    (h : ∀ x ∈ xs, f x = .ok (g x)) : xs.mapM f = .ok (xs.map g) := by
  induction xs with
  | nil => rfl
  | cons x xs ih =>
    obtain ⟨hx, hxs⟩ := List.forall_mem_cons.1 h
    rw [List.mapM_cons, hx, ih hxs]
    rfl

private theorem lookup_map {A B : Type} (g : A → B) (bs : List (Str × A)) (d : Str) :
    (bs.map fun b => (b.1, g b.2)).lookup d = (bs.lookup d).map g := by
  induction bs with
  | nil => rfl
  | cons b bs ih =>
    rw [List.map_cons, List.lookup_cons, List.lookup_cons, ih]
    split <;> rfl

variable {S : Type} (corpusBleu corpusChrf : List Str → List Str → S)

/-- The metrics of the hypotheses and the references given. -/
def metricsOf (hypotheses references : List Str) : MetricsResult S :=
  ⟨corpusBleu hypotheses references, corpusChrf hypotheses references, hypotheses.length⟩

theorem computeMetrics_of_length {hypotheses references : List Str}
    (h : hypotheses.length = references.length) :
    computeMetrics corpusBleu corpusChrf hypotheses references =
      .ok (metricsOf corpusBleu corpusChrf hypotheses references) := by
  rw [computeMetrics, if_neg (by simpa using h), metricsOf]

/-- Each direction's metrics are those of the hypotheses and the references that it labels. -/
theorem computeMetricsByDirection_of_length {hypotheses references directions : List Str}
    (h : hypotheses.length = references.length) (h' : references.length = directions.length) :
    ∃ table, computeMetricsByDirection corpusBleu corpusChrf hypotheses references directions = .ok table ∧
      ∀ d, table.lookup d =
        if d ∈ directions then
          some (metricsOf corpusBleu corpusChrf (ofDirection d (triples hypotheses references directions)).1
            (ofDirection d (triples hypotheses references directions)).2)
        else none := by
  let buckets := (triples hypotheses references directions).foldl Buckets.add []
  have hok : ∀ b ∈ buckets, (computeMetrics corpusBleu corpusChrf b.2.1 b.2.2).map (fun m => (b.1, m)) =
      .ok (b.1, metricsOf corpusBleu corpusChrf b.2.1 b.2.2) := by
    intro b hb
    rw [computeMetrics_of_length corpusBleu corpusChrf (length_of_mem_buckets _ b hb)]
    rfl
  refine ⟨buckets.map fun b => (b.1, metricsOf corpusBleu corpusChrf b.2.1 b.2.2), ?_, ?_⟩
  · rw [computeMetricsByDirection, if_neg (by simp [h, h'])]
    exact mapM_eq_ok hok
  · intro d
    have hdirections : (triples hypotheses references directions).map (fun t => t.2.2) = directions := by
      have hzip : (triples hypotheses references directions).map Prod.snd = references.zip directions :=
        List.map_snd_zip (by simp [h, h'])
      calc (triples hypotheses references directions).map (fun t => t.2.2)
          = ((triples hypotheses references directions).map Prod.snd).map Prod.snd := by rw [List.map_map]; rfl
        _ = directions := by rw [hzip, List.map_snd_zip (by simp [h'])]
    rw [lookup_map (fun b : List Str × List Str => metricsOf corpusBleu corpusChrf b.1 b.2), lookup_buckets,
      hdirections]
    split <;> rfl

end KaqTranslator
