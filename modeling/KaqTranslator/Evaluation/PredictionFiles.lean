import KaqTranslator.TextFiles
import KaqTranslator.Evaluation.Metrics

/-!
# Prediction files

A training run and a re-evaluation write their hypotheses, references and direction labels one per line
(`training/train.py`, `evaluation/evaluate_checkpoint.py`), and `evaluation/run.py` reads them back.  The
writer ends a line with `\n`, the reader ends one at every line boundary of `str.splitlines`.  So the lists
are read back, stripped, exactly if they are not empty and no entry holds a line boundary, a last carriage
return excepted (`prediction_files_aligned_iff`).
-/

namespace KaqTranslator

open Lines

/-- The file that `write_text("\n".join(xs) + "\n")` writes. -/
def linesFile (xs : List Str) : Str := Str.join ['\n'] xs ++ ['\n']

/-- `_read_lines` -/
def readLines (file : Str) : List Str := (readText file).splitlines.map Str.strip

/-- `run_evaluation`, up to the model card: the metrics, and those by direction if a third file is given. -/
def runEvaluation {S : Type} (corpusBleu corpusChrf : List Str → List Str → S) (predictions references : Str)
    (directions : Option Str) :
    Except ValueError (MetricsResult S × Option (List (Str × MetricsResult S))) := do
  let hypotheses := readLines predictions
  let references := readLines references
  let metrics ← computeMetrics corpusBleu corpusChrf hypotheses references
  match directions with
  | none => return (metrics, none)
  | some directions =>
    let table ← computeMetricsByDirection corpusBleu corpusChrf hypotheses references (readLines directions)
    return (metrics, some table)

/-- The entry holds no line boundary, a last carriage return excepted. -/
abbrev OneLineEntry (x : Str) : Prop := OneLine isLineBoundary '\r' x

/-! ### One file -/

private theorem length_flatMap_eq {A B : Type} {f : A → List B} {xs : List A}
    (hpos : ∀ x ∈ xs, 0 < (f x).length) :
    xs.length ≤ (xs.flatMap f).length ∧
      ((xs.flatMap f).length = xs.length → ∀ x ∈ xs, (f x).length = 1) := by
  induction xs with
  | nil => simp
  | cons x xs ih =>
    obtain ⟨hx, hxs⟩ := List.forall_mem_cons.1 hpos
    obtain ⟨hle, heq⟩ := ih hxs
    rw [List.flatMap_cons, List.length_append, List.length_cons]
    refine ⟨by omega, fun h => List.forall_mem_cons.2 ⟨by omega, heq (by omega)⟩⟩

private theorem splitlines_linesFile {xs : List Str} (h : xs ≠ []) :
    (readText (linesFile xs)).splitlines = xs.flatMap fun x => Str.splitlines (x ++ ['\n']) := by
  rw [splitlines_readText, linesFile, join_append_newline h]
  exact splitlines_unlines rfl (by decide) xs

/-- What a list that was written one entry per line is read back as. -/
theorem readLines_linesFile_iff (xs : List Str) :
    readLines (linesFile xs) = xs.map Str.strip ↔ xs ≠ [] ∧ ∀ x ∈ xs, OneLineEntry x := by
  have hone : ∀ x : Str, (Str.splitlines (x ++ ['\n'])).length = 1 ↔ OneLineEntry x :=
    fun x => length_splitlines_eq_one_iff rfl rfl (by decide) x
  constructor
  · intro h
    have hne : xs ≠ [] := by
      rintro rfl
      cases h
    refine ⟨hne, fun x hx => (hone x).1 ?_⟩
    have hlen : ((readText (linesFile xs)).splitlines).length = xs.length := by
      rw [readLines] at h
      simpa using congrArg List.length h
    rw [splitlines_linesFile hne] at hlen
    -- every entry is read as at least one line, so that none is read as two
    refine (length_flatMap_eq ?_).2 hlen x hx
    intro y _
    exact List.length_pos_iff.2 (splitlines_ne_nil (by simp))
  · rintro ⟨hne, hlines⟩
    have hsplit : ∀ x ∈ xs, Str.splitlines (x ++ ['\n']) = [chompCr '\r' x] :=
      fun x hx => splitlines_of_oneLine rfl rfl (by decide) (hlines x hx)
    have hstrip : ∀ x ∈ xs, (Str.splitlines (x ++ ['\n'])).map Str.strip = [Str.strip x] := by
      intro x hx
      rw [hsplit x hx, List.map_singleton, strip_chompCr]
    rw [readLines, splitlines_linesFile hne, List.map_flatMap, List.map_eq_flatMap]
    exact List.flatMap_congr hstrip

/-! ### The three files of a run -/

/-- The files of a run are read back as its lists, stripped, and the metrics are those of the stripped
lists. -/
structure KeepsAlignment (hypotheses references directions : List Str) : Prop where
  hypothesesRead : readLines (linesFile hypotheses) = hypotheses.map Str.strip
  referencesRead : readLines (linesFile references) = references.map Str.strip
  directionsRead : readLines (linesFile directions) = directions.map Str.strip
  metrics : ∀ (S : Type) (corpusBleu corpusChrf : List Str → List Str → S), ∃ table,
    runEvaluation corpusBleu corpusChrf (linesFile hypotheses) (linesFile references)
        (some (linesFile directions)) =
      .ok (metricsOf corpusBleu corpusChrf (hypotheses.map Str.strip) (references.map Str.strip), some table) ∧
    ∀ d, table.lookup d =
      if d ∈ directions.map Str.strip then
        let labelled := ofDirection d (triples (hypotheses.map Str.strip) (references.map Str.strip)
          (directions.map Str.strip))
        some (metricsOf corpusBleu corpusChrf labelled.1 labelled.2)
      else none

/-- Prediction files keep their alignment if and only if the lists are not empty and no entry holds a line
boundary, a last carriage return excepted. -/
theorem prediction_files_aligned_iff {hypotheses references directions : List Str}
    (hlen : hypotheses.length = references.length) (hlen' : references.length = directions.length) :
    KeepsAlignment hypotheses references directions ↔
      hypotheses ≠ [] ∧ (∀ x ∈ hypotheses, OneLineEntry x) ∧ (∀ x ∈ references, OneLineEntry x) ∧
        ∀ x ∈ directions, OneLineEntry x := by
  constructor
  · intro h
    obtain ⟨hne, hhyps⟩ := (readLines_linesFile_iff _).1 h.hypothesesRead
    exact ⟨hne, hhyps, ((readLines_linesFile_iff _).1 h.referencesRead).2,
      ((readLines_linesFile_iff _).1 h.directionsRead).2⟩
  · rintro ⟨hne, hhyps, hrefs, hdirs⟩
    have hpos : 0 < hypotheses.length := List.length_pos_iff.2 hne
    have hreadHyps := (readLines_linesFile_iff hypotheses).2 ⟨hne, hhyps⟩
    have hreadRefs := (readLines_linesFile_iff references).2 ⟨List.length_pos_iff.1 (by omega), hrefs⟩
    have hreadDirs := (readLines_linesFile_iff directions).2 ⟨List.length_pos_iff.1 (by omega), hdirs⟩
    refine ⟨hreadHyps, hreadRefs, hreadDirs, ?_⟩
    intro S corpusBleu corpusChrf
    have hstripped : (hypotheses.map Str.strip).length = (references.map Str.strip).length := by
      simpa using hlen
    have hstripped' : (references.map Str.strip).length = (directions.map Str.strip).length := by
      simpa using hlen'
    have hmetrics := computeMetrics_of_length corpusBleu corpusChrf hstripped
    obtain ⟨table, htable, hlookup⟩ :=
      computeMetricsByDirection_of_length corpusBleu corpusChrf hstripped hstripped'
    refine ⟨table, ?_, hlookup⟩
    simp only [runEvaluation, hreadHyps, hreadRefs, hreadDirs, hmetrics, htable]
    rfl

/-- No hypotheses are read back as one, and a hypothesis with a line separator as two. -/
theorem prediction_files_misaligned :
    ¬ KeepsAlignment [] [] [] ∧
      runEvaluation (fun _ _ => 0) (fun _ _ => 0) (linesFile [['a', '\u2028', 'b']]) (linesFile [['c']]) none =
        .error (lengthMismatch [['a'], ['b']] [['c']]) := by
  refine ⟨fun h => ?_, rfl⟩
  have hread := h.hypothesesRead
  revert hread
  decide

/-- A blank hypothesis keeps its line. -/
theorem prediction_files_aligned_blank :
    KeepsAlignment [['a', '\r'], [], [' ', 'b']] [['c'], ['d'], ['e']]
      [['e', 's', '-', '>', 'c', 'a', 'k'], ['c', 'a', 'k', '-', '>', 'e', 's'],
        ['e', 's', '-', '>', 'c', 'a', 'k']] := by
  refine (prediction_files_aligned_iff (by rfl) (by rfl)).2 ⟨by simp, ?_, ?_, ?_⟩
  all_goals
    simp only [List.forall_mem_cons, List.not_mem_nil, false_imp_iff, implies_true, and_true]
    decide

end KaqTranslator
