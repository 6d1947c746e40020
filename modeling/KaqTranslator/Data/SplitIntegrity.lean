import KaqTranslator.Data.Cleaning

/-!
# The integrity of a split (`data/split_integrity.py`)

What validation shares with training is looked for in pairs, in sources and in targets, by three loops that
each have a set of what they have seen; two of them are one loop over the pairs.  Since neither side of that
loop looks at the other (`OverlapScan.foldl_step`), each list is that of the first occurrences of what is
shared.
-/

namespace KaqTranslator

structure SplitIntegrityReport where
  exactPairOverlap : List SentencePair
  sourceOverlap : List Str
  targetOverlap : List Str
  deriving DecidableEq

def SplitIntegrityReport.hasExactOverlap (report : SplitIntegrityReport) : Bool :=
  report.exactPairOverlap.length > 0

/-- The error holds the report. -/
structure SplitIntegrityError where
  report : SplitIntegrityReport
  deriving DecidableEq

def SplitIntegrityError.message (e : SplitIntegrityError) : Str :=
  "Found ".toList ++ natStr e.report.exactPairOverlap.length ++
    " exact sentence pair(s) shared between train and val splits -- this is data leakage.".toList

/-! ### The scan of the validation pairs -/

/-- The overlap on one side, and what has been seen of it: `source_overlap` and `seen_sources`, or
`target_overlap` and `seen_targets` -/
structure SideOverlap where
  overlap : List Str
  seen : List Str

/-- One side of the body of the loop -/
def SideOverlap.step (train : List Str) (side : SideOverlap) (text : Str) : SideOverlap :=
  if text ∈ train ∧ text ∉ side.seen then
    { overlap := side.overlap ++ [text], seen := text :: side.seen }
  else side

structure OverlapScan where
  source : SideOverlap
  target : SideOverlap

def OverlapScan.step (train_sources train_targets : List Str) (scan : OverlapScan) (p : SentencePair) :
    OverlapScan where
  source := scan.source.step train_sources p.1
  target := scan.target.step train_targets p.2

/-- The report, before anything is raised -/
def splitIntegrityReport (train_pairs val_pairs : List SentencePair) : SplitIntegrityReport :=
  let exact_pair_overlap := val_pairs.filter train_pairs.contains
  let train_sources := train_pairs.map Prod.fst
  let train_targets := train_pairs.map Prod.snd
  let scan := val_pairs.foldl (OverlapScan.step train_sources train_targets) ⟨⟨[], []⟩, ⟨[], []⟩⟩
  { exactPairOverlap := deduplicateFrom [] exact_pair_overlap
    sourceOverlap := scan.source.overlap
    targetOverlap := scan.target.overlap }

def validateSplitIntegrity (train_pairs val_pairs : List SentencePair) (raise_on_overlap : Bool) :
    Except SplitIntegrityError SplitIntegrityReport :=
  let report := splitIntegrityReport train_pairs val_pairs
  if raise_on_overlap && report.hasExactOverlap then .error ⟨report⟩ else .ok report

/-! ### The overlaps -/

/-- Neither side looks at what has been seen of the other. -/
theorem OverlapScan.foldl_step (train_sources train_targets : List Str) (ps : List SentencePair)
    (scan : OverlapScan) :
    ps.foldl (step train_sources train_targets) scan =
      ⟨(ps.map Prod.fst).foldl (SideOverlap.step train_sources) scan.source,
        (ps.map Prod.snd).foldl (SideOverlap.step train_targets) scan.target⟩ := by
  induction ps generalizing scan with
  | nil => rfl
  | cons p ps ih =>
    rw [List.foldl_cons, ih]
    rfl

theorem SideOverlap.overlap_foldl (train texts : List Str) (side : SideOverlap) :
    (texts.foldl (step train) side).overlap = side.overlap ++ keepFirst (· ∈ train) side.seen texts := by
  induction texts generalizing side with
  | nil => exact (List.append_nil _).symm
  | cons text texts ih =>
    rw [List.foldl_cons, ih, keepFirst, step]
    by_cases htext : text ∈ train ∧ text ∉ side.seen
    · rw [if_pos htext, if_pos htext, List.append_assoc, List.singleton_append]
    · rw [if_neg htext, if_neg htext]

section Report

variable (train_pairs val_pairs : List SentencePair)

theorem firstOccurrences_exactPairOverlap :
    FirstOccurrences (· ∈ train_pairs) val_pairs
      (splitIntegrityReport train_pairs val_pairs).exactPairOverlap := by
  have hcontains : val_pairs.filter train_pairs.contains = val_pairs.filter fun p => p ∈ train_pairs :=
    List.filter_congr fun p _ => by rw [List.contains_eq_mem]
  unfold splitIntegrityReport
  dsimp only
  rw [hcontains, deduplicateFrom_eq, keepFirst_filter]
  exact firstOccurrences_keepFirst _ _

theorem firstOccurrences_sourceOverlap :
    FirstOccurrences (· ∈ train_pairs.map Prod.fst) (val_pairs.map Prod.fst)
      (splitIntegrityReport train_pairs val_pairs).sourceOverlap := by
  unfold splitIntegrityReport
  dsimp only
  rw [OverlapScan.foldl_step, SideOverlap.overlap_foldl]
  exact firstOccurrences_keepFirst _ _

theorem firstOccurrences_targetOverlap :
    FirstOccurrences (· ∈ train_pairs.map Prod.snd) (val_pairs.map Prod.snd)
      (splitIntegrityReport train_pairs val_pairs).targetOverlap := by
  unfold splitIntegrityReport
  dsimp only
  rw [OverlapScan.foldl_step, SideOverlap.overlap_foldl]
  exact firstOccurrences_keepFirst _ _

end Report

/-! ### The report -/

variable {train_pairs val_pairs : List SentencePair}

theorem mem_overlaps_of_mem_exactPairOverlap {p : SentencePair}
    (hp : p ∈ (splitIntegrityReport train_pairs val_pairs).exactPairOverlap) :
    p.1 ∈ (splitIntegrityReport train_pairs val_pairs).sourceOverlap ∧
      p.2 ∈ (splitIntegrityReport train_pairs val_pairs).targetOverlap := by
  obtain ⟨hval, htrain⟩ := ((firstOccurrences_exactPairOverlap train_pairs val_pairs).mem_iff p).1 hp
  constructor
  · rw [(firstOccurrences_sourceOverlap train_pairs val_pairs).mem_iff]
    exact ⟨List.mem_map_of_mem hval, List.mem_map_of_mem htrain⟩
  · rw [(firstOccurrences_targetOverlap train_pairs val_pairs).mem_iff]
    exact ⟨List.mem_map_of_mem hval, List.mem_map_of_mem htrain⟩

theorem hasExactOverlap_iff :
    (splitIntegrityReport train_pairs val_pairs).hasExactOverlap = true ↔ ∃ p ∈ train_pairs, p ∈ val_pairs := by
  have hmem := (firstOccurrences_exactPairOverlap train_pairs val_pairs).mem_iff
  rw [SplitIntegrityReport.hasExactOverlap, decide_eq_true_iff, gt_iff_lt, List.length_pos_iff_exists_mem]
  constructor
  · rintro ⟨p, hp⟩
    exact ⟨p, ((hmem p).1 hp).2, ((hmem p).1 hp).1⟩
  · rintro ⟨p, htrain, hval⟩
    exact ⟨p, (hmem p).2 ⟨hval, htrain⟩⟩

/-- The report of a split.  Its three lists are what validation shares with training, each entry once and in
the order of validation, and both sides of a shared pair are in the one-sided lists; it is raised if and only
if that is asked for and a pair is shared; and it has the same members for the split that is swapped. -/
theorem split_report_exact (train_pairs val_pairs : List SentencePair) :
    (FirstOccurrences (· ∈ train_pairs) val_pairs
          (splitIntegrityReport train_pairs val_pairs).exactPairOverlap ∧
        FirstOccurrences (· ∈ train_pairs.map Prod.fst) (val_pairs.map Prod.fst)
          (splitIntegrityReport train_pairs val_pairs).sourceOverlap ∧
        FirstOccurrences (· ∈ train_pairs.map Prod.snd) (val_pairs.map Prod.snd)
          (splitIntegrityReport train_pairs val_pairs).targetOverlap) ∧
      (∀ p ∈ (splitIntegrityReport train_pairs val_pairs).exactPairOverlap,
        p.1 ∈ (splitIntegrityReport train_pairs val_pairs).sourceOverlap ∧
          p.2 ∈ (splitIntegrityReport train_pairs val_pairs).targetOverlap) ∧
      (∀ raise_on_overlap,
        (raise_on_overlap = true ∧ (∃ p ∈ train_pairs, p ∈ val_pairs) →
          validateSplitIntegrity train_pairs val_pairs raise_on_overlap =
            .error ⟨splitIntegrityReport train_pairs val_pairs⟩) ∧
        (¬ (raise_on_overlap = true ∧ ∃ p ∈ train_pairs, p ∈ val_pairs) →
          validateSplitIntegrity train_pairs val_pairs raise_on_overlap =
            .ok (splitIntegrityReport train_pairs val_pairs))) ∧
      (∀ p, p ∈ (splitIntegrityReport val_pairs train_pairs).exactPairOverlap ↔
        p ∈ (splitIntegrityReport train_pairs val_pairs).exactPairOverlap) ∧
      (∀ es, es ∈ (splitIntegrityReport val_pairs train_pairs).sourceOverlap ↔
        es ∈ (splitIntegrityReport train_pairs val_pairs).sourceOverlap) ∧
      (∀ cak, cak ∈ (splitIntegrityReport val_pairs train_pairs).targetOverlap ↔
        cak ∈ (splitIntegrityReport train_pairs val_pairs).targetOverlap) := by
  have hexact := firstOccurrences_exactPairOverlap
  have hsource := firstOccurrences_sourceOverlap
  have htarget := firstOccurrences_targetOverlap
  refine ⟨⟨hexact _ _, hsource _ _, htarget _ _⟩, fun p hp => mem_overlaps_of_mem_exactPairOverlap hp,
    ?_, ?_, ?_, ?_⟩
  · intro raise_on_overlap
    have hraise : (raise_on_overlap && (splitIntegrityReport train_pairs val_pairs).hasExactOverlap) = true ↔
        raise_on_overlap = true ∧ ∃ p ∈ train_pairs, p ∈ val_pairs := by
      rw [Bool.and_eq_true, hasExactOverlap_iff]
    constructor
    · intro h
      exact if_pos (hraise.2 h)
    · intro h
      exact if_neg fun h' => h (hraise.1 h')
  · exact fun p => (hexact _ _).mem_iff_swap (hexact _ _) p
  · exact fun es => (hsource _ _).mem_iff_swap (hsource _ _) es
  · exact fun cak => (htarget _ _).mem_iff_swap (htarget _ _) cak

end KaqTranslator
