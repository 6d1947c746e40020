import KaqTranslator.Data.Corpus
import KaqTranslator.Library.Counter
import KaqTranslator.Library.FirstOccurrences
import KaqTranslator.Library.Loops
import Mathlib.Data.Set.Card

/-!
# Glued words (`data/glued_word_signal.py`)

A rare word of the Spanish side that begins with a common prefix, with a frequent word behind it, counts as
glued.  `findGluedWordCandidate` looks for the longest such prefix.  Prefixes of one word that are equally
long are the same, so what it finds does not depend on the order of the prefixes
(`findGluedWordCandidate_eq_some_iff`); the frequencies are sums, which do not depend on the order of the
pairs; and the loop over the words looks at each word once (`GlueScan.counts_foldl`), so that its candidates
are those of the words of the corpus, in some order.

Nothing here depends on what `str.lower` does.
-/

namespace KaqTranslator

/-! ### Words -/

/-- The characters of `_WORD_RE` -/
def isWordChar (c : Char) : Bool :=
  (0x41 ≤ c.val && c.val ≤ 0x5A) || (0x61 ≤ c.val && c.val ≤ 0x7A) || (0xC0 ≤ c.val && c.val ≤ 0xD6) ||
    (0xD8 ≤ c.val && c.val ≤ 0xF6) || (0xF8 ≤ c.val && c.val ≤ 0xFF) || c == '\''

/-- `_WORD_RE.findall(sentence)` -/
def findWords (sentence : Str) : List Str :=
  (sentence.splitOnP fun c => !isWordChar c).filter fun w => !w.isEmpty

/-- The places at which `sub`, not empty, is found; `skip` characters belong to the last of them. -/
def countFrom (sub : Str) : ℕ → Str → ℕ
  | _, [] => 0
  | skip + 1, _ :: s => countFrom sub skip s
  | 0, c :: s =>
    if Str.startsWith (c :: s) sub then 1 + countFrom sub (sub.length - 1) s else countFrom sub 0 s

/-- `str.count`, which does not count places that overlap -/
def strCount (s sub : Str) : ℕ := if sub.isEmpty then s.length + 1 else countFrom sub 0 s

example : strCount ['a', 'n', 'a', 'n', 'a'] ['a', 'n', 'a'] = 1 := by decide

/-! ### The scan

`lower` is `str.lower`. -/

section Scan

variable (lower : Str → Str)

def buildWordFrequencies (sentences : List Str) : Dict Str ℕ :=
  sentences.foldl (fun counts sentence =>
    (findWords sentence).foldl (fun counts word => counts.add (lower word) 1) counts) ∅

def scanKnownPatterns (sentences patterns : List Str) : Dict Str ℕ :=
  sentences.foldl (fun counts sentence =>
    patterns.foldl (fun counts pattern =>
      counts.add pattern (strCount (lower sentence) (lower pattern))) counts)
    (Dict.ofItems (patterns.map fun pattern => ⟨pattern, 0⟩))

structure GlueThresholds where
  maxWordFrequency : ℤ
  minSuffixFrequency : ℤ
  minSuffixLength : ℤ

/-- The body of the loop over the prefixes -/
def betterPrefix (lowered : Str) (frequencies : Dict Str ℕ) (thresholds : GlueThresholds)
    (bestPrefix : Option Str) (pre : Str) : Option Str :=
  if !lowered.startsWith pre then bestPrefix
  else
    let suffix := lowered.drop pre.length
    if suffix.length < thresholds.minSuffixLength then bestPrefix
    else if frequencies.count suffix < thresholds.minSuffixFrequency then bestPrefix
    else match bestPrefix with
      | none => some pre
      | some best => if pre.length > best.length then some pre else some best

def findGluedWordCandidate (word : Str) (frequencies : Dict Str ℕ) (prefixes : List Str)
    (thresholds : GlueThresholds) : Option Str :=
  let lowered := lower word
  let word_frequency := frequencies.count lowered
  if word_frequency > thresholds.maxWordFrequency then none
  else prefixes.foldl (betterPrefix lowered frequencies thresholds) none

structure GluedWordReport where
  numSentencesScanned : ℕ
  knownPatternCounts : Dict Str ℕ
  candidateCountsByPrefix : Dict Str ℕ
  numCandidateWords : ℕ

/-- `report == other` -/
structure GluedWordReport.Same (report other : GluedWordReport) : Prop where
  numSentencesScanned : report.numSentencesScanned = other.numSentencesScanned
  knownPatternCounts : report.knownPatternCounts.Same other.knownPatternCounts
  candidateCountsByPrefix : report.candidateCountsByPrefix.Same other.candidateCountsByPrefix
  numCandidateWords : report.numCandidateWords = other.numCandidateWords

/-- What the loop over the words changes -/
structure GlueScan where
  candidateCountsByPrefix : Dict Str ℕ
  numCandidateWords : ℕ
  seenWords : List Str

def GlueScan.step (frequencies : Dict Str ℕ) (prefixes : List Str) (thresholds : GlueThresholds)
    (scan : GlueScan) (word : Str) : GlueScan :=
  let lowered := lower word
  if lowered ∈ scan.seenWords then scan
  else
    let scan := { scan with seenWords := lowered :: scan.seenWords }
    match findGluedWordCandidate lower lowered frequencies prefixes thresholds with
    | none => scan
    | some candidate =>
      { scan with
        candidateCountsByPrefix := scan.candidateCountsByPrefix.add candidate 1
        numCandidateWords := scan.numCandidateWords + 1 }

def scanCorpusForGluedWords (pairs : List SentencePair) (known_patterns prefixes : List Str)
    (thresholds : GlueThresholds) : GluedWordReport :=
  let es_sentences := pairs.map Prod.fst
  let known_pattern_counts := scanKnownPatterns lower es_sentences known_patterns
  let frequencies := buildWordFrequencies lower es_sentences
  let scan := es_sentences.foldl (fun scan sentence =>
    (findWords sentence).foldl (GlueScan.step lower frequencies prefixes thresholds) scan) ⟨∅, 0, []⟩
  { numSentencesScanned := pairs.length
    knownPatternCounts := known_pattern_counts
    candidateCountsByPrefix := scan.candidateCountsByPrefix
    numCandidateWords := scan.numCandidateWords }

end Scan

/-! ### The longest prefix -/

/-- The word begins with the prefix, and the rest of it is long and frequent enough. -/
structure Splits (frequencies : Dict Str ℕ) (thresholds : GlueThresholds) (lowered pre : Str) : Prop where
  starts : lowered.startsWith pre = true
  long : thresholds.minSuffixLength ≤ (lowered.drop pre.length).length
  frequent : thresholds.minSuffixFrequency ≤ frequencies.count (lowered.drop pre.length)

/-- The prefix satisfies the thresholds: the word is rare, and splits. -/
def Glues (lower : Str → Str) (frequencies : Dict Str ℕ) (thresholds : GlueThresholds) (word pre : Str) :
    Prop :=
  frequencies.count (lower word) ≤ thresholds.maxWordFrequency ∧ Splits frequencies thresholds (lower word) pre

/-- The longest of the prefixes that satisfy the thresholds -/
structure IsLongestGlue (lower : Str → Str) (frequencies : Dict Str ℕ) (thresholds : GlueThresholds)
    (prefixes : List Str) (word pre : Str) : Prop where
  mem : pre ∈ prefixes
  glues : Glues lower frequencies thresholds word pre
  longest : ∀ other ∈ prefixes, Glues lower frequencies thresholds word other → other.length ≤ pre.length

section LongestPrefix

variable {frequencies : Dict Str ℕ} {thresholds : GlueThresholds} {lowered : Str} {prefixes : List Str}

/-- Two prefixes of one word that are equally long are the same. -/
theorem Str.eq_of_startsWith {s pre other : Str} (hpre : s.startsWith pre = true)
    (hother : s.startsWith other = true) (hlen : pre.length = other.length) : pre = other := by
  have hprefix : pre <+: s := List.isPrefixOf_iff_prefix.1 hpre
  have hprefix' : other <+: s := List.isPrefixOf_iff_prefix.1 hother
  exact (List.prefix_of_prefix_length_le hprefix hprefix' hlen.le).eq_of_length hlen

theorem betterPrefix_of_not_splits {bestPrefix : Option Str} {pre : Str}
    (h : ¬ Splits frequencies thresholds lowered pre) :
    betterPrefix lowered frequencies thresholds bestPrefix pre = bestPrefix := by
  unfold betterPrefix
  dsimp only
  split
  · rfl
  · rename_i hstarts
    split
    · rfl
    · rename_i hlong
      split
      · rfl
      · rename_i hfrequent
        rw [Bool.not_eq_true', Bool.not_eq_false] at hstarts
        exact absurd ⟨hstarts, not_lt.1 hlong, not_lt.1 hfrequent⟩ h

theorem betterPrefix_none {pre : Str} (h : Splits frequencies thresholds lowered pre) :
    betterPrefix lowered frequencies thresholds none pre = some pre := by
  unfold betterPrefix
  dsimp only
  rw [if_neg (by simp [h.starts]), if_neg (not_lt.2 h.long), if_neg (not_lt.2 h.frequent)]

theorem betterPrefix_some {best pre : Str} (h : Splits frequencies thresholds lowered pre) :
    betterPrefix lowered frequencies thresholds (some best) pre =
      if pre.length > best.length then some pre else some best := by
  unfold betterPrefix
  dsimp only
  rw [if_neg (by simp [h.starts]), if_neg (not_lt.2 h.long), if_neg (not_lt.2 h.frequent)]

/-- What the loop has found among the prefixes that it has passed -/
structure BestPrefix (frequencies : Dict Str ℕ) (thresholds : GlueThresholds) (lowered : Str)
    (passed : List Str) (bestPrefix : Option Str) : Prop where
  none : bestPrefix = none → ∀ pre ∈ passed, ¬ Splits frequencies thresholds lowered pre
  some : ∀ best, bestPrefix = some best → best ∈ passed ∧ Splits frequencies thresholds lowered best ∧
    ∀ pre ∈ passed, Splits frequencies thresholds lowered pre → pre.length ≤ best.length

theorem bestPrefix_step {passed : List Str} {bestPrefix : Option Str} {pre : Str}
    (h : BestPrefix frequencies thresholds lowered passed bestPrefix) :
    BestPrefix frequencies thresholds lowered (passed ++ [pre])
      (betterPrefix lowered frequencies thresholds bestPrefix pre) := by
  have hlast : ∀ {P : Str → Prop}, (∀ q ∈ passed, P q) → P pre → ∀ q ∈ passed ++ [pre], P q := by
    intro P hpassed hpre q hq
    rcases List.mem_append.1 hq with hq | hq
    · exact hpassed q hq
    · rw [List.mem_singleton.1 hq]
      exact hpre
  by_cases hpre : Splits frequencies thresholds lowered pre
  · cases hbest : bestPrefix with
    | none =>
      rw [betterPrefix_none hpre]
      refine ⟨fun hnone => (by cases hnone), fun best heq => ?_⟩
      obtain rfl := Option.some.inj heq
      exact ⟨List.mem_append_right _ (List.mem_singleton.2 rfl), hpre,
        hlast (fun q hq hsplits => absurd hsplits (h.none hbest q hq)) fun _ => le_rfl⟩
    | some best =>
      obtain ⟨hmem, hsplits, hlongest⟩ := h.some best hbest
      rw [betterPrefix_some hpre]
      by_cases hlonger : pre.length > best.length
      · rw [if_pos hlonger]
        refine ⟨fun hnone => (by cases hnone), fun best' heq => ?_⟩
        obtain rfl := Option.some.inj heq
        exact ⟨List.mem_append_right _ (List.mem_singleton.2 rfl), hpre,
          hlast (fun q hq hq' => (hlongest q hq hq').trans hlonger.le) fun _ => le_rfl⟩
      · rw [if_neg hlonger]
        refine ⟨fun hnone => (by cases hnone), fun best' heq => ?_⟩
        obtain rfl := Option.some.inj heq
        exact ⟨List.mem_append_left _ hmem, hsplits, hlast hlongest fun _ => not_lt.1 hlonger⟩
  · rw [betterPrefix_of_not_splits hpre]
    constructor
    case none => exact fun hnone => hlast (h.none hnone) hpre
    case some =>
      intro best hbest
      obtain ⟨hmem, hsplits, hlongest⟩ := h.some best hbest
      exact ⟨List.mem_append_left _ hmem, hsplits, hlast hlongest fun hpre' => absurd hpre' hpre⟩

theorem bestPrefix_foldl :
    BestPrefix frequencies thresholds lowered prefixes
      (prefixes.foldl (betterPrefix lowered frequencies thresholds) none) := by
  have hinit : BestPrefix frequencies thresholds lowered [] none :=
    ⟨fun _ pre hpre => (by cases hpre), fun best hbest => (by cases hbest)⟩
  have hcut : prefixes = prefixes ++ [] := (List.append_nil _).symm
  exact Loops.foldl_invariant hinit (fun _ _ _ _ _ h => bestPrefix_step h) hcut

/-- The candidate is the longest prefix; there is no other one that is as long. -/
theorem findGluedWordCandidate_eq_some_iff {lower : Str → Str} {word pre : Str} :
    findGluedWordCandidate lower word frequencies prefixes thresholds = some pre ↔
      IsLongestGlue lower frequencies thresholds prefixes word pre := by
  have hbest := @bestPrefix_foldl frequencies thresholds (lower word) prefixes
  unfold findGluedWordCandidate
  dsimp only
  by_cases hrare : (frequencies.count (lower word) : ℤ) > thresholds.maxWordFrequency
  · rw [if_pos hrare]
    exact iff_of_false (by simp) fun h => absurd h.glues.1 (not_le.2 hrare)
  · rw [if_neg hrare]
    constructor
    · intro h
      obtain ⟨hmem, hsplits, hlongest⟩ := hbest.some pre h
      exact ⟨hmem, ⟨not_lt.1 hrare, hsplits⟩, fun other hother hglues => hlongest other hother hglues.2⟩
    · intro h
      cases hfound : prefixes.foldl (betterPrefix (lower word) frequencies thresholds) none with
      | none => exact absurd h.glues.2 (hbest.none hfound pre h.mem)
      | some best =>
        obtain ⟨hmem, hsplits, hlongest⟩ := hbest.some best hfound
        have hle : pre.length ≤ best.length := hlongest pre h.mem h.glues.2
        have hge : best.length ≤ pre.length := h.longest best hmem ⟨not_lt.1 hrare, hsplits⟩
        rw [Str.eq_of_startsWith hsplits.starts h.glues.2.starts (le_antisymm hge hle)]

theorem exists_findGluedWordCandidate_iff {lower : Str → Str} {word : Str} :
    (∃ pre, findGluedWordCandidate lower word frequencies prefixes thresholds = some pre) ↔
      ∃ pre ∈ prefixes, Glues lower frequencies thresholds word pre := by
  constructor
  · rintro ⟨pre, h⟩
    have hlongest := findGluedWordCandidate_eq_some_iff.1 h
    exact ⟨pre, hlongest.mem, hlongest.glues⟩
  · rintro ⟨pre, hmem, hrare, hsplits⟩
    unfold findGluedWordCandidate
    dsimp only
    rw [if_neg (not_lt.2 hrare)]
    apply Option.ne_none_iff_exists'.1
    intro hnone
    exact bestPrefix_foldl.none hnone pre hmem hsplits

end LongestPrefix

/-! ### The words of a corpus -/

section Corpus

variable (lower : Str → Str)

/-- The words of the Spanish sides, in lower case -/
def corpusWords (pairs : List SentencePair) : List Str := (pairs.flatMap fun p => findWords p.1).map lower

theorem buildWordFrequencies_eq (pairs : List SentencePair) :
    buildWordFrequencies lower (pairs.map Prod.fst) =
      Dict.addAll ∅ ((corpusWords lower pairs).map fun word => (word, 1)) := by
  unfold buildWordFrequencies corpusWords Dict.addAll
  rw [List.foldl_map, List.foldl_map, List.foldl_map, List.foldl_flatMap]

theorem scanKnownPatterns_eq (pairs : List SentencePair) (patterns : List Str) :
    scanKnownPatterns lower (pairs.map Prod.fst) patterns =
      Dict.addAll (Dict.ofItems (patterns.map fun pattern => ⟨pattern, 0⟩))
        (pairs.flatMap fun p =>
          patterns.map fun pattern => (pattern, strCount (lower p.1) (lower pattern))) := by
  unfold scanKnownPatterns Dict.addAll
  rw [List.foldl_map, List.foldl_flatMap]
  simp only [List.foldl_map]

/-! ### The loop over the words -/

variable (frequencies : Dict Str ℕ) (prefixes : List Str) (thresholds : GlueThresholds)

/-- The candidates for the words of a list, each word being looked at once, unless it has been seen before -/
def candidatesOf (seen words : List Str) : List Str :=
  (keepFirst (fun _ => True) seen words).filterMap fun word =>
    findGluedWordCandidate lower word frequencies prefixes thresholds

/-- Candidates are counted, each for itself and all together. -/
def GlueScan.Counts (scan : GlueScan) (candidates : List Str) (scan' : GlueScan) : Prop :=
  scan'.candidateCountsByPrefix =
      scan.candidateCountsByPrefix.addAll (candidates.map fun candidate => (candidate, 1)) ∧
    scan'.numCandidateWords = scan.numCandidateWords + candidates.length

theorem GlueScan.Counts.trans {scan scan' scan'' : GlueScan} {candidates candidates' : List Str}
    (h : scan.Counts candidates scan') (h' : scan'.Counts candidates' scan'') :
    scan.Counts (candidates ++ candidates') scan'' := by
  constructor
  · rw [h'.1, h.1, List.map_append, Dict.addAll_append]
  · rw [h'.2, h.2, List.length_append, Nat.add_assoc]

theorem GlueScan.step_of_mem {scan : GlueScan} {word : Str} (h : lower word ∈ scan.seenWords) :
    scan.step lower frequencies prefixes thresholds word = scan := by
  unfold step
  dsimp only
  rw [if_pos h]

theorem GlueScan.step_of_not_mem {scan : GlueScan} {word : Str} (h : lower word ∉ scan.seenWords) :
    (scan.step lower frequencies prefixes thresholds word).seenWords = lower word :: scan.seenWords ∧
      scan.Counts (findGluedWordCandidate lower (lower word) frequencies prefixes thresholds).toList
        (scan.step lower frequencies prefixes thresholds word) := by
  unfold step
  dsimp only
  rw [if_neg h]
  cases findGluedWordCandidate lower (lower word) frequencies prefixes thresholds with
  | none => exact ⟨rfl, rfl, rfl⟩
  | some candidate => exact ⟨rfl, rfl, rfl⟩

theorem GlueScan.counts_foldl (words : List Str) (scan : GlueScan) :
    scan.Counts (candidatesOf lower frequencies prefixes thresholds scan.seenWords (words.map lower))
      (words.foldl (step lower frequencies prefixes thresholds) scan) := by
  induction words generalizing scan with
  | nil => exact ⟨rfl, rfl⟩
  | cons word words ih =>
    have hrest := ih (scan.step lower frequencies prefixes thresholds word)
    rw [List.foldl_cons, List.map_cons, candidatesOf, keepFirst]
    by_cases hseen : lower word ∈ scan.seenWords
    · rw [if_neg fun h => h.2 hseen]
      rw [step_of_mem lower frequencies prefixes thresholds hseen] at hrest ⊢
      exact hrest
    · obtain ⟨hseenWords, hcounts⟩ := step_of_not_mem lower frequencies prefixes thresholds hseen
      rw [if_pos ⟨trivial, hseen⟩, List.filterMap_cons]
      rw [hseenWords] at hrest
      have htrans := hcounts.trans hrest
      cases hfound : findGluedWordCandidate lower (lower word) frequencies prefixes thresholds with
      | none =>
        rw [hfound] at htrans
        exact htrans
      | some candidate =>
        rw [hfound] at htrans
        exact htrans

end Corpus

/-! ### The orders of the pairs and of the prefixes -/

section Orders

variable {lower : Str → Str} {frequencies frequencies' : Dict Str ℕ} {thresholds : GlueThresholds}
  {prefixes prefixes' : List Str} {pairs pairs' : List SentencePair}

theorem Glues.congr (h : frequencies.Same frequencies') {word pre : Str}
    (hglues : Glues lower frequencies thresholds word pre) : Glues lower frequencies' thresholds word pre := by
  obtain ⟨hrare, hstarts, hlong, hfrequent⟩ := hglues
  rw [h.count_eq] at hrare hfrequent
  exact ⟨hrare, hstarts, hlong, hfrequent⟩

theorem IsLongestGlue.congr (h : frequencies.Same frequencies') (hperm : prefixes.Perm prefixes')
    {word pre : Str}
    (hlongest : IsLongestGlue lower frequencies thresholds prefixes word pre) :
    IsLongestGlue lower frequencies' thresholds prefixes' word pre where
  mem := hperm.mem_iff.1 hlongest.mem
  glues := hlongest.glues.congr h
  longest other hother hglues :=
    hlongest.longest other (hperm.mem_iff.2 hother) (hglues.congr fun key => (h key).symm)

theorem findGluedWordCandidate_congr (h : frequencies.Same frequencies') (hperm : prefixes.Perm prefixes')
    (word : Str) :
    findGluedWordCandidate lower word frequencies prefixes thresholds =
      findGluedWordCandidate lower word frequencies' prefixes' thresholds := by
  apply Option.ext
  intro pre
  rw [findGluedWordCandidate_eq_some_iff, findGluedWordCandidate_eq_some_iff]
  exact ⟨fun hpre => hpre.congr h hperm, fun hpre => hpre.congr (fun key => (h key).symm) hperm.symm⟩

theorem corpusWords_perm (h : pairs.Perm pairs') : (corpusWords lower pairs).Perm (corpusWords lower pairs') :=
  (h.flatMap_right _).map lower

theorem candidatesOf_perm (h : frequencies.Same frequencies') (hperm : prefixes.Perm prefixes')
    {words words' : List Str}
    (hwords : words.Perm words') :
    (candidatesOf lower frequencies prefixes thresholds [] words).Perm
      (candidatesOf lower frequencies' prefixes' thresholds [] words') := by
  have hdistinct : (keepFirst (fun _ => True) [] words).Perm (keepFirst (fun _ => True) [] words') := by
    refine (List.perm_ext_iff_of_nodup (nodup_keepFirst _ _ _) (nodup_keepFirst _ _ _)).2 fun word => ?_
    rw [mem_keepFirst, mem_keepFirst, hwords.mem_iff]
  have hsame : (fun word => findGluedWordCandidate lower word frequencies prefixes thresholds) =
      fun word => findGluedWordCandidate lower word frequencies' prefixes' thresholds :=
    funext (findGluedWordCandidate_congr h hperm)
  rw [candidatesOf, candidatesOf, hsame]
  exact hdistinct.filterMap _

end Orders

/-! ### What is counted -/

private theorem ncard_mem {ws : List Str} (h : ws.Nodup) : {word | word ∈ ws}.ncard = ws.length := by
  rw [← List.coe_toFinset, Set.ncard_coe_finset, List.toFinset_card_of_nodup h]

private theorem added_filterMap (f : Str → Option Str) (ws : List Str) (pre : Str) :
    Dict.added ((ws.filterMap f).map fun candidate => (candidate, 1)) pre =
      (ws.filter fun word => f word = some pre).length := by
  induction ws with
  | nil => rfl
  | cons word ws ih =>
    rw [List.filterMap_cons, List.filter_cons]
    cases hword : f word with
    | none => simpa using ih
    | some candidate =>
      dsimp only
      rw [List.map_cons, Dict.added_cons, ih]
      by_cases hcandidate : candidate = pre
      · rw [if_pos hcandidate, hcandidate, if_pos (by simp), List.length_cons, Nat.add_comm]
      · rw [if_neg hcandidate, if_neg (by simpa using hcandidate), Nat.zero_add]

section Counting

variable {lower : Str → Str} {frequencies : Dict Str ℕ} {thresholds : GlueThresholds}
  {prefixes words : List Str}

theorem added_candidatesOf (pre : Str) :
    Dict.added
        ((candidatesOf lower frequencies prefixes thresholds [] words).map fun candidate =>
          (candidate, 1)) pre =
      {word | word ∈ words ∧ IsLongestGlue lower frequencies thresholds prefixes word pre}.ncard := by
  have hset : {word | word ∈ words ∧ IsLongestGlue lower frequencies thresholds prefixes word pre} =
      {word | word ∈ (keepFirst (fun _ => True) [] words).filter fun word =>
        findGluedWordCandidate lower word frequencies prefixes thresholds = some pre} := by
    ext word
    rw [Set.mem_ofPred_eq, Set.mem_ofPred_eq, List.mem_filter, mem_keepFirst, decide_eq_true_iff,
      findGluedWordCandidate_eq_some_iff]
    simp
  rw [hset, ncard_mem ((nodup_keepFirst _ _ _).filter _), candidatesOf, added_filterMap]

theorem length_candidatesOf :
    (candidatesOf lower frequencies prefixes thresholds [] words).length =
      {word | word ∈ words ∧ ∃ pre ∈ prefixes, Glues lower frequencies thresholds word pre}.ncard := by
  have hset : {word | word ∈ words ∧ ∃ pre ∈ prefixes, Glues lower frequencies thresholds word pre} =
      {word | word ∈ (keepFirst (fun _ => True) [] words).filter fun word =>
        (findGluedWordCandidate lower word frequencies prefixes thresholds).isSome} := by
    ext word
    rw [Set.mem_ofPred_eq, Set.mem_ofPred_eq, List.mem_filter, mem_keepFirst, Option.isSome_iff_exists,
      exists_findGluedWordCandidate_iff]
    simp
  rw [hset, ncard_mem ((nodup_keepFirst _ _ _).filter _), candidatesOf, List.length_filterMap_eq_countP,
    List.countP_eq_length_filter]

end Counting

/-! ### The report -/

section Report

variable (lower : Str → Str) (pairs : List SentencePair) (known_patterns prefixes : List Str)
  (thresholds : GlueThresholds)

/-- The candidates of the report, one for each word that has one -/
def reportCandidates : List Str :=
  candidatesOf lower (buildWordFrequencies lower (pairs.map Prod.fst)) prefixes thresholds []
    (corpusWords lower pairs)

theorem scanCorpusForGluedWords_counts :
    (scanCorpusForGluedWords lower pairs known_patterns prefixes thresholds).candidateCountsByPrefix =
        Dict.addAll ∅ ((reportCandidates lower pairs prefixes thresholds).map fun candidate => (candidate, 1)) ∧
      (scanCorpusForGluedWords lower pairs known_patterns prefixes thresholds).numCandidateWords =
        (reportCandidates lower pairs prefixes thresholds).length := by
  have hcounts := GlueScan.counts_foldl lower (buildWordFrequencies lower (pairs.map Prod.fst)) prefixes
    thresholds
    (pairs.flatMap fun p => findWords p.1) ⟨∅, 0, []⟩
  rw [List.foldl_flatMap] at hcounts
  unfold scanCorpusForGluedWords
  dsimp only
  rw [List.foldl_map]
  exact ⟨hcounts.1, hcounts.2.trans (Nat.zero_add _)⟩

theorem scanCorpusForGluedWords_same {pairs pairs' : List SentencePair} {prefixes prefixes' : List Str}
    (hpairs : pairs.Perm pairs') (hprefixes : prefixes.Perm prefixes') :
    (scanCorpusForGluedWords lower pairs known_patterns prefixes thresholds).Same
      (scanCorpusForGluedWords lower pairs' known_patterns prefixes' thresholds) := by
  have hfrequencies : (buildWordFrequencies lower (pairs.map Prod.fst)).Same
      (buildWordFrequencies lower (pairs'.map Prod.fst)) := by
    rw [buildWordFrequencies_eq, buildWordFrequencies_eq]
    exact Dict.same_addAll_of_perm ((corpusWords_perm hpairs).map _) ∅
  have hcandidates : (reportCandidates lower pairs prefixes thresholds).Perm
      (reportCandidates lower pairs' prefixes' thresholds) :=
    candidatesOf_perm hfrequencies hprefixes (corpusWords_perm hpairs)
  obtain ⟨hcounts, hnum⟩ := scanCorpusForGluedWords_counts lower pairs known_patterns prefixes thresholds
  obtain ⟨hcounts', hnum'⟩ := scanCorpusForGluedWords_counts lower pairs' known_patterns prefixes' thresholds
  constructor
  case numSentencesScanned => exact hpairs.length_eq
  case knownPatternCounts =>
    show (scanKnownPatterns lower (pairs.map Prod.fst) known_patterns).Same
      (scanKnownPatterns lower (pairs'.map Prod.fst) known_patterns)
    rw [scanKnownPatterns_eq, scanKnownPatterns_eq]
    exact Dict.same_addAll_of_perm (hpairs.flatMap_right _) _
  case candidateCountsByPrefix =>
    rw [hcounts, hcounts']
    exact Dict.same_addAll_of_perm (hcandidates.map _) ∅
  case numCandidateWords => rw [hnum, hnum', hcandidates.length_eq]

theorem IsLongestGlue.unique {lower : Str → Str} {frequencies : Dict Str ℕ} {thresholds : GlueThresholds}
    {prefixes : List Str} {word pre other : Str}
    (hpre : IsLongestGlue lower frequencies thresholds prefixes word pre)
    (hother : IsLongestGlue lower frequencies thresholds prefixes word other) : pre = other := by
  apply Str.eq_of_startsWith hpre.glues.2.starts hother.glues.2.starts
  exact le_antisymm (hother.longest pre hpre.mem hpre.glues) (hpre.longest other hother.mem hother.glues)

end Report

end KaqTranslator
