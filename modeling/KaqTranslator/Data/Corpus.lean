import KaqTranslator.TextFiles

/-!
# The cleaned corpus

Cleaning a corpus (`data/normalize.py`, `data/dedup.py`, `data/length_filter.py`, `data/pipeline.py`) and the
TSV files of sentence pairs (`data/corpus_io.py`).  The format has no escapes: a pair is read back if its
fields hold no tab and no line boundary and the pair is not all white space (`TsvSafe`,
`readTsvPairs_writeTsvPairs`).  Cleaning leaves only such pairs, because after it the only white space is a
space between two words (`tsvSafe_of_mem_cleanPairs`), and so does reading (`tsvSafe_of_readTsvPairs`).

Nothing here depends on what `unicodedata.normalize` does, nor on the comparison of the ratio of two lengths,
a float, with its bound: both are arbitrary.
-/

namespace KaqTranslator

open Lines

abbrev SentencePair := Str × Str

/-! ### Cleaning -/

/-- `normalize_glottal_marks` -/
def normalizeGlottalMarks (text : Str) : Str := text.map fun c => if c = 'ˈ' then '\'' else c

/-- `_WHITESPACE_RE.sub(" ", …)`: a run of white space is replaced when its last character is met. -/
def subWhitespace : Str → Str
  | [] => []
  | c :: s =>
    if isspace c then if (s.head?.map isspace).getD false then subWhitespace s else ' ' :: subWhitespace s
    else c :: subWhitespace s

def normalizeText (nfc : Str → Str) (text : Str) : Str :=
  (subWhitespace (normalizeGlottalMarks (nfc text))).strip

def normalizePair (nfc : Str → Str) (p : SentencePair) : SentencePair :=
  (normalizeText nfc p.1, normalizeText nfc p.2)

/-- The loop of `deduplicate_pairs` -/
def deduplicateFrom (seen : List SentencePair) : List SentencePair → List SentencePair
  | [] => []
  | p :: ps => if p ∈ seen then deduplicateFrom seen ps else p :: deduplicateFrom (p :: seen) ps

def deduplicatePairs (ps : List SentencePair) : List SentencePair := deduplicateFrom [] ps

structure LengthFilterConfig where
  minLength : ℤ
  maxLength : ℤ
  exceedsRatio : ℕ → ℕ → Bool  -- `longer / shorter > max_ratio`

def isValidLength (config : LengthFilterConfig) (p : SentencePair) : Bool :=
  let es := p.1.strip.length
  let cak := p.2.strip.length
  if es = 0 ∨ cak = 0 then false
  else if es < config.minLength ∨ cak < config.minLength then false
  else if es > config.maxLength ∨ cak > config.maxLength then false
  else !config.exceedsRatio (max es cak) (min es cak)

def filterPairsByLength (config : LengthFilterConfig) (ps : List SentencePair) : List SentencePair :=
  ps.filter (isValidLength config)

def cleanPairs (nfc : Str → Str) (config : LengthFilterConfig) (ps : List SentencePair) : List SentencePair :=
  filterPairsByLength config (deduplicatePairs (ps.map (normalizePair nfc)))

/-! ### TSV files -/

/-- `_read_text`: an S3 object is decoded as it is, a local file is read with universal newlines. -/
def readTextFrom (path_or_uri file : Str) : Str :=
  if path_or_uri.startsWith "s3://".toList then file else readText file

def malformedLine (path_or_uri : Str) (line_number fields : ℕ) : ValueError :=
  ⟨path_or_uri ++ [':'] ++ natStr line_number ++ ": expected 2 tab-separated fields, got ".toList ++
    natStr fields⟩

/-- The loop of `read_tsv_pairs` -/
def parseTsvLines (path_or_uri : Str) : ℕ → List Str → Except ValueError (List SentencePair)
  | _, [] => .ok []
  | n, line :: lines =>
    if line.strip.isEmpty then parseTsvLines path_or_uri (n + 1) lines
    else match line.splitOn '\t' with
      | [es, cak] => (parseTsvLines path_or_uri (n + 1) lines).map fun ps => (es, cak) :: ps
      | fields => .error (malformedLine path_or_uri n fields.length)

/-- `read_tsv_pairs`, where `file` is what is stored under the path or the URI. -/
def readTsvPairs (path_or_uri file : Str) : Except ValueError (List SentencePair) :=
  parseTsvLines path_or_uri 1 (readTextFrom path_or_uri file).splitlines

def tsvLine (p : SentencePair) : Str := p.1 ++ '\t' :: p.2

/-- What `write_tsv_pairs` stores. -/
def writeTsvPairs (ps : List SentencePair) : Str :=
  let text := Str.join ['\n'] (ps.map tsvLine)
  if text.isEmpty then text else text ++ ['\n']

/-! ### Pairs that are read back -/

/-- The fields hold no tab and no line boundary, and the line of the pair is not blank. -/
structure TsvSafe (p : SentencePair) : Prop where
  es : ∀ c ∈ p.1, isLineBoundary c = false ∧ c ≠ '\t'
  cak : ∀ c ∈ p.2, isLineBoundary c = false ∧ c ≠ '\t'
  notBlank : ¬ (tsvLine p).Blank

private theorem splitOn_tsvLine {p : SentencePair} (h : TsvSafe p) : (tsvLine p).splitOn '\t' = [p.1, p.2] := by
  have hes : '\t' ∉ p.1 := fun hmem => (h.es _ hmem).2 rfl
  have hcak : '\t' ∉ p.2 := fun hmem => (h.cak _ hmem).2 rfl
  rw [tsvLine, List.splitOn_append_cons_self_of_not_mem hes, List.splitOn_eq_singleton hcak]

private theorem parseTsvLines_map {ps : List SentencePair} (h : ∀ p ∈ ps, TsvSafe p) (path_or_uri : Str)
    (n : ℕ) :
    parseTsvLines path_or_uri n (ps.map tsvLine) = .ok ps := by
  induction ps generalizing n with
  | nil => rfl
  | cons p ps ih =>
    obtain ⟨hp, hps⟩ := List.forall_mem_cons.1 h
    have hstrip : (tsvLine p).strip.isEmpty = false :=
      List.isEmpty_eq_false_iff.2 fun hnil => hp.notBlank (Str.strip_eq_nil_iff.1 hnil)
    rw [List.map_cons, parseTsvLines, hstrip, if_neg (by simp), splitOn_tsvLine hp, ih hps]
    rfl

private theorem splitlines_readTextFrom (path_or_uri file : Str) :
    (readTextFrom path_or_uri file).splitlines = file.splitlines := by
  rw [readTextFrom]
  split
  · rfl
  · exact splitlines_readText file

private theorem splitlines_writeTsvPairs {ps : List SentencePair} (h : ∀ p ∈ ps, TsvSafe p) :
    (writeTsvPairs ps).splitlines = ps.map tsvLine := by
  cases ps with
  | nil => rfl
  | cons p rest =>
    have hlines : ∀ l ∈ (p :: rest).map tsvLine, ∀ c ∈ l, isLineBoundary c = false := by
      intro l hl c hc
      obtain ⟨q, hq, rfl⟩ := List.mem_map.1 hl
      rcases List.mem_append.1 hc with hc | hc
      · exact ((h q hq).es c hc).1
      · rcases List.mem_cons.1 hc with rfl | hc
        · decide
        · exact ((h q hq).cak c hc).1
    -- the line of a pair has its tab, so the file is not empty
    have hjoin : Str.join ['\n'] ((p :: rest).map tsvLine) ≠ [] := by
      intro hnil
      have hlines : (p :: rest).map tsvLine ≠ [] := by simp
      have hlen := congrArg List.length (join_append_newline hlines)
      rw [hnil] at hlen
      simp [unlines, tsvLine] at hlen
      omega
    rw [writeTsvPairs, if_neg (by simpa using hjoin), join_append_newline (by simp)]
    exact splitlines_unlines_of_forall rfl rfl (by decide) hlines

/-- Pairs that are safe are read back from the file that they were written to. -/
theorem readTsvPairs_writeTsvPairs {ps : List SentencePair} (h : ∀ p ∈ ps, TsvSafe p) (path_or_uri : Str) :
    readTsvPairs path_or_uri (writeTsvPairs ps) = .ok ps := by
  rw [readTsvPairs, splitlines_readTextFrom, splitlines_writeTsvPairs h, parseTsvLines_map h]

/-! ### What cleaning leaves -/

theorem mem_subWhitespace {s : Str} {c : Char} (h : c ∈ subWhitespace s) :
    c = ' ' ∨ isspace c = false := by
  induction s with
  | nil => cases h
  | cons d s ih =>
    rw [subWhitespace] at h
    split at h
    · split at h
      · exact ih h
      · rcases List.mem_cons.1 h with rfl | h
        · exact Or.inl rfl
        · exact ih h
    · rename_i hd
      rcases List.mem_cons.1 h with rfl | h
      · exact Or.inr (Bool.eq_false_iff.2 hd)
      · exact ih h

theorem Str.mem_strip {s : Str} {c : Char} (h : c ∈ s.strip) : c ∈ s := by
  obtain ⟨l, r, -, -, hs⟩ := s.strip_eq
  rw [hs]
  exact List.mem_append_left _ (List.mem_append_right _ h)

/-- The only white space in a normalised text is the space. -/
private theorem mem_normalizeText {nfc : Str → Str} {text : Str} {c : Char} (h : c ∈ normalizeText nfc text) :
    c = ' ' ∨ isspace c = false :=
  mem_subWhitespace (Str.mem_strip h)

private theorem safe_of_mem_normalizeText {nfc : Str → Str} {text : Str} {c : Char}
    (h : c ∈ normalizeText nfc text) : isLineBoundary c = false ∧ c ≠ '\t' := by
  rcases mem_normalizeText h with rfl | hc
  · decide
  · refine ⟨Bool.eq_false_iff.2 fun hb => ?_, ?_⟩
    · -- every line boundary is white space
      rw [isspace_of_isLineBoundary hb] at hc
      cases hc
    · rintro rfl
      cases hc

private theorem mem_deduplicateFrom {seen ps : List SentencePair} {p : SentencePair}
    (h : p ∈ deduplicateFrom seen ps) : p ∈ ps := by
  induction ps generalizing seen with
  | nil => cases h
  | cons q ps ih =>
    rw [deduplicateFrom] at h
    split at h
    · exact List.mem_cons_of_mem _ (ih h)
    · rcases List.mem_cons.1 h with rfl | h
      · exact List.mem_cons_self ..
      · exact List.mem_cons_of_mem _ (ih h)

private theorem strip_ne_nil_of_isValidLength {config : LengthFilterConfig} {p : SentencePair}
    (h : isValidLength config p = true) : p.1.strip ≠ [] := by
  intro hnil
  simp [isValidLength, hnil] at h

theorem tsvSafe_of_mem_cleanPairs {nfc : Str → Str} {config : LengthFilterConfig} {ps : List SentencePair}
    {p : SentencePair} (h : p ∈ cleanPairs nfc config ps) : TsvSafe p := by
  obtain ⟨hmem, hvalid⟩ := List.mem_filter.1 h
  obtain ⟨q, -, rfl⟩ := List.mem_map.1 (mem_deduplicateFrom hmem)
  constructor
  case es => exact fun c hc => safe_of_mem_normalizeText hc
  case cak => exact fun c hc => safe_of_mem_normalizeText hc
  case notBlank =>
    intro hblank
    refine strip_ne_nil_of_isValidLength hvalid (Str.strip_eq_nil_iff.2 ?_)
    exact fun c hc => hblank c (List.mem_append_left _ hc)

/-! ### What reading accepts -/

private theorem tsvSafe_of_parseTsvLines {path_or_uri : Str} {lines : List Str} {n : ℕ} {ps : List SentencePair}
    (hlines : ∀ l ∈ lines, ∀ c ∈ l, isLineBoundary c = false)
    (h : parseTsvLines path_or_uri n lines = .ok ps) : ∀ p ∈ ps, TsvSafe p := by
  induction lines generalizing n ps with
  | nil =>
    obtain rfl := Except.ok.inj h
    simp
  | cons l lines ih =>
    obtain ⟨hl, hrest⟩ := List.forall_mem_cons.1 hlines
    rw [parseTsvLines] at h
    split at h
    · exact ih hrest h
    · rename_i hstrip
      split at h
      · rename_i es cak hfields
        cases hparse : parseTsvLines path_or_uri (n + 1) lines with
        | error e =>
          rw [hparse] at h
          cases h
        | ok rest =>
          rw [hparse] at h
          obtain rfl := Except.ok.inj h
          refine List.forall_mem_cons.2 ⟨?_, ih hrest hparse⟩
          have hline : l = tsvLine (es, cak) :=
            calc l = ['\t'].intercalate (l.splitOn '\t') := (List.intercalate_splitOn '\t').symm
              _ = tsvLine (es, cak) := by rw [hfields]; simp [tsvLine, List.intercalate_cons_cons]
          have hnotab : ∀ f ∈ [es, cak], ∀ c ∈ f, c ≠ '\t' := by
            intro f hf c hc
            rw [← hfields, List.splitOn_eq_splitOnP] at hf
            simpa using not_sep_of_mem_splitOnP hf c hc
          constructor
          case es =>
            intro c hc
            exact ⟨hl c (hline ▸ List.mem_append_left _ hc), hnotab es (by simp) c hc⟩
          case cak =>
            intro c hc
            exact ⟨hl c (hline ▸ List.mem_append_right _ (List.mem_cons_of_mem _ hc)),
              hnotab cak (by simp) c hc⟩
          case notBlank =>
            rw [← hline]
            intro hblank
            rw [Str.strip_eq_nil_iff.2 hblank] at hstrip
            exact hstrip rfl
      · cases h

private theorem tsvSafe_of_readTsvPairs {path_or_uri file : Str} {ps : List SentencePair}
    (h : readTsvPairs path_or_uri file = .ok ps) : ∀ p ∈ ps, TsvSafe p :=
  tsvSafe_of_parseTsvLines (fun _ hl => not_isLineBoundary_of_mem_splitlines hl) h

/-- The cleaned corpus round trip.  What `write_tsv_pairs` writes of a cleaned corpus is read back as the
cleaned corpus, and so is what it writes of the pairs of any file that `read_tsv_pairs` accepts. -/
theorem cleaned_corpus_round_trip (nfc : Str → Str) (config : LengthFilterConfig) (path_or_uri : Str) :
    (∀ raw, readTsvPairs path_or_uri (writeTsvPairs (cleanPairs nfc config raw)) =
      .ok (cleanPairs nfc config raw)) ∧
    ∀ path_or_uri' file ps, readTsvPairs path_or_uri' file = .ok ps →
      readTsvPairs path_or_uri (writeTsvPairs ps) = .ok ps := by
  constructor
  · intro raw
    exact readTsvPairs_writeTsvPairs (fun p hp => tsvSafe_of_mem_cleanPairs hp) path_or_uri
  · intro path_or_uri' file ps h
    exact readTsvPairs_writeTsvPairs (tsvSafe_of_readTsvPairs h) path_or_uri

/-- A pair whose fields hold a tab and a paragraph separator, and one of white space. -/
example : readTsvPairs ['a'] (writeTsvPairs (cleanPairs id ⟨1, 400, fun m n => m > 4 * n⟩
    [(['a', '\t', 'b'], ['c', '\u2029']), ([' ', '\t'], ['d'])])) = .ok [(['a', ' ', 'b'], ['c'])] := by
  rfl

end KaqTranslator
