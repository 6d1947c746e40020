import KaqTranslator.Evaluation.Metrics
import KaqTranslator.Library.FirstMatch

/-!
# The model card (`evaluation/model_card.py`) and its readers

The card of a run is rendered from its `ModelCardData`, and its text is read back by patterns: the metrics by
`parse_model_card_metrics`, the identifiers of the run by `deployment/deploy.py`, and two hyperparameters by
`evaluation/evaluate_checkpoint.py`.  All but that of the title are a `FieldPattern`, which looks for the
label of a field and captures a run of characters after it; the title is looked for at the beginning of a
line.

Scores are counted in tenths, as they are rendered.
-/

namespace KaqTranslator

open FirstMatch

/-! ### Numbers -/

/-- `f"{n:,}"` -/
def commaStr (n : ℕ) : Str := (groups (natStr n).reverse).reverse
where
  groups : Str → Str
    | a :: b :: c :: d :: rest => a :: b :: c :: ',' :: groups (d :: rest)
    | s => s

/-- `f"{score:.1f}"`, from the score in tenths -/
def tenthsStr (t : ℕ) : Str := natStr (t / 10) ++ '.' :: natStr (t % 10)

/-! ### The data -/

inductive HyperValue where
  | number (n : ℕ)
  | text (s : Str)  -- a value of another type, as `str` renders it
  deriving DecidableEq

def HyperValue.str : HyperValue → Str
  | number n => natStr n
  | text s => s

/-- The keys of the hyperparameters are words in snake case. -/
def isKey (key : Str) : Bool := !key.isEmpty && key.all fun c => c.isLower || c.isDigit || c == '_'

def newTokensAddedKey : Str := "new_tokens_added".toList

def vocabExtensionScopingKey : Str := "vocab_extension_scoping".toList

structure ModelCardData where
  runId : Str
  timestamp : Str
  baseModel : Str
  direction : Str
  corpusVersion : Str
  trainSentenceCount : ℕ
  validationSentenceCount : ℕ
  hyperparameters : List (Str × HyperValue)
  metrics : MetricsResult ℕ
  notes : Option Str
  perDirectionMetrics : Option (List (Str × MetricsResult ℕ))
  keys : ∀ p ∈ hyperparameters, isKey p.1 = true
  nodup : (hyperparameters.map Prod.fst).Nodup
  /-- `new_tokens_added` is the length of a list -/
  newTokens : ∀ v, hyperparameters.lookup newTokensAddedKey = some v → ∃ n, v = .number n

namespace ModelCardData

/-- The recorded `new_tokens_added` -/
def newTokensAdded (data : ModelCardData) : Option ℕ :=
  (data.hyperparameters.lookup newTokensAddedKey).bind fun
    | .number n => some n
    | .text _ => none

/-- The recorded `vocab_extension_scoping` -/
def vocabExtensionScoping (data : ModelCardData) : Option Str :=
  (data.hyperparameters.lookup vocabExtensionScopingKey).map HyperValue.str

end ModelCardData

/-! ### Rendering -/

/-- A line of a card: a fixed text and a value, or `- **key**: value`. -/
inductive CardLine where
  | text (fixed value : Str)
  | field (key value : Str)

def CardLine.str : CardLine → Str
  | text fixed value => fixed ++ value
  | field key value => '-' :: ' ' :: '*' :: '*' :: (key ++ '*' :: '*' :: ':' :: ' ' :: value)

def CardLine.value : CardLine → Str
  | text _ value => value
  | field _ value => value

def blankLine : CardLine := .text [] []

def heading (s : String) : CardLine := .text s.toList []

def metricsLines (m : MetricsResult ℕ) : List CardLine :=
  [.field "BLEU".toList (tenthsStr m.bleu), .field "chrF".toList (tenthsStr m.chrf),
    .field "Sentences evaluated".toList (commaStr m.num_sentences)]

def headLines (data : ModelCardData) : List CardLine :=
  [.text "# Model card: ".toList data.runId, blankLine, .field "Timestamp".toList data.timestamp,
    .field "Base model".toList data.baseModel, .field "Direction".toList data.direction,
    .field "Corpus version".toList data.corpusVersion,
    .field "Training sentences".toList (commaStr data.trainSentenceCount),
    .field "Validation sentences".toList (commaStr data.validationSentenceCount), blankLine,
    heading "## Hyperparameters", blankLine]

/-- `if data.per_direction_metrics:`; the blank line after the last direction is popped. -/
def directionLines : Option (List (Str × MetricsResult ℕ)) → List CardLine
  | none | some [] => []
  | some table =>
    ([blankLine, heading "## Metrics by direction", blankLine] ++ table.flatMap fun d =>
      [.text "### ".toList d.1, blankLine] ++ metricsLines d.2 ++ [blankLine]).dropLast

/-- `if data.notes:` -/
def notesLines : Option Str → List CardLine
  | none | some [] => []
  | some notes => [blankLine, heading "## Notes", blankLine, .text [] notes]

def cardLines (data : ModelCardData) : List CardLine :=
  headLines data ++ data.hyperparameters.map (fun p => .field p.1 p.2.str) ++
    [blankLine, heading "## Metrics (validation set)", blankLine] ++ metricsLines data.metrics ++
    directionLines data.perDirectionMetrics ++ notesLines data.notes

def renderModelCard (data : ModelCardData) : Str :=
  Str.join ['\n'] ((cardLines data).map CardLine.str) ++ ['\n']

/-! ### Patterns -/

/-- `\S` -/
def notSpace (c : Char) : Bool := !isspace c

/-- `[0-9.]` -/
def isScoreChar (c : Char) : Bool := c.isDigit || c == '.'

theorem isspace_of_notSpace {c : Char} (h : notSpace c = true) : isspace c = false := by
  simpa [notSpace] using h

private theorem isspace_of_isScoreChar {c : Char} (h : isScoreChar c = true) : isspace c = false := by
  rcases Bool.or_eq_true_iff.1 h with h | h
  · exact isspace_of_isDigit h
  · obtain rfl := beq_iff_eq.1 h
    decide

def isLabel (name : Str) : Bool := !name.isEmpty && name.all fun c => c != '*' && c != '-' && c != ':'

/-- A pattern `\*\*name\*\*:\s*([…]+)`, with `-\s*` before it if `dash`. -/
structure FieldPattern where
  name : Str
  dash : Bool
  cls : Char → Bool
  name_ok : isLabel name = true
  cls_ok : ∀ c, cls c = true → isspace c = false

namespace FieldPattern

def label (f : FieldPattern) : Str := '*' :: '*' :: (f.name ++ ['*', '*', ':'])

/-- `-\s*` -/
def skipDash : Str → Option Str
  | '-' :: s => some (s.dropWhile isspace)
  | _ => none

/-- What the pattern captures at the beginning of `s`. -/
def capture? (f : FieldPattern) (s : Str) : Option Str :=
  ((if f.dash then skipDash s else some s).bind fun s => s.dropPrefix? f.label).bind (capture isspace f.cls)

def search (f : FieldPattern) (text : Str) : Option Str := FirstMatch.search f.capture? text

end FieldPattern

def bleuPattern : FieldPattern :=
  ⟨"BLEU".toList, false, isScoreChar, by decide, fun _ => isspace_of_isScoreChar⟩

def chrfPattern : FieldPattern :=
  ⟨"chrF".toList, false, isScoreChar, by decide, fun _ => isspace_of_isScoreChar⟩

def baseModelPattern : FieldPattern :=
  ⟨"Base model".toList, false, notSpace, by decide, fun _ => isspace_of_notSpace⟩

def directionPattern : FieldPattern :=
  ⟨"Direction".toList, false, notSpace, by decide, fun _ => isspace_of_notSpace⟩

def corpusVersionPattern : FieldPattern :=
  ⟨"Corpus version".toList, false, notSpace, by decide, fun _ => isspace_of_notSpace⟩

def newTokensAddedPattern : FieldPattern :=
  ⟨newTokensAddedKey, true, isDecimal, by decide, fun _ => isspace_of_isDecimal⟩

def vocabExtensionScopingPattern : FieldPattern :=
  ⟨vocabExtensionScopingKey, true, notSpace, by decide, fun _ => isspace_of_notSpace⟩

/-! ### Readers -/

/-- `^# Model card:\s*(\S+)` at the beginning of `s` -/
def captureTitle (s : Str) : Option Str :=
  (s.dropPrefix? "# Model card:".toList).bind (capture isspace notSpace)

/-- The fields whose patterns have matched -/
def matched (fields : List (Str × Option Str)) : List (Str × Str) :=
  fields.filterMap fun p => p.2.map fun v => (p.1, v)

def parseModelCardMetrics (text : Str) : List (Str × Str) :=
  matched [("bleu".toList, bleuPattern.search text), ("chrf".toList, chrfPattern.search text)]

def parseModelCardRunMetadata (text : Str) : List (Str × Str) :=
  matched [("run_id".toList, searchLines '\n' captureTitle text),
    ("base_model".toList, baseModelPattern.search text), ("direction".toList, directionPattern.search text),
    ("corpus_version".toList, corpusVersionPattern.search text)]

def extractNewTokensAdded (text : Option Str) : Option ℕ :=
  (text.bind newTokensAddedPattern.search).map intOf

def extractVocabExtensionScoping (text : Option Str) : Option Str :=
  text.bind vocabExtensionScopingPattern.search

end KaqTranslator
