import KaqTranslator.Text
import KaqTranslator.Library.EventMachine
import KaqTranslator.Library.RecordStore

/-!
# The translate-job records (`app/models.py`, `app/jobs.py`)

The items of `TranslateJobsTable` and the functions that read and write them.  Each function is given what
DynamoDB answers: `getJob` and `getJobInput` the item that `get_item` returned, `conditionalUpdate` the item
stored when the atomic `update_item` runs.

`JobsTable` with the operations `JobOp` is the table under arbitrary interleavings of `create_job`,
`mark_succeeded`, `mark_failed` and deletions.  The identifiers of `create_job` are fresh (`uuid.uuid4()`),
and a terminal write is only ever made for an identifier that `create_job` has returned.
-/

namespace KaqTranslator

open EventMachine RecordStore

inductive Direction where
  | esToCak
  | cakToEs
  deriving DecidableEq

inductive JobStatus where
  | pending
  | succeeded
  | failed
  deriving DecidableEq

/-- `TranslateRequest`, with the bounds that pydantic checks on `text`. -/
structure TranslateRequest where
  text : Str
  direction : Direction
  min_length : 1 ≤ text.length
  max_length : text.length ≤ 2000
  deriving DecidableEq

/-- The request of the sample runs. -/
def utzRequest : TranslateRequest := ⟨['u', 't', 'z'], .cakToEs, by decide, by decide⟩

/-- A job identifier: a UUID. -/
abbrev JobId := ℕ

inductive Attr where
  | jobId
  | status
  | text
  | direction
  | ttl
  | translation
  | statusCode
  | error
  deriving DecidableEq

/-- The values of attributes; the values of the string enumerations are their members. -/
inductive Value where
  | id (j : JobId)
  | status (s : JobStatus)
  | direction (d : Direction)
  | str (s : Str)
  | num (n : ℕ)
  deriving DecidableEq

abbrev JobItem := Item Attr Value

inductive PyError where
  | keyError (a : Attr)
  | valueError
  | validationError
  deriving DecidableEq

/-! ### Reading an item -/

/-- `item[a]` -/
def fetch (item : JobItem) (a : Attr) : Except PyError Value :=
  match item a with
  | some v => .ok v
  | none => .error (.keyError a)

def Value.toNat : Value → Except PyError ℕ
  | num n => .ok n
  | _ => .error .valueError

def Value.toStr : Value → Except PyError Str
  | str s => .ok s
  | _ => .error .validationError

def Value.toDirection : Value → Except PyError Direction
  | direction d => .ok d
  | _ => .error .valueError

/-- `TranslateRequest(text=…, direction=…)` -/
def TranslateRequest.validate (text : Str) (direction : Direction) : Except PyError TranslateRequest :=
  if h : 1 ≤ text.length ∧ text.length ≤ 2000 then .ok ⟨text, direction, h.1, h.2⟩ else .error .validationError

/-- `get_job`, given the answer of `get_item` and the time at which `ttl` is checked. -/
def getJob (answer : Option JobItem) (now : ℕ) : Except PyError (Option JobItem) :=
  match answer with
  | none => .ok none
  | some item => do
    let ttl ← (← fetch item .ttl).toNat
    if ttl < now then return none
    return some item

/-- `get_job_input`, given the answer of `get_item`. -/
def getJobInput (answer : Option JobItem) : Except PyError (Option TranslateRequest) :=
  match answer with
  | none => .ok none
  | some item => do
    let text ← (← fetch item .text).toStr
    let direction ← (← fetch item .direction).toDirection
    return some (← TranslateRequest.validate text direction)

/-! ### Writing an item -/

def jobTtlSeconds : ℕ := 60 * 60

/-- The item that `create_job` puts. -/
def newJob (job_id : JobId) (request : TranslateRequest) (now : ℕ) : JobItem
  | .jobId => some (.id job_id)
  | .status => some (.status .pending)
  | .text => some (.str request.text)
  | .direction => some (.direction request.direction)
  | .ttl => some (.num (now + jobTtlSeconds))
  | _ => none

/-- The item that an `update_item` for a key without an item starts from. -/
def keyItem (job_id : JobId) : JobItem
  | .jobId => some (.id job_id)
  | _ => none

/-- `attribute_not_exists(#status) OR #status = :pending_status` -/
def notYetTerminal : Condition Attr Value :=
  .or (.attributeNotExists .status) (.equals .status (.status .pending))

/-- `_conditional_update`: a failed condition is swallowed, and the stored item stays. -/
def conditionalUpdate (job_id : JobId) (fields : List (Attr × Value)) (stored : Option JobItem) :
    Option JobItem :=
  conditionalWrite (keyItem job_id) notYetTerminal stored fields

/-- A terminal write: the arguments of `mark_succeeded` or of `mark_failed`. -/
inductive TerminalWrite where
  | succeeded (translation : Str)
  | failed (status_code : ℕ) (error : Str)
  deriving DecidableEq

def TerminalWrite.fields : TerminalWrite → List (Attr × Value)
  | succeeded translation => [(.status, .status .succeeded), (.translation, .str translation)]
  | failed status_code error =>
    [(.status, .status .failed), (.statusCode, .num status_code), (.error, .str error)]

def markSucceeded (job_id : JobId) (translation : Str) (stored : Option JobItem) : Option JobItem :=
  conditionalUpdate job_id (TerminalWrite.succeeded translation).fields stored

def markFailed (job_id : JobId) (status_code : ℕ) (error : Str) (stored : Option JobItem) : Option JobItem :=
  conditionalUpdate job_id (TerminalWrite.failed status_code error).fields stored

def TerminalWrite.mark (w : TerminalWrite) (job_id : JobId) (stored : Option JobItem) : Option JobItem :=
  match w with
  | succeeded translation => markSucceeded job_id translation stored
  | failed status_code error => markFailed job_id status_code error stored

/-! ### The table under interleaved operations -/

/-- The arguments of a call of `create_job`: the request and the time it read. -/
structure Submission where
  request : TranslateRequest
  now : ℕ
  deriving DecidableEq

structure JobsTable where
  items : Table JobId Attr Value
  submitted : JobId → Option Submission  -- what `create_job` was called with, by the identifier it returned

/-- The operations on the table; `delete` is the TTL sweep. -/
inductive JobOp where
  | createJob (job_id : JobId) (request : TranslateRequest) (now : ℕ)
  | mark (job_id : JobId) (w : TerminalWrite)
  | delete (job_id : JobId)
  deriving DecidableEq

def JobOp.job : JobOp → JobId
  | createJob job_id _ _ => job_id
  | mark job_id _ => job_id
  | delete job_id => job_id

def JobsTable.empty : JobsTable := ⟨fun _ => none, fun _ => none⟩

def JobsTable.step (s : JobsTable) : JobOp → Option JobsTable
  | .createJob job_id request now =>
    if s.submitted job_id = none then
      some ⟨Function.update s.items job_id (some (newJob job_id request now)),
        Function.update s.submitted job_id (some ⟨request, now⟩)⟩
    else none
  | .mark job_id w =>
    if s.submitted job_id = none then none
    else some { s with items := Function.update s.items job_id (w.mark job_id (s.items job_id)) }
  | .delete job_id => some { s with items := Function.update s.items job_id none }

/-! ### First facts -/

theorem TerminalWrite.mark_eq (w : TerminalWrite) (job_id : JobId) (stored : Option JobItem) :
    w.mark job_id stored = conditionalWrite (keyItem job_id) notYetTerminal stored w.fields := by
  cases w <;> rfl

/-- A terminal write leaves no item that another terminal write could change. -/
theorem TerminalWrite.closes (w : TerminalWrite) : Closes notYetTerminal w.fields := by
  intro r
  cases w <;> simp [notYetTerminal, Condition.eval, fields, Item.set, Function.update]

theorem notYetTerminal_eval (item : JobItem) :
    notYetTerminal.eval item = true ↔ item .status = none ∨ item .status = some (.status .pending) := by
  simp [notYetTerminal, Condition.eval]

theorem notYetTerminal_newJob (job_id : JobId) (request : TranslateRequest) (now : ℕ) :
    notYetTerminal.eval (newJob job_id request now) = true :=
  (notYetTerminal_eval _).2 (Or.inr rfl)

end KaqTranslator
