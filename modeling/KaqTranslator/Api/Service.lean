import KaqTranslator.Api.Translation

/-!
# The translate-job service

The three Lambdas over the job table: the Request Lambda's routes (`app/main.py`), the Worker
(`app/worker_handler.py`) and its `onFailure` destination (`app/failure_handler.py`).  Each invocation is a
process with a program counter at every call that another process can interleave with: the reads and writes of
DynamoDB, the endpoint call, the log line, the return.  `Sys.step` takes one step of one process, moves the
clock, or sweeps an expired item.

A read is not strongly consistent: it may be answered with any earlier version of the item, its absence
included.
-/

namespace KaqTranslator

open EventMachine RecordStore

/-! ### The log (`app/observability.py`) -/

/-- A `translate_job_resolved` line; `latency_ms` is in hundredths of a millisecond, as rounded. -/
structure LogLine where
  job_id : JobId
  direction : Option Value
  input_length : Option ℕ
  latency_ms : Option ℕ
  status_code : ℕ
  error_type : Option Str
  deriving DecidableEq

/-! ### The Worker (`app/worker_handler.py`) -/

inductive WorkerPc where
  | reading  -- before `get_job_input`
  | calling (request : TranslateRequest)  -- before `translate_via_sagemaker`
  | succeeding (request : TranslateRequest) (translation : Str)  -- before `mark_succeeded`
  | failing (request : TranslateRequest) (error : TranslationServiceError)  -- before `mark_failed`
  | loggingSucceeded (request : TranslateRequest)
  | loggingFailed (request : TranslateRequest) (error : TranslationServiceError)
  | returning (found : Bool)  -- before a `return`; `found` is false for the one under `request is None`
  | returned (found : Bool)
  | crashed  -- ended by an exception, or killed
  deriving DecidableEq

/-- What the environment decides at a step of a process. -/
inductive Choice where
  | version (n : ℕ)  -- `get_item` sees the `n`-th newest version
  /-- the endpoint call, with the environment variable it reads -/
  | endpoint (name : Option Str) (outcome : InvokeOutcome)
  | proceed
  | elapsed (latency_ms : ℕ)  -- the time that the endpoint call took
  | crash  -- an AWS call raises, or the process is killed

/-- A step of a process: its new program counter, its terminal write and its log line, if any. -/
structure Action (P : Type*) where
  pc : P
  write : Option TerminalWrite
  log : Option LogLine

def Action.goto {P : Type*} (pc : P) : Action P := ⟨pc, none, none⟩

def Action.map {P Q : Type*} (f : P → Q) (a : Action P) : Action Q := ⟨f a.pc, a.write, a.log⟩

def serviceErrorType : Str := "TranslationServiceError".toList

/-- `worker_handler.handler`, one step; `answer n` is the answer of a read that sees the `n`-th newest
version.  -/
def WorkerPc.next (job_id : JobId) (answer : ℕ → Option JobItem) : WorkerPc → Choice → Option (Action WorkerPc)
  | reading, .version n =>
    match getJobInput (answer n) with
    | .ok none => some (.goto (returning false))
    | .ok (some request) => some (.goto (calling request))
    | .error _ => some (.goto crashed)
  | calling request, .endpoint name outcome =>
    match translateViaSagemaker name (fun _ => outcome) request with
    | .ok translation => some (.goto (succeeding request translation))
    | .error (.service error) => some (.goto (failing request error))
    | .error .other => some (.goto crashed)
  | succeeding request translation, .proceed =>
    some ⟨loggingSucceeded request, some (.succeeded translation), none⟩
  | failing request error, .proceed =>
    some ⟨loggingFailed request error, some (.failed error.status_code error.message), none⟩
  | loggingSucceeded request, .elapsed latency =>
    some ⟨returning true, none,
      some ⟨job_id, some (.direction request.direction), some request.text.length, some latency, 200, none⟩⟩
  | loggingFailed request error, .elapsed latency =>
    some ⟨returning true, none,
      some ⟨job_id, some (.direction request.direction), some request.text.length, some latency,
        error.status_code, some serviceErrorType⟩⟩
  | returning found, .proceed => some (.goto (returned found))
  | returned _, _ => none
  | crashed, _ => none
  | _, .crash => some (.goto crashed)
  | _, _ => none

/-! ### The `onFailure` destination (`app/failure_handler.py`) -/

def workerFailureStatusCode : ℕ := 504

def workerFailureMessage : Str :=
  "El servicio de traducción tardó demasiado en responder. Inténtalo de nuevo.".toList

def workerFailureErrorType : Str := "WorkerTimeoutOrCrash".toList

inductive HandlerPc where
  | marking  -- before `mark_failed`
  | reading  -- before the `get_item` of `get_job`
  | checking (answer : Option JobItem)  -- before the check of `ttl` and the log line
  | finished
  | raised

/-- The log line of the handler, from the record that `get_job` returned. -/
def failureLine (job_id : JobId) (job : Option JobItem) : Except PyError LogLine := do
  let text := job.bind fun item => item .text
  let input_length ← match text with
    | some v => Except.map (fun s => some s.length) v.toStr
    | none => .ok none
  return ⟨job_id, job.bind fun item => item .direction, input_length, none, workerFailureStatusCode,
    some workerFailureErrorType⟩

/-- `failure_handler.handler`, one step. -/
def HandlerPc.next (job_id : JobId) (answer : ℕ → Option JobItem) (clock : ℕ) :
    HandlerPc → Choice → Option (Action HandlerPc)
  | marking, .proceed => some ⟨reading, some (.failed workerFailureStatusCode workerFailureMessage), none⟩
  | reading, .version n => some (.goto (checking (answer n)))
  | checking item, .proceed =>
    match getJob item clock >>= failureLine job_id with
    | .ok line => some ⟨finished, none, some line⟩
    | .error _ => some (.goto raised)
  | _, _ => none

/-! ### The poll route (`app/main.py`) -/

inductive JobStatusResponse where
  | pending
  | succeeded (translation : Str)
  | failed (status_code : ℕ) (error : Str)
  deriving DecidableEq

/-- An answer of `GET /v1/translate-jobs/{job_id}`. -/
inductive JobResponse where
  | ok (body : JobStatusResponse)
  | error (status : ℕ) (message : Str)
  deriving DecidableEq

def invalidJobIdMessage : Str := "El identificador del trabajo no es válido.".toList

def jobNotFoundMessage : Str :=
  "No se encontró esa traducción. Puede que el enlace sea incorrecto o que haya expirado.".toList

def unexpectedErrorMessage : Str := "Ocurrió un error inesperado.".toList

def jobStatusResponse (job : JobItem) : Except PyError JobStatusResponse := do
  let status ← fetch job .status
  if status = .status .succeeded then
    return .succeeded (← (← fetch job .translation).toStr)
  if status = .status .failed then
    return .failed (← (← fetch job .statusCode).toNat) (← (← fetch job .error).toStr)
  return .pending

/-- `get_translate_job`; `job_id` is `none` when `uuid.UUID` rejects the path parameter, and an exception
becomes the `500` of `unhandled_exception_handler`. -/
def getTranslateJob (job_id : Option JobId) (get_item : JobId → Option JobItem) (now : ℕ) : JobResponse :=
  match job_id with
  | none => .error 400 invalidJobIdMessage
  | some id =>
    match getJob (get_item id) now with
    | .error _ => .error 500 unexpectedErrorMessage
    | .ok none => .error 404 jobNotFoundMessage
    | .ok (some job) =>
      match jobStatusResponse job with
      | .ok body => .ok body
      | .error _ => .error 500 unexpectedErrorMessage

inductive PollPc where
  | reading  -- before the `get_item` of `get_job`
  | checking (answer : Option JobItem)  -- before the check of `ttl` and the answer
  | answered (time : ℕ) (response : JobResponse)  -- answered, when the clock was at `time`

def PollPc.next (job_id : JobId) (answer : ℕ → Option JobItem) (clock : ℕ) :
    PollPc → Choice → Option (Action PollPc)
  | reading, .version n => some (.goto (checking (answer n)))
  | checking item, .proceed =>
    some (.goto (answered clock (getTranslateJob (some job_id) (fun _ => item) clock)))
  | _, _ => none

/-! ### The system -/

inductive Proc where
  | worker (job_id : JobId) (pc : WorkerPc)
  | failureHandler (job_id : JobId) (pc : HandlerPc)
  | poll (job_id : JobId) (pc : PollPc)

def Proc.job : Proc → JobId
  | worker job_id _ => job_id
  | failureHandler job_id _ => job_id
  | poll job_id _ => job_id

def Proc.next (answer : JobId → ℕ → Option JobItem) (clock : ℕ) : Proc → Choice → Option (Action Proc)
  | worker job_id pc, c => (pc.next job_id (answer job_id) c).map (Action.map (worker job_id))
  | failureHandler job_id pc, c =>
    (pc.next job_id (answer job_id) clock c).map (Action.map (failureHandler job_id))
  | poll job_id pc, c => (pc.next job_id (answer job_id) clock c).map (Action.map (poll job_id))

structure Sys where
  clock : ℕ  -- `int(time.time())`
  store : History JobId Attr Value
  submitted : JobId → Option Submission  -- what `create_job` was called with, by the identifier it returned
  procs : ℕ → Option Proc
  logs : List (ℕ × LogLine)  -- the lines logged, newest first, with the process that logged each

def Sys.init : Sys := ⟨0, fun _ => [], fun _ => none, fun _ => none, []⟩

inductive Event where
  /-- `create_job` puts an item with a fresh identifier; `now` is the time it read before -/
  | post (job_id : JobId) (request : TranslateRequest) (now : ℕ)
  /-- Lambda delivers the invoke event of a job to the Worker, possibly not for the first time -/
  | deliver (p : ℕ) (job_id : JobId)
  | onFailure (p q : ℕ)  -- Lambda invokes the `onFailure` destination for the Worker `q`
  | get (p : ℕ) (job_id : JobId)
  | advance (p : ℕ) (c : Choice)
  | tick (seconds : ℕ)
  | sweep (job_id : JobId)  -- the TTL sweep deletes an expired item

/-- The item carries a `ttl` that has passed. -/
def expired (item : JobItem) (clock : ℕ) : Bool :=
  match item .ttl with
  | some (.num ttl) => ttl < clock
  | _ => false

/-- The state after the process `p`, about the job `job_id`, has taken the action `a`. -/
def Sys.commit (s : Sys) (p : ℕ) (job_id : JobId) (a : Action Proc) : Sys where
  clock := s.clock
  store := match a.write with
    | none => s.store
    | some w => s.store.record job_id (w.mark job_id (s.store.current job_id))
  submitted := s.submitted
  procs := Function.update s.procs p (some a.pc)
  logs := match a.log with
    | none => s.logs
    | some line => (p, line) :: s.logs

def Sys.spawn (s : Sys) (p : ℕ) (proc : Proc) : Option Sys :=
  if (s.procs p).isNone then some { s with procs := Function.update s.procs p (some proc) } else none

def Sys.step (s : Sys) : Event → Option Sys
  | .post job_id request now =>
    if s.submitted job_id = none ∧ now ≤ s.clock then
      some { s with
        store := s.store.record job_id (some (newJob job_id request now))
        submitted := Function.update s.submitted job_id (some ⟨request, now⟩) }
    else none
  | .deliver p job_id =>
    if (s.submitted job_id).isSome then s.spawn p (.worker job_id .reading) else none
  | .onFailure p q =>
    match s.procs q with
    | some (.worker job_id .crashed) => s.spawn p (.failureHandler job_id .marking)
    | _ => none
  | .get p job_id => s.spawn p (.poll job_id .reading)
  | .advance p c => do
    let proc ← s.procs p
    let a ← proc.next s.store.answer s.clock c
    return s.commit p proc.job a
  | .tick seconds => some { s with clock := s.clock + seconds }
  | .sweep job_id => do
    let item ← s.store.current job_id
    if expired item s.clock then return { s with store := s.store.record job_id none } else none

/-- The terminal write that the event makes, with the job it is for. -/
def Sys.writeOf (s : Sys) : Event → Option (JobId × TerminalWrite)
  | .advance p c => do
    let proc ← s.procs p
    let a ← proc.next s.store.answer s.clock c
    let w ← a.write
    return (proc.job, w)
  | _ => none

end KaqTranslator
