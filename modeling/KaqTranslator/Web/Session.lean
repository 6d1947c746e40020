import KaqTranslator.Text
import KaqTranslator.Library.EventMachine

/-!
# The poll sessions of the web client (`apps/web/src/api.ts`)

A call of `translate` makes a `PollSession`: a promise, an abort controller, a set of timers and two nested
asynchronous functions, each of which stops at every `await`.  `PollSession.step` resumes one of them with an
outcome of what it awaits, or fires a timer; the outcomes are chosen by the environment, in any order and also
after the session has been settled.  `Client` is the module state: all sessions made so far, and
`currentSession`.
-/

namespace KaqTranslator

/-! ### A session -/

inductive Settlement where
  | resolved (translation : JsString)
  | networkError
  | timeoutError
  | httpError (status : ℕ)
  | jobNotFoundError
  | cancelledError
  deriving DecidableEq

inductive Await where
  | postFetch  -- the `fetch` of the `POST`
  | postBody  -- the `response.json()` of an accepted `POST`
  | getFetch (jobId : JsString)  -- the `fetch` of a `GET`
  | getBody (jobId : JsString)  -- the `response.json()` of a `GET` that was answered with a 2xx
  deriving DecidableEq

inductive TimerKind where
  | overall
  | poll (jobId : JsString)
  deriving DecidableEq

def TimerKind.isPoll : TimerKind → Bool
  | overall => false
  | poll _ => true

@[simp] theorem TimerKind.isPoll_overall : overall.isPoll = false := rfl

@[simp] theorem TimerKind.isPoll_poll (jobId : JsString) : (poll jobId).isPoll = true := rfl

/-- `JobStatusPayload`, with the fields that its casts presume; any other status counts as `pending`. -/
inductive JobStatusPayload where
  | pending
  | succeeded (translation : JsString)
  | failed (status_code : ℕ)
  deriving DecidableEq

inductive Completion where
  | rejected (isAbortError : Bool)  -- `fetch` rejects
  | response (status : ℕ)
  | badBody  -- the body cannot be read, is not JSON, or is `null`
  | created (jobId : JsString)
  | status (job : JobStatusPayload)
  deriving DecidableEq

structure PollSession where
  settled : Bool
  aborted : Bool  -- `controller.signal.aborted`
  timers : List ℕ  -- the timers of `session.timers`
  /-- The timers that have neither fired nor been cleared, of those that the session has set. -/
  armed : List (ℕ × TimerKind)
  nextTimer : ℕ
  consecutivePollFailures : ℕ
  awaiting : List Await  -- what the session's asynchronous functions are waiting for
  requests : ℕ  -- the number of requests started
  settlements : List Settlement  -- the calls of `resolve` and `reject`, newest first
  accepted : Bool  -- the `POST` was answered with a 2xx

def maxConsecutivePollFailures : ℕ := 3

/-- `response.ok` -/
def responseOk (status : ℕ) : Bool := 200 ≤ status && status ≤ 299

namespace PollSession

/-- The body of `settle` after its guard, `settled` set: every timer of the session is cleared. -/
def close (s : PollSession) (o : Settlement) : PollSession :=
  { s with
    settled := true
    armed := s.armed.filter fun t => t.1 ∉ s.timers
    timers := []
    settlements := o :: s.settlements }

def settle (s : PollSession) (o : Settlement) : PollSession :=
  if s.settled then s else s.close o

/-- `session.timers.add(setTimeout(…))` -/
def setTimer (s : PollSession) (kind : TimerKind) : PollSession :=
  { s with
    armed := (s.nextTimer, kind) :: s.armed
    timers := s.nextTimer :: s.timers
    nextTimer := s.nextTimer + 1 }

def fetch (s : PollSession) (a : Await) : PollSession :=
  { s with awaiting := a :: s.awaiting, requests := s.requests + 1 }

def readBody (s : PollSession) (a : Await) : PollSession :=
  { s with awaiting := a :: s.awaiting }

def schedulePoll (s : PollSession) (jobId : JsString) : PollSession :=
  if s.settled then s else s.setTimer (.poll jobId)

/-- `poll`, up to its first `await` -/
def poll (s : PollSession) (jobId : JsString) : PollSession :=
  if s.settled then s else s.fetch (.getFetch jobId)

/-- The session as `translate` returns its promise: the timeout is armed and the `POST` under way. -/
def start : PollSession :=
  (setTimer ⟨false, false, [], [], 0, 0, [], 0, [], false⟩ .overall).fetch .postFetch

/-- `cancelTranslate`, for the current session -/
def cancel (s : PollSession) : PollSession :=
  if s.settled then s else { s with aborted := true }.close .cancelledError

def fire (s : PollSession) : TimerKind → PollSession
  | .overall => { s with aborted := true }.settle .timeoutError
  | .poll jobId => s.poll jobId

/-- A `catch` of a `fetch` that rejects; an `AbortError` needs an aborted signal. -/
def rejectedPoll (s : PollSession) (jobId : JsString) : PollSession :=
  let s := { s with consecutivePollFailures := s.consecutivePollFailures + 1 }
  if s.consecutivePollFailures ≥ maxConsecutivePollFailures then s.settle .networkError
  else s.schedulePoll jobId

/-- The rest of `poll` after its `fetch` was answered, up to the next `await`. -/
def answeredPoll (s : PollSession) (jobId : JsString) (status : ℕ) : PollSession :=
  if status = 404 then s.settle .jobNotFoundError
  else if !responseOk status then s.settle (.httpError status)
  else { s with consecutivePollFailures := 0 }.readBody (.getBody jobId)

def polled (s : PollSession) (jobId : JsString) : JobStatusPayload → PollSession
  | .succeeded translation => s.settle (.resolved translation)
  | .failed status_code => s.settle (.httpError status_code)
  | .pending => s.schedulePoll jobId

def answeredPost (s : PollSession) (status : ℕ) : PollSession :=
  if !responseOk status then s.settle (.httpError status) else { s with accepted := true }.readBody .postBody

/-- The function that waits for `a` is resumed; `s` no longer awaits `a`. -/
def resume (s : PollSession) : Await → Completion → Option PollSession
  | .postFetch, .rejected isAbortError =>
    if isAbortError then if s.aborted then some s else none else some (s.settle .networkError)
  | .postFetch, .response status => some (s.answeredPost status)
  | .postBody, .badBody => some s
  | .postBody, .created jobId => some (s.poll jobId)
  | .getFetch jobId, .rejected isAbortError =>
    if isAbortError then if s.aborted then some s else none else some (s.rejectedPoll jobId)
  | .getFetch jobId, .response status => some (s.answeredPoll jobId status)
  | .getBody _, .badBody => some s
  | .getBody jobId, .status job => some (s.polled jobId job)
  | _, _ => none

inductive Event where
  | fire (id : ℕ) (kind : TimerKind)  -- a timer fires
  | complete (a : Await) (c : Completion)
  deriving DecidableEq

def step (s : PollSession) : Event → Option PollSession
  | .fire id kind =>
    if (id, kind) ∈ s.armed then some ({ s with armed := s.armed.erase (id, kind) }.fire kind) else none
  | .complete a c => if a ∈ s.awaiting then { s with awaiting := s.awaiting.erase a }.resume a c else none

end PollSession

/-! ### The module -/

structure Client where
  sessions : ℕ → Option PollSession  -- the sessions made so far
  currentSession : Option ℕ

inductive ClientEvent where
  | translate (i : ℕ)  -- a call of `translate`, which makes the session `i`
  | cancelTranslate
  | session (i : ℕ) (e : PollSession.Event)

namespace Client

def init : Client := ⟨fun _ => none, none⟩

/-- The session `i` has become `s`; `settle` takes a session that it settles out of `currentSession`. -/
def set (c : Client) (i : ℕ) (s : PollSession) : Client where
  sessions := Function.update c.sessions i (some s)
  currentSession := if s.settled ∧ c.currentSession = some i then none else c.currentSession

def step (c : Client) : ClientEvent → Option Client
  | .translate i =>
    if c.sessions i = none then some ⟨Function.update c.sessions i (some .start), some i⟩ else none
  | .cancelTranslate =>
    match c.currentSession with
    | none => some c
    | some i =>
      match c.sessions i with
      | none => some c
      | some s => if s.settled then some c else some (c.set i s.cancel)
  | .session i e => do
    let s ← c.sessions i
    let s' ← s.step e
    return c.set i s'

end Client

end KaqTranslator
