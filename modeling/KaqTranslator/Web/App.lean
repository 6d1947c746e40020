import KaqTranslator.Web.Session

/-!
# The translator page (`apps/web/src/App.tsx`)

The state of the component `App`, with the calls of `translate` that it has started.  A call's continuation
and its warming timer come in any order with the events of the user.  What a click sets is rendered before the
next event; what a continuation or a timer sets is rendered later (`AppEvent.render`), so that the handlers of
a click may see a `translateState` that has been overtaken.

The copy button, the announcements and the management of focus and caret are left out: nothing here reads
them.
-/

namespace KaqTranslator

/-! ### Strings -/

/-- The white space and line terminators that `String.prototype.trim` removes. -/
def isJsSpace (u : UInt16) : Bool :=
  (9 ≤ u && u ≤ 13) || u == 32 || u == 0xA0 || u == 0x1680 || (0x2000 ≤ u && u ≤ 0x200A) || u == 0x2028 ||
    u == 0x2029 || u == 0x202F || u == 0x205F || u == 0x3000 || u == 0xFEFF

/-- `String.prototype.trim` -/
def trim (s : JsString) : JsString :=
  ((s.dropWhile isJsSpace).reverse.dropWhile isJsSpace).reverse

/-! ### The state -/

inductive TranslationDirection where
  | esToCak
  | cakToEs
  deriving DecidableEq

inductive View where
  | translate
  | about
  deriving DecidableEq

inductive TranslateErrorKind where
  | network
  | client
  | rateLimited
  | server
  | timeout
  | jobNotFound
  deriving DecidableEq

inductive TranslateState where
  | idle
  | loading
  | warming
  | success (translation sourceText : JsString)
  | error (kind : TranslateErrorKind)
  deriving DecidableEq

def maxInputLength : ℕ := 2000

def TranslateState.isTranslating : TranslateState → Bool
  | loading | warming => true
  | _ => false

def TranslateState.isError : TranslateState → Bool
  | error _ => true
  | _ => false

/-- `classifyError`, for what `translate` rejects with. -/
def classifyError : Settlement → TranslateErrorKind
  | .timeoutError => .timeout
  | .jobNotFoundError => .jobNotFound
  | .httpError status => if status ≥ 500 then .server else if status = 429 then .rateLimited else .client
  | _ => .network

structure Call where
  requestId : ℕ
  text : JsString
  direction : TranslationDirection
  outcome : Option Settlement  -- how its promise has settled, once the continuation has run
  warmingTimer : Bool  -- the timer of `WARMING_UP_DELAY_MS` is armed
  abandoned : Bool  -- a swap or a clear has come since

structure Ui where
  view : View
  direction : TranslationDirection
  input : JsString
  translateState : TranslateState
  rendered : TranslateState  -- the `translateState` of the last render
  requestId : ℕ  -- `requestIdRef.current`

structure App extends Ui where
  calls : List Call  -- newest first

inductive AppEvent where
  | type (text : JsString)
  | traducir
  | reintentar
  | swap
  | borrar
  | toggleView
  /-- the continuation of the call `requestId`, whose promise has settled -/
  | continuation (requestId : ℕ) (outcome : Settlement)
  | warmingTimer (requestId : ℕ)  -- the warming timer of the call `requestId` fires
  | render

namespace App

def init : App := ⟨⟨.translate, .esToCak, [], .idle, .idle, 0⟩, []⟩

/-- `runTranslate`, up to its `await` -/
def runTranslate (s : App) : App :=
  { s with
    requestId := s.requestId + 1
    translateState := .loading
    rendered := .loading
    calls := ⟨s.requestId + 1, s.input, s.direction, none, true, false⟩ :: s.calls }

/-- `requestIdRef.current += 1; cancelTranslate()` -/
def abandon (s : App) : App :=
  { s with
    requestId := s.requestId + 1
    calls := s.calls.map fun c => { c with abandoned := true } }

def handleSwap (s : App) : App :=
  { s.abandon with
    input := match s.rendered with
      | .success translation _ => translation
      | _ => s.input
    direction := match s.direction with
      | .esToCak => .cakToEs
      | .cakToEs => .esToCak
    translateState := .idle
    rendered := .idle }

def handleClear (s : App) : App :=
  { s.abandon with
    input := []
    translateState := .idle
    rendered := .idle }

def resultState (c : Call) : Settlement → TranslateState
  | .resolved translation => .success translation c.text
  | error => .error (classifyError error)

/-- A call with the identifier `requestId` that meets `p`. -/
def call? (s : App) (requestId : ℕ) (p : Call → Bool) : Option Call :=
  s.calls.find? fun c => c.requestId = requestId && p c

/-- The call `requestId` is changed by `f`, and sets `state` if it is current. -/
def update (s : App) (requestId : ℕ) (f : Call → Call) (state : TranslateState) : App :=
  { s with
    calls := s.calls.map fun c => if c.requestId = requestId then f c else c
    translateState := if s.requestId = requestId then state else s.translateState }

def canTranslate (s : App) : Bool :=
  s.view = .translate && !s.rendered.isTranslating && !(trim s.input).isEmpty && s.input.length ≤ maxInputLength

def canRetry (s : App) : Bool :=
  s.view = .translate && s.rendered.isError

def step (s : App) : AppEvent → Option App
  | .type text => if s.view = .translate then some { s with input := text } else none
  | .traducir => if s.canTranslate then some s.runTranslate else none
  | .reintentar => if s.canRetry then some s.runTranslate else none
  | .swap => if s.view = .translate then some s.handleSwap else none
  | .borrar => if s.view = .translate ∧ s.input.length > 0 then some s.handleClear else none
  | .toggleView => some { s with view := if s.view = .translate then .about else .translate }
  | .continuation requestId outcome => do
    let c ← s.call? requestId fun c => c.outcome.isNone
    return s.update requestId (fun c => { c with outcome := some outcome, warmingTimer := false })
      (resultState c outcome)
  | .warmingTimer requestId => do
    let _ ← s.call? requestId Call.warmingTimer
    return s.update requestId (fun c => { c with warmingTimer := false }) .warming
  | .render => some { s with rendered := s.translateState }

end App

end KaqTranslator
