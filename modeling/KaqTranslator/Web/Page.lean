import KaqTranslator.Web.Settlement
import KaqTranslator.Web.StaleResults

/-!
# The page: the component and the module together

The state of `App` beside the state of the module `api.ts`.  A click that starts a translation calls
`translate`, and a swap, Borrar and the unmount call `cancelTranslate`; a continuation of a call runs with
what the promise of its session has been settled with.  A run of the page is a run of the component and a run
of the module (`Page.app_run`, `Page.client_run`), so what is proved of these holds of the page.

The session of a call has the call's request identifier for its number.  `PageInv` says that an unsettled
session belongs to the latest request; `at_most_one_live_session` follows.
-/

namespace KaqTranslator

open EventMachine

structure Page where
  app : App
  client : Client
  mounted : Bool

inductive PageEvent where
  /-- an event of the component other than the continuation of a call -/
  | app (e : AppEvent)
  /-- the continuation of the call `requestId` -/
  | continuation (requestId : ℕ) (outcome : Settlement)
  | session (i : ℕ) (e : PollSession.Event)
  | unmount

/-- What the handler of an event of the component calls in the module, with `requestIdRef` as it leaves it. -/
def AppEvent.clientEvents (requestId : ℕ) : AppEvent → List ClientEvent
  | .traducir | .reintentar => [.translate requestId]
  | .swap | .borrar => [.cancelTranslate]
  | _ => []

def AppEvent.isContinuation : AppEvent → Bool
  | .continuation _ _ => true
  | _ => false

/-- The events that come from the user or from React, and so only while the component is mounted. -/
def AppEvent.needsMount : AppEvent → Bool
  | .continuation _ _ | .warmingTimer _ => false
  | _ => true

namespace Page

def init : Page := ⟨.init, .init, true⟩

/-- The promise of the session `i` has been settled with `outcome`. -/
def settledWith (p : Page) (i : ℕ) (outcome : Settlement) : Bool :=
  match p.client.sessions i with
  | some s => outcome ∈ s.settlements
  | none => false

def step (p : Page) : PageEvent → Option Page
  | .app e =>
    if e.isContinuation || e.needsMount && !p.mounted then none
    else do
      let app ← p.app.step e
      let client ← run Client.step p.client (e.clientEvents app.requestId)
      return { p with app := app, client := client }
  | .continuation requestId outcome =>
    if p.settledWith requestId outcome then do
      let app ← p.app.step (.continuation requestId outcome)
      return { p with app := app }
    else none
  | .session i e => do
    let client ← p.client.step (.session i e)
    return { p with client := client }
  | .unmount =>
    if p.mounted then do
      let client ← p.client.step .cancelTranslate
      return { p with client := client, mounted := false }
    else none

/-! ### The steps -/

theorem step_app {p p' : Page} {e : AppEvent} (h : p.step (.app e) = some p') :
    e.isContinuation = false ∧ (e.needsMount = true → p.mounted = true) ∧ p.app.step e = some p'.app ∧
      run Client.step p.client (e.clientEvents p'.app.requestId) = some p'.client ∧ p'.mounted = p.mounted := by
  simp only [step, Option.bind_eq_bind] at h
  split at h
  · cases h
  · rename_i hguard
    simp only [Option.bind_eq_some_iff] at h
    obtain ⟨app, happ, client, hclient, h⟩ := h
    obtain rfl := Option.some.inj h
    simp only [Bool.or_eq_true, Bool.and_eq_true, Bool.not_eq_true', not_or, not_and, Bool.not_eq_true,
      Bool.not_eq_false] at hguard
    exact ⟨hguard.1, hguard.2, happ, hclient, rfl⟩

theorem step_continuation {p p' : Page} {r : ℕ} {outcome : Settlement}
    (h : p.step (.continuation r outcome) = some p') :
    p.settledWith r outcome = true ∧ p.app.step (.continuation r outcome) = some p'.app ∧
      p'.client = p.client ∧ p'.mounted = p.mounted := by
  simp only [step, Option.bind_eq_bind] at h
  split at h
  · rename_i hsettled
    simp only [Option.bind_eq_some_iff] at h
    obtain ⟨app, happ, h⟩ := h
    obtain rfl := Option.some.inj h
    exact ⟨hsettled, happ, rfl, rfl⟩
  · cases h

theorem step_session {p p' : Page} {i : ℕ} {e : PollSession.Event}
    (h : p.step (.session i e) = some p') :
    p.client.step (.session i e) = some p'.client ∧ p'.app = p.app ∧ p'.mounted = p.mounted := by
  simp only [step, Option.bind_eq_bind, Option.bind_eq_some_iff] at h
  obtain ⟨client, hclient, h⟩ := h
  obtain rfl := Option.some.inj h
  exact ⟨hclient, rfl, rfl⟩

theorem step_unmount {p p' : Page} (h : p.step .unmount = some p') :
    p.client.step .cancelTranslate = some p'.client ∧ p'.app = p.app ∧ p'.mounted = false := by
  simp only [step, Option.bind_eq_bind] at h
  split at h
  · simp only [Option.bind_eq_some_iff] at h
    obtain ⟨client, hclient, h⟩ := h
    obtain rfl := Option.some.inj h
    exact ⟨hclient, rfl, rfl⟩
  · cases h

/-! ### Runs of the page, of the component and of the module -/

/-- What a step of the page is to the component and to the module. -/
private theorem step_parts {p p' : Page} {e : PageEvent} (h : p.step e = some p') :
    ∃ es cs, run App.step p.app es = some p'.app ∧ run Client.step p.client cs = some p'.client := by
  cases e with
  | app e =>
    obtain ⟨-, -, happ, hclient, -⟩ := step_app h
    exact ⟨[e], _, run_cons_eq_some.2 ⟨_, happ, rfl⟩, hclient⟩
  | continuation requestId outcome =>
    obtain ⟨-, happ, hclient, -⟩ := step_continuation h
    exact ⟨[_], [], run_cons_eq_some.2 ⟨_, happ, rfl⟩, by rw [hclient]; rfl⟩
  | session i e =>
    obtain ⟨hclient, happ, -⟩ := step_session h
    exact ⟨[], [_], by rw [happ]; rfl, run_cons_eq_some.2 ⟨_, hclient, rfl⟩⟩
  | unmount =>
    obtain ⟨hclient, happ, -⟩ := step_unmount h
    exact ⟨[], [_], by rw [happ]; rfl, run_cons_eq_some.2 ⟨_, hclient, rfl⟩⟩

theorem app_run {es : List PageEvent} {p : Page} (hrun : run Page.step .init es = some p) :
    ∃ as, run App.step .init as = some p.app := by
  refine run_simulates (I := fun _ => True) Page.app (fun _ _ _ _ _ => trivial) ?_ trivial hrun
  intro p e p' _ h
  obtain ⟨as, -, has, -⟩ := step_parts h
  exact ⟨as, has⟩

theorem client_run {es : List PageEvent} {p : Page} (hrun : run Page.step .init es = some p) :
    ∃ cs, run Client.step .init cs = some p.client := by
  refine run_simulates (I := fun _ => True) Page.client (fun _ _ _ _ _ => trivial) ?_ trivial hrun
  intro p e p' _ h
  obtain ⟨-, cs, -, hcs⟩ := step_parts h
  exact ⟨cs, hcs⟩

end Page

/-! ### Unsettled sessions of the module -/

namespace Client

/-- The session `i` is unsettled. -/
def Live (c : Client) (i : ℕ) : Prop := ∃ s, c.sessions i = some s ∧ s.settled = false

private theorem cancelTranslate_cases {c c' : Client} (h : c.step .cancelTranslate = some c') :
    (c' = c ∧ ∀ i, c.currentSession = some i → ¬ c.Live i) ∨
      ∃ i s, c.currentSession = some i ∧ c.sessions i = some s ∧ c' = c.set i s.cancel := by
  simp only [step] at h
  split at h
  · rename_i hcur
    obtain rfl := Option.some.inj h
    refine Or.inl ⟨rfl, ?_⟩
    intro i hi
    rw [hcur] at hi
    cases hi
  · rename_i j hcur
    split at h
    · rename_i hnone
      obtain rfl := Option.some.inj h
      refine Or.inl ⟨rfl, ?_⟩
      rintro i hi ⟨s, hs, -⟩
      obtain rfl : j = i := Option.some.inj (hcur.symm.trans hi)
      rw [hnone] at hs
      cases hs
    · rename_i s hs
      split at h
      · rename_i hset
        obtain rfl := Option.some.inj h
        refine Or.inl ⟨rfl, ?_⟩
        rintro i hi ⟨s', hs', hopen⟩
        obtain rfl : j = i := Option.some.inj (hcur.symm.trans hi)
        obtain rfl : s = s' := Option.some.inj (hs.symm.trans hs')
        rw [hset] at hopen
        cases hopen
      · obtain rfl := Option.some.inj h
        exact Or.inr ⟨j, s, hcur, hs, rfl⟩

private theorem session_cases {c c' : Client} {i : ℕ} {e : PollSession.Event}
    (h : c.step (.session i e) = some c') :
    ∃ s s', c.sessions i = some s ∧ s.step e = some s' ∧ c' = c.set i s' := by
  simp only [step, Option.bind_eq_bind, Option.bind_eq_some_iff] at h
  obtain ⟨s, hs, s', hs', h⟩ := h
  exact ⟨s, s', hs, hs', (Option.some.inj h).symm⟩

private theorem translate_cases {c c' : Client} {i : ℕ} (h : c.step (.translate i) = some c') :
    c.sessions i = none ∧ c' = ⟨Function.update c.sessions i (some .start), some i⟩ := by
  simp only [step] at h
  split at h
  · rename_i hnone
    exact ⟨hnone, (Option.some.inj h).symm⟩
  · cases h

private theorem settled_cancel (s : PollSession) : s.cancel.settled = true := by
  unfold PollSession.cancel
  split
  · assumption
  · rfl

/-- Of the sessions, `cancelTranslate` leaves unsettled what was, the current one excepted. -/
private theorem live_of_cancelTranslate {c c' : Client} (h : c.step .cancelTranslate = some c') {i : ℕ}
    (hi : c'.Live i) : c.Live i ∧ c.currentSession ≠ some i := by
  rcases cancelTranslate_cases h with ⟨rfl, hcur⟩ | ⟨j, s, hcur, -, rfl⟩
  · exact ⟨hi, fun hci => hcur i hci hi⟩
  · obtain ⟨s', hs', hopen⟩ := hi
    by_cases hij : i = j
    · subst hij
      obtain rfl : s.cancel = s' := by simpa [set] using hs'
      rw [settled_cancel] at hopen
      cases hopen
    · have hs : c.sessions i = some s' := by simpa [set, Function.update_of_ne hij] using hs'
      refine ⟨⟨s', hs, hopen⟩, ?_⟩
      rw [hcur]
      exact fun heq => hij (Option.some.inj heq).symm

/-- A session that makes a step settles no other, and is current if it was and is not settled by it. -/
private theorem live_of_session {c c' : Client} (hc : ClientInv c) {j : ℕ} {e : PollSession.Event}
    (h : c.step (.session j e) = some c') {i : ℕ} (hi : c'.Live i) :
    c.Live i ∧ (c.currentSession = some i → c'.currentSession = some i) := by
  obtain ⟨s, s', hs, hstep, rfl⟩ := session_cases h
  obtain ⟨s₁, hs₁, hopen⟩ := hi
  by_cases hij : i = j
  · subst hij
    obtain rfl : s' = s₁ := by simpa [set] using hs₁
    have hopen' : s.settled = false := by
      by_contra hset
      -- a settled session stays settled
      have hquiet := PollSession.quiet_of_step (hc i s hs) (Bool.not_eq_false _ ▸ hset) hstep
      rw [hquiet.settled] at hopen
      cases hopen
    refine ⟨⟨s, hs, hopen'⟩, ?_⟩
    intro hcur
    rw [set, if_neg (by simp [hopen])]
    exact hcur
  · have hs' : c.sessions i = some s₁ := by simpa [set, Function.update_of_ne hij] using hs₁
    refine ⟨⟨s₁, hs', hopen⟩, ?_⟩
    intro hcur
    rw [set, if_neg]
    · exact hcur
    · rintro ⟨-, hj⟩
      exact hij (Option.some.inj (hcur.symm.trans hj))

private theorem live_of_translate {c c' : Client} {j : ℕ} (h : c.step (.translate j) = some c') {i : ℕ}
    (hi : c'.Live i) : i = j ∨ c.Live i := by
  obtain ⟨-, rfl⟩ := translate_cases h
  obtain ⟨s, hs, hopen⟩ := hi
  by_cases hij : i = j
  · exact Or.inl hij
  · exact Or.inr ⟨s, by simpa [Function.update_of_ne hij] using hs, hopen⟩

/-- Only `translate` makes a session. -/
private theorem sessions_eq_none_of_step {c c' : Client} {e : ClientEvent} (h : c.step e = some c') {i : ℕ}
    (hi : c.sessions i = none) (he : e ≠ .translate i) : c'.sessions i = none := by
  have hset : ∀ j s, c.sessions j ≠ none → (c.set j s).sessions i = none := by
    intro j s hj
    have hij : i ≠ j := fun hij => hj (hij ▸ hi)
    simpa [set, Function.update_of_ne hij] using hi
  cases e with
  | translate j =>
    obtain ⟨-, rfl⟩ := translate_cases h
    have hij : i ≠ j := fun hij => he (by rw [hij])
    simpa [Function.update_of_ne hij] using hi
  | cancelTranslate =>
    rcases cancelTranslate_cases h with ⟨rfl, -⟩ | ⟨j, s, -, hs, rfl⟩
    · exact hi
    · exact hset j _ (by simp [hs])
  | session j e =>
    obtain ⟨s, s', hs, -, rfl⟩ := session_cases h
    exact hset j s' (by simp [hs])

end Client

/-! ### The component while a call is under way -/

namespace App

/-- The latest request is the call `i`, and the page shows it as loading or warming. -/
def Awaits (s : App) (i : ℕ) : Prop :=
  s.requestId = i ∧ (∃ c rest, s.calls = c :: rest ∧ c.requestId = i) ∧ s.translateState.isTranslating = true ∧
    s.rendered.isTranslating = true

private theorem awaits_runTranslate (s : App) : s.runTranslate.Awaits (s.requestId + 1) :=
  ⟨rfl, ⟨_, _, rfl, rfl⟩, rfl, rfl⟩

/-- Neither button that starts a translation is there while one is under way. -/
private theorem not_awaits_of_step {s s' : App} {e : AppEvent} (he : e = .traducir ∨ e = .reintentar)
    (h : s.step e = some s') (i : ℕ) : s' = s.runTranslate ∧ ¬ s.Awaits i := by
  rcases he with rfl | rfl
  · simp only [step] at h
    split at h
    · rename_i hcan
      refine ⟨(Option.some.inj h).symm, ?_⟩
      rintro ⟨-, -, -, hrendered⟩
      simp [canTranslate, hrendered] at hcan
    · cases h
  · simp only [step] at h
    split at h
    · rename_i hcan
      refine ⟨(Option.some.inj h).symm, ?_⟩
      rintro ⟨-, -, -, hrendered⟩
      cases hstate : s.rendered <;> simp_all [canRetry, TranslateState.isError, TranslateState.isTranslating]
    · cases h

private theorem awaits_update {s : App} {i r : ℕ} (hs : s.Awaits i) {f : Call → Call} {state : TranslateState}
    (hid : ∀ c, (f c).requestId = c.requestId) (hstate : r = i → state.isTranslating = true) :
    (s.update r f state).Awaits i := by
  obtain ⟨hi, ⟨c, rest, hcalls, hc⟩, htranslating, hrendered⟩ := hs
  refine ⟨hi, ⟨if c.requestId = r then f c else c,
    rest.map fun c => if c.requestId = r then f c else c, ?_, ?_⟩,
    ?_, hrendered⟩
  · simp only [update, hcalls, List.map_cons]
  · split
    · exact (hid c).trans hc
    · exact hc
  · by_cases hr : s.requestId = r
    · simp only [update, if_pos hr]
      exact hstate (hr.symm.trans hi)
    · simp only [update, if_neg hr]
      exact htranslating

private theorem requestId_of_continuation {s s' : App} {r : ℕ} {outcome : Settlement}
    (h : s.step (.continuation r outcome) = some s') : s'.requestId = s.requestId := by
  simp only [step, Option.bind_eq_bind, Option.bind_eq_some_iff] at h
  obtain ⟨_, _, h⟩ := h
  obtain rfl := Option.some.inj h
  rfl

private theorem awaits_of_continuation {s s' : App} {r i : ℕ} {outcome : Settlement} (hs : s.Awaits i)
    (hr : r ≠ i) (h : s.step (.continuation r outcome) = some s') : s'.Awaits i := by
  simp only [step, Option.bind_eq_bind, Option.bind_eq_some_iff] at h
  obtain ⟨_, _, h⟩ := h
  obtain rfl := Option.some.inj h
  exact awaits_update hs (fun _ => rfl) fun hri => absurd hri hr

/-- An event that calls nothing in the module leaves a call under way as it is. -/
private theorem awaits_of_quiet_step {s s' : App} {e : AppEvent} (hcalls : ∀ r, e.clientEvents r = [])
    (he : e.isContinuation = false) (h : s.step e = some s') :
    s'.requestId = s.requestId ∧ ∀ i, s.Awaits i → s'.Awaits i := by
  cases e with
  | traducir | reintentar | swap | borrar => exact absurd (hcalls 0) (by simp [AppEvent.clientEvents])
  | continuation => cases he
  | type text =>
    simp only [step] at h
    split at h
    · obtain rfl := Option.some.inj h
      exact ⟨rfl, fun _ hi => hi⟩
    · cases h
  | toggleView =>
    obtain rfl := Option.some.inj h
    exact ⟨rfl, fun _ hi => hi⟩
  | warmingTimer r =>
    simp only [step, Option.bind_eq_bind, Option.bind_eq_some_iff] at h
    obtain ⟨_, _, h⟩ := h
    obtain rfl := Option.some.inj h
    exact ⟨rfl, fun _ hi => awaits_update hi (fun _ => rfl) fun _ => rfl⟩
  | render =>
    obtain rfl := Option.some.inj h
    refine ⟨rfl, ?_⟩
    rintro i ⟨hi, hcall, htranslating, -⟩
    exact ⟨hi, hcall, htranslating, htranslating⟩

private theorem requestId_of_abandon {s s' : App} {e : AppEvent} (he : e = .swap ∨ e = .borrar)
    (h : s.step e = some s') : s'.requestId = s.requestId + 1 := by
  rcases he with rfl | rfl
  all_goals
    simp only [step] at h
    split at h
    · obtain rfl := Option.some.inj h
      rfl
    · cases h

end App

/-! ### The invariant -/

structure PageInv (p : Page) : Prop where
  client : ClientInv p.client
  /-- requests that have not been made have no session -/
  fresh : ∀ i, p.app.requestId < i → p.client.sessions i = none
  /-- an unsettled session is the current one and belongs to the latest request -/
  live : ∀ i, p.client.Live i → p.mounted = true ∧ p.client.currentSession = some i ∧ p.app.Awaits i

namespace Page

private theorem pageInv_init : PageInv init where
  client := clientInv_init
  fresh _ _ := rfl
  live := by
    rintro i ⟨s, hs, -⟩
    cases hs

private theorem not_live_of_cancelTranslate {p p' : Page} (hp : PageInv p)
    (hclient : p.client.step .cancelTranslate = some p'.client) (i : ℕ) : ¬ p'.client.Live i := by
  intro hi
  obtain ⟨hlive, hcur⟩ := Client.live_of_cancelTranslate hclient hi
  exact hcur (hp.live i hlive).2.1

private theorem pageInv_cancel {p p' : Page} (hp : PageInv p)
    (hclient : p.client.step .cancelTranslate = some p'.client) (hid : p.app.requestId ≤ p'.app.requestId) :
    PageInv p' := by
  constructor
  case client => exact clientInv_of_step hp.client hclient
  case fresh =>
    intro i hi
    exact Client.sessions_eq_none_of_step hclient (hp.fresh i (by omega)) (by simp)
  case live => exact fun i hi => absurd hi (not_live_of_cancelTranslate hp hclient i)

private theorem pageInv_translate {p p' : Page} {e : AppEvent} (hp : PageInv p)
    (he : e = .traducir ∨ e = .reintentar) (happ : p.app.step e = some p'.app)
    (hclient : p.client.step (.translate p'.app.requestId) = some p'.client) (hmounted : p'.mounted = true) :
    PageInv p' := by
  have happ' : p'.app = p.app.runTranslate := (App.not_awaits_of_step he happ 0).1
  have hid : p'.app.requestId = p.app.requestId + 1 := by rw [happ']; rfl
  have hnone : ∀ i, ¬ p.client.Live i := fun i hi => (App.not_awaits_of_step he happ i).2 (hp.live i hi).2.2
  constructor
  case client => exact clientInv_of_step hp.client hclient
  case fresh =>
    intro i hi
    have hne : ClientEvent.translate p'.app.requestId ≠ .translate i := by
      intro heq
      have hcontra : p'.app.requestId = i := ClientEvent.translate.inj heq
      omega
    exact Client.sessions_eq_none_of_step hclient (hp.fresh i (by omega)) hne
  case live =>
    intro i hi
    -- no session was unsettled before the click, so it is the new one
    have hii : i = p'.app.requestId := (Client.live_of_translate hclient hi).resolve_right (hnone i)
    obtain ⟨-, hcur⟩ := Client.translate_cases hclient
    refine ⟨hmounted, ?_, ?_⟩
    · rw [hcur, hii]
    · rw [hii, hid, happ']
      exact App.awaits_runTranslate p.app

/-- The steps in which the module is left alone. -/
private theorem pageInv_app {p p' : Page} (hp : PageInv p) (hclient : p'.client = p.client)
    (hmounted : p'.mounted = p.mounted) (hid : p'.app.requestId = p.app.requestId)
    (hawaits : ∀ i, p.client.Live i → p.app.Awaits i → p'.app.Awaits i) : PageInv p' := by
  constructor
  case client => rw [hclient]; exact hp.client
  case fresh => rw [hclient, hid]; exact hp.fresh
  case live =>
    intro i hi
    rw [hclient] at hi ⊢
    obtain ⟨hm, hcur, haw⟩ := hp.live i hi
    exact ⟨hmounted.trans hm, hcur, hawaits i hi haw⟩

private theorem pageInv_session {p p' : Page} {j : ℕ} {e : PollSession.Event} (hp : PageInv p)
    (hclient : p.client.step (.session j e) = some p'.client) (happ : p'.app = p.app)
    (hmounted : p'.mounted = p.mounted) : PageInv p' := by
  constructor
  case client => exact clientInv_of_step hp.client hclient
  case fresh =>
    intro i hi
    rw [happ] at hi
    exact Client.sessions_eq_none_of_step hclient (hp.fresh i hi) (by simp)
  case live =>
    intro i hi
    obtain ⟨hlive, hcur⟩ := Client.live_of_session hp.client hclient hi
    obtain ⟨hm, hci, haw⟩ := hp.live i hlive
    rw [happ]
    exact ⟨hmounted.trans hm, hcur hci, haw⟩

/-- The continuation of a call runs after its session has been settled. -/
private theorem not_live_of_settledWith {p : Page} (hp : PageInv p) {i : ℕ} {outcome : Settlement}
    (h : p.settledWith i outcome = true) : ¬ p.client.Live i := by
  rintro ⟨s, hs, hopen⟩
  rw [settledWith, hs] at h
  have hnone : s.settlements = [] := ((hp.client i s hs).unsettled hopen).1
  simp [hnone] at h

/-- What the handlers of the component call in the module is one step of it. -/
private theorem client_step_of_run {c c' : Client} {e : ClientEvent} (h : run Client.step c [e] = some c') :
    c.step e = some c' := by
  obtain ⟨_, hstep, hdone⟩ := run_cons_eq_some.1 h
  obtain rfl := Option.some.inj hdone
  exact hstep

theorem pageInv_of_step {p p' : Page} {e : PageEvent} (hp : PageInv p) (h : p.step e = some p') :
    PageInv p' := by
  cases e with
  | app e =>
    obtain ⟨hcont, hmount, happ, hclient, hm⟩ := step_app h
    cases e with
    | traducir | reintentar =>
      have hcall := client_step_of_run hclient
      have hmounted : p'.mounted = true := hm.trans (hmount rfl)
      exact pageInv_translate hp (by simp) happ hcall hmounted
    | swap | borrar =>
      have hid : p'.app.requestId = p.app.requestId + 1 := App.requestId_of_abandon (by simp) happ
      exact pageInv_cancel hp (client_step_of_run hclient) (by omega)
    | continuation => cases hcont
    | type | toggleView | warmingTimer | render =>
      obtain ⟨hid, hawaits⟩ := App.awaits_of_quiet_step (fun _ => rfl) rfl happ
      exact pageInv_app hp (Option.some.inj hclient).symm hm hid fun i _ hi => hawaits i hi
  | continuation r outcome =>
    obtain ⟨hsettled, happ, hclient, hm⟩ := step_continuation h
    refine pageInv_app hp hclient hm (App.requestId_of_continuation happ) ?_
    intro i hi haw
    -- the continuation of another call: that of `i` would find its session settled
    have hne : r ≠ i := by
      rintro rfl
      exact not_live_of_settledWith hp hsettled hi
    exact App.awaits_of_continuation haw hne happ
  | session i e =>
    obtain ⟨hclient, happ, hm⟩ := step_session h
    exact pageInv_session hp hclient happ hm
  | unmount =>
    obtain ⟨hclient, happ, -⟩ := step_unmount h
    exact pageInv_cancel hp hclient (by rw [happ])

/-- The events whose handlers call `cancelTranslate`. -/
private theorem not_live_of_cancelling {p p' : Page} {e : PageEvent} (hp : PageInv p)
    (he : e = .app .swap ∨ e = .app .borrar ∨ e = .unmount) (h : p.step e = some p') :
    ∀ i, ¬ p'.client.Live i := by
  have hclient : p.client.step .cancelTranslate = some p'.client := by
    rcases he with rfl | rfl | rfl
    · obtain ⟨-, -, -, hrun, -⟩ := step_app h
      exact client_step_of_run hrun
    · obtain ⟨-, -, -, hrun, -⟩ := step_app h
      exact client_step_of_run hrun
    · exact (step_unmount h).1
  exact not_live_of_cancelTranslate hp hclient

theorem pageInv_of_run {es : List PageEvent} {p : Page} (hrun : run Page.step .init es = some p) : PageInv p :=
  invariant (fun _ _ _ hp h => pageInv_of_step hp h) pageInv_init hrun

end Page

/-- At most one live poll session.  In every state of the page at most one session is unsettled; it is
`currentSession`, it belongs to the latest request, and the page is in `loading` or `warming`.  A swap, Borrar
and an unmount leave no unsettled session, and after an unmount there is none. -/
theorem at_most_one_live_session {es : List PageEvent} {p : Page} (hrun : run Page.step .init es = some p) :
    (∀ i j, p.client.Live i → p.client.Live j → i = j) ∧
    (∀ i, p.client.Live i → p.client.currentSession = some i ∧ p.app.requestId = i ∧
      (∃ c rest, p.app.calls = c :: rest ∧ c.requestId = i) ∧ p.app.translateState.isTranslating = true ∧
      p.app.rendered.isTranslating = true) ∧
    (∀ e p', e = .app .swap ∨ e = .app .borrar ∨ e = .unmount → p.step e = some p' →
      ∀ i, ¬ p'.client.Live i) ∧
    (p.mounted = false → ∀ i, ¬ p.client.Live i) := by
  have hp : PageInv p := Page.pageInv_of_run hrun
  refine ⟨?_, ?_, ?_, ?_⟩
  · intro i j hi hj
    have hcuri : p.client.currentSession = some i := (hp.live i hi).2.1
    have hcurj : p.client.currentSession = some j := (hp.live j hj).2.1
    rw [hcuri] at hcurj
    exact Option.some.inj hcurj
  · intro i hi
    exact (hp.live i hi).2
  · intro e p' he h
    exact Page.not_live_of_cancelling hp he h
  · intro hm i hi
    rw [(hp.live i hi).1] at hm
    cases hm

/-- A translation that is swapped away before its `POST` is answered. -/
theorem at_most_one_live_session_swapped :
    ∃ p, run Page.step .init [.app (.type [97]), .app .traducir] = some p ∧ p.client.Live 1 ∧
      ∃ p', p.step (.app .swap) = some p' ∧ ∀ i, ¬ p'.client.Live i :=
  ⟨_, rfl, ⟨_, rfl, rfl⟩, _, rfl,
    (@at_most_one_live_session [.app (.type [97]), .app .traducir] _ rfl).2.2.1 _ _ (Or.inl rfl) rfl⟩

end KaqTranslator
