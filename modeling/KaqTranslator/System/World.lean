import KaqTranslator.Api.Service
import KaqTranslator.Web.Page
import KaqTranslator.Web.ReportUrl

/-!
# The page and the service together

A browser with the page open, and the service that it talks to.  A `POST` of the page creates a job for the
text and the direction of the call it belongs to; the two bodies that the page reads are those that the
service answers with, the identifier of such a job and the answer of a poll.  Everything else may happen at
any time: the network may lose, delay or refuse requests and answers, other clients may post, and the service
may take any of its steps.

A run of the world is a run of the service and a run of the page (`World.service_run`, `World.page_run`).
-/

namespace KaqTranslator

open EventMachine Unicode

/-! ### Texts on the page -/

private theorem toNat_unit {n : ℕ} (hn : n < 0x10000) : (UInt16.ofNat n).toNat = n :=
  UInt16.toNat_ofNat_of_lt' hn

/-- The code points of the code units of a text are those of the text. -/
theorem scalarValues_codeUnits (s : Str) : scalarValues none (codeUnits s) = s := by
  induction s with
  | nil => rfl
  | cons c s ih =>
    have hvalid : c.toNat < 0xD800 ∨ 0xDFFF < c.toNat ∧ c.toNat < 0x110000 := c.valid
    rw [codeUnits, List.flatMap_cons, ← codeUnits, unitsOf]
    by_cases hc : c.toNat < 0x10000
    · obtain ⟨hhigh, hlow⟩ := not_surrogate_of_lt hc
      rw [if_pos hc, List.map_singleton, List.singleton_append, scalarValues, toNat_unit hc, if_neg hhigh,
        if_neg hlow, ih, Char.ofNat_toNat]
    · have hlead : 0xD800 + (c.toNat - 0x10000) / 0x400 < 0x10000 := by omega
      have htrail : 0xDC00 + (c.toNat - 0x10000) % 0x400 < 0x10000 := by omega
      obtain ⟨hhigh, hlow, hjoin⟩ := surrogates_of_not_lt hc
      rw [if_neg hc, List.map_cons, List.map_singleton, List.cons_append, List.singleton_append, scalarValues,
        toNat_unit hlead, if_pos hhigh, scalarValues, toNat_unit hlead, toNat_unit htrail, if_pos hlow, ih,
        hjoin, Char.ofNat_toNat]

theorem codeUnits_injective : Function.Injective codeUnits := by
  intro s t h
  rw [← scalarValues_codeUnits s, h, scalarValues_codeUnits]

/-! ### The world -/

structure World where
  service : Sys
  page : Page
  posts : List (ℕ × JobId)  -- the jobs that the page's `POST`s have created, with their sessions

inductive WorldEvent where
  /-- a step of the service that does not come from this page -/
  | service (e : Event)
  /-- `create_job`, for the `POST` of the session `i` -/
  | post (i : ℕ) (job_id : JobId) (request : TranslateRequest) (now : ℕ)
  /-- the session `i` reads the body of its `POST`'s answer -/
  | created (i : ℕ) (job_id : JobId)
  /-- the session `i` reads the body of the answer of the poll `p` -/
  | polled (i p : ℕ)
  /-- any other step of the page -/
  | page (e : PageEvent)

/-- The direction, as the page has it -/
def Direction.onPage : Direction → TranslationDirection
  | .esToCak => .esToCak
  | .cakToEs => .cakToEs

def JobStatusResponse.onPage : JobStatusResponse → JobStatusPayload
  | .pending => .pending
  | .succeeded translation => .succeeded (codeUnits translation)
  | .failed status_code _ => .failed status_code

/-- The call's request is the one that the body of its `POST` holds. -/
def Call.Sends (c : Call) (request : TranslateRequest) : Prop :=
  c.text = codeUnits request.text ∧ c.direction = request.direction.onPage

instance (c : Call) (request : TranslateRequest) : Decidable (c.Sends request) := instDecidableAnd

/-- The steps of the page that read a body which the service has written -/
def PageEvent.readsBody : PageEvent → Bool
  | .session _ (.complete _ (.created _)) => true
  | .session _ (.complete _ (.status _)) => true
  | _ => false

namespace World

def init : World := ⟨.init, .init, []⟩

/-- `uuid_text` is `str` of the `uuid.UUID` that a job identifier is. -/
def step (uuid_text : JobId → JsString) (w : World) : WorldEvent → Option World
  | .service e => do
    let service ← w.service.step e
    return { w with service := service }
  | .post i job_id request now =>
    if w.page.app.calls.any fun c => c.requestId = i ∧ c.Sends request then do
      let service ← w.service.step (.post job_id request now)
      return { w with service := service, posts := (i, job_id) :: w.posts }
    else none
  | .created i job_id =>
    if (i, job_id) ∈ w.posts then do
      let page ← w.page.step (.session i (.complete .postBody (.created (uuid_text job_id))))
      return { w with page := page }
    else none
  | .polled i p =>
    match w.service.procs p with
    | some (.poll job_id (.answered _ (.ok body))) => do
      let page ← w.page.step (.session i (.complete (.getBody (uuid_text job_id)) (.status body.onPage)))
      return { w with page := page }
    | _ => none
  | .page e =>
    if e.readsBody then none
    else do
      let page ← w.page.step e
      return { w with page := page }

end World

/-- The step of the service that an event of the world is, if it is one. -/
def WorldEvent.toService : WorldEvent → Option Event
  | service e => some e
  | post _ job_id request now => some (.post job_id request now)
  | _ => none

namespace World

variable {uuid_text : JobId → JsString} {w w' : World} {e : WorldEvent}

/-! ### What one step can do -/

theorem step_cases (h : w.step uuid_text e = some w') :
    (∃ se, e = .service se ∧ w.service.step se = some w'.service ∧ w'.page = w.page ∧ w'.posts = w.posts) ∨
    (∃ i job_id request now c, e = .post i job_id request now ∧ c ∈ w.page.app.calls ∧ c.requestId = i ∧
      c.Sends request ∧ w.service.step (.post job_id request now) = some w'.service ∧ w'.page = w.page ∧
      w'.posts = (i, job_id) :: w.posts) ∨
    (∃ pe, e.toService = none ∧ w.page.step pe = some w'.page ∧ w'.service = w.service ∧ w'.posts = w.posts ∧
      (pe.readsBody = false ∨
        (∃ i job_id, (i, job_id) ∈ w.posts ∧
          pe = .session i (.complete .postBody (.created (uuid_text job_id)))) ∨
        ∃ i p job_id time body, w.service.procs p = some (.poll job_id (.answered time (.ok body))) ∧
          pe = .session i (.complete (.getBody (uuid_text job_id)) (.status body.onPage)))) := by
  cases e with
  | service se =>
    left
    simp only [step, Option.bind_eq_bind, Option.bind_eq_some_iff] at h
    obtain ⟨service, hservice, h⟩ := h
    obtain rfl := Option.some.inj h
    exact ⟨se, rfl, hservice, rfl, rfl⟩
  | post i job_id request now =>
    right; left
    simp only [step, Option.bind_eq_bind] at h
    split at h
    · rename_i hcall
      obtain ⟨c, hc, hsends⟩ := List.any_eq_true.1 hcall
      obtain ⟨hid, hsends⟩ := of_decide_eq_true hsends
      simp only [Option.bind_eq_some_iff] at h
      obtain ⟨service, hservice, h⟩ := h
      obtain rfl := Option.some.inj h
      exact ⟨i, job_id, request, now, c, rfl, hc, hid, hsends, hservice, rfl, rfl⟩
    · cases h
  | created i job_id =>
    right; right
    simp only [step, Option.bind_eq_bind] at h
    split at h
    · rename_i hpost
      simp only [Option.bind_eq_some_iff] at h
      obtain ⟨page, hpage, h⟩ := h
      obtain rfl := Option.some.inj h
      exact ⟨_, rfl, hpage, rfl, rfl, Or.inr (Or.inl ⟨i, job_id, hpost, rfl⟩)⟩
    · cases h
  | polled i p =>
    right; right
    simp only [step, Option.bind_eq_bind] at h
    split at h
    · rename_i job_id time body hproc
      simp only [Option.bind_eq_some_iff] at h
      obtain ⟨page, hpage, h⟩ := h
      obtain rfl := Option.some.inj h
      exact ⟨_, rfl, hpage, rfl, rfl, Or.inr (Or.inr ⟨i, p, job_id, time, body, hproc, rfl⟩)⟩
    · cases h
  | page pe =>
    right; right
    simp only [step, Option.bind_eq_bind] at h
    split at h
    · cases h
    · rename_i hbody
      simp only [Option.bind_eq_some_iff] at h
      obtain ⟨page, hpage, h⟩ := h
      obtain rfl := Option.some.inj h
      exact ⟨pe, rfl, hpage, rfl, rfl, Or.inl (Bool.eq_false_iff.2 hbody)⟩

/-! ### Runs of the world, of the service and of the page -/

theorem service_run {es : List WorldEvent} (hrun : run (World.step uuid_text) .init es = some w) :
    run Sys.step Sys.init (es.filterMap WorldEvent.toService) = some w.service := by
  refine history_invariant (P := fun _ _ => True)
    (I := fun es w => run Sys.step Sys.init (es.filterMap WorldEvent.toService) = some w.service) ?_ rfl
    (stepsMeet_true _ _) hrun
  intro es w e w' hs _ h
  rw [List.filterMap_append, run_append, hs]
  rcases step_cases h with ⟨se, rfl, hstep, -, -⟩ | ⟨i, j, r, n, c, rfl, -, -, -, hstep, -, -⟩ |
    ⟨pe, hnone, -, hservice, -, -⟩
  · exact run_cons_eq_some.2 ⟨_, hstep, rfl⟩
  · exact run_cons_eq_some.2 ⟨_, hstep, rfl⟩
  · rw [List.filterMap_cons_none hnone, hservice]
    rfl

theorem page_run {es : List WorldEvent} (hrun : run (World.step uuid_text) .init es = some w) :
    ∃ ps, run Page.step .init ps = some w.page := by
  refine run_simulates (I := fun _ => True) World.page (fun _ _ _ _ _ => trivial) ?_ trivial hrun
  intro w e w' _ h
  rcases step_cases h with ⟨-, -, -, hpage, -⟩ | ⟨-, -, -, -, -, -, -, -, -, -, hpage, -⟩ | ⟨pe, -, hpage, -⟩
  · exact ⟨[], by rw [hpage]; rfl⟩
  · exact ⟨[], by rw [hpage]; rfl⟩
  · exact ⟨[pe], run_cons_eq_some.2 ⟨_, hpage, rfl⟩⟩

end World

end KaqTranslator
