import KaqTranslator.Api.EndToEnd
import KaqTranslator.Api.Origins
import KaqTranslator.System.World
import KaqTranslator.Web.Delivery

/-!
# What the page shows

Whatever the network, the other clients, the processes of the service, the sweep and the user do, and in
whatever order: a translation that the page shows is one that a Worker was given by the endpoint, for the text
and the direction that are shown with it (`shown_translation_called`).

The invariant `WorldInv` follows the job from the `POST` of a call to the item, the item to the answer of a
poll, and the answer to the outcome of the call.
-/

namespace KaqTranslator

open EventMachine

/-- The events of the service in a run of the world -/
def serviceEvents (es : List WorldEvent) : List Event := es.filterMap WorldEvent.toService

/-- The job is one that a `POST` of the session `i` has created. -/
def PostedBy (uuid_text : JobId → JsString) (w : World) (i : ℕ) (id : JsString) : Prop :=
  ∃ job_id, (i, job_id) ∈ w.posts ∧ uuid_text job_id = id

/-- The translation is that of a job which a `POST` of the session `i` has created. -/
def TranslatedBy (es : List WorldEvent) (w : World) (i : ℕ) (translation : JsString) : Prop :=
  ∃ job_id t, (i, job_id) ∈ w.posts ∧ TranslatedFor (serviceEvents es) w.service job_id t ∧
    translation = codeUnits t

structure WorldInv (uuid_text : JobId → JsString) (es : List WorldEvent) (w : World) : Prop where
  service : OriginInv (serviceEvents es) w.service
  app : AppInv w.page.app
  /-- a job has been created for the request of the call it was posted for -/
  posts : ∀ i job_id, (i, job_id) ∈ w.posts → ∃ sub, w.service.submitted job_id = some sub ∧
    ∃ c ∈ w.page.app.calls, c.requestId = i ∧ c.Sends sub.request
  delivered : w.page.Delivered (PostedBy uuid_text w) (TranslatedBy es w)

theorem Page.Delivered.mono {P P' R R' : ℕ → JsString → Prop} {p : Page} (h : p.Delivered P R)
    (hP : ∀ i id, P i id → P' i id) (hR : ∀ i translation, R i translation → R' i translation) :
    p.Delivered P' R' where
  client i s hs := by
    obtain ⟨hpolls, hresolved⟩ := h.client i s hs
    exact ⟨fun id hp => hP i id (hpolls id hp), fun translation hr => hR i _ (hresolved translation hr)⟩
  outcome c hc translation hout := hR _ _ (h.outcome c hc translation hout)

theorem Call.Sends.of_same {c c' : Call} {request : TranslateRequest} (h : c.Sends request)
    (hsame : c.Same c') : c'.Sends request :=
  ⟨hsame.text.trans h.1, hsame.direction.trans h.2⟩

section Steps

variable {uuid_text : JobId → JsString} {es : List WorldEvent} {w w' : World} {e : WorldEvent}

private theorem worldInv_init : WorldInv uuid_text [] World.init where
  service := originInv_init
  app := by constructor <;> simp [World.init, Page.init, App.init]
  posts _ _ h := by cases h
  delivered := ⟨fun _ _ h => (Option.some_ne_none _ h.symm).elim, fun _ h => (List.not_mem_nil h).elim⟩

/-- A step of the service, with the jobs that the page has posted after it -/
private theorem worldInv_of_service (hw : WorldInv uuid_text es w) {se : Event} (he : e.toService = some se)
    (hstep : w.service.step se = some w'.service) (hpage : w'.page = w.page)
    (hposts : ∀ x ∈ w.posts, x ∈ w'.posts)
    (hnew : ∀ i job_id, (i, job_id) ∈ w'.posts → (i, job_id) ∈ w.posts ∨
      ∃ sub, w'.service.submitted job_id = some sub ∧
        ∃ c ∈ w.page.app.calls, c.requestId = i ∧ c.Sends sub.request) :
    WorldInv uuid_text (es ++ [e]) w' := by
  have hsub : ∀ j sub, w.service.submitted j = some sub → w'.service.submitted j = some sub :=
    fun _ _ hj => Sys.submitted_of_step hstep hj
  have hevents : serviceEvents (es ++ [e]) = serviceEvents es ++ [se] := by
    rw [serviceEvents, List.filterMap_append, List.filterMap_cons_some he]
    rfl
  refine ⟨?_, hpage ▸ hw.app, ?_, ?_⟩
  · rw [hevents]
    exact originInv_of_step hw.service hstep
  · intro i job_id hmem
    rw [hpage]
    rcases hnew i job_id hmem with hmem | hsent
    · obtain ⟨sub, hs, hcall⟩ := hw.posts i job_id hmem
      exact ⟨sub, hsub _ _ hs, hcall⟩
    · exact hsent
  · rw [hpage]
    refine hw.delivered.mono ?_ ?_
    · rintro i id ⟨job_id, hmem, hid⟩
      exact ⟨job_id, hposts _ hmem, hid⟩
    · rintro i translation ⟨job_id, t, hmem, ht, htext⟩
      rw [TranslatedBy, hevents]
      exact ⟨job_id, t, hposts _ hmem, ht.mono hsub _, htext⟩

/-- A step of the page, which reads bodies that the service has written -/
private theorem worldInv_of_page (hw : WorldInv uuid_text es w) {pe : PageEvent} (he : e.toService = none)
    (hstep : w.page.step pe = some w'.page) (hservice : w'.service = w.service) (hposts : w'.posts = w.posts)
    (hbody : ∀ i e', pe = .session i e' → e'.Delivers (PostedBy uuid_text w) (TranslatedBy es w) i) :
    WorldInv uuid_text (es ++ [e]) w' := by
  have hevents : serviceEvents (es ++ [e]) = serviceEvents es := by
    rw [serviceEvents, List.filterMap_append, List.filterMap_cons_none he]
    exact List.append_nil _
  have hcalls : ∀ c ∈ w.page.app.calls, ∃ c' ∈ w'.page.app.calls, c.Same c' := by
    intro c hc
    rcases Page.app_of_step hstep with happ | ⟨ae, happ⟩
    · exact ⟨c, happ ▸ hc, rfl, rfl, rfl⟩
    · exact (App.calls_of_step happ).1 c hc
  refine ⟨?_, ?_, ?_, ?_⟩
  · rw [hevents, hservice]
    exact hw.service
  · rcases Page.app_of_step hstep with happ | ⟨ae, happ⟩
    · rw [happ]
      exact hw.app
    · exact App.appInv_of_step hw.app happ
  · intro i job_id hmem
    rw [hposts] at hmem
    obtain ⟨sub, hs, c, hc, hid, hsends⟩ := hw.posts i job_id hmem
    obtain ⟨c', hc', hsame⟩ := hcalls c hc
    exact ⟨sub, hservice ▸ hs, c', hc', hsame.requestId.trans hid, hsends.of_same hsame⟩
  · refine (Page.delivered_of_step hw.delivered hstep hbody).mono ?_ ?_
    · rintro i id ⟨job_id, hmem, hid⟩
      exact ⟨job_id, hposts ▸ hmem, hid⟩
    · rintro i translation ⟨job_id, t, hmem, ht, htext⟩
      rw [TranslatedBy, hevents, hservice]
      exact ⟨job_id, t, hposts ▸ hmem, ht, htext⟩

/-- The answer of a poll delivers the translation of its job. -/
private theorem delivers_polled (huuid : Function.Injective uuid_text) (hw : WorldInv uuid_text es w)
    {i p : ℕ} {job_id : JobId} {time : ℕ} {body : JobStatusResponse}
    (hproc : w.service.procs p = some (.poll job_id (.answered time (.ok body)))) :
    PollSession.Event.Delivers (PostedBy uuid_text w) (TranslatedBy es w) i
      (.complete (.getBody (uuid_text job_id)) (.status body.onPage)) := by
  refine ⟨fun id h => (by cases h), ?_⟩
  rintro id translation h ⟨job_id', hmem, hid⟩
  obtain ⟨hawait, hstatus⟩ := PollSession.Event.complete.inj h
  have hsame : job_id' = job_id := huuid (hid.trans (Await.getBody.inj hawait).symm)
  subst hsame
  cases body with
  | succeeded t =>
    have ht : TranslatedFor (serviceEvents es) w.service job_id' t := hw.service.procs p _ hproc t rfl
    obtain rfl : codeUnits t = translation := JobStatusPayload.succeeded.inj (Completion.status.inj hstatus)
    exact ⟨job_id', t, hmem, ht, rfl⟩
  | pending | failed => cases hstatus

theorem worldInv_of_step (huuid : Function.Injective uuid_text) (hw : WorldInv uuid_text es w)
    (h : w.step uuid_text e = some w') : WorldInv uuid_text (es ++ [e]) w' := by
  rcases World.step_cases h with ⟨se, rfl, hstep, hpage, hposts⟩ |
    ⟨i, job_id, request, now, c, rfl, hc, hid, hsends, hstep, hpage, hposts⟩ |
    ⟨pe, he, hstep, hservice, hposts, hbody⟩
  · exact worldInv_of_service hw rfl hstep hpage (fun _ hx => hposts ▸ hx) fun _ _ hx => Or.inl (hposts ▸ hx)
  · refine worldInv_of_service hw rfl hstep hpage (fun _ hx => hposts ▸ List.mem_cons_of_mem _ hx) ?_
    intro j job_id' hmem
    rw [hposts] at hmem
    rcases List.mem_cons.1 hmem with heq | hmem
    · obtain ⟨rfl, rfl⟩ := Prod.mk.inj heq
      -- the job that the step has created
      have hsub : w'.service.submitted job_id' = some ⟨request, now⟩ := by
        simp only [Sys.step] at hstep
        split at hstep
        · rw [← Option.some.inj hstep]
          exact Function.update_self ..
        · cases hstep
      exact Or.inr ⟨_, hsub, c, hc, hid, hsends⟩
    · exact Or.inl hmem
  · refine worldInv_of_page hw he hstep hservice hposts ?_
    rintro i e' rfl
    rcases hbody with hbody | ⟨j, job_id, hmem, heq⟩ | ⟨j, p, job_id, time, body, hproc, heq⟩
    · constructor
      · rintro id rfl
        cases hbody
      · rintro id translation rfl
        cases hbody
    · obtain ⟨rfl, rfl⟩ := PageEvent.session.inj heq
      refine ⟨fun id h => ?_, fun id translation h => (by cases h)⟩
      obtain ⟨-, hid⟩ := PollSession.Event.complete.inj h
      exact ⟨job_id, hmem, Completion.created.inj hid⟩
    · obtain ⟨rfl, rfl⟩ := PageEvent.session.inj heq
      exact delivers_polled huuid hw hproc

theorem worldInv_of_run (huuid : Function.Injective uuid_text)
    (hrun : run (World.step uuid_text) .init es = some w) : WorldInv uuid_text es w :=
  history_invariant (I := WorldInv uuid_text) (fun _ _ _ _ hw _ h => worldInv_of_step huuid hw h)
    worldInv_init
    (stepsMeet_true _ _) hrun

/-- A translation that is shown has a call of the endpoint behind it, for the text and the direction shown. -/
theorem WorldInv.shown_called (hw : WorldInv uuid_text es w) {translation sourceText : JsString}
    (hshown : w.page.app.translateState = .success translation sourceText ∨
      w.page.app.rendered = .success translation sourceText) :
    ∃ job_id sub t, w.service.submitted job_id = some sub ∧
      codeUnits sub.request.text = sourceText ∧ sub.request.direction.onPage = w.page.app.direction ∧
      Called (serviceEvents es) job_id sub.request t ∧ codeUnits t = translation := by
  have hstate : w.page.app.translateState = .success translation sourceText :=
    hshown.elim id (hw.app.rendered _ _)
  obtain ⟨c, rest, hcalls, hab, htext, hout⟩ := hw.app.shown _ _ hstate
  have hc : c ∈ w.page.app.calls := hcalls ▸ List.mem_cons_self ..
  have hdirection : c.direction = w.page.app.direction := hw.app.direction c rest hcalls hab
  obtain ⟨job_id, t, hmem, ⟨sub, hsub, hcalled⟩, htranslation⟩ := hw.delivered.outcome c hc translation hout
  obtain ⟨sub', hsub', c', hc', hid, hsends⟩ := hw.posts _ _ hmem
  obtain rfl : sub = sub' := Option.some.inj (hsub.symm.trans hsub')
  -- the call that was posted is the one shown: identifiers of calls differ
  have hsame : c' = c := by
    rw [hcalls] at hc'
    rcases List.mem_cons.1 hc' with rfl | hmem'
    · rfl
    · have hlt := (List.pairwise_cons.1 (hcalls ▸ hw.app.ordered)).1 c' hmem'
      omega
  subst hsame
  exact ⟨job_id, sub, t, hsub, hsends.1.symm.trans htext, hsends.2.symm.trans hdirection, hcalled,
    htranslation.symm⟩

/-- What the page shows.  If identifiers have different texts, a translation that is set or rendered was
returned by the endpoint to a Worker of a job, for the text that is shown beside it and the direction that is
selected. -/
theorem shown_translation_called (huuid : Function.Injective uuid_text)
    (hrun : run (World.step uuid_text) .init es = some w) {translation sourceText : JsString}
    (hshown : w.page.app.translateState = .success translation sourceText ∨
      w.page.app.rendered = .success translation sourceText) :
    ∃ job_id sub t, w.service.submitted job_id = some sub ∧
      codeUnits sub.request.text = sourceText ∧ sub.request.direction.onPage = w.page.app.direction ∧
      Called (serviceEvents es) job_id sub.request t ∧ codeUnits t = translation :=
  (worldInv_of_run huuid hrun).shown_called hshown

end Steps

/-- The texts of the identifiers in `shownRun` -/
def sampleUuidText (job_id : JobId) : JsString :=
  codeUnits ("00000000-0000-0000-0000-00000000000".toList ++ natStr job_id)

private theorem sampleUuidText_injective : Function.Injective sampleUuidText := by
  intro m n h
  exact natStr_injective (List.append_cancel_left (codeUnits_injective h))

/-- A translation from the click to the result: the Worker is done before the page has its first answer. -/
def shownRun (translation : Str) : List WorldEvent :=
  [.page (.app .swap), .page (.app (.type (codeUnits utzRequest.text))), .page (.app .traducir),
    .post 2 1 utzRequest 0, .service (.deliver 0 1), .service (.advance 0 (.version 0)),
    .service (.advance 0 (.endpoint (some ['e'])
      (.response (.value (.obj [("translated_text".toList, .str translation)]))))),
    .service (.advance 0 .proceed), .page (.session 2 (.complete .postFetch (.response 202))), .created 2 1,
    .service (.get 1 1), .service (.advance 1 (.version 0)), .service (.advance 1 .proceed),
    .page (.session 2 (.complete (.getFetch (sampleUuidText 1)) (.response 200))), .polled 2 1,
    .page (.continuation 2 (.resolved (codeUnits translation)))]

theorem shown_translation_called_sample :
    ∃ w, run (World.step sampleUuidText) .init (shownRun "bien".toList) = some w ∧
      w.page.app.translateState = .success (codeUnits "bien".toList) (codeUnits utzRequest.text) ∧
      ∃ job_id sub t, w.service.submitted job_id = some sub ∧
        codeUnits sub.request.text = codeUnits utzRequest.text ∧
        sub.request.direction.onPage = w.page.app.direction ∧
        Called (serviceEvents (shownRun "bien".toList)) job_id sub.request t ∧
        codeUnits t = codeUnits "bien".toList :=
  ⟨_, rfl, rfl, @shown_translation_called _ (shownRun "bien".toList) _ sampleUuidText_injective rfl _ _
    (Or.inl rfl)⟩

/-! ### With the model behind the endpoint -/

/-- A Worker's call of the endpoint has no response, or that of `invoke`. -/
def ServedBy (invoke : Endpoint.InvokeArgs → Endpoint.InvokeOutcome) (depth : ℕ) (s : Sys)
    (e : Event) : Prop :=
  ∀ p name outcome job_id request, e = .advance p (.endpoint name outcome) →
    s.procs p = some (.worker job_id (.calling request)) →
    (∀ body, outcome ≠ .response body) ∨
      outcome = (invoke (Endpoint.invokeArgs (name.getD []) (Endpoint.payload request))).decoded depth

private theorem translateViaSagemaker_response {name : Option Str} {outcome : InvokeOutcome}
    {request : TranslateRequest} {t : Str}
    (h : translateViaSagemaker name (fun _ => outcome) request = .ok t) :
    ∃ body, outcome = .response body := by
  unfold translateViaSagemaker at h
  split at h
  · cases h
  · cases outcome with
    | response body => exact ⟨body, rfl⟩
    | botoCoreError => cases h
    | clientError code =>
      dsimp only at h
      split at h <;> cases h

/-- What the page shows is the model's.  If every response that a Worker gets is that of an endpoint which
runs the hooks on the model, a translation that is set or rendered is the one that the model gives of the text
shown beside it, stripped of white space, in the languages of the direction that is selected. -/
theorem shown_translation_of_model {E G P : Type*} {m : ModelAndTokenizer E G P} {depth : ℕ}
    {invoke : Endpoint.InvokeArgs → Endpoint.InvokeOutcome} (hhooks : RunsHooks m (depth + 1) invoke)
    {uuid_text : JobId → JsString} (huuid : Function.Injective uuid_text) {es : List WorldEvent} {w : World}
    (hrun : run (World.step uuid_text) .init es = some w)
    (hserved : StepsMeet Sys.step (ServedBy invoke (depth + 1)) Sys.init (serviceEvents es))
    {translation sourceText : JsString}
    (hshown : w.page.app.translateState = .success translation sourceText ∨
      w.page.app.rendered = .success translation sourceText) :
    ∃ request t, codeUnits request.text = sourceText ∧ ¬ request.text.Blank ∧
      request.direction.onPage = w.page.app.direction ∧ modelTranslation m request = some t ∧
      codeUnits t = translation := by
  obtain ⟨job_id, sub, t, -, htext, hdirection, hcalled, ht⟩ :=
    (worldInv_of_run huuid hrun).shown_called hshown
  obtain ⟨pre, p, name, outcome, post, u, hes, hu, hproc, hok⟩ := hcalled
  rw [hes] at hserved
  have hmodel : ¬ sub.request.text.Blank ∧ modelTranslation m sub.request = some t := by
    rcases hserved.at hu p name outcome job_id sub.request rfl hproc with hnone | rfl
    · obtain ⟨body, hbody⟩ := translateViaSagemaker_response hok
      exact absurd hbody (hnone body)
    · exact hhooks.modelTranslation_of_ok hok
  exact ⟨sub.request, t, htext, hmodel.1, hdirection, hmodel.2, ht⟩

private theorem stepsMeet_shownRun :
    StepsMeet Sys.step (ServedBy echoEndpoint 1) Sys.init (serviceEvents (shownRun "utz".toList)) := by
  have hquiet : ∀ e, (∀ p name outcome, e ≠ .advance p (.endpoint name outcome)) →
      ∀ s, ServedBy echoEndpoint 1 s e :=
    fun e he s p name outcome _ _ heq => absurd heq (he p name outcome)
  show StepsMeet Sys.step (ServedBy echoEndpoint 1) Sys.init
    ([.post 1 utzRequest 0, .deliver 0 1, .advance 0 (.version 0)] ++
      .advance 0 (.endpoint (some ['e']) (.response (.value
        (.obj [("translated_text".toList, .str "utz".toList)])))) ::
      [.advance 0 .proceed, .get 1 1, .advance 1 (.version 0), .advance 1 .proceed])
  refine (stepsMeet_append rfl).2 ⟨stepsMeet_of_forall ?_ _, ?_, fun s' _ => stepsMeet_of_forall ?_ s'⟩
  · intro e he
    refine hquiet e ?_
    rintro p name outcome rfl
    simp at he
  · -- the call, for the request that the Worker has read
    rintro p name outcome job_id request heq hproc
    obtain ⟨rfl, hchoice⟩ := Event.advance.inj heq
    obtain ⟨rfl, rfl⟩ := Choice.endpoint.inj hchoice
    have hcalling : some (Proc.worker 1 (.calling utzRequest)) =
      some (.worker job_id (.calling request)) := hproc
    cases hcalling
    obtain ⟨t, ht, hdecoded⟩ := runsHooks_echoEndpoint.decoded ['e'] utzRequest_not_blank
    obtain rfl : "utz".toList = t := Option.some.inj (modelTranslation_echo.symm.trans ht)
    exact Or.inr hdecoded.symm
  · intro e he
    refine hquiet e ?_
    rintro p name outcome rfl
    simp at he

/-- The run with the echo behind the endpoint -/
theorem shown_translation_of_model_echo :
    ∃ w, run (World.step sampleUuidText) .init (shownRun "utz".toList) = some w ∧
      ∃ request t, codeUnits request.text = codeUnits utzRequest.text ∧ ¬ request.text.Blank ∧
        request.direction.onPage = w.page.app.direction ∧ modelTranslation echo request = some t ∧
        codeUnits t = codeUnits "utz".toList :=
  ⟨_, rfl, @shown_translation_of_model _ _ _ _ _ _ runsHooks_echoEndpoint _ sampleUuidText_injective
    (shownRun "utz".toList) _ rfl stepsMeet_shownRun _ _ (Or.inl rfl)⟩

end KaqTranslator
