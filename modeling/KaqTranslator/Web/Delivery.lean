import KaqTranslator.Web.Page

/-!
# From a body to the page

What a session polls is what the body of its `POST` has named (`PollSession.polls_of_step`), and what it
resolves with is the translation in the body of such a poll (`PollSession.resolved_of_step`).  A call keeps
its text and its direction, and its outcome is what its session has settled with.  So if every body that the
page reads keeps to two relations, on the jobs and on the translations of the sessions, then so do the
outcomes of the calls (`Page.delivered_of_step`).
-/

namespace KaqTranslator

open EventMachine

/-! ### Sessions -/

namespace PollSession

/-- The session is polling the job `id`, or waits to do so. -/
def Polls (s : PollSession) (id : JsString) : Prop :=
  .getFetch id ∈ s.awaiting ∨ .getBody id ∈ s.awaiting ∨ ∃ t, (t, .poll id) ∈ s.armed

section Operations

variable {s s' : PollSession} {id jobId : JsString} {o : Settlement} {translation : JsString}

private theorem Polls.of_subset (h : s'.Polls id) (hawaiting : ∀ a ∈ s'.awaiting, a ∈ s.awaiting)
    (harmed : ∀ t ∈ s'.armed, t ∈ s.armed) : s.Polls id := by
  rcases h with h | h | ⟨t, h⟩
  · exact Or.inl (hawaiting _ h)
  · exact Or.inr (Or.inl (hawaiting _ h))
  · exact Or.inr (Or.inr ⟨t, harmed _ h⟩)

private theorem polls_close (h : (s.close o).Polls id) : s.Polls id :=
  h.of_subset (fun _ ha => ha) fun _ ht => List.mem_of_mem_filter ht

private theorem polls_settle (h : (s.settle o).Polls id) : s.Polls id := by
  unfold settle at h
  split at h
  · exact h
  · exact polls_close h

private theorem polls_setTimer (h : (s.setTimer (.poll jobId)).Polls id) : s.Polls id ∨ id = jobId := by
  rcases h with h | h | ⟨t, h⟩
  · exact Or.inl (Or.inl h)
  · exact Or.inl (Or.inr (Or.inl h))
  · rcases List.mem_cons.1 h with h | h
    · obtain ⟨-, h⟩ := Prod.mk.inj h
      exact Or.inr (TimerKind.poll.inj h)
    · exact Or.inl (Or.inr (Or.inr ⟨t, h⟩))

private theorem polls_schedulePoll (h : (s.schedulePoll jobId).Polls id) : s.Polls id ∨ id = jobId := by
  unfold schedulePoll at h
  split at h
  · exact Or.inl h
  · exact polls_setTimer h

private theorem polls_await {a : Await} (ha : ∀ jobId', a = .getFetch jobId' ∨ a = .getBody jobId' →
    jobId' = jobId)
    {n : ℕ} (h : { s with awaiting := a :: s.awaiting, requests := n }.Polls id) :
    s.Polls id ∨ id = jobId := by
  rcases h with h | h | h
  · rcases List.mem_cons.1 h with h | h
    · exact Or.inr (ha id (Or.inl h.symm))
    · exact Or.inl (Or.inl h)
  · rcases List.mem_cons.1 h with h | h
    · exact Or.inr (ha id (Or.inr h.symm))
    · exact Or.inl (Or.inr (Or.inl h))
  · exact Or.inl (Or.inr (Or.inr h))

private theorem polls_poll (h : (s.poll jobId).Polls id) : s.Polls id ∨ id = jobId := by
  unfold poll at h
  split at h
  · exact Or.inl h
  · exact polls_await (by simp) h

private theorem resolved_settle (h : .resolved translation ∈ (s.settle o).settlements) :
    .resolved translation ∈ s.settlements ∨ o = .resolved translation := by
  unfold settle at h
  split at h
  · exact Or.inl h
  · exact (List.mem_cons.1 h).symm.imp_right Eq.symm

private theorem settlements_schedulePoll : (s.schedulePoll jobId).settlements = s.settlements := by
  unfold schedulePoll
  split <;> rfl

private theorem settlements_poll : (s.poll jobId).settlements = s.settlements := by
  unfold poll
  split <;> rfl

end Operations

/-- What the continuation of an `await` polls was polled before, or is what it waited for. -/
private theorem polls_of_resume {s s' : PollSession} {a : Await} {c : Completion} {id : JsString}
    (h : s.resume a c = some s') (hp : s'.Polls id) :
    s.Polls id ∨ a = .getFetch id ∨ a = .getBody id ∨ a = .postBody ∧ c = .created id := by
  cases a <;> cases c <;> simp only [resume, reduceCtorEq] at h
  case postFetch.rejected b =>
    repeat' split at h
    · exact Or.inl (Option.some.inj h ▸ hp)
    · cases h
    · exact Or.inl (polls_settle (Option.some.inj h ▸ hp))
  case postFetch.response status =>
    obtain rfl := Option.some.inj h
    unfold answeredPost at hp
    split at hp
    · exact Or.inl (polls_settle hp)
    · left
      rcases hp with hp | hp | hp
      · exact Or.inl (List.mem_of_ne_of_mem (by simp) hp)
      · exact Or.inr (Or.inl (List.mem_of_ne_of_mem (by simp) hp))
      · exact Or.inr (Or.inr hp)
  case postBody.created jobId =>
    obtain rfl := Option.some.inj h
    exact (polls_poll hp).imp_right fun hid => Or.inr (Or.inr ⟨rfl, by rw [hid]⟩)
  case getFetch.rejected jobId b =>
    repeat' split at h
    · exact Or.inl (Option.some.inj h ▸ hp)
    · cases h
    · obtain rfl := Option.some.inj h
      simp only [rejectedPoll] at hp
      split at hp
      · have hold := polls_settle hp
        exact Or.inl hold
      · exact (polls_schedulePoll hp).imp_right fun hid => Or.inl (by rw [hid])
  case getFetch.response jobId status =>
    obtain rfl := Option.some.inj h
    unfold answeredPoll at hp
    repeat' split at hp
    · exact Or.inl (polls_settle hp)
    · exact Or.inl (polls_settle hp)
    · have hnew : ∀ jobId', Await.getBody jobId = .getFetch jobId' ∨ Await.getBody jobId = .getBody jobId' →
          jobId' = jobId := by simp
      exact (polls_await hnew hp).imp_right fun hid => Or.inl (by rw [hid])
  case getBody.status jobId job =>
    obtain rfl := Option.some.inj h
    cases job with
    | succeeded | failed => exact Or.inl (polls_settle hp)
    | pending => exact (polls_schedulePoll hp).imp_right fun hid => Or.inr (Or.inl (by rw [hid]))
  all_goals exact Or.inl (Option.some.inj h ▸ hp)

/-- A session begins to poll a job when the body of its `POST` names it. -/
theorem polls_of_step {s s' : PollSession} {e : Event} (h : s.step e = some s') {id : JsString}
    (hp : s'.Polls id) : s.Polls id ∨ e = .complete .postBody (.created id) := by
  cases e with
  | fire t kind =>
    simp only [step] at h
    split at h
    · rename_i harmed
      obtain rfl := Option.some.inj h
      have hkept : ∀ u ∈ s.armed.erase (t, kind), u ∈ s.armed := fun _ hu => List.mem_of_mem_erase hu
      left
      cases kind with
      | overall => exact (polls_settle hp).of_subset (fun _ ha => ha) hkept
      | poll jobId =>
        rcases polls_poll hp with hp | rfl
        · exact hp.of_subset (fun _ ha => ha) hkept
        · exact Or.inr (Or.inr ⟨t, harmed⟩)
    · cases h
  | complete a c =>
    simp only [step] at h
    split at h
    · rename_i ha
      rcases polls_of_resume h hp with hp | rfl | rfl | ⟨rfl, rfl⟩
      · exact Or.inl (hp.of_subset (fun _ hb => List.mem_of_mem_erase hb) fun _ ht => ht)
      · exact Or.inl (Or.inl ha)
      · exact Or.inl (Or.inr (Or.inl ha))
      · exact Or.inr rfl
    · cases h

/-- What the continuation of an `await` resolves with is in the body it waited for. -/
private theorem resolved_of_resume {s s' : PollSession} {a : Await} {c : Completion} {translation : JsString}
    (h : s.resume a c = some s') (hr : .resolved translation ∈ s'.settlements) :
    .resolved translation ∈ s.settlements ∨ ∃ id, a = .getBody id ∧ c = .status (.succeeded translation) := by
  -- a settlement with something else
  have hother : ∀ {t : PollSession} {o : Settlement}, (∀ u, o ≠ .resolved u) → t.settlements = s.settlements →
      .resolved translation ∈ (t.settle o).settlements → .resolved translation ∈ s.settlements := by
    intro t o ho ht hmem
    rw [← ht]
    exact (resolved_settle hmem).resolve_right (ho translation)
  cases a <;> cases c <;> simp only [resume, reduceCtorEq] at h
  case postFetch.rejected b =>
    repeat' split at h
    · exact Or.inl (Option.some.inj h ▸ hr)
    · cases h
    · exact Or.inl (hother (by simp) rfl (Option.some.inj h ▸ hr))
  case postFetch.response status =>
    obtain rfl := Option.some.inj h
    unfold answeredPost at hr
    split at hr
    · exact Or.inl (hother (by simp) rfl hr)
    · exact Or.inl hr
  case postBody.created jobId =>
    obtain rfl := Option.some.inj h
    rw [settlements_poll] at hr
    exact Or.inl hr
  case getFetch.rejected jobId b =>
    repeat' split at h
    · exact Or.inl (Option.some.inj h ▸ hr)
    · cases h
    · obtain rfl := Option.some.inj h
      simp only [rejectedPoll] at hr
      split at hr
      · have hold := resolved_settle hr
        exact hold.imp_right fun h => by cases h
      · rw [settlements_schedulePoll] at hr
        exact Or.inl hr
  case getFetch.response jobId status =>
    obtain rfl := Option.some.inj h
    unfold answeredPoll at hr
    repeat' split at hr
    · exact Or.inl (hother (by simp) rfl hr)
    · exact Or.inl (hother (by simp) rfl hr)
    · exact Or.inl hr
  case getBody.status jobId job =>
    obtain rfl := Option.some.inj h
    cases job with
    | succeeded t =>
      rcases resolved_settle hr with hr | ht
      · exact Or.inl hr
      · exact Or.inr ⟨jobId, rfl, by rw [Settlement.resolved.inj ht]⟩
    | failed status_code => exact Or.inl (hother (by simp) rfl hr)
    | pending =>
      rw [polled, settlements_schedulePoll] at hr
      exact Or.inl hr
  all_goals exact Or.inl (Option.some.inj h ▸ hr)

/-- A session resolves with the translation that is in the body of a poll. -/
theorem resolved_of_step {s s' : PollSession} {e : Event} (h : s.step e = some s') {translation : JsString}
    (hr : .resolved translation ∈ s'.settlements) :
    .resolved translation ∈ s.settlements ∨
      ∃ id, s.Polls id ∧ e = .complete (.getBody id) (.status (.succeeded translation)) := by
  cases e with
  | fire t kind =>
    simp only [step] at h
    split at h
    · obtain rfl := Option.some.inj h
      left
      cases kind with
      | overall => exact (resolved_settle hr).resolve_right (by simp)
      | poll jobId =>
        rw [fire, settlements_poll] at hr
        exact hr
    · cases h
  | complete a c =>
    simp only [step] at h
    split at h
    · rename_i ha
      rcases resolved_of_resume h hr with hr | ⟨id, rfl, rfl⟩
      · exact Or.inl hr
      · exact Or.inr ⟨id, Or.inr (Or.inl ha), rfl⟩
    · cases h

private theorem polls_cancel {s : PollSession} {id : JsString} (h : s.cancel.Polls id) : s.Polls id := by
  unfold cancel at h
  split at h
  · exact h
  · have hold := polls_close h
    exact hold

private theorem resolved_cancel {s : PollSession} {translation : JsString}
    (h : .resolved translation ∈ s.cancel.settlements) : .resolved translation ∈ s.settlements := by
  unfold cancel at h
  split at h
  · exact h
  · exact (List.mem_cons.1 h).resolve_left (by simp)

end PollSession

/-! ### The module -/

/-- Every job that a session polls is one of `P`, and every translation that it has resolved with one of
`R`. -/
def Client.Delivered (P R : ℕ → JsString → Prop) (c : Client) : Prop :=
  ∀ i s, c.sessions i = some s →
    (∀ id, s.Polls id → P i id) ∧ ∀ translation, .resolved translation ∈ s.settlements → R i translation

/-- The body that an event of the session `i` reads names a job of `P`, or the translation in it is one of `R`
if the job polled is one of `P`. -/
def PollSession.Event.Delivers (P R : ℕ → JsString → Prop) (i : ℕ) (e : PollSession.Event) : Prop :=
  (∀ id, e = .complete .postBody (.created id) → P i id) ∧
    ∀ id translation, e = .complete (.getBody id) (.status (.succeeded translation)) → P i id →
      R i translation

section Delivered

variable {P R : ℕ → JsString → Prop}

theorem Client.delivered_of_step {c c' : Client} {e : ClientEvent} (hc : c.Delivered P R)
    (h : c.step e = some c') (he : ∀ i e', e = .session i e' → e'.Delivers P R i) : c'.Delivered P R := by
  intro i s hs
  rcases Client.session_of_step h i with heq | ⟨-, hstart⟩ | ⟨s₀, -, -, hs₀, -, hcancel⟩ |
    ⟨s₀, e', s', rfl, hs₀, hstep, hs'⟩
  · rw [heq] at hs
    exact hc i s hs
  · obtain rfl : PollSession.start = s := by simpa [hstart] using hs
    constructor
    · rintro id (hp | hp | ⟨t, hp⟩) <;>
        simp [PollSession.start, PollSession.setTimer, PollSession.fetch] at hp
    · intro translation hr
      cases hr
  · obtain rfl : s₀.cancel = s := by simpa [hcancel] using hs
    obtain ⟨hpolls, hresolved⟩ := hc i s₀ hs₀
    exact ⟨fun id hp => hpolls id (PollSession.polls_cancel hp),
      fun translation hr => hresolved translation (PollSession.resolved_cancel hr)⟩
  · obtain rfl : s' = s := by simpa [hs'] using hs
    obtain ⟨hpolls, hresolved⟩ := hc i s₀ hs₀
    obtain ⟨hcreated, hpolled⟩ := he i e' rfl
    constructor
    · intro id hp
      rcases PollSession.polls_of_step hstep hp with hp | rfl
      · exact hpolls id hp
      · exact hcreated id rfl
    · intro translation hr
      rcases PollSession.resolved_of_step hstep hr with hr | ⟨id, hp, rfl⟩
      · exact hresolved translation hr
      · exact hpolled id translation rfl (hpolls id hp)

private theorem Client.delivered_of_run {c c' : Client} {es : List ClientEvent} (hc : c.Delivered P R)
    (h : run Client.step c es = some c') (hes : ∀ i e', .session i e' ∉ es) : c'.Delivered P R := by
  have hmeet : StepsMeet Client.step (fun _ e => ∀ i e', e ≠ .session i e') c es := by
    refine stepsMeet_of_forall ?_ c
    rintro e he - i e' rfl
    exact hes i e' he
  exact invariant_of_stepsMeet (I := Client.Delivered P R)
    (fun _ _ _ hc he h => Client.delivered_of_step hc h fun i e' heq => absurd heq (he i e')) hc hmeet h

end Delivered

/-! ### The component -/

/-- The two are one call, before and after a step. -/
structure Call.Same (c c' : Call) : Prop where
  requestId : c'.requestId = c.requestId
  text : c'.text = c.text
  direction : c'.direction = c.direction

namespace App

variable {s s' : App} {e : AppEvent}

/-- A call is never forgotten, and its outcome comes from its continuation. -/
theorem calls_of_step (h : s.step e = some s') :
    (∀ c ∈ s.calls, ∃ c' ∈ s'.calls, c.Same c') ∧
    ∀ c' ∈ s'.calls, c'.outcome = none ∨ ∃ c ∈ s.calls, c.Same c' ∧
      (c'.outcome = c.outcome ∨
        ∃ outcome, e = .continuation c.requestId outcome ∧ c'.outcome = some outcome) := by
  -- the steps that change each call, or none of them
  have hmap : ∀ f : Call → Call, (∀ c : Call, c.Same (f c)) → s'.calls = s.calls.map f →
      (∀ c : Call, (f c).outcome = c.outcome ∨
        ∃ outcome, e = .continuation c.requestId outcome ∧ (f c).outcome = some outcome) →
      (∀ c ∈ s.calls, ∃ c' ∈ s'.calls, c.Same c') ∧
      ∀ c' ∈ s'.calls, c'.outcome = none ∨ ∃ c ∈ s.calls, c.Same c' ∧
        (c'.outcome = c.outcome ∨ ∃ outcome, e = .continuation c.requestId outcome ∧
          c'.outcome = some outcome) := by
    intro f hsame hcalls hout
    rw [hcalls]
    refine ⟨fun c hc => ⟨f c, List.mem_map_of_mem hc, hsame c⟩, fun c' hc' => ?_⟩
    obtain ⟨c, hc, rfl⟩ := List.mem_map.1 hc'
    exact Or.inr ⟨c, hc, hsame c, hout c⟩
  have hid := hmap id (fun _ => ⟨rfl, rfl, rfl⟩)
  cases e with
  | type text =>
    simp only [step] at h
    split at h
    · obtain rfl := Option.some.inj h
      exact hid (List.map_id _).symm fun _ => Or.inl rfl
    · cases h
  | traducir | reintentar =>
    simp only [step] at h
    split at h
    · obtain rfl := Option.some.inj h
      refine ⟨fun c hc => ⟨c, List.mem_cons_of_mem _ hc, rfl, rfl, rfl⟩, fun c' hc' => ?_⟩
      rcases List.mem_cons.1 hc' with rfl | hc'
      · exact Or.inl rfl
      · exact Or.inr ⟨c', hc', ⟨rfl, rfl, rfl⟩, Or.inl rfl⟩
    · cases h
  | swap | borrar =>
    simp only [step] at h
    split at h
    · obtain rfl := Option.some.inj h
      exact hmap (fun c => { c with abandoned := true }) (fun _ => ⟨rfl, rfl, rfl⟩) rfl fun _ => Or.inl rfl
    · cases h
  | toggleView | render =>
    obtain rfl := Option.some.inj h
    exact hid (List.map_id _).symm fun _ => Or.inl rfl
  | continuation requestId outcome =>
    simp only [step, Option.bind_eq_bind, Option.bind_eq_some_iff] at h
    obtain ⟨_, -, h⟩ := h
    obtain rfl := Option.some.inj h
    refine hmap _ (fun c => ?_) rfl fun c => ?_
    · split <;> exact ⟨rfl, rfl, rfl⟩
    · split
      · rename_i hc
        exact Or.inr ⟨outcome, by rw [hc], rfl⟩
      · exact Or.inl rfl
  | warmingTimer requestId =>
    simp only [step, Option.bind_eq_bind, Option.bind_eq_some_iff] at h
    obtain ⟨_, -, h⟩ := h
    obtain rfl := Option.some.inj h
    refine hmap _ (fun c => ?_) rfl fun c => ?_
    · split <;> exact ⟨rfl, rfl, rfl⟩
    · split <;> exact Or.inl rfl

end App

/-! ### The page -/

namespace Page

/-- The sessions are delivered what `P` and `R` say, and the outcomes of the calls are those of their
sessions. -/
structure Delivered (P R : ℕ → JsString → Prop) (p : Page) : Prop where
  client : p.client.Delivered P R
  outcome : ∀ c ∈ p.app.calls, ∀ translation, c.outcome = some (.resolved translation) →
    R c.requestId translation

variable {P R : ℕ → JsString → Prop} {p p' : Page} {e : PageEvent}

/-- A step of the page is a step of the component, or leaves it as it is. -/
theorem app_of_step (h : p.step e = some p') : p'.app = p.app ∨ ∃ ae, p.app.step ae = some p'.app := by
  cases e with
  | app ae => exact Or.inr ⟨ae, (step_app h).2.2.1⟩
  | continuation r outcome => exact Or.inr ⟨_, (step_continuation h).2.1⟩
  | session i e => exact Or.inl (step_session h).2.1
  | unmount => exact Or.inl (step_unmount h).2.1

theorem delivered_of_step (hp : p.Delivered P R) (h : p.step e = some p')
    (he : ∀ i e', e = .session i e' → e'.Delivers P R i) : p'.Delivered P R := by
  cases e with
  | app ae =>
    obtain ⟨hcont, -, happ, hclient, -⟩ := step_app h
    constructor
    · exact Client.delivered_of_run hp.client hclient fun i e' => by cases ae <;> simp [AppEvent.clientEvents]
    · intro c' hc' translation hout
      rcases (App.calls_of_step happ).2 c' hc' with hnone | ⟨c, hc, hsame, hkept | ⟨outcome, rfl, -⟩⟩
      · rw [hnone] at hout
        cases hout
      · rw [hsame.requestId]
        exact hp.outcome c hc translation (hkept ▸ hout)
      · cases hcont
  | continuation r outcome =>
    obtain ⟨hsettled, happ, hclient, -⟩ := step_continuation h
    refine ⟨hclient ▸ hp.client, ?_⟩
    intro c' hc' translation hout
    rcases (App.calls_of_step happ).2 c' hc' with hnone | ⟨c, hc, hsame, hkept | ⟨outcome', heq, hout'⟩⟩
    · rw [hnone] at hout
      cases hout
    · rw [hsame.requestId]
      exact hp.outcome c hc translation (hkept ▸ hout)
    · -- the outcome is what the session has settled with
      obtain ⟨rfl, rfl⟩ := AppEvent.continuation.inj heq
      obtain rfl : outcome = .resolved translation := Option.some.inj (hout'.symm.trans hout)
      rw [hsame.requestId]
      rw [settledWith] at hsettled
      split at hsettled
      · rename_i s hs
        exact (hp.client _ s hs).2 translation (of_decide_eq_true hsettled)
      · cases hsettled
  | session i e' =>
    obtain ⟨hclient, happ, -⟩ := step_session h
    refine ⟨Client.delivered_of_step hp.client hclient ?_, happ ▸ hp.outcome⟩
    intro j e'' heq
    obtain ⟨rfl, rfl⟩ := ClientEvent.session.inj heq
    exact he _ _ rfl
  | unmount =>
    obtain ⟨hclient, happ, -⟩ := step_unmount h
    have hquiet : ∀ i e', ClientEvent.cancelTranslate = .session i e' → e'.Delivers P R i := by simp
    exact ⟨Client.delivered_of_step hp.client hclient hquiet, happ ▸ hp.outcome⟩

end Page

end KaqTranslator
