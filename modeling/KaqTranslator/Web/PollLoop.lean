import KaqTranslator.Web.Settlement

/-!
# The poll loop and the bodies it reads

`poll` and the function that posts catch the rejection of a `fetch`, but not that of `response.json()`.  So a
2xx whose body cannot be read ends the loop: nothing is awaited and no poll timer is armed, and the session
waits for its overall timeout (`bad_body_stalls`).  Nothing else ends it: `poll_loop_iff` says that the loop
of a session never stalls, and answers every failed poll attempt, if and only if no such body comes while the
session is unsettled.
-/

namespace KaqTranslator

open EventMachine

namespace PollSession

/-- The `POST` was accepted and the session is not settled, but nothing is in progress and no poll timer is
armed. -/
structure Stalled (s : PollSession) : Prop where
  unsettled : s.settled = false
  accepted : s.accepted = true
  idle : s.awaiting = []
  noPollTimer : ∀ id jobId, (id, .poll jobId) ∉ s.armed

/-- The ways in which an attempt to poll the job `jobId` fails before a status is obtained. -/
inductive FailedAttempt (jobId : JsString) : Event → Prop where
  | fetch : FailedAttempt jobId (.complete (.getFetch jobId) (.rejected false))
  | body : FailedAttempt jobId (.complete (.getBody jobId) .badBody)

/-- After a failed attempt another poll is scheduled, or it was the third and the session rejects. -/
def Answered (s s' : PollSession) (jobId : JsString) : Prop :=
  (s.nextTimer, .poll jobId) ∈ s'.armed ∨
    maxConsecutivePollFailures ≤ s.consecutivePollFailures + 1 ∧ s'.settlements = [.networkError]

private theorem pollTimers_eq_zero {s : PollSession} :
    s.pollTimers = 0 ↔ ∀ id jobId, (id, .poll jobId) ∉ s.armed := by
  rw [pollTimers, List.countP_eq_zero]
  constructor
  · intro h id jobId hmem
    exact absurd rfl (h _ hmem)
  · rintro h ⟨id, _ | jobId⟩ ht
    · simp
    · exact absurd ht (h id jobId)

def Live (s : PollSession) : Prop := s.settled = false → s.activity = 1

private theorem Live.not_stalled {s : PollSession} (h : s.Live) : ¬ s.Stalled := by
  intro hstalled
  have hone : s.activity = 1 := h hstalled.unsettled
  have hzero : s.pollTimers = 0 := pollTimers_eq_zero.2 hstalled.noPollTimer
  rw [activity, hzero, hstalled.idle] at hone
  cases hone

private theorem live_start : start.Live := fun _ => by simp [start, setTimer, fetch, activity, pollTimers]

private theorem live_cancel {s : PollSession} (h : s.Live) : s.cancel.Live := by
  unfold cancel
  split
  · exact h
  · exact fun hopen => by cases hopen

theorem live_of_step {s s' : PollSession} {e : Event} (hs : SessionInv s)
    (hbody : ∀ a, e = .complete a .badBody → s.settled = true) (h : s.step e = some s') : s'.Live := by
  intro hopen'
  have hopen : s.settled = false := by
    cases hset : s.settled with
    | false => rfl
    | true =>
      have hset' : s'.settled = true := (quiet_of_step hs hset h).settled
      rw [hopen'] at hset'
      cases hset'
  cases e with
  | fire id kind =>
    simp only [step] at h
    split at h
    · rename_i hmem
      obtain rfl := Option.some.inj h
      cases kind with
      | overall =>
        rw [fire, settle, if_neg (by simp [hopen])] at hopen'
        cases hopen'
      | poll jobId =>
        obtain ⟨hidle, -, hzero⟩ := idle_of_armed hs hmem
        rw [fire, poll, if_neg (by simp [hopen])]
        simp only [activity, fetch, pollTimers, hzero, hidle, List.length_singleton]
    · cases h
  | complete a c =>
    simp only [step] at h
    split at h
    · rename_i hmem
      obtain ⟨hidle, hpolls⟩ := idle_of_mem hs hmem
      rcases (activity_of_resumed (s := { s with awaiting := s.awaiting.erase a }) hidle hpolls
        (resumed_of_resume h)).2 with hone | hset | haborted | rfl
      · exact hone
      · rw [hopen'] at hset
        cases hset
      · have hset : s.settled = true := hs.aborted haborted
        rw [hopen] at hset
        cases hset
      · have hset : s.settled = true := hbody a rfl
        rw [hopen] at hset
        cases hset
    · cases h

/-- A body that cannot be read is all that an unsettled session waited for. -/
private theorem stalled_of_bad_body {s s' : PollSession} {a : Await} (hs : SessionInv s)
    (hopen : s.settled = false)
    (h : s.step (.complete a .badBody) = some s') : s'.Stalled := by
  simp only [step] at h
  split at h
  · rename_i hmem
    obtain ⟨hidle, hpolls⟩ := idle_of_mem hs hmem
    cases a with
    | postBody | getBody =>
      obtain rfl := Option.some.inj h
      have haccepted : s.accepted = true := hs.accepted (Or.inl ⟨_, hmem, by simp⟩)
      exact ⟨hopen, haccepted, hidle, pollTimers_eq_zero.1 hpolls⟩
    | postFetch | getFetch => cases h
  · cases h

private theorem answered_of_rejected {s s' : PollSession} {jobId : JsString} (hs : SessionInv s)
    (hopen : s.settled = false) (h : s.step (.complete (.getFetch jobId) (.rejected false)) = some s') :
    s.Answered s' jobId := by
  simp only [step] at h
  split at h
  · obtain rfl := Option.some.inj h
    simp only [rejectedPoll]
    split
    · rename_i hthird
      right
      have hnone : s.settlements = [] := (hs.unsettled hopen).1
      exact ⟨hthird, by simp [settle, hopen, close, hnone]⟩
    · left
      simp [schedulePoll, hopen, setTimer]
  · cases h

end PollSession

/-! ### Runs -/

def NoBadBody (i : ℕ) (c : Client) (e : ClientEvent) : Prop :=
  ∀ a s, e = .session i (.complete a .badBody) → c.sessions i = some s → s.settled = true

/-- A failed poll attempt of the session `i`, while it is unsettled, is answered. -/
def AnswersFailures (i : ℕ) (c : Client) (e : ClientEvent) : Prop :=
  ∀ e' s s' jobId, e = .session i e' → PollSession.FailedAttempt jobId e' → c.sessions i = some s →
    s.settled = false → s.step e' = some s' → s.Answered s' jobId

theorem live_of_run {es : List ClientEvent} {c : Client} {i : ℕ} (hrun : run Client.step .init es = some c)
    (hmeet : StepsMeet Client.step (NoBadBody i) .init es) {s : PollSession} (hs : c.sessions i = some s) :
    s.Live := by
  refine (invariant_of_stepsMeet (I := fun d => ClientInv d ∧ ∀ s, d.sessions i = some s → s.Live) ?_
    ⟨clientInv_init, fun _ h => by cases h⟩ hmeet hrun).2 s hs
  rintro d e d' ⟨hd, hlive⟩ he hstep
  refine ⟨clientInv_of_step hd hstep, fun s₁ hs₁ => ?_⟩
  rcases Client.session_of_step hstep i with heq | ⟨-, hstart⟩ | ⟨s₀, -, -, hs₀, -, hcancel⟩ |
    ⟨s₀, e', s', rfl, hs₀, hstep', hs'⟩
  · rw [heq] at hs₁
    exact hlive s₁ hs₁
  · obtain rfl : PollSession.start = s₁ := by simpa [hstart] using hs₁
    exact PollSession.live_start
  · obtain rfl : s₀.cancel = s₁ := by simpa [hcancel] using hs₁
    exact PollSession.live_cancel (hlive s₀ hs₀)
  · obtain rfl : s' = s₁ := by simpa [hs'] using hs₁
    have hbody : ∀ a, e' = .complete a .badBody → s₀.settled = true := by
      intro a h
      exact he a s₀ (by rw [h]) hs₀
    exact PollSession.live_of_step (hd i s₀ hs₀) hbody hstep'

private theorem answersFailures_of_noBadBody {c : Client} {i : ℕ} {e : ClientEvent} (hc : ClientInv c)
    (he : NoBadBody i c e) : AnswersFailures i c e := by
  rintro e' s s' jobId rfl hfail hs hopen hstep
  cases hfail with
  | fetch => exact PollSession.answered_of_rejected (hc i s hs) hopen hstep
  | body =>
    have hset : s.settled = true := he _ s rfl hs
    rw [hopen] at hset
    cases hset

private theorem stalled_of_not_noBadBody {c c' : Client} {i : ℕ} {e : ClientEvent} (hc : ClientInv c)
    (he : ¬ NoBadBody i c e) (hstep : c.step e = some c') : ∃ s, c'.sessions i = some s ∧ s.Stalled := by
  simp only [NoBadBody, not_forall] at he
  obtain ⟨a, s, rfl, hs, hopen⟩ := he
  simp only [Client.step, Option.bind_eq_bind, Option.bind_eq_some_iff] at hstep
  obtain ⟨s₀, hs₀, s', hs', h⟩ := hstep
  obtain rfl := Option.some.inj h
  obtain rfl : s = s₀ := by simpa [hs] using hs₀
  have hopen : s.settled = false := Bool.eq_false_iff.2 hopen
  exact ⟨s', Function.update_self .., PollSession.stalled_of_bad_body (hc i s hs) hopen hs'⟩

/-- The poll loop of a session never stalls in a run, and answers every failed poll attempt, if and only if no
body of a 2xx fails in the run while the session is unsettled. -/
theorem poll_loop_iff {es : List ClientEvent} {c : Client} (hrun : run Client.step .init es = some c) (i : ℕ) :
    ((∀ pre post d s, es = pre ++ post → run Client.step .init pre = some d → d.sessions i = some s →
        ¬ s.Stalled) ∧
      StepsMeet Client.step (AnswersFailures i) .init es) ↔ StepsMeet Client.step (NoBadBody i) .init es := by
  constructor
  · rintro ⟨hall, -⟩
    by_contra hmeet
    obtain ⟨pre, e, post, d, d', rfl, hpre, -, hfail, hd'⟩ := exists_first_failure hrun hmeet
    obtain ⟨s, hs, hstalled⟩ := stalled_of_not_noBadBody (clientInv_of_run hpre) hfail hd'
    have hrun' : run Client.step .init (pre ++ [e]) = some d' :=
      run_append_cons_eq_some.2 ⟨d, d', hpre, hd', rfl⟩
    exact hall (pre ++ [e]) post d' s (by simp) hrun' hs hstalled
  · intro hmeet
    refine ⟨?_, ?_⟩
    · rintro pre post d s rfl hd hs
      have hmeet' : StepsMeet Client.step (NoBadBody i) .init pre := ((stepsMeet_append hd).1 hmeet).1
      have hlive : s.Live := live_of_run hd hmeet' hs
      exact hlive.not_stalled
    · by_contra hnot
      obtain ⟨pre, e, post, d, d', rfl, hpre, -, hfail, -⟩ := exists_first_failure hrun hnot
      have hbody : NoBadBody i d e := hmeet.at hpre
      exact hfail (answersFailures_of_noBadBody (clientInv_of_run hpre) hbody)

/-- The first poll is answered with a 2xx whose body is not JSON. -/
def badBodyRun : List ClientEvent :=
  [.translate 0, .session 0 (.complete .postFetch (.response 202)),
    .session 0 (.complete .postBody (.created [49])),
    .session 0 (.complete (.getFetch [49]) (.response 200)),
    .session 0 (.complete (.getBody [49]) .badBody)]

/-- The session then waits for its overall timeout alone, having failed once. -/
theorem bad_body_stalls :
    ∃ c s, run Client.step .init badBodyRun = some c ∧ c.sessions 0 = some s ∧ s.Stalled ∧
      s.armed = [(0, .overall)] ∧ s.consecutivePollFailures = 0 := by
  refine ⟨_, _, rfl, rfl, ⟨rfl, rfl, rfl, ?_⟩, rfl, rfl⟩
  intro id jobId hmem
  cases List.mem_singleton.1 hmem

theorem badBodyRun_not_stepsMeet : ¬ StepsMeet Client.step (NoBadBody 0) .init badBodyRun := by
  intro hmeet
  have hall := ((@poll_loop_iff badBodyRun _ rfl 0).2 hmeet).1 badBodyRun [] _ _ (by simp) rfl rfl
  refine hall ⟨rfl, rfl, rfl, ?_⟩
  intro id jobId hmem
  cases List.mem_singleton.1 hmem

end KaqTranslator
