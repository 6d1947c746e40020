import KaqTranslator.Web.Session

/-!
# A session settles once, and is quiet from then on

`SessionInv` is what holds of a session in every state of the client.  Its core is that every armed timer is
in `session.timers`, so that clearing these clears all of them, and that at most one thing is going on: an
`await` or an armed poll timer.  `Resumed` lists what the continuation of an `await` can do; a settled session
can only stop or read a body (`PollSession.settled_of_step`).
-/

namespace KaqTranslator

open EventMachine

namespace PollSession

/-! ### What a continuation does -/

/-- What the continuation of `a` does to the session; `f` is the number of failures it leaves. -/
inductive Resumed (s : PollSession) : Await → Completion → PollSession → Prop where
  | stopped {a : Await} {c : Completion} (f : ℕ) (h : s.settled = true ∨ s.aborted = true ∨ c = .badBody) :
    Resumed s a c { s with consecutivePollFailures := f }
  | closed {a : Await} {c : Completion} (f : ℕ) (o : Settlement) (h : s.settled = false) :
    Resumed s a c ({ s with consecutivePollFailures := f }.close o)
  | scheduled {a : Await} {c : Completion} (f : ℕ) (jobId : JsString) (h : s.settled = false)
    (ha : a ≠ .postFetch) : Resumed s a c ({ s with consecutivePollFailures := f }.setTimer (.poll jobId))
  | fetching {c : Completion} (jobId : JsString) (h : s.settled = false) :
    Resumed s .postBody c (s.fetch (.getFetch jobId))
  | readingPost {c : Completion} : Resumed s .postFetch c ({ s with accepted := true }.readBody .postBody)
  | readingGet {c : Completion} (jobId : JsString) :
    Resumed s (.getFetch jobId) c ({ s with consecutivePollFailures := 0 }.readBody (.getBody jobId))

theorem Resumed.settle {s : PollSession} {a : Await} {c : Completion} (f : ℕ) (o : Settlement) :
    Resumed s a c ({ s with consecutivePollFailures := f }.settle o) := by
  unfold PollSession.settle
  split
  · rename_i h
    exact .stopped f (Or.inl h)
  · rename_i h
    exact .closed f o (Bool.eq_false_iff.2 h)

theorem Resumed.schedulePoll {s : PollSession} {a : Await} {c : Completion} (f : ℕ) (jobId : JsString)
    (ha : a ≠ .postFetch) : Resumed s a c ({ s with consecutivePollFailures := f }.schedulePoll jobId) := by
  unfold PollSession.schedulePoll
  split
  · rename_i h
    exact .stopped f (Or.inl h)
  · rename_i h
    exact .scheduled f jobId (Bool.eq_false_iff.2 h) ha

theorem resumed_of_resume {s s' : PollSession} {a : Await} {c : Completion} (h : s.resume a c = some s') :
    Resumed s a c s' := by
  cases a <;> cases c <;> simp only [resume, reduceCtorEq] at h
  case postFetch.rejected b =>
    repeat' split at h
    · rename_i hab
      obtain rfl := Option.some.inj h
      exact .stopped _ (Or.inr (Or.inl hab))
    · cases h
    · obtain rfl := Option.some.inj h
      exact .settle _ _
  case postFetch.response status =>
    obtain rfl := Option.some.inj h
    unfold answeredPost
    split
    · exact .settle _ _
    · exact .readingPost
  case postBody.created jobId =>
    obtain rfl := Option.some.inj h
    unfold poll
    split
    · rename_i hs
      exact .stopped _ (Or.inl hs)
    · rename_i hs
      exact .fetching jobId (Bool.eq_false_iff.2 hs)
  case getFetch.rejected jobId b =>
    repeat' split at h
    · rename_i hab
      obtain rfl := Option.some.inj h
      exact .stopped _ (Or.inr (Or.inl hab))
    · cases h
    · obtain rfl := Option.some.inj h
      simp only [rejectedPoll]
      split
      · exact .settle _ _
      · exact .schedulePoll _ jobId (by simp)
  case getFetch.response jobId status =>
    obtain rfl := Option.some.inj h
    unfold answeredPoll
    split
    · exact .settle _ _
    · split
      · exact .settle _ _
      · exact .readingGet jobId
  case getBody.status jobId job =>
    obtain rfl := Option.some.inj h
    cases job with
    | succeeded translation => exact .settle _ _
    | failed status_code => exact .settle _ _
    | pending => exact .schedulePoll _ jobId (by simp)
  all_goals
    obtain rfl := Option.some.inj h
    exact .stopped _ (Or.inr (Or.inr rfl))

/-! ### The invariant -/

def pollTimers (s : PollSession) : ℕ := s.armed.countP fun t => t.2.isPoll

/-- The number of things that can take the poll loop further. -/
def activity (s : PollSession) : ℕ := s.awaiting.length + s.pollTimers

end PollSession

structure SessionInv (s : PollSession) : Prop where
  tracked : ∀ t ∈ s.armed, t.1 ∈ s.timers
  aborted : s.aborted = true → s.settled = true
  unsettled : s.settled = false → s.settlements = [] ∧ ∃ id, (id, .overall) ∈ s.armed
  settled : s.settled = true → s.settlements.length = 1 ∧ s.armed = []
  activity : s.activity ≤ 1
  accepted : (∃ a ∈ s.awaiting, a ≠ .postFetch) ∨ 0 < s.pollTimers → s.accepted = true

private theorem SessionInv.awaiting_length_le {s : PollSession} (hs : SessionInv s) :
    s.awaiting.length ≤ 1 := by
  have hactivity := hs.activity
  rw [PollSession.activity] at hactivity
  omega

namespace PollSession

private theorem armed_close {s : PollSession} (h : ∀ t ∈ s.armed, t.1 ∈ s.timers) (o : Settlement) :
    (s.close o).armed = [] := by
  simp only [close, List.filter_eq_nil_iff, decide_eq_true_eq, not_not]
  exact h

private theorem sessionInv_start : SessionInv start := by
  constructor <;> simp [start, setTimer, fetch, pollTimers, activity]

private theorem sessionInv_close {s : PollSession} (htracked : ∀ t ∈ s.armed, t.1 ∈ s.timers)
    (hnone : s.settlements = []) (hactivity : s.awaiting.length ≤ 1)
    (haccepted : (∃ a ∈ s.awaiting, a ≠ .postFetch) → s.accepted = true) (o : Settlement) :
    SessionInv (s.close o) := by
  have harmed : (s.close o).armed = [] := armed_close htracked o
  have hpolls : (s.close o).pollTimers = 0 := by simp [pollTimers, harmed]
  have hone : (s.close o).settlements.length = 1 := by simp [close, hnone]
  constructor
  case tracked => simp [harmed]
  case aborted => exact fun _ => rfl
  case unsettled => exact fun h => (nomatch h)
  case settled => exact fun _ => ⟨hone, harmed⟩
  case activity =>
    rw [activity, hpolls]
    exact hactivity
  case accepted =>
    rintro (h | h)
    · exact haccepted h
    · rw [hpolls] at h
      cases h

private theorem sessionInv_cancel {s : PollSession} (hs : SessionInv s) : SessionInv s.cancel := by
  unfold cancel
  split
  · exact hs
  · rename_i h
    have hopen : s.settled = false := Bool.eq_false_iff.2 h
    obtain ⟨hnone, -⟩ := hs.unsettled hopen
    have hawaiting : s.awaiting.length ≤ 1 := hs.awaiting_length_le
    exact sessionInv_close (s := { s with aborted := true }) hs.tracked hnone hawaiting
      (fun h => hs.accepted (Or.inl h)) _

/-- A continuation that starts when nothing else is going on leaves one thing going on, unless it settles the
session, the session has been aborted, or it stops at a body. -/
theorem activity_of_resumed {s s' : PollSession} {a : Await} {c : Completion} (hidle : s.awaiting = [])
    (hpolls : s.pollTimers = 0) (h : Resumed s a c s') :
    s'.activity ≤ 1 ∧ (s'.activity = 1 ∨ s'.settled = true ∨ s.aborted = true ∨ c = .badBody) := by
  rw [pollTimers] at hpolls
  cases h with
  | stopped f hstop => exact ⟨by simp [activity, pollTimers, hidle, hpolls], Or.inr hstop⟩
  | closed f o =>
    have hle : (s.armed.filter fun t => t.1 ∉ s.timers).countP (fun t => t.2.isPoll) ≤ 0 :=
      hpolls ▸ List.filter_sublist.countP_le
    have hactivity : ({ s with consecutivePollFailures := f }.close o).activity = 0 := by
      simp only [activity, pollTimers, close, hidle, List.length_nil]
      omega
    exact ⟨by omega, Or.inr (Or.inl rfl)⟩
  | scheduled | fetching | readingPost | readingGet =>
    simp [activity, pollTimers, setTimer, fetch, readBody, hidle, hpolls, List.countP_cons]

private theorem sessionInv_of_resumed {s s' : PollSession} {a : Await} {c : Completion} (hs : SessionInv s)
    (hidle : s.awaiting = []) (hpolls : s.pollTimers = 0) (haccepted : a ≠ .postFetch → s.accepted = true)
    (h : Resumed s a c s') : SessionInv s' := by
  have hactivity := (activity_of_resumed hidle hpolls h).1
  cases h with
  | stopped f _ =>
    exact ⟨hs.tracked, hs.aborted, hs.unsettled, hs.settled, hactivity, hs.accepted⟩
  | closed f o hopen =>
    exact sessionInv_close (s := { s with consecutivePollFailures := f }) hs.tracked (hs.unsettled hopen).1
      (by simp [hidle]) (by simp [hidle]) o
  | scheduled f jobId hopen ha =>
    obtain ⟨hnone, id, hid⟩ := hs.unsettled hopen
    constructor
    case tracked =>
      intro t ht
      rcases List.mem_cons.1 ht with rfl | ht
      · exact List.mem_cons_self ..
      · exact List.mem_cons_of_mem _ (hs.tracked t ht)
    case aborted => exact hs.aborted
    case unsettled => exact fun _ => ⟨hnone, id, List.mem_cons_of_mem _ hid⟩
    case settled =>
      intro hset
      have hset : s.settled = true := hset
      rw [hopen] at hset
      cases hset
    case activity => exact hactivity
    case accepted => exact fun _ => haccepted ha
  | fetching jobId hopen =>
    exact ⟨hs.tracked, hs.aborted, hs.unsettled, hs.settled, hactivity, fun _ => haccepted (by simp)⟩
  | readingPost =>
    exact ⟨hs.tracked, hs.aborted, hs.unsettled, hs.settled, hactivity, fun _ => rfl⟩
  | readingGet jobId =>
    exact ⟨hs.tracked, hs.aborted, hs.unsettled, hs.settled, hactivity, fun _ => haccepted (by simp)⟩

/-- A timer or an `await` that an event takes is all that was going on. -/
theorem idle_of_mem {s : PollSession} (hs : SessionInv s) {a : Await} (ha : a ∈ s.awaiting) :
    s.awaiting.erase a = [] ∧ s.pollTimers = 0 := by
  have hlen := List.length_erase_of_mem ha
  have hpos := List.length_pos_of_mem ha
  have hactivity := hs.activity
  rw [activity] at hactivity
  exact ⟨List.length_eq_zero_iff.1 (by omega), by omega⟩

theorem idle_of_armed {s : PollSession} (hs : SessionInv s) {id : ℕ} {jobId : JsString}
    (h : (id, .poll jobId) ∈ s.armed) :
    s.awaiting = [] ∧ s.pollTimers = 1 ∧
      (s.armed.erase (id, .poll jobId)).countP (fun t => t.2.isPoll) = 0 := by
  have hpolls : s.pollTimers = (s.armed.erase (id, .poll jobId)).countP (fun t => t.2.isPoll) + 1 := by
    rw [pollTimers, (List.perm_cons_erase h).countP_eq, List.countP_cons_of_pos (by simp)]
  have hactivity := hs.activity
  rw [activity] at hactivity
  exact ⟨List.length_eq_zero_iff.1 (by omega), by omega, by omega⟩

private theorem unsettled_of_armed {s : PollSession} (hs : SessionInv s) {t : ℕ × TimerKind}
    (ht : t ∈ s.armed) :
    s.settled = false := by
  cases hset : s.settled with
  | false => rfl
  | true =>
    have harmed : s.armed = [] := (hs.settled hset).2
    rw [harmed] at ht
    cases ht

theorem sessionInv_of_step {s s' : PollSession} {e : Event} (hs : SessionInv s) (h : s.step e = some s') :
    SessionInv s' := by
  cases e with
  | fire id kind =>
    simp only [step] at h
    split at h
    · rename_i hmem
      obtain rfl := Option.some.inj h
      have hopen : s.settled = false := unsettled_of_armed hs hmem
      obtain ⟨hnone, i, hi⟩ := hs.unsettled hopen
      have htracked : ∀ t ∈ s.armed.erase (id, kind), t.1 ∈ s.timers :=
        fun t ht => hs.tracked t (List.mem_of_mem_erase ht)
      cases kind with
      | overall =>
        rw [fire, settle, if_neg (by simp [hopen])]
        exact sessionInv_close (s := { s with armed := s.armed.erase (id, .overall), aborted := true }) htracked
          hnone hs.awaiting_length_le (fun h => hs.accepted (Or.inl h)) _
      | poll jobId =>
        obtain ⟨hidle, hone, hzero⟩ := idle_of_armed hs hmem
        have hi' : (i, .overall) ∈ s.armed.erase (id, .poll jobId) := (List.mem_erase_of_ne (by simp)).2 hi
        have haccepted : s.accepted = true := hs.accepted (Or.inr (by omega))
        rw [fire, poll, if_neg (by simp [hopen])]
        constructor
        case tracked => exact htracked
        case aborted => exact hs.aborted
        case unsettled => exact fun _ => ⟨hnone, i, hi'⟩
        case settled =>
          intro hset
          have hset : s.settled = true := hset
          rw [hopen] at hset
          cases hset
        case activity =>
          simp only [activity, fetch, pollTimers, hzero, hidle, List.length_singleton]
          omega
        case accepted => exact fun _ => haccepted
    · cases h
  | complete a c =>
    simp only [step] at h
    split at h
    · rename_i hmem
      obtain ⟨hidle, hpolls⟩ := idle_of_mem hs hmem
      refine sessionInv_of_resumed (s := { s with awaiting := s.awaiting.erase a }) ?_ hidle hpolls
        (fun ha => hs.accepted (Or.inl ⟨a, hmem, ha⟩)) (resumed_of_resume h)
      refine ⟨hs.tracked, hs.aborted, hs.unsettled, hs.settled, ?_, ?_⟩
      · have hzero : ({ s with awaiting := s.awaiting.erase a } : PollSession).pollTimers = 0 := hpolls
        rw [activity, hzero, hidle]
        exact Nat.zero_le _
      · rintro (⟨b, hb, hne⟩ | hpolls)
        · have hb' : b ∈ s.awaiting := List.mem_of_mem_erase hb
          exact hs.accepted (Or.inl ⟨b, hb', hne⟩)
        · exact hs.accepted (Or.inr hpolls)
    · cases h

/-! ### Settled sessions -/

/-- Nothing that a settled session does can be seen from outside. -/
structure Quiet (s s' : PollSession) : Prop where
  settled : s'.settled = true
  armed : s'.armed = []
  nextTimer : s'.nextTimer = s.nextTimer
  requests : s'.requests = s.requests
  settlements : s'.settlements = s.settlements

theorem Quiet.trans {s s' s'' : PollSession} (h : Quiet s s') (h' : Quiet s' s'') : Quiet s s'' where
  settled := h'.settled
  armed := h'.armed
  nextTimer := h'.nextTimer.trans h.nextTimer
  requests := h'.requests.trans h.requests
  settlements := h'.settlements.trans h.settlements

theorem quiet_of_step {s s' : PollSession} {e : Event} (hs : SessionInv s) (hset : s.settled = true)
    (h : s.step e = some s') : Quiet s s' := by
  have harmed : s.armed = [] := (hs.settled hset).2
  cases e with
  | fire id kind =>
    rw [step, harmed, if_neg (List.not_mem_nil)] at h
    cases h
  | complete a c =>
    simp only [step] at h
    split at h
    · cases resumed_of_resume h with
      | stopped | readingPost | readingGet => exact ⟨hset, harmed, rfl, rfl, rfl⟩
      | closed _ _ hopen | scheduled _ _ hopen | fetching _ hopen =>
        exact absurd (hopen.symm.trans hset) (by simp)
    · cases h

end PollSession

/-! ### Sessions in the module -/

theorem Client.session_of_step {c c' : Client} {e : ClientEvent} (h : c.step e = some c') (i : ℕ) :
    c'.sessions i = c.sessions i ∨
    (c.sessions i = none ∧ c'.sessions i = some .start) ∨
    (∃ s, e = .cancelTranslate ∧ c.currentSession = some i ∧ c.sessions i = some s ∧ s.settled = false ∧
      c'.sessions i = some s.cancel) ∨
    (∃ s e' s', e = .session i e' ∧ c.sessions i = some s ∧ s.step e' = some s' ∧
      c'.sessions i = some s') := by
  cases e with
  | translate j =>
    simp only [step] at h
    split at h
    · rename_i hj
      obtain rfl := Option.some.inj h
      by_cases hij : i = j
      · subst hij
        exact Or.inr (Or.inl ⟨hj, Function.update_self ..⟩)
      · exact Or.inl (Function.update_of_ne hij _ _)
    · cases h
  | cancelTranslate =>
    simp only [step] at h
    split at h
    · exact Or.inl (by rw [Option.some.inj h])
    · rename_i j hcur
      split at h
      · exact Or.inl (by rw [Option.some.inj h])
      · rename_i s hs
        split at h
        · exact Or.inl (by rw [Option.some.inj h])
        · rename_i hopen
          have hopen : s.settled = false := Bool.eq_false_iff.2 hopen
          obtain rfl := Option.some.inj h
          by_cases hij : i = j
          · subst hij
            exact Or.inr (Or.inr (Or.inl ⟨s, rfl, hcur, hs, hopen, Function.update_self ..⟩))
          · exact Or.inl (Function.update_of_ne hij _ _)
  | session j e =>
    simp only [step, Option.bind_eq_bind, Option.bind_eq_some_iff] at h
    obtain ⟨s, hs, s', hs', h⟩ := h
    obtain rfl := Option.some.inj h
    by_cases hij : i = j
    · subst hij
      exact Or.inr (Or.inr (Or.inr ⟨s, e, s', rfl, hs, hs', Function.update_self ..⟩))
    · exact Or.inl (Function.update_of_ne hij _ _)

def ClientInv (c : Client) : Prop := ∀ i s, c.sessions i = some s → SessionInv s

theorem clientInv_init : ClientInv .init := fun _ _ h => by cases h

theorem clientInv_of_step {c c' : Client} {e : ClientEvent} (hc : ClientInv c) (h : c.step e = some c') :
    ClientInv c' := by
  intro i s hs
  rcases Client.session_of_step h i with heq | ⟨-, hstart⟩ | ⟨s₀, -, -, hs₀, -, hcancel⟩ |
    ⟨s₀, e', s', -, hs₀, hstep, hs'⟩
  · rw [heq] at hs
    exact hc i s hs
  · obtain rfl : PollSession.start = s := by simpa [hstart] using hs
    exact PollSession.sessionInv_start
  · obtain rfl : s₀.cancel = s := by simpa [hcancel] using hs
    exact PollSession.sessionInv_cancel (hc i s₀ hs₀)
  · obtain rfl : s' = s := by simpa [hs'] using hs
    exact PollSession.sessionInv_of_step (hc i s₀ hs₀) hstep

theorem clientInv_of_run {es : List ClientEvent} {c : Client} (hrun : run Client.step .init es = some c) :
    ClientInv c :=
  invariant (fun _ _ _ hc h => clientInv_of_step hc h) clientInv_init hrun

theorem Client.quiet_of_run {fs : List ClientEvent} {c c' : Client} (hc : ClientInv c) {i : ℕ} {s : PollSession}
    (hs : c.sessions i = some s) (hset : s.settled = true) (hrun : run Client.step c fs = some c') :
    ∃ s', c'.sessions i = some s' ∧ PollSession.Quiet s s' := by
  have hquiet : PollSession.Quiet s s := ⟨hset, ((hc i s hs).settled hset).2, rfl, rfl, rfl⟩
  refine (invariant (I := fun d => ClientInv d ∧ ∃ s', d.sessions i = some s' ∧ PollSession.Quiet s s') ?_
    ⟨hc, s, hs, hquiet⟩ hrun).2
  rintro d e d' ⟨hd, s₁, hs₁, hq⟩ hstep
  refine ⟨clientInv_of_step hd hstep, ?_⟩
  rcases Client.session_of_step hstep i with heq | ⟨hnone, -⟩ | ⟨s₂, -, -, hs₂, hopen, -⟩ |
    ⟨s₂, e', s', -, hs₂, hstep', hs'⟩
  · exact ⟨s₁, heq.trans hs₁, hq⟩
  · rw [hs₁] at hnone
    cases hnone
  · obtain rfl : s₁ = s₂ := by simpa [hs₁] using hs₂
    have hset₁ : s₁.settled = true := hq.settled
    rw [hopen] at hset₁
    cases hset₁
  · obtain rfl : s₁ = s₂ := by simpa [hs₁] using hs₂
    have hq' : PollSession.Quiet s₁ s' := PollSession.quiet_of_step (hd i s₁ hs₁) hq.settled hstep'
    exact ⟨s', hs', hq.trans hq'⟩

/-- Session settlement.  In every state of the module, `resolve` or `reject` of a session has been called at
most once; an unsettled session has its overall timeout armed; and a settled one has been settled exactly
once, has no timer armed, and arms no timer, starts no request and settles nothing more whatever happens
next. -/
theorem session_settlement {es : List ClientEvent} {c : Client} (hrun : run Client.step .init es = some c)
    {i : ℕ} {s : PollSession} (hs : c.sessions i = some s) :
    s.settlements.length ≤ 1 ∧
      (s.settled = false → s.settlements = [] ∧ ∃ id, (id, TimerKind.overall) ∈ s.armed) ∧
      (s.settled = true → s.settlements.length = 1 ∧ s.armed = [] ∧
        ∀ fs c', run Client.step c fs = some c' → ∃ s', c'.sessions i = some s' ∧ PollSession.Quiet s s') := by
  have hc : ClientInv c := clientInv_of_run hrun
  have hinv : SessionInv s := hc i s hs
  refine ⟨?_, hinv.unsettled, ?_⟩
  · cases hset : s.settled with
    | false => simp [(hinv.unsettled hset).1]
    | true =>
      have hone : s.settlements.length = 1 := (hinv.settled hset).1
      omega
  · intro hset
    refine ⟨(hinv.settled hset).1, (hinv.settled hset).2, ?_⟩
    intro fs c' hrun'
    exact Client.quiet_of_run hc hs hset hrun'

/-- A session that is cancelled while the body of its `POST` is on its way. -/
theorem session_settlement_cancelled :
    ∃ c s, run Client.step .init [.translate 0, .session 0 (.complete .postFetch (.response 202)),
        .cancelTranslate] = some c ∧ c.sessions 0 = some s ∧ s.awaiting = [.postBody] ∧ s.armed = [] ∧
      ∀ fs c', run Client.step c fs = some c' → ∃ s', c'.sessions 0 = some s' ∧ PollSession.Quiet s s' := by
  obtain ⟨-, harmed, hquiet⟩ := (@session_settlement [.translate 0,
    .session 0 (.complete .postFetch (.response 202)), .cancelTranslate] _ rfl 0 _ rfl).2.2 rfl
  exact ⟨_, _, rfl, rfl, rfl, harmed, hquiet⟩

end KaqTranslator
