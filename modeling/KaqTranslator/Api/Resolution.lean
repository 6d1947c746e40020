import KaqTranslator.Api.Records

/-!
# Every job resolves

A job that has not expired is stored and complete whatever the processes do (`liveInv_of_step`), because the
sweep cannot touch it.  So once a process has made its terminal write, the job is terminal (`job_resolves`).
The gap is a Worker whose `get_item` is answered with the absence of the item: it returns normally and writes
nothing, and no failure event follows (`job_stalls_after_absent_read`).
-/

namespace KaqTranslator

open EventMachine RecordStore

/-! ### The moves of a Worker -/

/-- The steps of `worker_handler.handler`. -/
inductive WorkerMove (job_id : JobId) (answer : ℕ → Option JobItem) (c : Choice) :
    WorkerPc → Action WorkerPc → Prop where
  | absent {n : ℕ} (hc : c = .version n) (h : getJobInput (answer n) = .ok none) :
    WorkerMove job_id answer c .reading (.goto (.returning false))
  | found {n : ℕ} {request : TranslateRequest} (hc : c = .version n)
    (h : getJobInput (answer n) = .ok (some request)) :
    WorkerMove job_id answer c .reading (.goto (.calling request))
  | translated (request : TranslateRequest) (translation : Str) :
    WorkerMove job_id answer c (.calling request) (.goto (.succeeding request translation))
  | refused (request : TranslateRequest) (error : TranslationServiceError) :
    WorkerMove job_id answer c (.calling request) (.goto (.failing request error))
  | succeeded (request : TranslateRequest) (translation : Str) :
    WorkerMove job_id answer c (.succeeding request translation)
      ⟨.loggingSucceeded request, some (.succeeded translation), none⟩
  | failed (request : TranslateRequest) (error : TranslationServiceError) :
    WorkerMove job_id answer c (.failing request error)
      ⟨.loggingFailed request error, some (.failed error.status_code error.message), none⟩
  | loggedSucceeded (request : TranslateRequest) (latency : ℕ) :
    WorkerMove job_id answer c (.loggingSucceeded request) ⟨.returning true, none,
      some ⟨job_id, some (.direction request.direction), some request.text.length, some latency, 200, none⟩⟩
  | loggedFailed (request : TranslateRequest) (error : TranslationServiceError) (latency : ℕ) :
    WorkerMove job_id answer c (.loggingFailed request error) ⟨.returning true, none,
      some ⟨job_id, some (.direction request.direction), some request.text.length, some latency,
        error.status_code, some serviceErrorType⟩⟩
  | returned (found : Bool) : WorkerMove job_id answer c (.returning found) (.goto (.returned found))
  | crashed (pc : WorkerPc) : WorkerMove job_id answer c pc (.goto .crashed)

theorem WorkerPc.move_of_next {job_id : JobId} {answer : ℕ → Option JobItem} {pc : WorkerPc} {c : Choice}
    {a : Action WorkerPc} (h : pc.next job_id answer c = some a) : WorkerMove job_id answer c pc a := by
  cases pc <;> cases c <;> simp only [next, reduceCtorEq] at h
  case reading.version n =>
    split at h <;> obtain rfl := Option.some.inj h
    · exact .absent rfl ‹_›
    · exact .found rfl ‹_›
    · exact .crashed _
  case calling.endpoint request name outcome =>
    split at h <;> obtain rfl := Option.some.inj h
    · exact .translated _ _
    · exact .refused _ _
    · exact .crashed _
  all_goals obtain rfl := Option.some.inj h; constructor

/-! ### Jobs that have not expired -/

/-- The job was created by `create_job`, and its `ttl` has not passed. -/
def Sys.Fresh (s : Sys) (job_id : JobId) (sub : Submission) : Prop :=
  s.submitted job_id = some sub ∧ s.clock ≤ sub.now + jobTtlSeconds

theorem Sys.Fresh.of_step {s s' : Sys} {e : Event} {job_id : JobId} {sub : Submission}
    (hfresh : s'.Fresh job_id sub) (h : s.step e = some s') (hsub : s.submitted job_id ≠ none) :
    s.Fresh job_id sub := by
  obtain ⟨sub', hsub'⟩ := Option.ne_none_iff_exists'.1 hsub
  have hkept : s'.submitted job_id = some sub' := submitted_of_step h hsub'
  obtain rfl : sub' = sub := by
    rw [hfresh.1] at hkept
    exact (Option.some.inj hkept).symm
  have hclock : s.clock ≤ s'.clock := clock_of_step h
  exact ⟨hsub', Nat.le_trans hclock hfresh.2⟩

/-- The sweep does not take the item of a job that has not expired. -/
private theorem RecordOk.not_expired {item : JobItem} {sub : Submission} (h : RecordOk item sub) {clock : ℕ}
    (hclock : clock ≤ sub.now + jobTtlSeconds) : expired item clock = false := by
  have httl : item .ttl = some (.num (sub.now + jobTtlSeconds)) := h.submitted.2.2
  simp only [expired, httl, decide_eq_false_iff_not]
  omega

/-- The item of a job that has not expired is stored and complete. -/
def LiveInv (s : Sys) : Prop :=
  ∀ job_id sub, s.Fresh job_id sub → ∃ item, s.store.current job_id = some item ∧ RecordOk item sub

private theorem liveInv_init : LiveInv Sys.init := fun _ _ h => by cases h.1

theorem liveInv_of_step {s s' : Sys} {e : Event} (hs : LiveInv s) (h : s.step e = some s') : LiveInv s' := by
  intro job_id sub hfresh
  by_cases hsub : s.submitted job_id = none
  · obtain ⟨rfl, hnow⟩ := Sys.submitted_of_step_eq_none h hsub hfresh.1
    rw [Sys.step, if_pos ⟨hsub, hnow⟩] at h
    obtain rfl := Option.some.inj h
    exact ⟨newJob job_id sub.request sub.now, by simp, recordOk_newJob ..⟩
  · have hfresh₀ : s.Fresh job_id sub := hfresh.of_step h hsub
    obtain ⟨item, hitem, hok⟩ := hs job_id sub hfresh₀
    rcases Sys.current_of_step h job_id with ⟨hst, -⟩ | ⟨_, _, -, hnone, -⟩ | ⟨w, -, hst⟩ |
      ⟨item', -, hitem', hexp, -⟩
    · refine ⟨item, ?_, hok⟩
      rw [← hitem, History.current, hst, History.current]
    · exact absurd hnone hsub
    · obtain ⟨item', hmark, hok', -⟩ := hok.mark w job_id
      refine ⟨item', ?_, hok'⟩
      rw [hst, History.current_record, Function.update_self, hitem, hmark]
    · obtain rfl : item = item' := by
        rw [hitem] at hitem'
        exact Option.some.inj hitem'
      have hkept : expired item s.clock = false := hok.not_expired hfresh₀.2
      rw [hkept] at hexp
      cases hexp

private theorem LiveInv.terminal_of_step {s s' : Sys} {e : Event} (hs : LiveInv s) (h : s.step e = some s')
    {job_id : JobId} {sub : Submission} (hfresh : s.Fresh job_id sub) {item : JobItem}
    (hitem : s.store.current job_id = some item) (hterm : IsTerminal item) :
    s'.store.current job_id = some item := by
  rcases Sys.current_of_step h job_id with ⟨hst, -⟩ | ⟨_, _, -, hnone, -⟩ | ⟨w, -, hst⟩ |
    ⟨item', -, hitem', hexp, -⟩
  · rw [← hitem, History.current, hst, History.current]
  · rw [hfresh.1] at hnone
    cases hnone
  · rw [hst, History.current_record, Function.update_self, hitem, w.mark_of_isTerminal job_id hterm]
  · obtain ⟨item₀, hitem₀, hok⟩ := hs job_id sub hfresh
    obtain rfl : item₀ = item' := by
      rw [hitem₀] at hitem'
      exact Option.some.inj hitem'
    have hkept : expired item₀ s.clock = false := hok.not_expired hfresh.2
    rw [hkept] at hexp
    cases hexp

private theorem LiveInv.terminal_of_write {s s' : Sys} {e : Event} (hs : LiveInv s) (h : s.step e = some s')
    {job_id : JobId} {sub : Submission} (hfresh : s.Fresh job_id sub) {w : TerminalWrite}
    (hw : s.writeOf e = some (job_id, w)) :
    ∃ item, s'.store.current job_id = some item ∧ IsTerminal item := by
  obtain ⟨item, hitem, hok⟩ := hs job_id sub hfresh
  rcases Sys.current_of_step h job_id with ⟨-, hno⟩ | ⟨_, _, rfl, -⟩ | ⟨w', -, hst⟩ | ⟨_, rfl, -⟩
  · exact absurd hw (hno w)
  · cases hw
  · obtain ⟨item', hmark, -, hterm⟩ := hok.mark w' job_id
    refine ⟨item', ?_, hterm⟩
    rw [hst, History.current_record, Function.update_self, hitem, hmark]
  · cases hw

/-! ### Every job resolves -/

/-- A Worker that has made its terminal write or returned, or a failure handler that has made its write. -/
def Proc.Done : Proc → Prop
  | worker _ pc =>
    match pc with
    | .loggingSucceeded _ | .loggingFailed _ _ | .returning _ | .returned _ => True
    | _ => False
  | failureHandler _ pc => pc ≠ .marking
  | poll _ _ => False

private theorem Starts.not_done {s : Sys} {proc : Proc} (h : Starts s proc) : ¬ proc.Done := by
  cases h with
  | worker => exact id
  | failureHandler => exact fun hd => hd rfl
  | poll => exact id

private theorem getJobInput_some_ne (item : JobItem) : getJobInput (some item) ≠ .ok none := by
  intro h
  simp only [getJobInput, bind, Except.bind, pure, Except.pure] at h
  repeat' split at h
  all_goals cases h

/-- A process is done by a terminal write, or by a read that is answered with the absence of the item. -/
private theorem Proc.done_of_next {answer : JobId → ℕ → Option JobItem} {clock : ℕ} {proc : Proc} {c : Choice}
    {a : Action Proc} (h : proc.next answer clock c = some a) (hd : a.pc.Done) :
    proc.Done ∨ (∃ w, a.write = some w) ∨
      ∃ job_id n, proc = .worker job_id .reading ∧ c = .version n ∧ answer job_id n = none := by
  cases proc with
  | worker job_id pc =>
    simp only [next, Option.map_eq_some_iff] at h
    obtain ⟨b, hb, rfl⟩ := h
    cases WorkerPc.move_of_next hb with
    | @absent n hc hread =>
      have hnone : answer job_id n = none := by
        cases hans : answer job_id n with
        | none => rfl
        | some item =>
          rw [hans] at hread
          exact absurd hread (getJobInput_some_ne item)
      exact Or.inr (Or.inr ⟨job_id, n, rfl, hc, hnone⟩)
    | found | translated | refused => exact absurd hd id
    | succeeded | failed => exact Or.inr (Or.inl ⟨_, rfl⟩)
    | loggedSucceeded | loggedFailed | returned => exact Or.inl trivial
    | crashed => exact absurd hd id
  | failureHandler job_id pc =>
    simp only [next, Option.map_eq_some_iff] at h
    obtain ⟨b, hb, rfl⟩ := h
    cases pc with
    | marking =>
      cases c <;> simp only [HandlerPc.next, reduceCtorEq] at hb
      obtain rfl := Option.some.inj hb
      exact Or.inr (Or.inl ⟨_, rfl⟩)
    | _ => exact Or.inl (by simp [Done])
  | poll job_id pc =>
    obtain ⟨⟨pc', hpc', -⟩, -⟩ := poll_of_next h
    rw [hpc'] at hd
    exact hd.elim

/-- While the job has not expired, no `get_item` of its Worker is answered with the absence of the item. -/
def WorkerFindsJob (job_id : JobId) (s : Sys) (e : Event) : Prop :=
  ∀ p n sub, e = .advance p (.version n) → s.procs p = some (.worker job_id .reading) →
    s.Fresh job_id sub → s.store.answer job_id n ≠ none

structure ResolvesInv (job_id : JobId) (s : Sys) : Prop where
  created : JobsCreated s
  live : LiveInv s
  done : ∀ p proc sub, s.procs p = some proc → proc.job = job_id → proc.Done → s.Fresh job_id sub →
    ∃ item, s.store.current job_id = some item ∧ IsTerminal item

private theorem resolvesInv_init (job_id : JobId) : ResolvesInv job_id Sys.init :=
  ⟨jobsCreated_init, liveInv_init, fun _ _ _ hp => by cases hp⟩

private theorem JobsCreated.submitted_of_done {s : Sys} (hs : JobsCreated s) {p : ℕ} {proc : Proc}
    (hp : s.procs p = some proc) (hd : proc.Done) : s.submitted proc.job ≠ none := by
  rcases hs p proc hp with ⟨pc, hpc⟩ | hsub
  · rw [hpc] at hd
    exact hd.elim
  · exact hsub

theorem resolvesInv_of_step {job_id : JobId} {s s' : Sys} {e : Event} (hs : ResolvesInv job_id s)
    (he : WorkerFindsJob job_id s e) (h : s.step e = some s') : ResolvesInv job_id s' := by
  refine ⟨jobsCreated_of_step hs.created h, liveInv_of_step hs.live h, ?_⟩
  rintro p proc sub hp rfl hd hfresh
  -- a process that was done before the step: its job was terminal
  have hold : ∀ {proc₀ : Proc}, s.procs p = some proc₀ → proc₀.job = proc.job → proc₀.Done →
      ∃ item, s'.store.current proc.job = some item ∧ IsTerminal item := by
    intro proc₀ hp₀ hjob hd₀
    have hsub : s.submitted proc.job ≠ none := hjob ▸ hs.created.submitted_of_done hp₀ hd₀
    have hfresh₀ : s.Fresh proc.job sub := hfresh.of_step h hsub
    obtain ⟨item, hitem, hterm⟩ := hs.done p proc₀ sub hp₀ hjob hd₀ hfresh₀
    exact ⟨item, hs.live.terminal_of_step h hfresh₀ hitem hterm, hterm⟩
  rcases Sys.procs_of_step h p with ⟨hproc, -⟩ | ⟨proc', -, hstart, hproc, -⟩ |
    ⟨c, proc', a, rfl, hproc, ha, hw, rfl⟩
  · rw [hproc] at hp
    exact hold hp rfl hd
  · obtain rfl : proc' = proc := by simpa [hproc] using hp
    exact absurd hd hstart.not_done
  · obtain rfl : a.pc = proc := by simpa using hp
    have hjob : a.pc.job = proc'.job := Proc.job_of_next ha
    rcases Proc.done_of_next ha hd with hd₀ | ⟨w, haw⟩ | ⟨j, n, rfl, rfl, hans⟩
    · exact hold hproc hjob.symm hd₀
    · have hw' : s.writeOf (.advance p c) = some (a.pc.job, w) := by rw [hw, haw, hjob]; rfl
      have hsub : s.submitted a.pc.job ≠ none := hs.created.submitted_of_writeOf hw'
      have hfresh₀ : s.Fresh a.pc.job sub := hfresh.of_step h hsub
      exact hs.live.terminal_of_write h hfresh₀ hw'
    · -- the read that the condition excludes
      rw [hjob] at hfresh he
      have hsub : s.submitted j ≠ none := by
        rcases hs.created p _ hproc with ⟨pc, hpc⟩ | hsub
        · cases hpc
        · exact hsub
      have hfresh₀ : s.Fresh j sub := hfresh.of_step h hsub
      exact absurd hans (he p n sub rfl hproc hfresh₀)

/-- Every admitted job resolves.  While a job has not expired, it is terminal as soon as a Worker of it has
returned or its failure handler has made its write, in every run in which no `get_item` of its Worker is
answered with the absence of the item. -/
theorem job_resolves {es : List Event} {s : Sys} {job_id : JobId} {sub : Submission}
    (hrun : run Sys.step Sys.init es = some s)
    (hmeet : StepsMeet Sys.step (WorkerFindsJob job_id) Sys.init es) (hfresh : s.Fresh job_id sub) {p : ℕ}
    (hp : (∃ found, s.procs p = some (.worker job_id (.returned found))) ∨
      ∃ pc, s.procs p = some (.failureHandler job_id pc) ∧ pc ≠ .marking) :
    ∃ item, s.store.current job_id = some item ∧ IsTerminal item := by
  have hinv : ResolvesInv job_id s :=
    invariant_of_stepsMeet (fun _ _ _ hs he h => resolvesInv_of_step hs he h) (resolvesInv_init job_id) hmeet
      hrun
  rcases hp with ⟨found, hp⟩ | ⟨pc, hp, hpc⟩
  · exact hinv.done p _ sub hp rfl trivial hfresh
  · exact hinv.done p _ sub hp rfl hpc hfresh

/-- The Worker is killed before its write, and the failure handler marks the job. -/
def killedWorkerRun : List Event :=
  [.post 1 utzRequest 0, .deliver 0 1, .advance 0 (.version 0),
    .advance 0 .crash, .tick 90, .onFailure 1 0, .advance 1 .proceed]

theorem killedWorkerRun_resolves :
    ∃ s, run Sys.step Sys.init killedWorkerRun = some s ∧ s.clock = 90 ∧
      ∃ item, s.store.current 1 = some item ∧ IsTerminal item := by
  refine ⟨_, rfl, rfl, @job_resolves killedWorkerRun _ 1 ⟨utzRequest, 0⟩ rfl
    ?_ ⟨rfl, by decide⟩ 1 (Or.inr ⟨.reading, rfl, by simp⟩)⟩
  -- the only read of a Worker is the third event
  have hother : ∀ e, (∀ p n, e ≠ .advance p (.version n)) → ∀ s, WorkerFindsJob 1 s e := by
    intro e he s p n sub h
    exact absurd h (he p n)
  refine (stepsMeet_cons_of_eq rfl).2 ⟨hother _ (by simp) _, ?_⟩
  refine (stepsMeet_cons_of_eq rfl).2 ⟨hother _ (by simp) _, ?_⟩
  refine (stepsMeet_cons_of_eq rfl).2 ⟨?_, ?_⟩
  · rintro p n sub he - -
    cases he
    simp [History.answer, History.record]
  · apply stepsMeet_of_forall
    intro e he
    apply hother
    intro p n
    simp only [List.mem_cons, List.not_mem_nil, or_false] at he
    rcases he with rfl | rfl | rfl | rfl <;> simp

/-- A Worker that reads before its job is visible. -/
def earlyReadRun : List Event :=
  [.post 1 utzRequest 0, .deliver 0 1, .advance 0 (.version 1),
    .advance 0 .proceed]

/-- It returns normally, the job stays pending, and no failure event can follow. -/
theorem job_stalls_after_absent_read :
    ∃ s item, run Sys.step Sys.init earlyReadRun = some s ∧
      s.procs 0 = some (.worker 1 (.returned false)) ∧ s.clock = 0 ∧ s.store.current 1 = some item ∧
      item .status = some (.status .pending) ∧ ∀ q, s.step (.onFailure q 0) = none :=
  ⟨_, _, rfl, rfl, rfl, rfl, rfl, fun _ => rfl⟩

end KaqTranslator
