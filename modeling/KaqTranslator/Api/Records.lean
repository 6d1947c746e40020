import KaqTranslator.Api.Steps

/-!
# Complete records

A version of an item is complete when it carries what `create_job` wrote and the attributes that its status
asks for (`RecordOk`).  Terminal writes keep complete items complete, but `update_item` on a missing item is
an upsert: after the sweep has deleted a job, a late terminal write stores an item without `text`, `direction`
and `ttl` (`half_built_record`).

`records_complete_iff` says that this is the only way: every state of a run is complete, with polls and
failure handlers that never raise, if and only if every terminal write of the run finds the item of its job.
-/

namespace KaqTranslator

open EventMachine RecordStore

/-- The item carries what `create_job` wrote. -/
def Submitted (item : JobItem) (sub : Submission) : Prop :=
  item .text = some (.str sub.request.text) ∧ item .direction = some (.direction sub.request.direction) ∧
    item .ttl = some (.num (sub.now + jobTtlSeconds))

structure RecordOk (item : JobItem) (sub : Submission) : Prop where
  submitted : Submitted item sub
  shape : WellShaped item

inductive Outcome where
  | succeeded
  | failed (status_code : ℕ)
  deriving DecidableEq

def TerminalWrite.outcome : TerminalWrite → Outcome
  | succeeded _ => .succeeded
  | failed status_code _ => .failed status_code

def Outcome.StoredIn : Outcome → JobItem → Prop
  | succeeded, item => item .status = some (.status .succeeded)
  | failed status_code, item =>
    item .status = some (.status .failed) ∧ item .statusCode = some (.num status_code)

theorem recordOk_newJob (job_id : JobId) (request : TranslateRequest) (now : ℕ) :
    RecordOk (newJob job_id request now) ⟨request, now⟩ :=
  ⟨⟨rfl, rfl, rfl⟩, resolvedItem_wellShaped job_id request now none⟩

theorem Outcome.StoredIn.isTerminal {o : Outcome} {item : JobItem} (h : o.StoredIn item) : IsTerminal item := by
  cases o with
  | succeeded => exact Or.inl h
  | failed => exact Or.inr h.1

theorem TerminalWrite.mark_of_isTerminal (w : TerminalWrite) (job_id : JobId) {item : JobItem}
    (h : IsTerminal item) : w.mark job_id (some item) = some item := by
  have hclosed : notYetTerminal.eval item = false := not_notYetTerminal_of_isTerminal h
  rw [w.mark_eq, conditionalWrite_of_not_eval hclosed]

/-- A terminal write on a pending item writes its outcome, and nothing that `create_job` wrote. -/
theorem TerminalWrite.mark_of_pending (w : TerminalWrite) (job_id : JobId) {item : JobItem}
    (h : item .status = some (.status .pending)) (hshape : WellShaped item) :
    ∃ item', w.mark job_id (some item) = some item' ∧ w.outcome.StoredIn item' ∧ WellShaped item' ∧
      (∀ sub, Submitted item sub → Submitted item' sub) := by
  refine ⟨Item.set item w.fields, ?_, ?_, ?_, ?_⟩
  · have hopen : notYetTerminal.eval item = true := (notYetTerminal_eval item).2 (Or.inr h)
    rw [w.mark_eq, conditionalWrite_of_eval hopen]
  · cases w <;> simp [outcome, Outcome.StoredIn, fields, Item.set, Function.update]
  · obtain ⟨ht, hc, he⟩ := hshape.pending h
    cases w <;> constructor <;> simp [fields, Item.set, Function.update, IsTerminal, ht, hc, he]
  · rintro sub ⟨htext, hdirection, httl⟩
    cases w <;> exact ⟨htext, hdirection, httl⟩

theorem RecordOk.mark {item : JobItem} {sub : Submission} (h : RecordOk item sub) (w : TerminalWrite)
    (job_id : JobId) :
    ∃ item', w.mark job_id (some item) = some item' ∧ RecordOk item' sub ∧ IsTerminal item' := by
  rcases h.shape.status with hp | ht
  · obtain ⟨item', hmark, hstored, hshape, hsub⟩ := w.mark_of_pending job_id hp h.shape
    exact ⟨item', hmark, ⟨hsub sub h.submitted, hshape⟩, hstored.isTerminal⟩
  · exact ⟨item, w.mark_of_isTerminal job_id ht, h, ht⟩

/-! ### Reading a complete record -/

theorem getJob_of_recordOk {item : JobItem} {sub : Submission} (h : RecordOk item sub) (now : ℕ) :
    getJob (some item) now = .ok (if sub.now + jobTtlSeconds < now then none else some item) := by
  have httl : item .ttl = some (.num (sub.now + jobTtlSeconds)) := h.submitted.2.2
  by_cases hexp : sub.now + jobTtlSeconds < now <;>
    simp [getJob, fetch, httl, Value.toNat, hexp, bind, Except.bind, pure, Except.pure]

private theorem jobStatusResponse_of_wellShaped {item : JobItem} (h : WellShaped item) :
    ∃ body, jobStatusResponse item = .ok body := by
  unfold jobStatusResponse
  rcases h.status with hp | hs | hf
  · refine ⟨.pending, ?_⟩
    simp [fetch, hp, bind, Except.bind, pure, Except.pure]
  · obtain ⟨t, ht⟩ := (h.succeeded hs).1
    refine ⟨.succeeded t, ?_⟩
    simp [fetch, hs, ht, Value.toStr, bind, Except.bind, pure, Except.pure]
  · obtain ⟨⟨c, hc⟩, ⟨e, he⟩, -⟩ := h.failed hf
    refine ⟨.failed c e, ?_⟩
    simp [fetch, hf, hc, he, Value.toNat, Value.toStr, bind, Except.bind, pure, Except.pure]

private theorem failureLine_of_recordOk {item : JobItem} {sub : Submission} (h : RecordOk item sub)
    (job_id : JobId) :
    ∃ line, failureLine job_id (some item) = .ok line := by
  obtain ⟨htext, hdirection, -⟩ := h.submitted
  unfold failureLine
  refine ⟨⟨job_id, some (.direction sub.request.direction), some sub.request.text.length, none,
    workerFailureStatusCode, some workerFailureErrorType⟩, ?_⟩
  simp [htext, hdirection, Value.toStr, Except.map, bind, Except.bind, pure, Except.pure]

/-- The answer of a poll, from an absent item or a complete one: `404`, or a body before the `ttl`. -/
private theorem getTranslateJob_of_versionOk {answer : Option JobItem} {job_id : JobId} {now : ℕ}
    {submitted : Option Submission}
    (h : ∀ item, answer = some item → ∃ sub, submitted = some sub ∧ RecordOk item sub) :
    getTranslateJob (some job_id) (fun _ => answer) now = .error 404 jobNotFoundMessage ∨
      ∃ sub body, submitted = some sub ∧ now ≤ sub.now + jobTtlSeconds ∧
        getTranslateJob (some job_id) (fun _ => answer) now = .ok body := by
  cases answer with
  | none => exact Or.inl rfl
  | some item =>
    obtain ⟨sub, hsub, hok⟩ := h item rfl
    have hjob := getJob_of_recordOk hok now
    by_cases hexp : sub.now + jobTtlSeconds < now
    · left
      simp [getTranslateJob, hjob, hexp]
    · right
      obtain ⟨body, hbody⟩ := jobStatusResponse_of_wellShaped hok.shape
      refine ⟨sub, body, hsub, by omega, ?_⟩
      simp [getTranslateJob, hjob, hexp, hbody]

/-- The failure handler logs a line, from an absent item or a complete one. -/
private theorem failureLine_of_versionOk {answer : Option JobItem} {job_id : JobId} {now : ℕ}
    {submitted : Option Submission}
    (h : ∀ item, answer = some item → ∃ sub, submitted = some sub ∧ RecordOk item sub) :
    ∃ line, (getJob answer now >>= failureLine job_id) = .ok line := by
  cases answer with
  | none => exact ⟨_, rfl⟩
  | some item =>
    obtain ⟨sub, -, hok⟩ := h item rfl
    rw [getJob_of_recordOk hok]
    by_cases hexp : sub.now + jobTtlSeconds < now
    · rw [if_pos hexp]
      exact ⟨_, rfl⟩
    · rw [if_neg hexp]
      exact failureLine_of_recordOk hok job_id

/-! ### The invariant -/

/-- A version of a job's item is absent or complete. -/
def VersionOk (submitted : JobId → Option Submission) (job_id : JobId) (v : Option JobItem) : Prop :=
  ∀ item, v = some item → ∃ sub, submitted job_id = some sub ∧ RecordOk item sub

/-- What a process has read is complete, what it has answered follows from that, and a failure handler has
logged one line exactly when it has finished. -/
def ProcOk (s : Sys) (p : ℕ) : Proc → Prop
  | .worker _ _ => True
  | .failureHandler job_id pc =>
    match pc with
    | .marking | .reading => s.linesOf p = []
    | .checking answer => VersionOk s.submitted job_id answer ∧ s.linesOf p = []
    | .finished => (s.linesOf p).length = 1
    | .raised => False
  | .poll job_id pc =>
    match pc with
    | .reading => True
    | .checking answer => VersionOk s.submitted job_id answer
    | .answered time response =>
      response = .error 404 jobNotFoundMessage ∨
        ∃ sub body, s.submitted job_id = some sub ∧ time ≤ sub.now + jobTtlSeconds ∧ response = .ok body

structure RecordsInv (s : Sys) : Prop where
  versions : ∀ job_id, ∀ v ∈ s.store job_id, VersionOk s.submitted job_id v
  procs : ∀ p proc, s.procs p = some proc → ProcOk s p proc
  lines : ∀ p, s.procs p = none → s.linesOf p = []

theorem VersionOk.mono {submitted submitted' : JobId → Option Submission}
    (hsub : ∀ j sub, submitted j = some sub → submitted' j = some sub) {job_id : JobId} {v : Option JobItem}
    (h : VersionOk submitted job_id v) : VersionOk submitted' job_id v := by
  intro item hitem
  obtain ⟨sub, hs, hok⟩ := h item hitem
  exact ⟨sub, hsub _ _ hs, hok⟩

theorem ProcOk.mono {s s' : Sys} {p : ℕ} (hsub : ∀ j sub, s.submitted j = some sub → s'.submitted j = some sub)
    (hlines : s'.linesOf p = s.linesOf p) {proc : Proc} (h : ProcOk s p proc) : ProcOk s' p proc := by
  rcases proc with ⟨j, pc⟩ | ⟨j, _ | _ | answer | _ | _⟩ | ⟨j, _ | answer | ⟨time, response⟩⟩
  · trivial
  · exact hlines.trans h
  · exact hlines.trans h
  · exact ⟨h.1.mono hsub, hlines.trans h.2⟩
  · exact (congrArg List.length hlines).trans h
  · exact h
  · trivial
  · exact VersionOk.mono hsub h
  · rcases h with h | ⟨sub, body, hs, ht, hr⟩
    · exact Or.inl h
    · exact Or.inr ⟨sub, body, hsub _ _ hs, ht, hr⟩

theorem RecordsInv.answer {s : Sys} (hs : RecordsInv s) (job_id : JobId) (n : ℕ) :
    VersionOk s.submitted job_id (s.store.answer job_id n) := by
  intro item hitem
  exact hs.versions job_id _ (History.answer_mem hitem) item rfl

theorem RecordsInv.current {s : Sys} (hs : RecordsInv s) (job_id : JobId) :
    VersionOk s.submitted job_id (s.store.current job_id) := by
  rw [History.current_eq_answer]
  exact hs.answer job_id 0

private theorem RecordsInv.procOk_of_next {s : Sys} (hs : RecordsInv s) {p : ℕ} {proc : Proc}
    (h : ProcOk s p proc)
    {c : Choice} {a : Action Proc} (ha : proc.next s.store.answer s.clock c = some a) :
    ProcOk (s.commit p proc.job a) p a.pc := by
  have hlines := s.linesOf_commit_self p proc.job a
  cases proc with
  | worker job_id pc =>
    simp only [Proc.next, Option.map_eq_some_iff] at ha
    obtain ⟨b, -, rfl⟩ := ha
    trivial
  | failureHandler job_id pc =>
    simp only [Proc.next, Option.map_eq_some_iff] at ha
    obtain ⟨b, hb, rfl⟩ := ha
    rcases pc with _ | _ | answer | _ | _ <;> cases c <;> simp only [HandlerPc.next, reduceCtorEq] at hb
    · obtain rfl := Option.some.inj hb
      exact hlines.trans h
    · obtain rfl := Option.some.inj hb
      exact ⟨hs.answer job_id _, hlines.trans h⟩
    · have hok : ∃ line, (getJob answer s.clock >>= failureLine job_id) = .ok line :=
        failureLine_of_versionOk h.1
      obtain ⟨line, hline⟩ := hok
      rw [hline] at hb
      obtain rfl := Option.some.inj hb
      show (Sys.linesOf _ p).length = 1
      rw [hlines, h.2]
      rfl
  | poll job_id pc =>
    obtain ⟨⟨pc', hpc', hnext⟩, -, -⟩ := Proc.poll_of_next ha
    rw [hpc']
    rcases pc with _ | answer | ⟨time, response⟩ <;> cases c <;>
      simp only [PollPc.next, reduceCtorEq, Option.some.injEq, Action.goto, Action.mk.injEq] at hnext
    · obtain ⟨rfl, -⟩ := hnext
      exact hs.answer job_id _
    · obtain ⟨rfl, -⟩ := hnext
      exact getTranslateJob_of_versionOk h

/-- Every terminal write of the step finds the item of its job. -/
def WriteFindsItem (s : Sys) (e : Event) : Prop :=
  ∀ job_id w, s.writeOf e = some (job_id, w) → s.store.current job_id ≠ none

private theorem versionsOk_of_step {s s' : Sys} {e : Event} (hs : RecordsInv s) (he : WriteFindsItem s e)
    (h : s.step e = some s') (job_id : JobId) : ∀ v ∈ s'.store job_id, VersionOk s'.submitted job_id v := by
  have hsub : ∀ j sub, s.submitted j = some sub → s'.submitted j = some sub :=
    fun _ _ hj => Sys.submitted_of_step h hj
  have hold : ∀ v ∈ s.store job_id, VersionOk s'.submitted job_id v :=
    fun v hv => (hs.versions job_id v hv).mono hsub
  -- a new version, if there is one, and the versions before it
  suffices ∀ v, s'.store = s.store.record job_id v → VersionOk s'.submitted job_id v →
      ∀ v ∈ s'.store job_id, VersionOk s'.submitted job_id v by
    rcases Sys.current_of_step h job_id with ⟨hst, -⟩ | ⟨r, n, -, -, hnew, hst⟩ | ⟨w, hw, hst⟩ |
      ⟨item, -, -, -, hst⟩
    · rwa [hst]
    · refine this _ hst ?_
      intro item hitem
      obtain rfl : newJob job_id r n = item := Option.some.inj hitem
      exact ⟨⟨r, n⟩, hnew, recordOk_newJob job_id r n⟩
    · refine this _ hst ?_
      intro item' hitem'
      have hfound : s.store.current job_id ≠ none := he job_id w hw
      obtain ⟨item, hitem⟩ := Option.ne_none_iff_exists'.1 hfound
      obtain ⟨sub, hcreated, hok⟩ := hs.current job_id item hitem
      obtain ⟨item'', hmark, hok', -⟩ := hok.mark w job_id
      rw [hitem, hmark] at hitem'
      obtain rfl : item'' = item' := Option.some.inj hitem'
      exact ⟨sub, hsub job_id sub hcreated, hok'⟩
    · refine this _ hst ?_
      intro item hitem
      cases hitem
  intro v hst hv u hu
  rw [hst, History.mem_record] at hu
  rcases hu with ⟨-, rfl⟩ | hu
  · exact hv
  · exact hold u hu

theorem recordsInv_of_step {s s' : Sys} {e : Event} (hs : RecordsInv s) (he : WriteFindsItem s e)
    (h : s.step e = some s') : RecordsInv s' := by
  have hsub : ∀ j sub, s.submitted j = some sub → s'.submitted j = some sub :=
    fun _ _ hj => Sys.submitted_of_step h hj
  refine ⟨versionsOk_of_step hs he h, ?_, ?_⟩
  · intro p proc hp
    rcases Sys.procs_of_step h p with ⟨hproc, hlines⟩ | ⟨proc', hnone, hstart, hproc, hlines, -⟩ |
      ⟨c, proc', a, -, hproc, ha, -, rfl⟩
    · rw [hproc] at hp
      have hok : ProcOk s p proc := hs.procs p proc hp
      exact hok.mono hsub hlines
    · obtain rfl : proc' = proc := by simpa [hproc] using hp
      have hempty : s.linesOf p = [] := hs.lines p hnone
      cases hstart with
      | worker => trivial
      | failureHandler => exact hlines.trans hempty
      | poll => trivial
    · obtain rfl : a.pc = proc := by simpa using hp
      have hok : ProcOk s p proc' := hs.procs p proc' hproc
      exact hs.procOk_of_next hok ha
  · intro p hp
    rcases Sys.procs_of_step h p with ⟨hproc, hlines⟩ | ⟨proc, -, -, hproc, -, -⟩ |
      ⟨c, proc, a, -, -, -, -, rfl⟩
    · rw [hproc] at hp
      exact hlines.trans (hs.lines p hp)
    · rw [hproc] at hp
      cases hp
    · rw [Sys.commit_procs, Function.update_self] at hp
      cases hp

private theorem recordsInv_init : RecordsInv Sys.init :=
  ⟨fun _ _ hv => (List.not_mem_nil hv).elim, fun _ _ hp => (Option.some_ne_none _ hp.symm).elim, fun _ _ => rfl⟩

/-! ### Items and polls without exceptions -/

/-- Every stored item has `status`, `text`, `direction` and `ttl`; no poll has hit an exception, and one whose
job was past its `ttl` was answered `404`; no failure handler has raised, and one that has finished logged one
line. -/
structure Complete (s : Sys) : Prop where
  stored : ∀ job_id item, s.store.current job_id = some item →
    item .status ≠ none ∧ item .text ≠ none ∧ item .direction ≠ none ∧ item .ttl ≠ none
  poll : ∀ p job_id time response, s.procs p = some (.poll job_id (.answered time response)) →
    (∀ message, response ≠ .error 500 message) ∧
      ∀ sub, s.submitted job_id = some sub → sub.now + jobTtlSeconds < time →
        response = .error 404 jobNotFoundMessage
  handler : ∀ p job_id pc, s.procs p = some (.failureHandler job_id pc) →
    pc ≠ .raised ∧ (pc = .finished → (s.linesOf p).length = 1)

theorem RecordsInv.complete {s : Sys} (hs : RecordsInv s) : Complete s := by
  constructor
  · intro job_id item hitem
    obtain ⟨sub, -, ⟨htext, hdirection, httl⟩, hshape⟩ := hs.current job_id item hitem
    have hstatus : item .status ≠ none := by
      rcases hshape.status with h | h | h <;> simp [h]
    exact ⟨hstatus, by simp [htext], by simp [hdirection], by simp [httl]⟩
  · intro p job_id time response hp
    rcases hs.procs p _ hp with rfl | ⟨sub, body, hsub, htime, rfl⟩
    · exact ⟨by simp, fun _ _ _ => rfl⟩
    · refine ⟨by simp, ?_⟩
      intro sub' hsub' hlt
      obtain rfl : sub = sub' := by
        rw [hsub] at hsub'
        exact Option.some.inj hsub'
      omega
  · intro p job_id pc hp
    have hok := hs.procs p _ hp
    constructor
    · rintro rfl
      exact hok
    · rintro rfl
      exact hok

/-- A terminal write that does not find the item leaves one without the submitted text. -/
private theorem not_complete_of_write_absent {s s' : Sys} {e : Event} (he : ¬ WriteFindsItem s e)
    (h : s.step e = some s') : ¬ Complete s' := by
  simp only [WriteFindsItem, not_forall, not_not] at he
  obtain ⟨job_id, w, hw, hnone⟩ := he
  intro hc
  rcases Sys.current_of_step h job_id with ⟨-, hno⟩ | ⟨r, n, rfl, -⟩ | ⟨w', hw', hst⟩ | ⟨item, rfl, -⟩
  · exact hno w hw
  · cases hw
  · obtain rfl : w = w' := by
      rw [hw] at hw'
      cases hw'
      rfl
    have hcur : s'.store.current job_id = some (Item.set (keyItem job_id) w.fields) := by
      rw [hst, History.current_record, Function.update_self, hnone, w.mark_eq, conditionalWrite_none rfl]
    have htext : Item.set (keyItem job_id) w.fields .text = none := by cases w <;> rfl
    exact (hc.stored job_id _ hcur).2.1 htext
  · cases hw

/-- Record completeness.  Every state of a run is complete if and only if every terminal write of the run
finds the item of its job in the table. -/
theorem records_complete_iff {es : List Event} {s : Sys} (hrun : run Sys.step Sys.init es = some s) :
    (∀ pre post u, es = pre ++ post → run Sys.step Sys.init pre = some u → Complete u) ↔
      StepsMeet Sys.step WriteFindsItem Sys.init es := by
  refine always_iff_stepsMeet (fun _ hs => hs.complete) ?_ ?_ recordsInv_init hrun
  · exact fun _ _ _ hs he h => recordsInv_of_step hs he h
  · -- a write that does not find its item leaves an incomplete state
    exact fun _ _ _ _ hfail h => not_complete_of_write_absent hfail h

/-- A Worker that outlives its job: the sweep deletes the item before the failure handler marks it. -/
def lateFailureRun : List Event :=
  [.post 1 utzRequest 0, .deliver 0 1, .advance 0 (.version 0),
    .advance 0 .crash, .tick 3601, .sweep 1, .onFailure 1 0, .advance 1 .proceed, .advance 1 (.version 0),
    .advance 1 .proceed, .get 2 1, .advance 2 (.version 0), .advance 2 .proceed]

/-- The mark stores an item that has only `job_id` and the failure, and both the handler's own read and a poll
then raise. -/
theorem half_built_record :
    ∃ s, run Sys.step Sys.init lateFailureRun = some s ∧ ¬ Complete s ∧
      (∃ item, s.store.current 1 = some item ∧ item .text = none ∧ item .ttl = none) ∧
      s.procs 1 = some (.failureHandler 1 .raised) ∧ s.linesOf 1 = [] ∧
      s.procs 2 = some (.poll 1 (.answered 3601 (.error 500 unexpectedErrorMessage))) := by
  refine ⟨_, rfl, fun hc => ?_, ⟨_, rfl, rfl, rfl⟩, rfl, rfl, rfl⟩
  exact (hc.handler 1 1 .raised rfl).1 rfl

theorem lateFailureRun_not_stepsMeet : ¬ StepsMeet Sys.step WriteFindsItem Sys.init lateFailureRun := by
  intro hmeet
  have hall := (@records_complete_iff lateFailureRun _ rfl).2 hmeet
  have hcomplete := hall lateFailureRun [] _ (by simp) rfl
  exact (hcomplete.handler 1 1 .raised rfl).1 rfl

end KaqTranslator
