import KaqTranslator.Api.Resolution

/-!
# What the resolution log says

A `translate_job_resolved` line is written by the process that made the terminal write, from its own
arguments: the write is dropped silently when another one has landed before.  So an outcome is announced from
the write on, first by the process that is about to log it and then by its line (`Sys.Announced`).

As long as no terminal write comes after a different outcome was stored, every announced outcome is the stored
one (`resolution_lines_agree`); a writer that loses the race logs an outcome that was never stored
(`losing_writer_logs_its_own_outcome`).
-/

namespace KaqTranslator

open EventMachine RecordStore

/-! ### Outcomes -/

def LogLine.outcome (line : LogLine) : Outcome :=
  if line.status_code = 200 ∧ line.error_type = none then .succeeded else .failed line.status_code

def LogLine.Agrees (line : LogLine) (item : JobItem) : Prop :=
  ((line.status_code = 200 ∧ line.error_type = none) ↔ item .status = some (.status .succeeded)) ∧
    (item .status ≠ some (.status .succeeded) →
      item .status = some (.status .failed) ∧ item .statusCode = some (.num line.status_code))

private theorem Outcome.StoredIn.unique {o o' : Outcome} {item : JobItem} (h : o.StoredIn item)
    (h' : o'.StoredIn item) : o = o' := by
  cases o <;> cases o' <;> simp_all [StoredIn]

private theorem LogLine.agrees_of_storedIn {line : LogLine} {item : JobItem} (h : line.outcome.StoredIn item) :
    line.Agrees item := by
  by_cases hline : line.status_code = 200 ∧ line.error_type = none
  · rw [outcome, if_pos hline] at h
    exact ⟨iff_of_true hline h, fun hne => absurd h hne⟩
  · rw [outcome, if_neg hline] at h
    have hfailed : item .status ≠ some (.status .succeeded) := by
      rw [h.1]
      simp
    exact ⟨iff_of_false hline hfailed, fun _ => h⟩

/-! ### What processes announce -/

/-- The outcome that the process is about to log. -/
def Proc.reports : Proc → Option Outcome
  | worker _ (.loggingSucceeded _) => some .succeeded
  | worker _ (.loggingFailed _ error) => some (.failed error.status_code)
  | failureHandler _ .reading | failureHandler _ (.checking _) => some (.failed workerFailureStatusCode)
  | _ => none

/-- The outcome is in a line of the job, or a process is about to log it. -/
def Sys.Announced (s : Sys) (job_id : JobId) (o : Outcome) : Prop :=
  (∃ p line, (p, line) ∈ s.logs ∧ line.job_id = job_id ∧ line.outcome = o) ∨
    ∃ p proc, s.procs p = some proc ∧ proc.job = job_id ∧ proc.reports = some o

private theorem Starts.reports {s : Sys} {proc : Proc} (h : Starts s proc) : proc.reports = none := by
  cases h <;> rfl

private theorem failureLine_outcome {job_id : JobId} {answer : Option JobItem} {clock : ℕ} {line : LogLine}
    (h : (getJob answer clock >>= failureLine job_id) = .ok line) :
    line.job_id = job_id ∧ line.outcome = .failed workerFailureStatusCode := by
  obtain ⟨job, -, h⟩ : ∃ job, getJob answer clock = .ok job ∧ failureLine job_id job = .ok line := by
    cases hg : getJob answer clock with
    | error e => rw [hg] at h; cases h
    | ok job => rw [hg] at h; exact ⟨job, rfl, h⟩
  simp only [failureLine, bind, Except.bind, pure, Except.pure] at h
  repeat' split at h
  all_goals first | cases h; exact ⟨rfl, rfl⟩ | cases h

/-- A step announces no outcome but that of its own terminal write, and logs the outcome announced before. -/
private theorem Proc.reports_of_next {answer : JobId → ℕ → Option JobItem} {clock : ℕ} {proc : Proc}
    {c : Choice}
    {a : Action Proc} (h : proc.next answer clock c = some a) :
    (∀ o, a.pc.reports = some o → proc.reports = some o ∨ ∃ w, a.write = some w ∧ w.outcome = o) ∧
      (∀ line, a.log = some line → line.job_id = proc.job ∧ proc.reports = some line.outcome) := by
  cases proc with
  | worker job_id pc =>
    simp only [next, Option.map_eq_some_iff] at h
    obtain ⟨b, hb, rfl⟩ := h
    cases WorkerPc.move_of_next hb <;> simp [Action.map, Action.goto, reports, TerminalWrite.outcome, job,
      LogLine.outcome]
  | failureHandler job_id pc =>
    simp only [next, Option.map_eq_some_iff] at h
    obtain ⟨b, hb, rfl⟩ := h
    rcases pc with _ | _ | answer | _ | _ <;> cases c <;> simp only [HandlerPc.next, reduceCtorEq] at hb
    · obtain rfl := Option.some.inj hb
      simp [Action.map, reports, TerminalWrite.outcome]
    · obtain rfl := Option.some.inj hb
      simp [Action.map, Action.goto, reports]
    · split at hb <;> obtain rfl := Option.some.inj hb
      · obtain ⟨hjob, hline⟩ := failureLine_outcome ‹_›
        simp [Action.map, reports, hjob, hline, job]
      · simp [Action.map, Action.goto, reports]
  | poll job_id pc =>
    obtain ⟨⟨pc', hpc', -⟩, -, hlog⟩ := poll_of_next h
    rw [hpc', hlog]
    simp [reports]

private theorem Sys.announced_of_step {s s' : Sys} {e : Event} (h : s.step e = some s') {job_id : JobId}
    {o : Outcome}
    (ho : s'.Announced job_id o) :
    s.Announced job_id o ∨ ∃ w, s.writeOf e = some (job_id, w) ∧ w.outcome = o := by
  rcases ho with ⟨p, line, hmem, hjob, hline⟩ | ⟨p, proc, hp, hjob, hrep⟩
  · rcases step_cases h with ⟨_, _, _, rfl, _, _, rfl⟩ | ⟨_, _, _, _, _, _, rfl⟩ |
      ⟨q, c, proc, a, rfl, hproc, ha, hw, rfl⟩ | ⟨_, rfl, rfl⟩ | ⟨_, _, rfl, _, _, rfl⟩
    case inr.inr.inl =>
      cases hlog : a.log with
      | none => exact Or.inl (Or.inl ⟨p, line, by simpa [commit, hlog] using hmem, hjob, hline⟩)
      | some line' =>
        simp only [commit, hlog, List.mem_cons, Prod.mk.injEq] at hmem
        rcases hmem with ⟨rfl, rfl⟩ | hmem
        · -- the line of this step: its process was about to log that outcome
          obtain ⟨hjob', hrep⟩ := (Proc.reports_of_next ha).2 line hlog
          have hproc_job : proc.job = job_id := hjob'.symm.trans hjob
          exact Or.inl (Or.inr ⟨p, proc, hproc, hproc_job, hline ▸ hrep⟩)
        · exact Or.inl (Or.inl ⟨p, line, hmem, hjob, hline⟩)
    all_goals exact Or.inl (Or.inl ⟨p, line, hmem, hjob, hline⟩)
  · rcases procs_of_step h p with ⟨hproc, -⟩ | ⟨proc', -, hstart, hproc, -⟩ |
      ⟨c, proc', a, rfl, hproc, ha, hw, rfl⟩
    · rw [hproc] at hp
      exact Or.inl (Or.inr ⟨p, proc, hp, hjob, hrep⟩)
    · obtain rfl : proc' = proc := by simpa [hproc] using hp
      have hnone : proc'.reports = none := hstart.reports
      rw [hnone] at hrep
      cases hrep
    · obtain rfl : a.pc = proc := by simpa using hp
      have hjob' : proc'.job = job_id := (Proc.job_of_next ha).symm.trans hjob
      rcases (Proc.reports_of_next ha).1 o hrep with hrep | ⟨w, haw, hwo⟩
      · exact Or.inl (Or.inr ⟨p, proc', hproc, hjob', hrep⟩)
      · have hwrite : s.writeOf (.advance p c) = some (job_id, w) := by rw [hw, haw, hjob']; rfl
        exact Or.inr ⟨w, hwrite, hwo⟩

/-! ### Agreement -/

/-- A terminal write, on an item or on none: it leaves a terminal item, the stored one or one that carries
it. -/
private theorem TerminalWrite.mark_cases (w : TerminalWrite) (job_id : JobId) {stored : Option JobItem}
    (h : ∀ item, stored = some item → WellShaped item) :
    ∃ item', w.mark job_id stored = some item' ∧ WellShaped item' ∧ IsTerminal item' ∧
      (stored = some item' ∨ w.outcome.StoredIn item') := by
  cases stored with
  | none =>
    have hmark : w.mark job_id none = some (Item.set (keyItem job_id) w.fields) := by
      rw [w.mark_eq, conditionalWrite_none rfl]
    refine ⟨Item.set (keyItem job_id) w.fields, hmark, ?_, ?_, Or.inr ?_⟩
    · cases w <;> constructor <;> simp [fields, Item.set, keyItem, Function.update, IsTerminal]
    · cases w <;> simp [fields, Item.set, Function.update, IsTerminal]
    · cases w <;> simp [fields, Item.set, Function.update, outcome, Outcome.StoredIn]
  | some item =>
    rcases (h item rfl).status with hp | ht
    · obtain ⟨item', hmark, hstored, hshape, -⟩ := w.mark_of_pending job_id hp (h item rfl)
      exact ⟨item', hmark, hshape, hstored.isTerminal, Or.inr hstored⟩
    · exact ⟨item, w.mark_of_isTerminal job_id ht, h item rfl, ht, Or.inl rfl⟩

/-- No terminal write of the step for the job comes after another outcome was stored. -/
def WritesAgree (job_id : JobId) (s : Sys) (e : Event) : Prop :=
  ∀ w, s.writeOf e = some (job_id, w) → ∀ item, some item ∈ s.store job_id → IsTerminal item →
    w.outcome.StoredIn item

/-- An announced outcome is that of every terminal version of the item; there is one, and the item stored now
is not pending. -/
structure Settled (job_id : JobId) (s : Sys) (o : Outcome) : Prop where
  submitted : s.submitted job_id ≠ none
  stored : ∃ item, some item ∈ s.store job_id ∧ IsTerminal item
  agree : ∀ item, some item ∈ s.store job_id → IsTerminal item → o.StoredIn item
  current : ∀ item, s.store.current job_id = some item → IsTerminal item

structure AgreeInv (job_id : JobId) (s : Sys) : Prop where
  created : JobsCreated s
  shape : ∀ item, some item ∈ s.store job_id → WellShaped item
  settled : ∀ o, s.Announced job_id o → Settled job_id s o

private theorem agreeInv_init (job_id : JobId) : AgreeInv job_id Sys.init := by
  refine ⟨jobsCreated_init, fun _ h => (List.not_mem_nil h).elim, fun o ho => ?_⟩
  rcases ho with ⟨_, _, hmem, -⟩ | ⟨_, _, hp, -⟩
  · exact (List.not_mem_nil hmem).elim
  · cases hp

private theorem AgreeInv.shape_current {job_id : JobId} {s : Sys} (hs : AgreeInv job_id s) {item : JobItem}
    (h : s.store.current job_id = some item) : WellShaped item := by
  rw [History.current_eq_answer] at h
  exact hs.shape item (History.answer_mem h)

private theorem AgreeInv.shape_of_step {job_id : JobId} {s s' : Sys} {e : Event} (hs : AgreeInv job_id s)
    (h : s.step e = some s') : ∀ item, some item ∈ s'.store job_id → WellShaped item := by
  intro item hitem
  rcases Sys.current_of_step h job_id with ⟨hst, -⟩ | ⟨r, n, -, -, -, hst⟩ | ⟨w, -, hst⟩ | ⟨_, -, -, -, hst⟩
  · exact hs.shape item (hst ▸ hitem)
  all_goals rw [hst, History.mem_record] at hitem; rcases hitem with ⟨-, hitem⟩ | hitem
  · obtain rfl : item = newJob job_id r n := Option.some.inj hitem
    exact (recordOk_newJob job_id r n).shape
  · exact hs.shape item hitem
  · obtain ⟨item', hmark, hshape, -⟩ := w.mark_cases job_id fun _ h => hs.shape_current h
    rw [hmark] at hitem
    obtain rfl : item = item' := Option.some.inj hitem
    exact hshape
  · exact hs.shape item hitem
  · cases hitem
  · exact hs.shape item hitem

/-- A terminal write settles its outcome, and keeps settled what was. -/
private theorem AgreeInv.settled_of_write {job_id : JobId} {s s' : Sys} {e : Event} (hs : AgreeInv job_id s)
    (he : WritesAgree job_id s e) (h : s.step e = some s') {w : TerminalWrite}
    (hw : s.writeOf e = some (job_id, w))
    (hst : s'.store = s.store.record job_id (w.mark job_id (s.store.current job_id))) {o : Outcome}
    (ho : s.Announced job_id o ∨ w.outcome = o) : Settled job_id s' o := by
  obtain ⟨item', hmark, -, hterm, hor⟩ := w.mark_cases job_id fun _ h => hs.shape_current h
  rw [hmark] at hst
  have hstored : ∀ item, some item ∈ s'.store job_id ↔ item = item' ∨ some item ∈ s.store job_id := by
    intro item
    rw [hst, History.mem_record]
    simp
  have hsub : s'.submitted job_id ≠ none := by
    obtain ⟨sub, hsub⟩ := Option.ne_none_iff_exists'.1 (hs.created.submitted_of_writeOf hw)
    simp [Sys.submitted_of_step h hsub]
  -- the outcome of the write is in the new item, which is an old one when the job was terminal
  have hnew : w.outcome.StoredIn item' := by
    rcases hor with hcur | hnew
    · rw [History.current_eq_answer] at hcur
      exact he w hw item' (History.answer_mem hcur) hterm
    · exact hnew
  have hw_eq : w.outcome = o := by
    rcases ho with ho | ho
    · obtain ⟨-, ⟨item₀, hmem₀, hterm₀⟩, hagree, -⟩ := hs.settled o ho
      have hwritten : w.outcome.StoredIn item₀ := he w hw item₀ hmem₀ hterm₀
      exact hwritten.unique (hagree item₀ hmem₀ hterm₀)
    · exact ho
  subst hw_eq
  refine ⟨hsub, ⟨item', (hstored item').2 (Or.inl rfl), hterm⟩, ?_, ?_⟩
  · intro item hmem ht
    rcases (hstored item).1 hmem with rfl | hmem
    · exact hnew
    · exact he w hw item hmem ht
  · intro item hcur
    rw [hst, History.current_record, Function.update_self] at hcur
    obtain rfl : item' = item := Option.some.inj hcur
    exact hterm

theorem agreeInv_of_step {job_id : JobId} {s s' : Sys} {e : Event} (hs : AgreeInv job_id s)
    (he : WritesAgree job_id s e) (h : s.step e = some s') : AgreeInv job_id s' := by
  refine ⟨jobsCreated_of_step hs.created h, hs.shape_of_step h, fun o ho => ?_⟩
  rcases Sys.current_of_step h job_id with ⟨hst, hno⟩ | ⟨r, n, rfl, hnone, -⟩ | ⟨w, hw, hst⟩ |
    ⟨item, rfl, -, -, hst⟩
  · rcases Sys.announced_of_step h ho with ho | ⟨w, hw, -⟩
    · obtain ⟨hsub, hstored, hagree, hcur⟩ := hs.settled o ho
      obtain ⟨sub, hsub⟩ := Option.ne_none_iff_exists'.1 hsub
      have hsub' : s'.submitted job_id = some sub := Sys.submitted_of_step h hsub
      refine ⟨by simp [hsub'], by rwa [hst], by rwa [hst], ?_⟩
      intro item hitem
      rw [History.current, hst] at hitem
      exact hcur item hitem
    · exact absurd hw (hno w)
  · rcases Sys.announced_of_step h ho with ho | ⟨w, hw, -⟩
    · exact absurd hnone (hs.settled o ho).submitted
    · cases hw
  · refine hs.settled_of_write he h hw hst ?_
    rcases Sys.announced_of_step h ho with ho | ⟨w', hw', ho⟩
    · exact Or.inl ho
    · obtain rfl : w' = w := by
        rw [hw] at hw'
        cases hw'
        rfl
      exact Or.inr ho
  · rcases Sys.announced_of_step h ho with ho | ⟨w, hw, -⟩
    · obtain ⟨hsub, ⟨item₀, hmem₀, hterm₀⟩, hagree, -⟩ := hs.settled o ho
      obtain ⟨sub, hsub⟩ := Option.ne_none_iff_exists'.1 hsub
      have hsub' : s'.submitted job_id = some sub := Sys.submitted_of_step h hsub
      refine ⟨by simp [hsub'], ⟨item₀, ?_, hterm₀⟩, ?_, ?_⟩
      · rw [hst, History.mem_record]
        exact Or.inr hmem₀
      · intro item' hmem
        rw [hst, History.mem_record] at hmem
        exact hagree item' (by simpa using hmem)
      · intro item' hcur
        rw [hst, History.current_record, Function.update_self] at hcur
        cases hcur
    · cases hw

/-- Resolution logs agree with the stored outcome, in every run in which no terminal write for the job comes
after another outcome was stored. -/
theorem resolution_lines_agree {es : List Event} {s : Sys} {job_id : JobId}
    (hrun : run Sys.step Sys.init es = some s) (hmeet : StepsMeet Sys.step (WritesAgree job_id) Sys.init es)
    {p : ℕ} {line : LogLine} (hline : (p, line) ∈ s.logs) (hjob : line.job_id = job_id) {item : JobItem}
    (hitem : s.store.current job_id = some item) : line.Agrees item := by
  have hinv : AgreeInv job_id s :=
    invariant_of_stepsMeet (fun _ _ _ hs he h => agreeInv_of_step hs he h) (agreeInv_init job_id) hmeet hrun
  have hannounced : s.Announced job_id line.outcome := Or.inl ⟨p, line, hline, hjob, rfl⟩
  have hsettled : Settled job_id s line.outcome := hinv.settled line.outcome hannounced
  have hterm : IsTerminal item := hsettled.current item hitem
  have hmem : some item ∈ s.store job_id := by
    rw [History.current_eq_answer] at hitem
    exact History.answer_mem hitem
  exact LogLine.agrees_of_storedIn (hsettled.agree item hmem hterm)

/-- The Worker is killed before its write, and the failure handler writes, reads and logs. -/
def handledRun : List Event :=
  [.post 1 utzRequest 0, .deliver 0 1, .advance 0 .crash, .onFailure 1 0,
    .advance 1 .proceed, .advance 1 (.version 0), .advance 1 .proceed]

theorem handledRun_agrees :
    ∃ s line item, run Sys.step Sys.init handledRun = some s ∧ s.logs = [(1, line)] ∧ line.status_code = 504 ∧
      s.store.current 1 = some item ∧ line.Agrees item := by
  refine ⟨_, _, _, rfl, rfl, rfl, rfl,
    @resolution_lines_agree handledRun _ 1 rfl ?_ 1 _ (List.mem_cons_self ..) rfl _ rfl⟩
  -- the only terminal write is the fifth event, and the job is then pending
  have hnot : ∀ {s : Sys} {e : Event}, s.writeOf e = none → WritesAgree 1 s e := by
    intro s e hnone w hw
    rw [hnone] at hw
    cases hw
  refine (stepsMeet_cons_of_eq rfl).2 ⟨hnot rfl, (stepsMeet_cons_of_eq rfl).2 ⟨hnot rfl, ?_⟩⟩
  refine (stepsMeet_cons_of_eq rfl).2 ⟨hnot rfl, (stepsMeet_cons_of_eq rfl).2 ⟨hnot rfl, ?_⟩⟩
  refine (stepsMeet_cons_of_eq rfl).2 ⟨?_, ?_⟩
  · intro w _ item hitem hterm
    obtain rfl : item = newJob 1 utzRequest 0 := Option.some.inj (List.mem_singleton.1 hitem)
    rcases hterm with h | h <;> cases h
  · exact (stepsMeet_cons_of_eq rfl).2 ⟨hnot rfl, (stepsMeet_cons_of_eq rfl).2 ⟨hnot rfl, trivial⟩⟩

/-- A Worker killed between its write and its log line. -/
def lostRaceRun : List Event :=
  [.post 1 utzRequest 0, .deliver 0 1, .advance 0 (.version 0),
    .advance 0 (.endpoint (some ['e'])
      (.response (.value (.obj [("translated_text".toList, .str ['b', 'i', 'e', 'n'])])))),
    .advance 0 .proceed, .advance 0 .crash, .onFailure 1 0, .advance 1 .proceed, .advance 1 (.version 0),
    .advance 1 .proceed]

/-- Its failure handler's write is dropped, and its line says `504` of a job that has succeeded. -/
theorem losing_writer_logs_its_own_outcome :
    ∃ s line item, run Sys.step Sys.init lostRaceRun = some s ∧ s.logs = [(1, line)] ∧ line.job_id = 1 ∧
      line.status_code = 504 ∧ s.store.current 1 = some item ∧ item .status = some (.status .succeeded) ∧
      ¬ line.Agrees item := by
  refine ⟨_, _, _, rfl, rfl, rfl, rfl, rfl, rfl, fun h => ?_⟩
  exact absurd (h.1.2 rfl).1 (by decide)

end KaqTranslator
