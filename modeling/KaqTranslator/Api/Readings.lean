import KaqTranslator.Api.Resolution

/-!
# What the polls of a job read

While a job has not expired, its item is the one `create_job` put, resolved by the first terminal write of the
run, and every earlier version is that item or the pending one (`viewed_of_run`).  So a poll is answered with
the state of its job at the moment of the read if and only if its `get_item`, which is not strongly
consistent, was answered with the current version (`job_readable_iff`).  The answer of a poll can be a `404`
although its job exists (`absent_read_answers_404`), and `pending` although an earlier poll was told the
result (`staleReadRun_not_readable`).
-/

namespace KaqTranslator

open EventMachine RecordStore

/-! ### The state of a job -/

/-- The body that a poll owes of a job whose first terminal write, if there is one, is `w`. -/
def bodyOf : Option TerminalWrite → JobStatusResponse
  | none => .pending
  | some (.succeeded translation) => .succeeded translation
  | some (.failed status_code error) => .failed status_code error

private theorem bodyOf_injective : Function.Injective bodyOf := by
  intro v w h
  rcases v with _ | _ | _ <;> rcases w with _ | _ | _ <;> simp_all [bodyOf]

/-- The terminal write that the event makes for the job. -/
def Sys.writeTo (job_id : JobId) (s : Sys) (e : Event) : Option TerminalWrite :=
  (s.writeOf e).bind fun jw => if jw.1 = job_id then some jw.2 else none

/-- The first terminal write for the job in the run of `es` from `s`. -/
def firstWrite (job_id : JobId) (s : Sys) : List Event → Option TerminalWrite
  | [] => none
  | e :: es => (s.writeTo job_id e).or ((s.step e).bind fun s' => firstWrite job_id s' es)

/-- What comes later does not change which terminal write was the first. -/
private theorem firstWrite_append {job_id : JobId} {s : Sys} {es fs : List Event} {w : TerminalWrite}
    (h : firstWrite job_id s es = some w) : firstWrite job_id s (es ++ fs) = some w := by
  induction es generalizing s with
  | nil => cases h
  | cons e es ih =>
    rw [firstWrite] at h
    rw [List.cons_append, firstWrite]
    cases hw : s.writeTo job_id e with
    | some v =>
      rw [hw] at h
      exact h
    | none =>
      rw [hw, Option.none_or] at h
      rw [Option.none_or]
      obtain ⟨s', hs', h⟩ := Option.bind_eq_some_iff.1 h
      exact Option.bind_eq_some_iff.2 ⟨s', hs', ih h⟩

private theorem Sys.writeTo_eq_some {job_id : JobId} {s : Sys} {e : Event} {w : TerminalWrite} :
    s.writeTo job_id e = some w ↔ s.writeOf e = some (job_id, w) := by
  unfold writeTo
  cases s.writeOf e with
  | none => simp
  | some jw =>
    obtain ⟨j, v⟩ := jw
    by_cases hj : j = job_id <;> simp [hj]

/-! ### Reading the item of a job -/

private theorem jobStatusResponse_resolvedItem (job_id : JobId) (request : TranslateRequest) (now : ℕ)
    (w : Option TerminalWrite) : jobStatusResponse (resolvedItem job_id request now w) = .ok (bodyOf w) := by
  rcases w with _ | _ | _ <;>
    simp [jobStatusResponse, fetch, resolvedItem, Item.set, newJob, TerminalWrite.fields, Function.update,
      Value.toStr, Value.toNat, bodyOf, bind, Except.bind, pure, Except.pure]

private theorem getTranslateJob_resolvedItem {job_id : JobId} {request : TranslateRequest} {now time : ℕ}
    (htime : time ≤ now + jobTtlSeconds) (w : Option TerminalWrite) :
    getTranslateJob (some job_id) (fun _ => some (resolvedItem job_id request now w)) time =
      .ok (bodyOf w) := by
  have httl := (resolvedItem_submitted job_id request now w).2.2
  have hjob : getJob (some (resolvedItem job_id request now w)) time =
      .ok (some (resolvedItem job_id request now w)) := by
    simp [getJob, fetch, httl, Value.toNat, bind, Except.bind, pure, Except.pure, htime]
  simp [getTranslateJob, hjob, jobStatusResponse_resolvedItem]

private theorem resolvedItem_mark (job_id : JobId) (request : TranslateRequest) (now : ℕ)
    (o : Option TerminalWrite) (w : TerminalWrite) :
    w.mark job_id (some (resolvedItem job_id request now o)) =
      some (resolvedItem job_id request now (o.or (some w))) := by
  cases o with
  | none =>
    have hopen : notYetTerminal.eval (resolvedItem job_id request now none) = true :=
      notYetTerminal_newJob job_id request now
    rw [w.mark_eq, conditionalWrite_of_eval hopen]
    rfl
  | some v =>
    have hterm : IsTerminal (resolvedItem job_id request now (some v)) := by
      cases v <;>
        simp [IsTerminal, resolvedItem, Item.set, TerminalWrite.fields, Function.update]
    rw [w.mark_of_isTerminal job_id hterm, Option.some_or]

private theorem resolvedItem_not_expired {job_id : JobId} {sub : Submission} {s : Sys}
    (h : s.Fresh job_id sub) (o : Option TerminalWrite) :
    expired (resolvedItem job_id sub.request sub.now o) s.clock = false := by
  have httl := (resolvedItem_submitted job_id sub.request sub.now o).2.2
  have hclock : s.clock ≤ sub.now + jobTtlSeconds := h.2
  simp only [expired, httl, decide_eq_false_iff_not]
  omega

/-! ### The versions of the item -/

/-- The first terminal write for the job so far is `o`: while the job has not expired, its item is the one
resolved by `o`, and every version of it is that item or the one `create_job` put. -/
structure Viewed (job_id : JobId) (s : Sys) (o : Option TerminalWrite) : Prop where
  created : JobsCreated s
  unsubmitted : s.submitted job_id = none → o = none ∧ s.store job_id = []
  item : ∀ sub, s.Fresh job_id sub →
    s.store.current job_id = some (resolvedItem job_id sub.request sub.now o) ∧
      ∀ v ∈ s.store job_id, v = some (resolvedItem job_id sub.request sub.now o) ∨
        v = some (resolvedItem job_id sub.request sub.now none)

private theorem viewed_init (job_id : JobId) : Viewed job_id Sys.init none :=
  ⟨jobsCreated_init, fun _ => ⟨rfl, rfl⟩, fun _ h => (nomatch h.1)⟩

private theorem viewed_of_step {job_id : JobId} {s s' : Sys} {e : Event} {o : Option TerminalWrite}
    (hs : Viewed job_id s o) (h : s.step e = some s') : Viewed job_id s' (o.or (s.writeTo job_id e)) := by
  have hnowrite : (∀ w, s.writeOf e ≠ some (job_id, w)) → o.or (s.writeTo job_id e) = o := by
    intro hno
    have hnone : s.writeTo job_id e = none :=
      Option.eq_none_iff_forall_ne_some.2 fun w hw => hno w (Sys.writeTo_eq_some.1 hw)
    rw [hnone, Option.or_none]
  constructor
  case created => exact jobsCreated_of_step hs.created h
  case unsubmitted =>
    intro hsub'
    have hsub : s.submitted job_id = none := by
      by_contra hsub
      obtain ⟨sub, hsub⟩ := Option.ne_none_iff_exists'.1 hsub
      rw [Sys.submitted_of_step h hsub] at hsub'
      cases hsub'
    obtain ⟨rfl, hempty⟩ := hs.unsubmitted hsub
    have hno : ∀ w, s.writeOf e ≠ some (job_id, w) :=
      fun w hw => hs.created.submitted_of_writeOf hw hsub
    refine ⟨hnowrite hno, ?_⟩
    rcases Sys.current_of_step h job_id with ⟨hst, -⟩ | ⟨_, _, -, -, hnew, -⟩ | ⟨w, hw, -⟩ |
      ⟨item, -, hitem, -⟩
    · rw [hst, hempty]
    · rw [hsub'] at hnew
      cases hnew
    · exact absurd hw (hno w)
    · rw [History.current, hempty] at hitem
      cases hitem
  case item =>
    intro sub hfresh
    by_cases hsub : s.submitted job_id = none
    · obtain ⟨rfl, hempty⟩ := hs.unsubmitted hsub
      obtain ⟨rfl, hnow⟩ := Sys.submitted_of_step_eq_none h hsub hfresh.1
      -- the step is the `create_job` of the job: one version, pending
      rw [Sys.step, if_pos ⟨hsub, hnow⟩] at h
      obtain rfl := Option.some.inj h
      rw [hnowrite (by simp [Sys.writeOf])]
      refine ⟨by simp [resolvedItem, Item.set], ?_⟩
      intro v hv
      rw [History.mem_record, hempty] at hv
      exact Or.inl (hv.resolve_right List.not_mem_nil).2
    · have hfresh₀ : s.Fresh job_id sub := hfresh.of_step h hsub
      obtain ⟨hcur, hversions⟩ := hs.item sub hfresh₀
      rcases Sys.current_of_step h job_id with ⟨hst, hno⟩ | ⟨_, _, -, hnone, -⟩ | ⟨w, hw, hst⟩ |
        ⟨item, -, hitem, hexp, -⟩
      · rw [hnowrite hno, History.current, hst]
        exact ⟨hcur, hversions⟩
      · exact absurd hnone hsub
      · rw [Sys.writeTo_eq_some.2 hw]
        -- the write resolves a pending item, and is refused by a resolved one
        rw [hcur, resolvedItem_mark] at hst
        refine ⟨by rw [hst, History.current_record, Function.update_self], ?_⟩
        intro v hv
        rw [hst, History.mem_record] at hv
        rcases hv with ⟨-, rfl⟩ | hv
        · exact Or.inl rfl
        · cases o with
          | none => exact Or.inr ((hversions v hv).elim id id)
          | some first => exact hversions v hv
      · obtain rfl : resolvedItem job_id sub.request sub.now o = item := Option.some.inj (hcur.symm.trans hitem)
        rw [resolvedItem_not_expired hfresh₀] at hexp
        cases hexp

/-- What the store holds of the job after a run. -/
theorem viewed_of_run {job_id : JobId} {s s' : Sys} {es : List Event} {o : Option TerminalWrite}
    (hs : Viewed job_id s o) (hrun : run Sys.step s es = some s') :
    Viewed job_id s' (o.or (firstWrite job_id s es)) := by
  induction es generalizing s o with
  | nil =>
    cases hrun
    rw [firstWrite, Option.or_none]
    exact hs
  | cons e es ih =>
    obtain ⟨u, hu, hrun⟩ := run_cons_eq_some.1 hrun
    have hview := ih (viewed_of_step hs hu) hrun
    rw [firstWrite, hu, Option.bind_some, ← Option.or_assoc]
    exact hview

/-! ### Polls -/

/-- A poll that has read `item` when the clock was at `clock` answers with it. -/
private def AnswersFrom (job_id : JobId) (item : Option JobItem) (clock : ℕ) (proc : Option Proc) : Prop :=
  proc = some (.poll job_id (.checking item)) ∨
    ∃ time, clock ≤ time ∧
      proc = some (.poll job_id (.answered time (getTranslateJob (some job_id) (fun _ => item) time)))

private theorem answersFrom_of_step {job_id : JobId} {item : Option JobItem} {clock p : ℕ} {s s' : Sys}
    {e : Event} (hs : AnswersFrom job_id item clock (s.procs p) ∧ clock ≤ s.clock) (h : s.step e = some s') :
    AnswersFrom job_id item clock (s'.procs p) ∧ clock ≤ s'.clock := by
  obtain ⟨hs, hclock⟩ := hs
  refine ⟨?_, Nat.le_trans hclock (Sys.clock_of_step h)⟩
  rcases Sys.procs_of_step h p with ⟨hproc, -⟩ | ⟨proc, hnone, -⟩ | ⟨c, proc, a, -, hproc, ha, -, rfl⟩
  · rw [hproc]
    exact hs
  · rcases hs with hs | ⟨_, -, hs⟩ <;> rw [hnone] at hs <;> cases hs
  · rw [Sys.commit_procs, Function.update_self]
    rcases hs with hs | ⟨_, -, hs⟩
    · obtain rfl := Option.some.inj (hproc.symm.trans hs)
      obtain ⟨⟨pc, hpc, hnext⟩, -, -⟩ := Proc.poll_of_next ha
      cases c <;>
        simp only [PollPc.next, reduceCtorEq, Option.some.injEq, Action.goto, Action.mk.injEq] at hnext
      obtain ⟨rfl, -⟩ := hnext
      exact Or.inr ⟨s.clock, hclock, by rw [hpc]⟩
    · obtain rfl := Option.some.inj (hproc.symm.trans hs)
      obtain ⟨⟨pc, -, hnext⟩, -, -⟩ := Proc.poll_of_next ha
      cases c <;> cases hnext

/-- In the run of `es` to `s` there is a poll of the job whose `get_item` came after `pre`, when `create_job`
had stored the job, and saw `answer`, and which was answered with `response` before the `ttl` had passed. -/
def Polled (es : List Event) (s : Sys) (job_id : JobId) (pre : List Event) (answer : Option JobItem)
    (response : JobResponse) : Prop :=
  ∃ p n post u sub time, es = pre ++ .advance p (.version n) :: post ∧ run Sys.step Sys.init pre = some u ∧
    u.procs p = some (.poll job_id .reading) ∧ u.submitted job_id = some sub ∧
    answer = u.store.answer job_id n ∧ s.procs p = some (.poll job_id (.answered time response)) ∧
    time ≤ sub.now + jobTtlSeconds

private theorem response_of_polled {es : List Event} {s : Sys} {job_id : JobId} {pre : List Event}
    {answer : Option JobItem} {response : JobResponse} (hrun : run Sys.step Sys.init es = some s)
    (h : Polled es s job_id pre answer response) :
    ∃ u sub time, run Sys.step Sys.init pre = some u ∧ u.Fresh job_id sub ∧ time ≤ sub.now + jobTtlSeconds ∧
      (∃ n, answer = u.store.answer job_id n) ∧
      response = getTranslateJob (some job_id) (fun _ => answer) time := by
  obtain ⟨p, n, post, u, sub, time, rfl, hu, hproc, hsub, rfl, hanswered, htime⟩ := h
  obtain ⟨u', v, hu', hv, hpost⟩ := run_append_cons_eq_some.1 hrun
  obtain rfl : u = u' := Option.some.inj (hu.symm.trans hu')
  -- after its read the poll answers with what it has read, however the run goes on
  have hread : AnswersFrom job_id (u.store.answer job_id n) u.clock (v.procs p) ∧ u.clock ≤ v.clock := by
    refine ⟨?_, Sys.clock_of_step hv⟩
    rw [Sys.step, hproc] at hv
    obtain rfl := Option.some.inj hv
    exact Or.inl (Function.update_self ..)
  obtain ⟨hs, -⟩ := invariant (I := fun t => AnswersFrom job_id (u.store.answer job_id n) u.clock (t.procs p) ∧
    u.clock ≤ t.clock) (fun _ _ _ ht h => answersFrom_of_step ht h) hread hpost
  rcases hs with hs | ⟨time', hle, hs⟩ <;> rw [hanswered] at hs
  · cases hs
  · obtain ⟨rfl, rfl⟩ : time = time' ∧ _ := by simpa using hs
    exact ⟨u, sub, time, hu, ⟨hsub, Nat.le_trans hle htime⟩, htime, ⟨n, rfl⟩, rfl⟩

/-- A poll is answered with the state of its job at its read exactly if the read saw the current version. -/
private theorem response_eq_body_iff {es : List Event} {s : Sys} {job_id : JobId} {pre : List Event}
    {answer : Option JobItem} {response : JobResponse} (hrun : run Sys.step Sys.init es = some s)
    (h : Polled es s job_id pre answer response) {u : Sys} (hu : run Sys.step Sys.init pre = some u) :
    response = .ok (bodyOf (firstWrite job_id Sys.init pre)) ↔ answer = u.store.current job_id := by
  obtain ⟨u', sub, time, hu', hfresh, htime, ⟨n, hn⟩, rfl⟩ := response_of_polled hrun h
  obtain rfl : u = u' := Option.some.inj (hu.symm.trans hu')
  have hview : Viewed job_id u (firstWrite job_id Sys.init pre) := by
    rw [← Option.none_or (o := firstWrite job_id Sys.init pre)]
    exact viewed_of_run (viewed_init job_id) hu
  obtain ⟨hcur, hversions⟩ := hview.item sub hfresh
  rw [hcur]
  constructor
  · intro hok
    cases answer with
    | none => cases hok
    | some item =>
      rcases hversions _ (History.answer_mem hn.symm) with hitem | hitem
      · exact hitem
      · -- the pending version owes the same answer only if it is the current one
        rw [hitem, getTranslateJob_resolvedItem htime] at hok
        have hnone : none = firstWrite job_id Sys.init pre := bodyOf_injective (JobResponse.ok.inj hok)
        rw [hitem, ← hnone]
  · rintro rfl
    exact getTranslateJob_resolvedItem htime _

/-! ### Jobs that every poll reads the same -/

/-- The polls of the job in the run, each answered before the `ttl` had passed, are answered with the body
that the first terminal write before their reads owes: `pending` until there is one, and the same terminal
body from then on. -/
structure Readable (es : List Event) (s : Sys) (job_id : JobId) : Prop where
  body : ∀ pre answer response, Polled es s job_id pre answer response →
    response = .ok (bodyOf (firstWrite job_id Sys.init pre))
  settled : ∀ pre mid answer answer' body response, Polled es s job_id pre answer (.ok body) → body ≠ .pending →
    Polled es s job_id (pre ++ mid) answer' response → response = .ok body

/-- A created job is readable until it expires if and only if every `get_item` of a poll of it that is
answered before the `ttl` has passed is answered with the current version of its item. -/
theorem job_readable_iff {es : List Event} {s : Sys} (hrun : run Sys.step Sys.init es = some s)
    (job_id : JobId) :
    Readable es s job_id ↔ ∀ pre answer response u, Polled es s job_id pre answer response →
      run Sys.step Sys.init pre = some u → answer = u.store.current job_id := by
  constructor
  · intro h pre answer response u hpolled hu
    exact (response_eq_body_iff hrun hpolled hu).1 (h.body pre answer response hpolled)
  · intro h
    have hbody : ∀ pre answer response, Polled es s job_id pre answer response →
        response = .ok (bodyOf (firstWrite job_id Sys.init pre)) := by
      intro pre answer response hpolled
      obtain ⟨u, -, -, hu, -⟩ := response_of_polled hrun hpolled
      exact (response_eq_body_iff hrun hpolled hu).2 (h pre answer response u hpolled hu)
    refine ⟨hbody, ?_⟩
    intro pre mid answer answer' body response hfirst hterminal hsecond
    have hok : body = bodyOf (firstWrite job_id Sys.init pre) := JobResponse.ok.inj (hbody _ _ _ hfirst)
    cases hw : firstWrite job_id Sys.init pre with
    | none =>
      rw [hw] at hok
      exact absurd hok hterminal
    | some w =>
      rw [hbody _ _ _ hsecond, firstWrite_append hw, hok, hw]

/-- A poll right after the `POST`, whose read is answered from before it. -/
def absentReadRun : List Event :=
  [.post 1 utzRequest 0, .get 0 1, .advance 0 (.version 1), .advance 0 .proceed]

/-- A poll that is told the result, and a later one whose read is answered from before the terminal write. -/
def staleReadRun : List Event :=
  [.post 1 utzRequest 0, .deliver 0 1, .advance 0 (.version 0),
    .advance 0 (.endpoint (some ['e'])
      (.response (.value (.obj [("translated_text".toList, .str ['b', 'i', 'e', 'n'])])))),
    .advance 0 .proceed, .get 1 1, .advance 1 (.version 0), .advance 1 .proceed, .get 2 1,
    .advance 2 (.version 1), .advance 2 .proceed]

theorem absent_read_answers_404 :
    ∃ s, run Sys.step Sys.init absentReadRun = some s ∧ s.clock = 0 ∧
      s.procs 0 = some (.poll 1 (.answered 0 (.error 404 jobNotFoundMessage))) ∧
      ¬ Readable absentReadRun s 1 := by
  refine ⟨_, rfl, rfl, rfl, fun h => ?_⟩
  have hbody := h.body [.post 1 utzRequest 0, .get 0 1] none (.error 404 jobNotFoundMessage)
    ⟨0, 1, [.advance 0 .proceed], _, ⟨utzRequest, 0⟩, 0, rfl, rfl, rfl, rfl, rfl, rfl, by decide⟩
  cases hbody

/-- The two polls of `staleReadRun` are answered with the translation and with `pending`: the second read has
not seen the current version. -/
theorem staleReadRun_not_readable :
    ∃ s, run Sys.step Sys.init staleReadRun = some s ∧
      s.procs 1 = some (.poll 1 (.answered 0 (.ok (.succeeded ['b', 'i', 'e', 'n'])))) ∧
      s.procs 2 = some (.poll 1 (.answered 0 (.ok .pending))) ∧ ¬ Readable staleReadRun s 1 := by
  refine ⟨_, rfl, rfl, rfl, fun h => ?_⟩
  have hcurrent := (@job_readable_iff staleReadRun _ rfl 1).1 h (staleReadRun.take 9) _ (.ok .pending) _
    ⟨2, 1, [.advance 2 .proceed], _, ⟨utzRequest, 0⟩, 0, rfl, rfl, rfl, rfl, rfl, rfl, by decide⟩ rfl
  have hstatus := congrArg (fun item => item.bind fun item => item .status) hcurrent
  revert hstatus
  decide

end KaqTranslator
