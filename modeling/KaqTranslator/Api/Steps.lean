import KaqTranslator.Api.Service
import KaqTranslator.Api.WriteSafety

/-!
# What one step of the service can do

`Sys.step_cases` is the inversion of `Sys.step`, and `Sys.current_of_step` reads it for the item of one job.
Every step is at most one operation on the job table (`Sys.step_simulates`), so that a run of the service is a
run of `JobsTable.step`.
-/

namespace KaqTranslator

open EventMachine RecordStore

/-- The processes that an event can start. -/
inductive Starts (s : Sys) : Proc → Prop where
  | worker {job_id : JobId} {sub : Submission} (h : s.submitted job_id = some sub) :
    Starts s (.worker job_id .reading)
  | failureHandler {job_id : JobId} {q : ℕ} (h : s.procs q = some (.worker job_id .crashed)) :
    Starts s (.failureHandler job_id .marking)
  | poll (job_id : JobId) : Starts s (.poll job_id .reading)

theorem Sys.spawn_cases {s s' : Sys} {p : ℕ} {proc : Proc} (h : s.spawn p proc = some s') :
    s.procs p = none ∧ s' = { s with procs := Function.update s.procs p (some proc) } := by
  unfold spawn at h
  split at h
  · rename_i hp
    exact ⟨Option.isNone_iff_eq_none.1 hp, (Option.some.inj h).symm⟩
  · cases h

theorem Sys.step_cases {s s' : Sys} {e : Event} (h : s.step e = some s') :
    (∃ job_id request now, e = .post job_id request now ∧ s.submitted job_id = none ∧ now ≤ s.clock ∧
      s' = { s with
        store := s.store.record job_id (some (newJob job_id request now))
        submitted := Function.update s.submitted job_id (some ⟨request, now⟩) }) ∨
    (∃ p proc, s.writeOf e = none ∧ (∀ job_id, e ≠ .sweep job_id) ∧ s.procs p = none ∧ Starts s proc ∧
      s' = { s with procs := Function.update s.procs p (some proc) }) ∨
    (∃ p c proc a, e = .advance p c ∧ s.procs p = some proc ∧ proc.next s.store.answer s.clock c = some a ∧
      s.writeOf e = a.write.map (proc.job, ·) ∧ s' = s.commit p proc.job a) ∨
    (∃ seconds, e = .tick seconds ∧ s' = { s with clock := s.clock + seconds }) ∨
    (∃ job_id item, e = .sweep job_id ∧ s.store.current job_id = some item ∧ expired item s.clock = true ∧
      s' = { s with store := s.store.record job_id none }) := by
  cases e with
  | post job_id request now =>
    left
    simp only [step] at h
    split at h
    · rename_i hg
      exact ⟨job_id, request, now, rfl, hg.1, hg.2, (Option.some.inj h).symm⟩
    · cases h
  | deliver p job_id =>
    right; left
    simp only [step] at h
    split at h
    · rename_i hsub
      obtain ⟨sub, hsub⟩ := Option.isSome_iff_exists.1 hsub
      obtain ⟨hp, hs'⟩ := spawn_cases h
      exact ⟨p, _, rfl, by simp, hp, .worker hsub, hs'⟩
    · cases h
  | onFailure p q =>
    right; left
    simp only [step] at h
    split at h
    · rename_i job_id hq
      obtain ⟨hp, hs'⟩ := spawn_cases h
      exact ⟨p, _, rfl, by simp, hp, .failureHandler hq, hs'⟩
    · cases h
  | get p job_id =>
    right; left
    obtain ⟨hp, hs'⟩ := spawn_cases h
    exact ⟨p, _, rfl, by simp, hp, .poll job_id, hs'⟩
  | advance p c =>
    right; right; left
    simp only [step, Option.bind_eq_bind, Option.bind_eq_some_iff] at h
    obtain ⟨proc, hproc, a, ha, h⟩ := h
    have hw : s.writeOf (.advance p c) = a.write.map (proc.job, ·) := by
      cases hw : a.write <;> simp [writeOf, hproc, ha, hw]
    exact ⟨p, c, proc, a, rfl, hproc, ha, hw, (Option.some.inj h).symm⟩
  | tick seconds =>
    right; right; right; left
    exact ⟨seconds, rfl, (Option.some.inj h).symm⟩
  | sweep job_id =>
    right; right; right; right
    simp only [step, Option.bind_eq_bind, Option.bind_eq_some_iff] at h
    obtain ⟨item, hitem, h⟩ := h
    split at h
    · rename_i hexp
      exact ⟨job_id, item, rfl, hitem, hexp, (Option.some.inj h).symm⟩
    · cases h

@[simp] theorem Sys.commit_clock (s : Sys) (p : ℕ) (job_id : JobId) (a : Action Proc) :
    (s.commit p job_id a).clock = s.clock := rfl

@[simp] theorem Sys.commit_submitted (s : Sys) (p : ℕ) (job_id : JobId) (a : Action Proc) :
    (s.commit p job_id a).submitted = s.submitted := rfl

@[simp] theorem Sys.commit_procs (s : Sys) (p : ℕ) (job_id : JobId) (a : Action Proc) :
    (s.commit p job_id a).procs = Function.update s.procs p (some a.pc) := rfl

theorem Sys.commit_store_of_write_none {s : Sys} {p : ℕ} {job_id : JobId} {a : Action Proc}
    (h : a.write = none) : (s.commit p job_id a).store = s.store := by
  simp [commit, h]

theorem Sys.commit_store_of_write {s : Sys} {p : ℕ} {job_id : JobId} {a : Action Proc} {w : TerminalWrite}
    (h : a.write = some w) :
    (s.commit p job_id a).store = s.store.record job_id (w.mark job_id (s.store.current job_id)) := by
  simp [commit, h]

def Sys.linesOf (s : Sys) (p : ℕ) : List LogLine :=
  (s.logs.filter fun entry => entry.1 = p).map Prod.snd

theorem Sys.linesOf_commit_self (s : Sys) (p : ℕ) (job_id : JobId) (a : Action Proc) :
    (s.commit p job_id a).linesOf p = a.log.toList ++ s.linesOf p := by
  cases h : a.log <;> simp [commit, linesOf, h]

theorem Sys.linesOf_commit_of_ne (s : Sys) {p q : ℕ} (hq : q ≠ p) (job_id : JobId) (a : Action Proc) :
    (s.commit p job_id a).linesOf q = s.linesOf q := by
  cases h : a.log <;> simp [commit, linesOf, h, Ne.symm hq]

/-- What one step can do to one process and to the lines it has logged. -/
theorem Sys.procs_of_step {s s' : Sys} {e : Event} (h : s.step e = some s') (p : ℕ) :
    (s'.procs p = s.procs p ∧ s'.linesOf p = s.linesOf p) ∨
    (∃ proc, s.procs p = none ∧ Starts s proc ∧ s'.procs p = some proc ∧ s'.linesOf p = s.linesOf p ∧
      s'.store = s.store) ∨
    (∃ c proc a, e = .advance p c ∧ s.procs p = some proc ∧ proc.next s.store.answer s.clock c = some a ∧
      s.writeOf e = a.write.map (proc.job, ·) ∧ s' = s.commit p proc.job a) := by
  rcases step_cases h with ⟨_, _, _, rfl, _, _, rfl⟩ | ⟨q, proc, _, _, hq, hstart, rfl⟩ |
    ⟨q, c, proc, a, rfl, hproc, ha, hw, rfl⟩ | ⟨_, rfl, rfl⟩ | ⟨_, _, rfl, _, _, rfl⟩
  · exact Or.inl ⟨rfl, rfl⟩
  · by_cases hpq : p = q
    · subst hpq
      exact Or.inr (Or.inl ⟨proc, hq, hstart, Function.update_self .., rfl, rfl⟩)
    · exact Or.inl ⟨Function.update_of_ne hpq _ _, rfl⟩
  · by_cases hpq : p = q
    · subst hpq
      exact Or.inr (Or.inr ⟨c, proc, a, rfl, hproc, ha, hw, rfl⟩)
    · exact Or.inl ⟨Function.update_of_ne hpq _ _, linesOf_commit_of_ne s hpq _ a⟩
  · exact Or.inl ⟨rfl, rfl⟩
  · exact Or.inl ⟨rfl, rfl⟩

/-! ### The clock, the submissions and the items -/

theorem Sys.clock_of_step {s s' : Sys} {e : Event} (h : s.step e = some s') : s.clock ≤ s'.clock := by
  rcases step_cases h with ⟨_, _, _, rfl, _, _, rfl⟩ | ⟨_, _, _, _, _, _, rfl⟩ |
    ⟨_, _, _, _, rfl, _, _, _, rfl⟩ | ⟨seconds, rfl, rfl⟩ | ⟨_, _, rfl, _, _, rfl⟩
  · exact Nat.le_refl _
  · exact Nat.le_refl _
  · exact Nat.le_refl _
  · show s.clock ≤ s.clock + seconds
    omega
  · exact Nat.le_refl _

theorem Sys.submitted_of_step {s s' : Sys} {e : Event} (h : s.step e = some s') {job_id : JobId}
    {sub : Submission} (hsub : s.submitted job_id = some sub) : s'.submitted job_id = some sub := by
  rcases step_cases h with ⟨j, _, _, rfl, hnew, _, rfl⟩ | ⟨_, _, _, _, _, _, rfl⟩ |
    ⟨_, _, _, _, rfl, _, _, _, rfl⟩ | ⟨_, rfl, rfl⟩ | ⟨_, _, rfl, _, _, rfl⟩
  · have hne : job_id ≠ j := by
      intro e
      rw [← e, hsub] at hnew
      cases hnew
    rw [← hsub]
    exact Function.update_of_ne hne _ _
  all_goals exact hsub

/-- A submission that a step adds is that of its `post`. -/
theorem Sys.submitted_of_step_eq_none {s s' : Sys} {e : Event} (h : s.step e = some s') {job_id : JobId}
    {sub : Submission} (hnone : s.submitted job_id = none) (hsub : s'.submitted job_id = some sub) :
    e = .post job_id sub.request sub.now ∧ sub.now ≤ s.clock := by
  rcases step_cases h with ⟨j, r, n, rfl, _, hn, rfl⟩ | ⟨_, _, _, _, _, _, rfl⟩ |
    ⟨_, _, _, _, rfl, _, _, _, rfl⟩ | ⟨_, rfl, rfl⟩ | ⟨_, _, rfl, _, _, rfl⟩
  · by_cases hj : job_id = j
    · subst hj
      obtain rfl : (⟨r, n⟩ : Submission) = sub := by simpa using hsub
      exact ⟨rfl, hn⟩
    · have hold : s.submitted job_id = some sub := by simpa [hj] using hsub
      rw [hnone] at hold
      cases hold
  all_goals
    have hold : s.submitted job_id = some sub := hsub
    rw [hnone] at hold
    cases hold

theorem Sys.current_of_step {s s' : Sys} {e : Event} (h : s.step e = some s') (job_id : JobId) :
    (s'.store job_id = s.store job_id ∧ (∀ w, s.writeOf e ≠ some (job_id, w))) ∨
    (∃ request now, e = .post job_id request now ∧ s.submitted job_id = none ∧
      s'.submitted job_id = some ⟨request, now⟩ ∧
      s'.store = s.store.record job_id (some (newJob job_id request now))) ∨
    (∃ w, s.writeOf e = some (job_id, w) ∧
      s'.store = s.store.record job_id (w.mark job_id (s.store.current job_id))) ∨
    (∃ item, e = .sweep job_id ∧ s.store.current job_id = some item ∧ expired item s.clock = true ∧
      s'.store = s.store.record job_id none) := by
  rcases step_cases h with ⟨j, r, n, rfl, hnew, hn, rfl⟩ | ⟨_, _, hw, _, _, _, rfl⟩ |
    ⟨p, c, proc, a, rfl, hproc, ha, hw, rfl⟩ | ⟨_, rfl, rfl⟩ | ⟨j, item, rfl, hitem, hexp, rfl⟩
  · by_cases hj : job_id = j
    · subst hj
      exact Or.inr (Or.inl ⟨r, n, rfl, hnew, Function.update_self .., rfl⟩)
    · exact Or.inl ⟨Function.update_of_ne hj _ _, by simp [writeOf]⟩
  · exact Or.inl ⟨rfl, by simp [hw]⟩
  · cases haw : a.write with
    | none =>
      have hst : (s.commit p proc.job a).store = s.store := commit_store_of_write_none haw
      exact Or.inl ⟨by rw [hst], by simp [hw, haw]⟩
    | some w =>
      have hst : (s.commit p proc.job a).store =
          s.store.record proc.job (w.mark proc.job (s.store.current proc.job)) := commit_store_of_write haw
      by_cases hj : job_id = proc.job
      · subst hj
        exact Or.inr (Or.inr (Or.inl ⟨w, by rw [hw, haw]; rfl, hst⟩))
      · left
        constructor
        · rw [hst]
          exact Function.update_of_ne hj _ _
        · intro w'
          rw [hw, haw]
          simp [Ne.symm hj]
  · exact Or.inl ⟨rfl, by simp [writeOf]⟩
  · by_cases hj : job_id = j
    · subst hj
      exact Or.inr (Or.inr (Or.inr ⟨item, rfl, hitem, hexp, rfl⟩))
    · exact Or.inl ⟨Function.update_of_ne hj _ _, by simp [writeOf]⟩

/-! ### The service runs the operations of the job table -/

def Sys.jobs (s : Sys) : JobsTable := ⟨s.store.current, s.submitted⟩

/-- The jobs that processes are about have been created, for the processes that write. -/
def JobsCreated (s : Sys) : Prop :=
  ∀ p proc, s.procs p = some proc → (∃ pc, proc = .poll proc.job pc) ∨ s.submitted proc.job ≠ none

theorem Proc.job_of_next {answer : JobId → ℕ → Option JobItem} {clock : ℕ} {proc : Proc} {c : Choice}
    {a : Action Proc} (h : proc.next answer clock c = some a) : a.pc.job = proc.job := by
  cases proc <;> simp only [next, Option.map_eq_some_iff] at h <;> obtain ⟨b, -, rfl⟩ := h <;> rfl

theorem Proc.poll_of_next {answer : JobId → ℕ → Option JobItem} {clock : ℕ} {job_id : JobId} {pc : PollPc}
    {c : Choice} {a : Action Proc} (h : (poll job_id pc).next answer clock c = some a) :
    (∃ pc', a.pc = poll job_id pc' ∧ pc.next job_id (answer job_id) clock c = some (.goto pc')) ∧
      a.write = none ∧ a.log = none := by
  simp only [next, Option.map_eq_some_iff] at h
  obtain ⟨b, hb, rfl⟩ := h
  cases pc <;> cases c <;> simp only [PollPc.next, Option.some.injEq, reduceCtorEq] at hb <;> subst hb <;>
    exact ⟨⟨_, rfl, rfl⟩, rfl, rfl⟩

theorem jobsCreated_of_step {s s' : Sys} {e : Event} (hs : JobsCreated s) (h : s.step e = some s') :
    JobsCreated s' := by
  have hmono : ∀ {j : JobId}, s.submitted j ≠ none → s'.submitted j ≠ none := by
    intro j hj
    obtain ⟨sub, hsub⟩ := Option.ne_none_iff_exists'.1 hj
    rw [Sys.submitted_of_step h hsub]
    simp
  intro p proc hp
  rcases Sys.step_cases h with ⟨_, _, _, rfl, _, _, rfl⟩ | ⟨q, proc', _, _, _, hstart, rfl⟩ |
    ⟨q, c, proc', a, rfl, hproc', ha, _, rfl⟩ | ⟨_, rfl, rfl⟩ | ⟨_, _, rfl, _, _, rfl⟩
  · exact (hs p proc hp).imp_right hmono
  · by_cases hpq : p = q
    · subst hpq
      obtain rfl : proc' = proc := by simpa using hp
      cases hstart with
      | worker hsub => exact Or.inr (by simp [Proc.job, hsub])
      | failureHandler hq =>
        rcases hs _ _ hq with ⟨pc, hpc⟩ | hsub
        · cases hpc
        · exact Or.inr hsub
      | poll job_id => exact Or.inl ⟨.reading, rfl⟩
    · have hp₀ : s.procs p = some proc := by simpa [hpq] using hp
      exact hs p proc hp₀
  · by_cases hpq : p = q
    · subst hpq
      obtain rfl : a.pc = proc := by simpa using hp
      have hjob : a.pc.job = proc'.job := Proc.job_of_next ha
      rw [hjob]
      rcases hs p proc' hproc' with ⟨pc, hpc⟩ | hsub
      · rw [hpc] at ha
        obtain ⟨⟨pc', hpc', -⟩, -⟩ := Proc.poll_of_next ha
        exact Or.inl ⟨pc', hpc'⟩
      · exact Or.inr hsub
    · have hp₀ : s.procs p = some proc := by simpa [hpq] using hp
      exact hs p proc hp₀
  · exact hs p proc hp
  · exact hs p proc hp

theorem JobsCreated.submitted_of_writeOf {s : Sys} (hs : JobsCreated s) {e : Event} {job_id : JobId}
    {w : TerminalWrite} (hw : s.writeOf e = some (job_id, w)) : s.submitted job_id ≠ none := by
  cases e with
  | advance p c =>
    simp only [Sys.writeOf, Option.bind_eq_bind, Option.bind_eq_some_iff] at hw
    obtain ⟨proc, hproc, a, ha, w', hw', hpair⟩ := hw
    obtain ⟨rfl, rfl⟩ := Prod.mk.inj (Option.some.inj hpair)
    rcases hs p proc hproc with ⟨pc, hpc⟩ | hsub
    · rw [hpc] at ha
      obtain ⟨-, hnone, -⟩ := Proc.poll_of_next ha
      rw [hnone] at hw'
      cases hw'
    · exact hsub
  | _ => cases hw

theorem Sys.step_simulates {s s' : Sys} {e : Event} (hs : JobsCreated s) (h : s.step e = some s') :
    ∃ ops, run JobsTable.step s.jobs ops = some s'.jobs := by
  rcases step_cases h with ⟨j, r, n, rfl, hnew, hn, rfl⟩ | ⟨_, _, hw, _, _, _, rfl⟩ |
    ⟨p, c, proc, a, rfl, hproc, ha, hw, rfl⟩ | ⟨_, rfl, rfl⟩ | ⟨j, item, rfl, hitem, hexp, rfl⟩
  · exact ⟨[.createJob j r n], by simp [JobsTable.step, jobs, hnew]⟩
  · exact ⟨[], rfl⟩
  · cases haw : a.write with
    | none => exact ⟨[], by simp [jobs, commit_store_of_write_none haw]⟩
    | some w =>
      have hwrite : s.writeOf (.advance p c) = some (proc.job, w) := by rw [hw, haw]; rfl
      have hsub : s.submitted proc.job ≠ none := hs.submitted_of_writeOf hwrite
      exact ⟨[.mark proc.job w], by simp [JobsTable.step, jobs, hsub, commit_store_of_write haw]⟩
  · exact ⟨[], rfl⟩
  · exact ⟨[.delete j], by simp [JobsTable.step, jobs]⟩

theorem jobsCreated_init : JobsCreated Sys.init := fun _ _ h => by cases h

/-- Every table that the service reaches is reached by operations on the job table. -/
theorem Sys.jobs_reachable {s : Sys} (h : Reachable Sys.step Sys.init s) :
    Reachable JobsTable.step .empty s.jobs := by
  obtain ⟨es, hes⟩ := h
  exact run_simulates Sys.jobs (fun _ _ _ hs h => jobsCreated_of_step hs h)
    (fun _ _ _ hs h => step_simulates hs h) jobsCreated_init hes

end KaqTranslator
