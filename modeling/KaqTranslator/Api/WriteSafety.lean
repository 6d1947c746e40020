import KaqTranslator.Api.Jobs

/-!
# Terminal writes race safely

Under every interleaving of `create_job`, `mark_succeeded` and `mark_failed`, the item of a job that is not
deleted is the item that `create_job` put, with the fields of the first terminal write set (`items_of_run`).
The reason is that the guard of `_conditional_update` reads the attribute that every terminal write sets, so
that each write closes the guard for the ones after it (`TerminalWrite.closes`,
`RecordStore.foldl_conditionalWrite`).
-/

namespace KaqTranslator

open EventMachine RecordStore

/-- The terminal writes that `ops` makes for a job, in the order in which they land. -/
def terminalWrites (job_id : JobId) (ops : List JobOp) : List TerminalWrite :=
  ops.filterMap fun
    | .mark j w => if j = job_id then some w else none
    | _ => none

def IsTerminal (item : JobItem) : Prop :=
  item .status = some (.status .succeeded) ∨ item .status = some (.status .failed)

/-- The attributes an item carries agree with its status. -/
structure WellShaped (item : JobItem) : Prop where
  status : item .status = some (.status .pending) ∨ IsTerminal item
  pending : item .status = some (.status .pending) →
    item .translation = none ∧ item .statusCode = none ∧ item .error = none
  succeeded : item .status = some (.status .succeeded) →
    (∃ t, item .translation = some (.str t)) ∧ item .statusCode = none ∧ item .error = none
  failed : item .status = some (.status .failed) →
    (∃ c, item .statusCode = some (.num c)) ∧ (∃ e, item .error = some (.str e)) ∧ item .translation = none

/-- The item of a job whose first terminal write, if there is one, is `w`. -/
def resolvedItem (job_id : JobId) (request : TranslateRequest) (now : ℕ) (w : Option TerminalWrite) : JobItem :=
  Item.set (newJob job_id request now) ((w.map TerminalWrite.fields).getD [])

theorem resolvedItem_wellShaped (job_id : JobId) (request : TranslateRequest) (now : ℕ)
    (w : Option TerminalWrite) : WellShaped (resolvedItem job_id request now w) := by
  rcases w with _ | w
  · constructor <;> simp [resolvedItem, Item.set, newJob]
  · cases w <;> constructor <;>
      simp [resolvedItem, Item.set, TerminalWrite.fields, newJob, IsTerminal, Function.update]

/-- No terminal write sets an attribute that `create_job` wrote, other than the status. -/
theorem resolvedItem_submitted (job_id : JobId) (request : TranslateRequest) (now : ℕ)
    (w : Option TerminalWrite) :
    resolvedItem job_id request now w .text = some (.str request.text) ∧
      resolvedItem job_id request now w .direction = some (.direction request.direction) ∧
      resolvedItem job_id request now w .ttl = some (.num (now + jobTtlSeconds)) := by
  rcases w with _ | w
  · exact ⟨rfl, rfl, rfl⟩
  · cases w <;> exact ⟨rfl, rfl, rfl⟩

theorem not_notYetTerminal_of_isTerminal {item : JobItem} (h : IsTerminal item) :
    notYetTerminal.eval item = false := by
  rw [← Bool.not_eq_true, notYetTerminal_eval]
  rcases h with h | h <;> simp [h]

/-! ### One operation -/

theorem JobsTable.step_cases {s s' : JobsTable} {op : JobOp} (h : s.step op = some s') :
    (∃ job_id request now, op = .createJob job_id request now ∧ s.submitted job_id = none ∧
      s' = ⟨Function.update s.items job_id (some (newJob job_id request now)),
        Function.update s.submitted job_id (some ⟨request, now⟩)⟩) ∨
    (∃ job_id w, op = .mark job_id w ∧ s.submitted job_id ≠ none ∧
      s' = { s with items := Function.update s.items job_id (w.mark job_id (s.items job_id)) }) ∨
    (∃ job_id, op = .delete job_id ∧ s' = { s with items := Function.update s.items job_id none }) := by
  cases op with
  | createJob job_id request now =>
    simp only [step] at h
    split at h
    · rename_i hid
      exact Or.inl ⟨job_id, request, now, rfl, hid, (Option.some.inj h).symm⟩
    · cases h
  | mark job_id w =>
    simp only [step] at h
    split at h
    · cases h
    · rename_i hid
      exact Or.inr (Or.inl ⟨job_id, w, rfl, hid, (Option.some.inj h).symm⟩)
  | delete job_id => exact Or.inr (Or.inr ⟨job_id, rfl, (Option.some.inj h).symm⟩)

private theorem JobsTable.items_of_step_ne {s s' : JobsTable} {op : JobOp} (h : s.step op = some s')
    {job_id : JobId}
    (hne : op.job ≠ job_id) : s'.items job_id = s.items job_id := by
  have hne' : job_id ≠ op.job := fun e => hne e.symm
  rcases step_cases h with ⟨j, request, now, rfl, -, rfl⟩ | ⟨j, w, rfl, -, rfl⟩ | ⟨j, rfl, rfl⟩ <;>
    exact Function.update_of_ne hne' _ _

theorem JobsTable.submitted_of_step {s s' : JobsTable} {op : JobOp} (h : s.step op = some s') {job_id : JobId}
    {sub : Submission} (hsub : s.submitted job_id = some sub) : s'.submitted job_id = some sub := by
  rcases step_cases h with ⟨j, request, now, rfl, hnew, rfl⟩ | ⟨j, w, rfl, -, rfl⟩ | ⟨j, rfl, rfl⟩
  · have hne : job_id ≠ j := by
      intro e
      rw [← e, hsub] at hnew
      cases hnew
    rw [← hsub]
    exact Function.update_of_ne hne _ _
  · exact hsub
  · exact hsub

/-- An operation that is not a deletion takes the item of an issued job through the terminal writes it
makes. -/
private theorem JobsTable.items_of_step {s s' : JobsTable} {op : JobOp} (h : s.step op = some s')
    {job_id : JobId}
    {sub : Submission} (hsub : s.submitted job_id = some sub) (hop : op ≠ .delete job_id) :
    s'.items job_id = ((terminalWrites job_id [op]).map TerminalWrite.fields).foldl
      (conditionalWrite (keyItem job_id) notYetTerminal) (s.items job_id) := by
  by_cases hj : op.job = job_id
  · rcases step_cases h with ⟨j, request, now, rfl, hnew, rfl⟩ | ⟨j, w, rfl, -, rfl⟩ | ⟨j, rfl, rfl⟩
    · have hj : j = job_id := hj
      rw [hj, hsub] at hnew
      cases hnew
    · have hj : j = job_id := hj
      subst hj
      simp [terminalWrites, w.mark_eq]
    · have hj : j = job_id := hj
      exact absurd (by rw [hj]) hop
  · have hnone : terminalWrites job_id [op] = [] := by
      cases op with
      | mark j w => simp [terminalWrites, show j ≠ job_id from hj]
      | createJob => rfl
      | delete => rfl
    rw [items_of_step_ne h hj, hnone]
    rfl

/-- An operation that is not a deletion leaves a terminal item as it is, and so does an operation on another
job. -/
private theorem JobsTable.items_of_step_frozen {s s' : JobsTable} {op : JobOp} (h : s.step op = some s')
    {job_id : JobId} {sub : Submission} (hsub : s.submitted job_id = some sub) (hop : op ≠ .delete job_id)
    {item : JobItem} (hitem : s.items job_id = some item) (hor : IsTerminal item ∨ op.job ≠ job_id) :
    s'.items job_id = some item := by
  rcases hor with hterm | hne
  · have hclosed : notYetTerminal.eval item = false := not_notYetTerminal_of_isTerminal hterm
    rw [items_of_step h hsub hop, hitem, foldl_conditionalWrite_closed hclosed]
  · rw [items_of_step_ne h hne, hitem]

/-! ### Runs -/

theorem JobsTable.submitted_of_run {s s' : JobsTable} {ops : List JobOp}
    (h : run JobsTable.step s ops = some s') {job_id : JobId} {sub : Submission}
    (hsub : s.submitted job_id = some sub) : s'.submitted job_id = some sub :=
  invariant (I := fun t => t.submitted job_id = some sub) (fun _ _ _ ht h => submitted_of_step h ht) hsub h

theorem JobsTable.items_of_run {s s' : JobsTable} {ops : List JobOp}
    (h : run JobsTable.step s ops = some s') {job_id : JobId} {sub : Submission}
    (hsub : s.submitted job_id = some sub) (hkept : JobOp.delete job_id ∉ ops) :
    s'.items job_id = ((terminalWrites job_id ops).map TerminalWrite.fields).foldl
      (conditionalWrite (keyItem job_id) notYetTerminal) (s.items job_id) := by
  induction ops generalizing s with
  | nil => cases h; rfl
  | cons op ops ih =>
    obtain ⟨u, hu, h⟩ := run_cons_eq_some.1 h
    rw [List.mem_cons, not_or] at hkept
    have happ : terminalWrites job_id (op :: ops) = terminalWrites job_id [op] ++ terminalWrites job_id ops :=
      List.filterMap_append (l := [op])
    have hsub' : u.submitted job_id = some sub := submitted_of_step hu hsub
    rw [happ, List.map_append, List.foldl_append, ← items_of_step hu hsub (Ne.symm hkept.1)]
    exact ih h hsub' hkept.2

/-- The item of a job that was created and not deleted since: the one `create_job` put, resolved by the first
terminal write. -/
private theorem JobsTable.items_eq_resolvedItem {s s' : JobsTable} {job_id : JobId} {request : TranslateRequest}
    {now : ℕ} {ops : List JobOp} (h : run JobsTable.step s (.createJob job_id request now :: ops) = some s')
    (hkept : JobOp.delete job_id ∉ ops) :
    s'.submitted job_id = some ⟨request, now⟩ ∧
      s'.items job_id = some (resolvedItem job_id request now (terminalWrites job_id ops).head?) := by
  obtain ⟨u, hu, h⟩ := run_cons_eq_some.1 h
  obtain ⟨hsub, hput⟩ : u.submitted job_id = some ⟨request, now⟩ ∧
      u.items job_id = some (newJob job_id request now) := by
    rcases step_cases hu with ⟨_, _, _, he, -, rfl⟩ | ⟨_, _, he, -, -⟩ | ⟨_, he, -⟩ <;> cases he
    exact ⟨Function.update_self .., Function.update_self ..⟩
  have hcloses : ∀ w ∈ (terminalWrites job_id ops).map TerminalWrite.fields, Closes notYetTerminal w := by
    intro w hw
    obtain ⟨v, -, rfl⟩ := List.mem_map.1 hw
    exact v.closes
  refine ⟨submitted_of_run h hsub, ?_⟩
  rw [items_of_run h hsub hkept, hput, foldl_conditionalWrite hcloses (notYetTerminal_newJob ..),
    List.head?_map]
  rfl

/-- Write safety of the job store.  A job that `create_job` stored and that is not deleted holds what
`create_job` wrote, resolved by the first terminal write to land and by no other: in particular its status is
pending until then, no operation changes a terminal item, the attributes fit the status, and no write for
another job touches the item. -/
theorem jobs_write_safety {pre ops : List JobOp} {job_id : JobId} {request : TranslateRequest} {now : ℕ}
    {s : JobsTable}
    (hrun : run JobsTable.step .empty (pre ++ .createJob job_id request now :: ops) = some s)
    (hkept : JobOp.delete job_id ∉ ops) :
    ∃ item, s.items job_id = some item ∧
      item = resolvedItem job_id request now (terminalWrites job_id ops).head? ∧
      (item .status = some (.status .pending) ↔ terminalWrites job_id ops = []) ∧
      WellShaped item ∧
      item .text = some (.str request.text) ∧
      item .direction = some (.direction request.direction) ∧
      item .ttl = some (.num (now + jobTtlSeconds)) ∧
      ∀ op s', s.step op = some s' → op ≠ .delete job_id → (IsTerminal item ∨ op.job ≠ job_id) →
        s'.items job_id = some item := by
  obtain ⟨u, -, hrun⟩ := run_append_eq_some.1 hrun
  obtain ⟨hsub, hitem⟩ := JobsTable.items_eq_resolvedItem hrun hkept
  obtain ⟨htext, hdirection, httl⟩ :=
    resolvedItem_submitted job_id request now (terminalWrites job_id ops).head?
  refine ⟨_, hitem, rfl, ?_, resolvedItem_wellShaped .., htext, hdirection, httl, ?_⟩
  · rcases terminalWrites job_id ops with _ | ⟨w, ws⟩
    · simp [resolvedItem, Item.set, newJob]
    · cases w <;> simp [resolvedItem, Item.set, TerminalWrite.fields, Function.update]
  · intro op s' hstep hop hor
    exact JobsTable.items_of_step_frozen hstep hsub hop hitem hor

/-- The failure handler's write lands first, a late success of the Worker second. -/
theorem jobs_write_safety_race :
    ∃ s item, run JobsTable.step .empty
        [.createJob 7 utzRequest 100,
          .mark 7 (.failed 504 ['t', 'a', 'r', 'd', 'e']), .mark 7 (.succeeded ['b', 'i', 'e', 'n'])] = some s ∧
      s.items 7 = some item ∧ item .status = some (.status .failed) ∧ item .translation = none ∧
      item .text = some (.str ['u', 't', 'z']) := by
  obtain ⟨item, hitem, heq, -, -, htext, -⟩ := @jobs_write_safety []
    [.mark 7 (.failed 504 ['t', 'a', 'r', 'd', 'e']), .mark 7 (.succeeded ['b', 'i', 'e', 'n'])] 7
    utzRequest 100 _ rfl (by simp)
  exact ⟨_, item, rfl, hitem, by rw [heq]; rfl, by rw [heq]; rfl, htext⟩

end KaqTranslator
