import KaqTranslator.Api.Records
import KaqTranslator.Api.Resolution

/-!
# Where the translations of the service come from

A translation that a poll of a job is answered with has a call of the endpoint behind it: a Worker of this job
called the endpoint for the request that `create_job` was given, and the call returned this translation
(`Called`).  The invariant `OriginInv` says so of every version of every item and of every process, whatever
the order of the steps, and also for the items that a late write leaves without the text of the request.
-/

namespace KaqTranslator

open EventMachine RecordStore

/-- In the run of `es` a Worker of the job has called the endpoint for `request`, and the call has returned
`translation`. -/
def Called (es : List Event) (job_id : JobId) (request : TranslateRequest) (translation : Str) : Prop :=
  ∃ pre p name outcome post u, es = pre ++ .advance p (.endpoint name outcome) :: post ∧
    run Sys.step Sys.init pre = some u ∧ u.procs p = some (.worker job_id (.calling request)) ∧
    translateViaSagemaker name (fun _ => outcome) request = .ok translation

theorem Called.append {es : List Event} {job_id : JobId} {request : TranslateRequest} {translation : Str}
    (h : Called es job_id request translation) (fs : List Event) :
    Called (es ++ fs) job_id request translation := by
  obtain ⟨pre, p, name, outcome, post, u, rfl, h⟩ := h
  exact ⟨pre, p, name, outcome, post ++ fs, u, by simp, h⟩

/-- The translation was returned for the request that the job was created with. -/
def TranslatedFor (es : List Event) (s : Sys) (job_id : JobId) (translation : Str) : Prop :=
  ∃ sub, s.submitted job_id = some sub ∧ Called es job_id sub.request translation

/-! ### Items -/

/-- The attributes of an item that come from a request are those of the job's, and its translation has a call
behind it. -/
structure ItemOrigin (es : List Event) (s : Sys) (job_id : JobId) (item : JobItem) : Prop where
  text : ∀ v, item .text = some v → ∃ sub, s.submitted job_id = some sub ∧ v = .str sub.request.text
  direction : ∀ v, item .direction = some v →
    ∃ sub, s.submitted job_id = some sub ∧ v = .direction sub.request.direction
  translation : ∀ v, item .translation = some v → ∃ t, v = .str t ∧ TranslatedFor es s job_id t

section Items

variable {es : List Event} {s : Sys} {job_id : JobId} {item : JobItem}

/-- A terminal write leaves the stored item, or sets its fields in it. -/
private theorem TerminalWrite.item_of_mark (w : TerminalWrite) {stored : Option JobItem}
    (h : w.mark job_id stored = some item) :
    stored = some item ∨ item = Item.set (stored.getD (keyItem job_id)) w.fields := by
  rw [w.mark_eq, conditionalWrite, updateItem] at h
  split at h
  · rename_i r hr
    split at hr
    · obtain rfl := Option.some.inj h
      exact Or.inr (Option.some.inj hr).symm
    · cases hr
  · exact Or.inl h

private theorem itemOrigin_keyItem : ItemOrigin es s job_id (keyItem job_id) where
  text _ h := by cases h
  direction _ h := by cases h
  translation _ h := by cases h

private theorem itemOrigin_newJob {request : TranslateRequest} {now : ℕ}
    (hsub : s.submitted job_id = some ⟨request, now⟩) : ItemOrigin es s job_id (newJob job_id request now) where
  text v h := ⟨_, hsub, (Option.some.inj h).symm⟩
  direction v h := ⟨_, hsub, (Option.some.inj h).symm⟩
  translation _ h := by cases h

/-- A terminal write keeps the origins, if it writes no translation or one that was returned for the job. -/
private theorem ItemOrigin.mark {stored : Option JobItem}
    (hstored : ∀ item, stored = some item → ItemOrigin es s job_id item) {w : TerminalWrite}
    (hw : ∀ t, w = .succeeded t → TranslatedFor es s job_id t) (h : w.mark job_id stored = some item) :
    ItemOrigin es s job_id item := by
  rcases w.item_of_mark h with h | rfl
  · exact hstored item h
  have hbase : ItemOrigin es s job_id (stored.getD (keyItem job_id)) := by
    cases stored with
    | none => exact itemOrigin_keyItem
    | some item => exact hstored item rfl
  cases w with
  | succeeded t =>
    refine ⟨hbase.text, hbase.direction, ?_⟩
    intro v hv
    obtain rfl : .str t = v := by simpa [TerminalWrite.fields, Item.set] using hv
    exact ⟨t, rfl, hw t rfl⟩
  | failed status_code error => exact ⟨hbase.text, hbase.direction, hbase.translation⟩

/-- What `get_job_input` reads from an item is the request of the job. -/
private theorem ItemOrigin.request (h : ItemOrigin es s job_id item) {request : TranslateRequest}
    (hread : getJobInput (some item) = .ok (some request)) :
    ∃ sub, s.submitted job_id = some sub ∧ sub.request = request := by
  cases htext : item .text with
  | none => simp [getJobInput, fetch, htext, bind, Except.bind] at hread
  | some text =>
    obtain ⟨sub, hsub, rfl⟩ := h.text text htext
    cases hdirection : item .direction with
    | none => simp [getJobInput, fetch, htext, hdirection, Value.toStr, bind, Except.bind] at hread
    | some direction =>
      obtain ⟨sub', hsub', rfl⟩ := h.direction direction hdirection
      obtain rfl : sub = sub' := Option.some.inj (hsub.symm.trans hsub')
      have hbounds : 1 ≤ sub.request.text.length ∧ sub.request.text.length ≤ 2000 :=
        ⟨sub.request.min_length, sub.request.max_length⟩
      simp only [getJobInput, fetch, htext, hdirection, Value.toStr, Value.toDirection,
        TranslateRequest.validate, bind, Except.bind, pure, Except.pure, dif_pos hbounds, Except.ok.injEq,
        Option.some.injEq] at hread
      exact ⟨sub, hsub, hread⟩

/-- A record that `get_job` returns is the one that was read. -/
private theorem getJob_eq_some {answer : Option JobItem} {now : ℕ} {job : JobItem}
    (h : getJob answer now = .ok (some job)) : answer = some job := by
  cases answer with
  | none => cases h
  | some item =>
    simp only [getJob, bind, Except.bind, pure, Except.pure] at h
    repeat' split at h
    all_goals cases h
    rfl

private theorem fetch_eq_ok {a : Attr} {v : Value} (h : fetch item a = .ok v) : item a = some v := by
  rw [fetch] at h
  split at h
  · rename_i hv
    rw [hv, Except.ok.inj h]
  · cases h

private theorem toStr_eq_ok {v : Value} {t : Str} (h : v.toStr = .ok t) : v = .str t := by
  cases v with
  | str u => rw [Except.ok.inj h]
  | _ => cases h

private theorem translation_of_response {t : Str} (h : jobStatusResponse item = .ok (.succeeded t)) :
    item .translation = some (.str t) := by
  simp only [jobStatusResponse, bind, Except.bind, pure, Except.pure] at h
  split at h
  · cases h
  · split at h
    · split at h
      · cases h
      · rename_i v hfetch
        split at h
        · cases h
        · rename_i u hstr
          obtain rfl := JobStatusResponse.succeeded.inj (Except.ok.inj h)
          rw [fetch_eq_ok hfetch, toStr_eq_ok hstr]
    · repeat' split at h
      all_goals cases h

/-- What a poll answers from an item with the translation in it -/
private theorem ItemOrigin.answer {answer : Option JobItem}
    (h : ∀ item, answer = some item → ItemOrigin es s job_id item) {now : ℕ} {t : Str}
    (hok : getTranslateJob (some job_id) (fun _ => answer) now = .ok (.succeeded t)) :
    TranslatedFor es s job_id t := by
  simp only [getTranslateJob] at hok
  split at hok
  · cases hok
  · cases hok
  · rename_i job hjob
    split at hok
    · rename_i body hbody
      obtain rfl := JobResponse.ok.inj hok
      obtain ⟨_, ht, htranslated⟩ := (h job (getJob_eq_some hjob)).translation _ (translation_of_response hbody)
      obtain rfl := Value.str.inj ht
      exact htranslated
    · cases hok

end Items

/-! ### The invariant -/

section Mono

variable {es : List Event} {s s' : Sys} {job_id : JobId}

theorem TranslatedFor.mono {t : Str} (h : TranslatedFor es s job_id t)
    (hsub : ∀ j sub, s.submitted j = some sub → s'.submitted j = some sub) (fs : List Event) :
    TranslatedFor (es ++ fs) s' job_id t := by
  obtain ⟨sub, hsubmitted, hcalled⟩ := h
  exact ⟨sub, hsub _ _ hsubmitted, hcalled.append fs⟩

private theorem ItemOrigin.mono {item : JobItem} (h : ItemOrigin es s job_id item)
    (hsub : ∀ j sub, s.submitted j = some sub → s'.submitted j = some sub) (fs : List Event) :
    ItemOrigin (es ++ fs) s' job_id item where
  text v hv := (h.text v hv).imp fun _ hs => ⟨hsub _ _ hs.1, hs.2⟩
  direction v hv := (h.direction v hv).imp fun _ hs => ⟨hsub _ _ hs.1, hs.2⟩
  translation v hv := (h.translation v hv).imp fun _ ht => ⟨ht.1, ht.2.mono hsub fs⟩

end Mono

/-- What a process holds has an origin. -/
def ProcOrigin (es : List Event) (s : Sys) : Proc → Prop
  | .worker job_id pc =>
    match pc with
    | .calling request => ∃ sub, s.submitted job_id = some sub ∧ sub.request = request
    | .succeeding _ translation => TranslatedFor es s job_id translation
    | _ => True
  | .failureHandler _ _ => True
  | .poll job_id pc =>
    match pc with
    | .reading => True
    | .checking answer => ∀ item, answer = some item → ItemOrigin es s job_id item
    | .answered _ response => ∀ t, response = .ok (.succeeded t) → TranslatedFor es s job_id t

/-- Every version of every item and every process has an origin. -/
structure OriginInv (es : List Event) (s : Sys) : Prop where
  run : run Sys.step Sys.init es = some s
  versions : ∀ job_id item, some item ∈ s.store job_id → ItemOrigin es s job_id item
  procs : ∀ p proc, s.procs p = some proc → ProcOrigin es s proc

section Steps

variable {es : List Event} {s s' : Sys} {e : Event}

private theorem ProcOrigin.mono {proc : Proc} (h : ProcOrigin es s proc)
    (hsub : ∀ j sub, s.submitted j = some sub → s'.submitted j = some sub) (fs : List Event) :
    ProcOrigin (es ++ fs) s' proc := by
  rcases proc with ⟨j, _ | request | ⟨request, t⟩ | _ | _ | _ | _ | _ | _⟩ | ⟨j, pc⟩ | ⟨j, _ | answer | _⟩
  case worker.calling =>
    obtain ⟨sub, hs, hr⟩ := h
    exact ⟨sub, hsub _ _ hs, hr⟩
  case worker.succeeding => exact TranslatedFor.mono h hsub fs
  case poll.checking => exact fun item hitem => (h item hitem).mono hsub fs
  case poll.answered => exact fun t ht => (h t ht).mono hsub fs
  all_goals trivial

private theorem OriginInv.answer (hs : OriginInv es s) {job_id : JobId} {n : ℕ} {item : JobItem}
    (h : s.store.answer job_id n = some item) : ItemOrigin es s job_id item :=
  hs.versions job_id item (History.answer_mem h)

private theorem OriginInv.current (hs : OriginInv es s) {job_id : JobId} {item : JobItem}
    (h : s.store.current job_id = some item) : ItemOrigin es s job_id item := by
  rw [History.current_eq_answer] at h
  exact hs.answer h

/-- A process that takes a step, after the step -/
private theorem OriginInv.procOrigin_of_next (hs : OriginInv es s) {p : ℕ} {proc : Proc} {c : Choice}
    {a : Action Proc} (hproc : s.procs p = some proc) (ha : proc.next s.store.answer s.clock c = some a) :
    ProcOrigin (es ++ [.advance p c]) s a.pc := by
  have hold : ProcOrigin es s proc := hs.procs p proc hproc
  cases proc with
  | worker job_id pc =>
    simp only [Proc.next, Option.map_eq_some_iff] at ha
    obtain ⟨b, hb, rfl⟩ := ha
    cases pc <;> cases c <;> simp only [WorkerPc.next, reduceCtorEq] at hb
    case reading.version n =>
      cases hans : s.store.answer job_id n with
      | none =>
        rw [hans] at hb
        obtain rfl := Option.some.inj hb
        trivial
      | some item =>
        rw [hans] at hb
        split at hb <;> obtain rfl := Option.some.inj hb
        · trivial
        · rename_i request hread
          exact (hs.answer hans).request hread
        · trivial
    case calling.endpoint request name outcome =>
      split at hb <;> obtain rfl := Option.some.inj hb
      · rename_i t hcall
        -- the call that the translation has behind it
        obtain ⟨sub, hsub, rfl⟩ := hold
        exact ⟨sub, hsub, es, p, name, outcome, [], s, rfl, hs.run, hproc, hcall⟩
      · trivial
      · trivial
    all_goals
      obtain rfl := Option.some.inj hb
      trivial
  | failureHandler job_id pc =>
    simp only [Proc.next, Option.map_eq_some_iff] at ha
    obtain ⟨b, -, rfl⟩ := ha
    trivial
  | poll job_id pc =>
    obtain ⟨⟨pc', hpc', hnext⟩, -, -⟩ := Proc.poll_of_next ha
    rw [hpc']
    rcases pc with _ | answer | ⟨time, response⟩ <;> cases c <;>
      simp only [PollPc.next, reduceCtorEq, Option.some.injEq, Action.goto, Action.mk.injEq] at hnext
    · obtain ⟨rfl, -⟩ := hnext
      exact fun item hitem => (hs.answer hitem).mono (fun _ _ h => h) _
    · obtain ⟨rfl, -⟩ := hnext
      intro t ht
      exact (ItemOrigin.answer hold ht).mono (fun _ _ h => h) _

/-- The translation that a step writes was returned for its job. -/
private theorem OriginInv.translated_of_writeOf (hs : OriginInv es s) {job_id : JobId} {t : Str}
    (hw : s.writeOf e = some (job_id, .succeeded t)) : TranslatedFor es s job_id t := by
  cases e with
  | advance p c =>
    simp only [Sys.writeOf, Option.bind_eq_bind, Option.bind_eq_some_iff] at hw
    obtain ⟨proc, hproc, a, ha, w, hw, hpair⟩ := hw
    obtain ⟨rfl, rfl⟩ := Prod.mk.inj (Option.some.inj hpair)
    have hold : ProcOrigin es s proc := hs.procs p proc hproc
    cases proc with
    | worker job_id pc =>
      simp only [Proc.next, Option.map_eq_some_iff] at ha
      obtain ⟨b, hb, rfl⟩ := ha
      have hwrite : b.write = some (.succeeded t) := hw
      cases WorkerPc.move_of_next hb <;> cases hwrite
      exact hold
    | failureHandler job_id pc =>
      simp only [Proc.next, Option.map_eq_some_iff] at ha
      obtain ⟨b, hb, rfl⟩ := ha
      have hwrite : b.write = some (.succeeded t) := hw
      rcases pc with _ | _ | answer | _ | _ <;> cases c <;> simp only [HandlerPc.next, reduceCtorEq] at hb
      · obtain rfl := Option.some.inj hb
        cases hwrite
      · obtain rfl := Option.some.inj hb
        cases hwrite
      · split at hb <;> obtain rfl := Option.some.inj hb <;> cases hwrite
    | poll job_id pc =>
      obtain ⟨-, hnone, -⟩ := Proc.poll_of_next ha
      rw [hnone] at hw
      cases hw
  | _ => cases hw

theorem originInv_of_step (hs : OriginInv es s) (h : s.step e = some s') : OriginInv (es ++ [e]) s' := by
  have hsub : ∀ j sub, s.submitted j = some sub → s'.submitted j = some sub :=
    fun _ _ hj => Sys.submitted_of_step h hj
  have hrun : EventMachine.run Sys.step Sys.init (es ++ [e]) = some s' :=
    run_append_cons_eq_some.2 ⟨s, s', hs.run, h, rfl⟩
  refine ⟨hrun, ?_, ?_⟩
  · intro job_id item hitem
    rcases Sys.current_of_step h job_id with ⟨hst, -⟩ | ⟨r, n, -, -, hnew, hst⟩ | ⟨w, hw, hst⟩ |
      ⟨item', -, -, -, hst⟩
    · rw [hst] at hitem
      exact (hs.versions job_id item hitem).mono hsub [e]
    all_goals
      rw [hst, History.mem_record] at hitem
      rcases hitem with ⟨-, hitem⟩ | hitem
    case inr.inl.inr | inr.inr.inl.inr | inr.inr.inr.inr => exact (hs.versions job_id item hitem).mono hsub [e]
    · obtain rfl := Option.some.inj hitem
      exact itemOrigin_newJob hnew
    · refine (ItemOrigin.mark (fun _ hc => hs.current hc) ?_ hitem.symm).mono hsub [e]
      rintro t rfl
      exact hs.translated_of_writeOf hw
    · cases hitem
  · intro p proc hp
    rcases Sys.procs_of_step h p with ⟨hproc, -⟩ | ⟨proc', -, hstart, hproc, -, -⟩ |
      ⟨c, proc', a, rfl, hproc, ha, -, rfl⟩
    · rw [hproc] at hp
      exact (hs.procs p proc hp).mono hsub [e]
    · obtain rfl : proc' = proc := by simpa [hproc] using hp
      cases hstart <;> trivial
    · obtain rfl : a.pc = proc := by simpa using hp
      have hnext := (hs.procOrigin_of_next hproc ha).mono hsub []
      rwa [List.append_nil] at hnext

theorem originInv_init : OriginInv [] Sys.init :=
  ⟨rfl, fun _ _ h => (List.not_mem_nil h).elim, fun _ _ h => (Option.some_ne_none _ h.symm).elim⟩

end Steps

end KaqTranslator
