import KaqTranslator.Api.Service

/-!
# What the log does not tell (`app/observability.py`)

A `translate_job_resolved` line has the direction and the length of a text, never the text or its translation.
Take a run of the service, replace every submitted text by another one of the same length and every
translation by any other: the events can still happen, and the same lines are logged
(`log_keeps_texts_private`).  So nobody who reads the log, in whatever order its lines come, can tell the two
runs apart.
-/

namespace KaqTranslator

open EventMachine RecordStore

/-! ### What may differ -/

/-- The requests differ in the characters of their texts alone. -/
structure TranslateRequest.Alike (request request' : TranslateRequest) : Prop where
  direction : request.direction = request'.direction
  length : request.text.length = request'.text.length

/-- The outcomes are the same, or both give a translation. -/
inductive InvokeOutcome.Alike : InvokeOutcome → InvokeOutcome → Prop where
  | refl (outcome : InvokeOutcome) : Alike outcome outcome
  | translations {body body' : Json} {t t' : Str} (h : translatedText body = .ok (some t))
    (h' : translatedText body' = .ok (some t')) : Alike (.response (.value body)) (.response (.value body'))

inductive Choice.Alike : Choice → Choice → Prop where
  | refl (c : Choice) : Alike c c
  | endpoint (name : Option Str) {outcome outcome' : InvokeOutcome} (h : outcome.Alike outcome') :
    Alike (.endpoint name outcome) (.endpoint name outcome')

inductive Event.Alike : Event → Event → Prop where
  | refl (e : Event) : Alike e e
  | post (job_id : JobId) {request request' : TranslateRequest} (h : request.Alike request') (now : ℕ) :
    Alike (.post job_id request now) (.post job_id request' now)
  | advance (p : ℕ) {c c' : Choice} (h : c.Alike c') : Alike (.advance p c) (.advance p c')

/-! ### States that differ in texts -/

theorem TranslateRequest.Alike.refl (request : TranslateRequest) : request.Alike request := ⟨rfl, rfl⟩

/-- Items of a job, but for the characters of the text and the translation -/
structure JobItemAlike (item item' : JobItem) : Prop where
  others : ∀ a, a ≠ .text → a ≠ .translation → item a = item' a
  text : (item .text = none ∧ item' .text = none) ∨
    ∃ s s' : Str, item .text = some (.str s) ∧ item' .text = some (.str s') ∧ s.length = s'.length

inductive WorkerPc.Alike : WorkerPc → WorkerPc → Prop where
  | reading : Alike .reading .reading
  | calling {request request' : TranslateRequest} (h : request.Alike request') :
    Alike (.calling request) (.calling request')
  | succeeding {request request' : TranslateRequest} (h : request.Alike request') (t t' : Str) :
    Alike (.succeeding request t) (.succeeding request' t')
  | failing {request request' : TranslateRequest} (h : request.Alike request')
      (error : TranslationServiceError) :
    Alike (.failing request error) (.failing request' error)
  | loggingSucceeded {request request' : TranslateRequest} (h : request.Alike request') :
    Alike (.loggingSucceeded request) (.loggingSucceeded request')
  | loggingFailed {request request' : TranslateRequest} (h : request.Alike request')
    (error : TranslationServiceError) : Alike (.loggingFailed request error) (.loggingFailed request' error)
  | returning (found : Bool) : Alike (.returning found) (.returning found)
  | returned (found : Bool) : Alike (.returned found) (.returned found)
  | crashed : Alike .crashed .crashed

inductive HandlerPc.Alike : HandlerPc → HandlerPc → Prop where
  | marking : Alike .marking .marking
  | reading : Alike .reading .reading
  | checking {answer answer' : Option JobItem} (h : Option.Rel JobItemAlike answer answer') :
    Alike (.checking answer) (.checking answer')
  | finished : Alike .finished .finished
  | raised : Alike .raised .raised

inductive PollPc.Alike : PollPc → PollPc → Prop where
  | reading : Alike .reading .reading
  | checking (answer answer' : Option JobItem) : Alike (.checking answer) (.checking answer')
  | answered (time : ℕ) (response response' : JobResponse) :
      Alike (.answered time response) (.answered time response')

inductive Proc.Alike : Proc → Proc → Prop where
  | worker (job_id : JobId) {pc pc' : WorkerPc} (h : pc.Alike pc') :
      Alike (.worker job_id pc) (.worker job_id pc')
  | failureHandler (job_id : JobId) {pc pc' : HandlerPc} (h : pc.Alike pc') :
    Alike (.failureHandler job_id pc) (.failureHandler job_id pc')
  | poll (job_id : JobId) {pc pc' : PollPc} (h : pc.Alike pc') : Alike (.poll job_id pc) (.poll job_id pc')

inductive TerminalWrite.Alike : TerminalWrite → TerminalWrite → Prop where
  | succeeded (t t' : Str) : Alike (.succeeded t) (.succeeded t')
  | failed (status_code : ℕ) (error : Str) : Alike (.failed status_code error) (.failed status_code error)

structure Action.Alike {P : Type*} (R : P → P → Prop) (a a' : Action P) : Prop where
  pc : R a.pc a'.pc
  write : Option.Rel TerminalWrite.Alike a.write a'.write
  log : a.log = a'.log

structure Submission.Alike (sub sub' : Submission) : Prop where
  request : sub.request.Alike sub'.request
  now : sub.now = sub'.now

structure Sys.Alike (s t : Sys) : Prop where
  clock : s.clock = t.clock
  store : ∀ job_id, List.Forall₂ (Option.Rel JobItemAlike) (s.store job_id) (t.store job_id)
  submitted : ∀ job_id, Option.Rel Submission.Alike (s.submitted job_id) (t.submitted job_id)
  procs : ∀ p, Option.Rel Proc.Alike (s.procs p) (t.procs p)
  logs : s.logs = t.logs

/-! ### Items -/

theorem alike_newJob (job_id : JobId) {request request' : TranslateRequest} (h : request.Alike request')
    (now : ℕ) : JobItemAlike (newJob job_id request now) (newJob job_id request' now) := by
  refine ⟨fun a htext htranslation => ?_, .inr ⟨_, _, rfl, rfl, h.length⟩⟩
  cases a with
  | text => exact absurd rfl htext
  | direction => exact congrArg (some <| Value.direction ·) h.direction
  | _ => rfl

theorem JobItemAlike.refl_keyItem (job_id : JobId) : JobItemAlike (keyItem job_id) (keyItem job_id) :=
  ⟨fun _ _ _ => rfl, .inl ⟨rfl, rfl⟩⟩

theorem JobItemAlike.update {item item' : JobItem} (h : JobItemAlike item item') {a : Attr} (ha : a ≠ .text)
    {v v' : Value} (hv : a = .translation ∨ v = v') :
    JobItemAlike (Function.update item a (some v)) (Function.update item' a (some v')) := by
  refine ⟨fun b htext htranslation => ?_, ?_⟩
  · by_cases hb : b = a
    · rw [hb, Function.update_self, Function.update_self, hv.resolve_left (hb ▸ htranslation)]
    · rw [Function.update_of_ne hb, Function.update_of_ne hb]
      exact h.others b htext htranslation
  · rw [Function.update_of_ne ha.symm, Function.update_of_ne ha.symm]
    exact h.text

theorem alike_mark {w w' : TerminalWrite} (hw : w.Alike w') (job_id : JobId) {stored stored' : Option JobItem}
    (h : Option.Rel JobItemAlike stored stored') :
    Option.Rel JobItemAlike (w.mark job_id stored) (w'.mark job_id stored') := by
  have hset : ∀ {item item' : JobItem}, JobItemAlike item item' →
      JobItemAlike (Item.set item w.fields) (Item.set item' w'.fields) := by
    intro item item' hitem
    cases hw with
    | succeeded t t' => exact (hitem.update (by decide) (.inr rfl)).update (by decide) (.inl rfl)
    | failed status_code error =>
      exact ((hitem.update (by decide) (.inr rfl)).update (by decide) (.inr rfl)).update (by decide)
        (.inr rfl)
  rw [TerminalWrite.mark_eq, TerminalWrite.mark_eq]
  cases h with
  | none =>
    rw [conditionalWrite_none rfl, conditionalWrite_none rfl]
    exact .some (hset (.refl_keyItem job_id))
  | @some item item' hitem =>
    have heval : notYetTerminal.eval item = notYetTerminal.eval item' := by
      simp only [notYetTerminal, Condition.eval, hitem.others .status (by decide) (by decide)]
    cases hstatus : notYetTerminal.eval item with
    | true =>
      rw [conditionalWrite_of_eval hstatus, conditionalWrite_of_eval (heval ▸ hstatus)]
      exact .some (hset hitem)
    | false =>
      rw [conditionalWrite_of_not_eval hstatus, conditionalWrite_of_not_eval (heval ▸ hstatus)]
      exact .some hitem

theorem getJobInput_alike {answer answer' : Option JobItem} (h : Option.Rel JobItemAlike answer answer') :
    (∃ e, getJobInput answer = .error e ∧ getJobInput answer' = .error e) ∨
      (getJobInput answer = .ok none ∧ getJobInput answer' = .ok none) ∨
      ∃ request request', getJobInput answer = .ok (some request) ∧
        getJobInput answer' = .ok (some request') ∧ request.Alike request' := by
  cases h with
  | none => exact .inr (.inl ⟨rfl, rfl⟩)
  | @some item item' hitem =>
    rcases hitem.text with ⟨htext, htext'⟩ | ⟨t, t', htext, htext', hlength⟩
    · left
      refine ⟨.keyError .text, ?_, ?_⟩
      · simp only [getJobInput, fetch, htext]
        rfl
      · simp only [getJobInput, fetch, htext']
        rfl
    · -- the direction is the same, and the check of the text looks at its length
      have hdirection : fetch item .direction = fetch item' .direction := by
        rw [fetch, fetch, hitem.others .direction (by decide) (by decide)]
      have hinput : ∀ {item : JobItem} {t : Str}, item .text = some (.str t) → getJobInput (some item) =
          (fetch item .direction >>= Value.toDirection) >>= fun d =>
            (TranslateRequest.validate t d).map some := by
        intro item t htext
        simp only [getJobInput, fetch, htext]
        cases item .direction with
        | none => rfl
        | some v =>
          cases v with
          | direction d => rfl
          | _ => rfl
      rw [hinput htext, hinput htext', ← hdirection]
      cases fetch item .direction >>= Value.toDirection with
      | error e => exact .inl ⟨e, rfl, rfl⟩
      | ok d =>
        by_cases hbounds : 1 ≤ t.length ∧ t.length ≤ 2000
        · have hbounds' : 1 ≤ t'.length ∧ t'.length ≤ 2000 := hlength ▸ hbounds
          have hvalid : TranslateRequest.validate t d = .ok ⟨t, d, hbounds.1, hbounds.2⟩ := dif_pos hbounds
          have hvalid' : TranslateRequest.validate t' d = .ok ⟨t', d, hbounds'.1, hbounds'.2⟩ :=
            dif_pos hbounds'
          exact .inr (.inr ⟨_, _, congrArg (Except.map some) hvalid, congrArg (Except.map some) hvalid', rfl,
            hlength⟩)
        · have hbounds' : ¬ (1 ≤ t'.length ∧ t'.length ≤ 2000) := hlength ▸ hbounds
          have hvalid : TranslateRequest.validate t d = .error .validationError := dif_neg hbounds
          have hvalid' : TranslateRequest.validate t' d = .error .validationError := dif_neg hbounds'
          exact .inl ⟨_, congrArg (Except.map some) hvalid, congrArg (Except.map some) hvalid'⟩

/-- The log line of the `onFailure` destination does not depend on the text. -/
theorem failureLine_alike (job_id : JobId) (now : ℕ) {answer answer' : Option JobItem}
    (h : Option.Rel JobItemAlike answer answer') :
    (getJob answer now >>= failureLine job_id) = (getJob answer' now >>= failureLine job_id) := by
  cases h with
  | none => rfl
  | @some item item' hitem =>
    have hdirection := hitem.others .direction (by decide) (by decide)
    have hline : failureLine job_id (some item) = failureLine job_id (some item') := by
      simp only [failureLine, Option.bind_some, hdirection]
      rcases hitem.text with ⟨htext, htext'⟩ | ⟨t, t', htext, htext', hlength⟩
      · rw [htext, htext']
      · rw [htext, htext']
        simp only [Value.toStr, Except.map, hlength]
    have hget : ∀ item : JobItem, getJob (some item) now = (fetch item .ttl >>= Value.toNat) >>= fun ttl =>
        .ok (if ttl < now then none else some item) := by
      intro item
      simp only [getJob]
      cases fetch item .ttl with
      | error e => rfl
      | ok v =>
        refine congrArg (Bind.bind v.toNat) (funext fun ttl => ?_)
        split <;> rfl
    have httl : fetch item .ttl = fetch item' .ttl := by
      rw [fetch, fetch, hitem.others .ttl (by decide) (by decide)]
    rw [hget, hget, httl]
    cases fetch item' .ttl >>= Value.toNat with
    | error e => rfl
    | ok ttl =>
      show failureLine job_id (if ttl < now then none else some item) =
        failureLine job_id (if ttl < now then none else some item')
      split
      · rfl
      · exact hline

theorem translateViaSagemaker_alike (name : Option Str) {outcome outcome' : InvokeOutcome}
    (h : outcome.Alike outcome') (request request' : TranslateRequest) :
    (∃ e, translateViaSagemaker name (fun _ => outcome) request = .error e ∧
        translateViaSagemaker name (fun _ => outcome') request' = .error e) ∨
      ∃ t t', translateViaSagemaker name (fun _ => outcome) request = .ok t ∧
        translateViaSagemaker name (fun _ => outcome') request' = .ok t' := by
  cases h with
  | refl =>
    have hsame : translateViaSagemaker name (fun _ => outcome) request' =
        translateViaSagemaker name (fun _ => outcome) request := rfl
    rw [hsame]
    cases translateViaSagemaker name (fun _ => outcome) request with
    | error e => exact .inl ⟨e, rfl, rfl⟩
    | ok t => exact .inr ⟨t, t, rfl, rfl⟩
  | @translations body body' t t' h h' =>
    by_cases hname : (name.getD []).isEmpty = true
    · refine .inl ⟨.other, ?_, ?_⟩ <;> rw [translateViaSagemaker, if_pos hname]
    · refine .inr ⟨t, t', ?_, ?_⟩
      · rw [translateViaSagemaker, if_neg hname]
        simp only [h]
        rfl
      · rw [translateViaSagemaker, if_neg hname]
        simp only [h']
        rfl

/-! ### One step of a process -/

theorem alike_goto {P : Type*} {R : P → P → Prop} {pc pc' : P} (h : R pc pc') :
    Option.Rel (Action.Alike R) (some (.goto pc)) (some (.goto pc')) :=
  .some ⟨h, .none, rfl⟩

theorem WorkerPc.next_alike (job_id : JobId) {answer answer' : ℕ → Option JobItem}
    (hanswer : ∀ n, Option.Rel JobItemAlike (answer n) (answer' n)) {pc pc' : WorkerPc} (hpc : pc.Alike pc')
    {c c' : Choice} (hc : c.Alike c') :
    Option.Rel (Action.Alike WorkerPc.Alike) (pc.next job_id answer c) (pc'.next job_id answer' c') := by
  cases hpc with
  | reading =>
    cases hc with
    | refl c =>
      cases c with
      | version n =>
        simp only [WorkerPc.next]
        rcases getJobInput_alike (hanswer n) with ⟨e, h, h'⟩ | ⟨h, h'⟩ | ⟨request, request', h, h', halike⟩
        · rw [h, h']
          exact alike_goto .crashed
        · rw [h, h']
          exact alike_goto (.returning false)
        · rw [h, h']
          exact alike_goto (.calling halike)
      | crash => exact alike_goto .crashed
      | _ => exact .none
    | endpoint _ _ => exact .none
  | @calling request request' halike =>
    -- an outcome is classified without a look at the text
    have hcall : ∀ name {outcome outcome' : InvokeOutcome}, outcome.Alike outcome' →
        Option.Rel (Action.Alike WorkerPc.Alike)
          ((calling request).next job_id answer (.endpoint name outcome))
          ((calling request').next job_id answer' (.endpoint name outcome')) := by
      intro name outcome outcome' houtcome
      simp only [WorkerPc.next]
      rcases translateViaSagemaker_alike name houtcome request request' with ⟨e, h, h'⟩ | ⟨t, t', h, h'⟩
      · rw [h, h']
        cases e with
        | service error => exact alike_goto (.failing halike error)
        | other => exact alike_goto .crashed
      · rw [h, h']
        exact alike_goto (.succeeding halike t t')
    cases hc with
    | refl c =>
      cases c with
      | endpoint name outcome => exact hcall name (.refl outcome)
      | crash => exact alike_goto .crashed
      | _ => exact .none
    | endpoint name houtcome => exact hcall name houtcome
  | succeeding halike t t' =>
    cases hc with
    | refl c =>
      cases c with
      | proceed => exact .some ⟨.loggingSucceeded halike, .some (.succeeded t t'), rfl⟩
      | crash => exact alike_goto .crashed
      | _ => exact .none
    | endpoint _ _ => exact .none
  | failing halike error =>
    cases hc with
    | refl c =>
      cases c with
      | proceed => exact .some ⟨.loggingFailed halike error, .some (.failed _ _), rfl⟩
      | crash => exact alike_goto .crashed
      | _ => exact .none
    | endpoint _ _ => exact .none
  | loggingSucceeded halike =>
    cases hc with
    | refl c =>
      cases c with
      | elapsed latency =>
        simp only [WorkerPc.next, halike.direction, halike.length]
        exact .some ⟨.returning true, .none, rfl⟩
      | crash => exact alike_goto .crashed
      | _ => exact .none
    | endpoint _ _ => exact .none
  | loggingFailed halike error =>
    cases hc with
    | refl c =>
      cases c with
      | elapsed latency =>
        simp only [WorkerPc.next, halike.direction, halike.length]
        exact .some ⟨.returning true, .none, rfl⟩
      | crash => exact alike_goto .crashed
      | _ => exact .none
    | endpoint _ _ => exact .none
  | returning found =>
    cases hc with
    | refl c =>
      cases c with
      | proceed => exact alike_goto (.returned found)
      | crash => exact alike_goto .crashed
      | _ => exact .none
    | endpoint _ _ => exact .none
  | returned found => exact .none
  | crashed => exact .none

theorem HandlerPc.next_alike (job_id : JobId) {answer answer' : ℕ → Option JobItem}
    (hanswer : ∀ n, Option.Rel JobItemAlike (answer n) (answer' n)) (clock : ℕ) {pc pc' : HandlerPc}
    (hpc : pc.Alike pc') {c c' : Choice} (hc : c.Alike c') :
    Option.Rel (Action.Alike HandlerPc.Alike) (pc.next job_id answer clock c)
      (pc'.next job_id answer' clock c') := by
  cases hpc with
  | marking =>
    cases hc with
    | refl c =>
      cases c with
      | proceed => exact .some ⟨.reading, .some (.failed _ _), rfl⟩
      | _ => exact .none
    | endpoint _ _ => exact .none
  | reading =>
    cases hc with
    | refl c =>
      cases c with
      | version n => exact alike_goto (.checking (hanswer n))
      | _ => exact .none
    | endpoint _ _ => exact .none
  | @checking stored stored' h =>
    cases hc with
    | refl c =>
      cases c with
      | proceed =>
        simp only [HandlerPc.next, failureLine_alike job_id clock h]
        cases getJob stored' clock >>= failureLine job_id with
        | error e => exact alike_goto .raised
        | ok line => exact .some ⟨.finished, .none, rfl⟩
      | _ => exact .none
    | endpoint _ _ => exact .none
  | finished => exact .none
  | raised => exact .none

theorem PollPc.next_alike (job_id : JobId) (answer answer' : ℕ → Option JobItem) (clock : ℕ) {pc pc' : PollPc}
    (hpc : pc.Alike pc') {c c' : Choice} (hc : c.Alike c') :
    Option.Rel (Action.Alike PollPc.Alike) (pc.next job_id answer clock c)
      (pc'.next job_id answer' clock c') := by
  cases hpc with
  | reading =>
    cases hc with
    | refl c =>
      cases c with
      | version n => exact alike_goto (.checking _ _)
      | _ => exact .none
    | endpoint _ _ => exact .none
  | checking stored stored' =>
    cases hc with
    | refl c =>
      cases c with
      | proceed => exact alike_goto (.answered _ _ _)
      | _ => exact .none
    | endpoint _ _ => exact .none
  | answered time response response' => exact .none

theorem alike_map {P Q : Type*} {R : P → P → Prop} {S : Q → Q → Prop} {f f' : P → Q}
    (hf : ∀ {pc pc'}, R pc pc' → S (f pc) (f' pc')) {a a' : Option (Action P)}
    (h : Option.Rel (Action.Alike R) a a') :
    Option.Rel (Action.Alike S) (a.map (Action.map f)) (a'.map (Action.map f')) := by
  cases h with
  | none => exact .none
  | some h => exact .some ⟨hf h.pc, h.write, h.log⟩

theorem Proc.next_alike {answer answer' : JobId → ℕ → Option JobItem}
    (hanswer : ∀ job_id n, Option.Rel JobItemAlike (answer job_id n) (answer' job_id n)) (clock : ℕ)
    {proc proc' : Proc} (hproc : proc.Alike proc') {c c' : Choice} (hc : c.Alike c') :
    Option.Rel (Action.Alike Proc.Alike) (proc.next answer clock c) (proc'.next answer' clock c') := by
  cases hproc with
  | worker job_id hpc => exact alike_map (.worker job_id) (WorkerPc.next_alike job_id (hanswer job_id) hpc hc)
  | failureHandler job_id hpc =>
    exact alike_map (.failureHandler job_id) (HandlerPc.next_alike job_id (hanswer job_id) clock hpc hc)
  | poll job_id hpc => exact alike_map (.poll job_id) (PollPc.next_alike job_id _ _ clock hpc hc)

/-! ### One step of the system -/

theorem alike_update {K V : Type*} [DecidableEq K] {R : V → V → Prop} {f g : K → V} (h : ∀ k, R (f k) (g k))
    (k : K) {v w : V} (hv : R v w) (j : K) : R (Function.update f k v j) (Function.update g k w j) := by
  by_cases hj : j = k
  · rw [hj, Function.update_self, Function.update_self]
    exact hv
  · rw [Function.update_of_ne hj, Function.update_of_ne hj]
    exact h j

variable {s t : Sys}

theorem Sys.Alike.answer (h : s.Alike t) (job_id : JobId) (n : ℕ) :
    Option.Rel JobItemAlike (s.store.answer job_id n) (t.store.answer job_id n) := by
  have hversions : ∀ {versions versions' : List (Option JobItem)},
      List.Forall₂ (Option.Rel JobItemAlike) versions versions' → ∀ n,
        Option.Rel JobItemAlike (versions.getD n none) (versions'.getD n none) := by
    intro versions versions' hversions
    induction hversions with
    | nil => exact fun _ => .none
    | cons hhead _ ih =>
      intro n
      cases n with
      | zero => exact hhead
      | succ n => exact ih n
  exact hversions (h.store job_id) n

theorem Sys.Alike.current (h : s.Alike t) (job_id : JobId) :
    Option.Rel JobItemAlike (s.store.current job_id) (t.store.current job_id) := by
  rw [History.current_eq_answer, History.current_eq_answer]
  exact h.answer job_id 0

theorem Sys.Alike.record (h : s.Alike t) (job_id : JobId) {stored stored' : Option JobItem}
    (hstored : Option.Rel JobItemAlike stored stored') (j : JobId) :
    List.Forall₂ (Option.Rel JobItemAlike) (s.store.record job_id stored j)
      (t.store.record job_id stored' j) :=
  alike_update h.store job_id (.cons hstored (h.store job_id)) j

theorem Sys.Alike.spawn (h : s.Alike t) (p : ℕ) {proc proc' : Proc} (hproc : proc.Alike proc') :
    Option.Rel Sys.Alike (s.spawn p proc) (t.spawn p proc') := by
  unfold Sys.spawn
  match s.procs p, t.procs p, h.procs p with
  | _, _, .none => exact .some { h with procs := alike_update h.procs p (.some hproc) }
  | _, _, .some _ => exact .none

theorem Sys.Alike.commit (h : s.Alike t) (p : ℕ) (job_id : JobId) {a a' : Action Proc}
    (ha : a.Alike Proc.Alike a') : (s.commit p job_id a).Alike (t.commit p job_id a') where
  clock := h.clock
  store := by
    unfold Sys.commit
    match a.write, a'.write, ha.write with
    | _, _, .none => exact h.store
    | _, _, .some hw => exact h.record job_id (alike_mark hw job_id (h.current job_id))
  submitted := h.submitted
  procs := alike_update h.procs p (.some ha.pc)
  logs := by rw [Sys.commit, Sys.commit, ha.log, h.logs]

theorem expired_alike {item item' : JobItem} (h : JobItemAlike item item') (clock : ℕ) :
    expired item clock = expired item' clock := by
  rw [expired, expired, h.others .ttl (by decide) (by decide)]

theorem Proc.Alike.job {proc proc' : Proc} (h : proc.Alike proc') : proc.job = proc'.job := by
  cases h <;> rfl

/-- Runs that differ in texts alone stay so. -/
theorem alike_of_step (h : s.Alike t) {e f : Event} (he : e.Alike f) :
    Option.Rel Sys.Alike (s.step e) (t.step f) := by
  have hpost : ∀ job_id {request request' : TranslateRequest}, request.Alike request' → ∀ now,
      Option.Rel Sys.Alike (s.step (.post job_id request now)) (t.step (.post job_id request' now)) := by
    intro job_id request request' halike now
    have hfresh : (s.submitted job_id = none ∧ now ≤ s.clock) ↔
        (t.submitted job_id = none ∧ now ≤ t.clock) := by
      rw [h.clock]
      match s.submitted job_id, t.submitted job_id, h.submitted job_id with
      | _, _, .none => rfl
      | _, _, .some _ => simp
    simp only [Sys.step, hfresh]
    split
    · exact .some { h with
        store := h.record job_id (.some (alike_newJob job_id halike now))
        submitted := alike_update h.submitted job_id (.some ⟨halike, rfl⟩) }
    · exact .none
  have hadvance : ∀ p {c c' : Choice}, c.Alike c' →
      Option.Rel Sys.Alike (s.step (.advance p c)) (t.step (.advance p c')) := by
    intro p c c' hc
    simp only [Sys.step]
    match s.procs p, t.procs p, h.procs p with
    | _, _, .none => exact .none
    | some proc, some proc', .some hproc =>
      simp only [Option.bind_eq_bind, Option.bind_some, hproc.job, h.clock]
      match proc.next s.store.answer t.clock c, proc'.next t.store.answer t.clock c',
          Proc.next_alike h.answer t.clock hproc hc with
      | _, _, .none => exact .none
      | _, _, .some ha => exact .some (h.commit p proc'.job ha)
  cases he with
  | post job_id halike now => exact hpost job_id halike now
  | advance p hc => exact hadvance p hc
  | refl e =>
    cases e with
    | post job_id request now => exact hpost job_id (.refl request) now
    | advance p c => exact hadvance p (.refl c)
    | deliver p job_id =>
      simp only [Sys.step]
      match s.submitted job_id, t.submitted job_id, h.submitted job_id with
      | _, _, .none => exact .none
      | _, _, .some _ => exact h.spawn p (.worker job_id .reading)
    | onFailure p q =>
      simp only [Sys.step]
      match s.procs q, t.procs q, h.procs q with
      | _, _, .none => exact .none
      | _, _, .some (.failureHandler _ _) => exact .none
      | _, _, .some (.poll _ _) => exact .none
      | _, _, .some (.worker job_id hpc) =>
        cases hpc with
        | crashed => exact h.spawn p (.failureHandler job_id .marking)
        | _ => exact .none
    | get p job_id => exact h.spawn p (.poll job_id .reading)
    | tick seconds => exact .some { h with clock := congrArg (fun clock => clock + seconds) h.clock }
    | sweep job_id =>
      simp only [Sys.step]
      match s.store.current job_id, t.store.current job_id, h.current job_id with
      | _, _, .none => exact .none
      | some item, some item', .some hitem =>
        simp only [Option.bind_eq_bind, Option.bind_some, expired_alike hitem, h.clock]
        split
        · exact .some ⟨rfl, h.record job_id .none, h.submitted, h.procs, h.logs⟩
        · exact .none

theorem alike_init : Sys.init.Alike Sys.init :=
  ⟨rfl, fun _ => .nil, fun _ => .none, fun _ => .none, rfl⟩

/-! ### The log -/

/-- The log of a run tells nothing about the texts and the translations but the lengths of the texts: with
other texts of these lengths and other translations the same events can happen, and they log the same
lines. -/
theorem log_keeps_texts_private {es es' : List Event} (hes : List.Forall₂ Event.Alike es es') {s : Sys}
    (hrun : run Sys.step Sys.init es = some s) :
    ∃ s', run Sys.step Sys.init es' = some s' ∧ s'.logs = s.logs := by
  have hstep : ∀ (s t : Sys) (e f : Event), s.Alike t → e.Alike f →
      Option.Rel Sys.Alike (s.step e) (t.step f) :=
    fun _ _ _ _ h he => alike_of_step h he
  have hrel : Option.Rel Sys.Alike (run Sys.step Sys.init es) (run Sys.step Sys.init es') :=
    run_related hstep alike_init hes
  rw [hrun] at hrel
  match run Sys.step Sys.init es', hrel with
  | some s', .some h => exact ⟨s', rfl, h.logs.symm⟩

/-- A job for `request` that the Worker resolves with `translation`. -/
def translatedRun (request : TranslateRequest) (translation : Str) : List Event :=
  [.post 1 request 0, .deliver 0 1, .advance 0 (.version 0),
    .advance 0 (.endpoint (some ['e']) (.response (.value
      (.obj [("translated_text".toList, .str translation)])))),
    .advance 0 .proceed, .advance 0 (.elapsed 5)]

def xewRequest : TranslateRequest := ⟨['x', 'e', 'w'], .cakToEs, by decide, by decide⟩

theorem log_keeps_texts_private_xew :
    ∃ s s' line, run Sys.step Sys.init (translatedRun utzRequest ['b', 'i', 'e', 'n']) = some s ∧
      run Sys.step Sys.init (translatedRun xewRequest ['l', 'o']) = some s' ∧ s.logs = [(0, line)] ∧
      s'.logs = [(0, line)] := by
  have hrequest : utzRequest.Alike xewRequest := ⟨rfl, rfl⟩
  have halike : List.Forall₂ Event.Alike (translatedRun utzRequest ['b', 'i', 'e', 'n'])
      (translatedRun xewRequest ['l', 'o']) :=
    .cons (.post 1 hrequest 0) (.cons (.refl _) (.cons (.refl _)
      (.cons (.advance 0 (.endpoint _ (.translations rfl rfl))) (.cons (.refl _) (.cons (.refl _) .nil)))))
  obtain ⟨s', hrun, hlogs⟩ := log_keeps_texts_private halike rfl
  exact ⟨_, s', _, rfl, hrun, rfl, hlogs⟩

end KaqTranslator
