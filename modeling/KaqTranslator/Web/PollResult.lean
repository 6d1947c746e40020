import Mathlib.Data.List.DropRight
import KaqTranslator.Web.PollLoop

/-!
# What the poll loop settles with

The polls of a session have outcomes: the `fetch` rejects, the answer is not a 2xx, or a job status is read.
`SettlesAt` says at which of them a session settles, and with what: at an outcome that ends the loop, or at
the last of three rejections in a row.  The code counts the rejections and takes the count back to 0 at every
poll that is answered.  That the count is the number of rejections that the outcomes end with
(`PollSession.Consumed.failures`) is what connects the two, and it does not hold while a body is read.
-/

namespace KaqTranslator

open EventMachine

/-! ### Outcomes -/

inductive PollOutcome where
  | rejected
  | answered (status : ℕ) (notOk : responseOk status = false)
  | body (job : JobStatusPayload)
  deriving DecidableEq

namespace PollOutcome

/-- What an outcome that ends the loop settles the session with. -/
def verdict : PollOutcome → Option Settlement
  | rejected => none
  | answered status _ => if status = 404 then some .jobNotFoundError else some (.httpError status)
  | body (.succeeded translation) => some (.resolved translation)
  | body (.failed status_code) => some (.httpError status_code)
  | body .pending => none

/-- The outcome of a poll that an event of a session is. -/
def ofEvent : PollSession.Event → Option PollOutcome
  | .complete (.getFetch _) (.rejected _) => some .rejected
  | .complete (.getFetch _) (.response status) =>
    if h : responseOk status = false then some (.answered status h) else none
  | .complete (.getBody _) (.status job) => some (.body job)
  | _ => none

end PollOutcome

open PollOutcome (verdict ofEvent)

/-- The session settles with `o` at the position `n` of its outcomes. -/
inductive SettlesAt (outcomes : List PollOutcome) (n : ℕ) : Settlement → Prop
  | verdict {x : PollOutcome} {o : Settlement} (hx : outcomes[n]? = some x) (ho : verdict x = some o) :
    SettlesAt outcomes n o
  | network (hn : n < outcomes.length)
    (h : List.replicate maxConsecutivePollFailures .rejected <:+ outcomes.take (n + 1)) :
    SettlesAt outcomes n .networkError

structure FirstSettling (outcomes : List PollOutcome) (n : ℕ) (o : Settlement) : Prop where
  settles : SettlesAt outcomes n o
  first : ∀ m < n, ∀ o', ¬ SettlesAt outcomes m o'

theorem SettlesAt.lt_length {outcomes : List PollOutcome} {n : ℕ} {o : Settlement}
    (h : SettlesAt outcomes n o) : n < outcomes.length := by
  cases h with
  | verdict hx ho => exact (List.getElem?_eq_some_iff.1 hx).1
  | network hn _ => exact hn

/-- Whether a session settles at a position depends on the outcomes up to it alone. -/
theorem settlesAt_append {w v : List PollOutcome} {n : ℕ} {o : Settlement} (hn : n < w.length) :
    SettlesAt (w ++ v) n o ↔ SettlesAt w n o := by
  have hget : (w ++ v)[n]? = w[n]? := List.getElem?_append_left hn
  have htake : (w ++ v).take (n + 1) = w.take (n + 1) := List.take_append_of_le_length hn
  constructor
  · intro h
    cases h with
    | verdict hx ho => exact .verdict (hget ▸ hx) ho
    | network _ h => exact .network hn (htake ▸ h)
  · intro h
    cases h with
    | verdict hx ho => exact .verdict (hget ▸ hx) ho
    | network _ h => exact .network (by rw [List.length_append]; omega) (htake ▸ h)

/-- The number of rejections that the outcomes end with. -/
def failuresAtEnd (outcomes : List PollOutcome) : ℕ :=
  (outcomes.rtakeWhile fun x => x = .rejected).length

theorem failuresAtEnd_append_rejected (w : List PollOutcome) :
    failuresAtEnd (w ++ [.rejected]) = failuresAtEnd w + 1 := by
  unfold failuresAtEnd
  rw [List.rtakeWhile_concat_pos _ _ _ (by simp), List.length_append, List.length_singleton]

theorem failuresAtEnd_append_of_ne {x : PollOutcome} (hx : x ≠ .rejected) (w : List PollOutcome) :
    failuresAtEnd (w ++ [x]) = 0 := by
  unfold failuresAtEnd
  rw [List.rtakeWhile_concat_neg _ _ _ (by simpa using hx), List.length_nil]

theorem replicate_rejected_suffix_iff {k : ℕ} {w : List PollOutcome} :
    List.replicate k .rejected <:+ w ↔ k ≤ failuresAtEnd w := by
  induction w using List.reverseRecOn generalizing k with
  | nil =>
    rw [List.suffix_nil, List.replicate_eq_nil_iff]
    exact Nat.le_zero.symm
  | append_singleton w x ih =>
    cases k with
    | zero => simp
    | succ k =>
      have hlast : List.replicate k .rejected ++ [.rejected] <:+ w ++ [x] ↔
          List.replicate k .rejected <:+ w ∧ [.rejected] = [x] := List.suffix_append_inj_of_length_eq rfl
      rw [List.replicate_succ', hlast, ih]
      by_cases hx : x = .rejected
      · subst hx
        rw [failuresAtEnd_append_rejected]
        simp
      · rw [failuresAtEnd_append_of_ne hx]
        have hne : [PollOutcome.rejected] ≠ [x] := fun h => hx (List.singleton_inj.1 h).symm
        simp [hne]

/-- The next outcome is one that ends the loop, or the third rejection in a row. -/
theorem settlesAt_last_iff {w : List PollOutcome} {x : PollOutcome} {o : Settlement} :
    SettlesAt (w ++ [x]) w.length o ↔
      verdict x = some o ∨
        x = .rejected ∧ maxConsecutivePollFailures ≤ failuresAtEnd w + 1 ∧ o = .networkError := by
  have hget : (w ++ [x])[w.length]? = some x := by simp
  have htake : (w ++ [x]).take (w.length + 1) = w ++ [x] := List.take_of_length_le (by simp)
  constructor
  · intro h
    cases h with
    | verdict hx' ho =>
      obtain rfl := Option.some.inj (hget.symm.trans hx')
      exact Or.inl ho
    | network _ h =>
      rw [htake, replicate_rejected_suffix_iff] at h
      by_cases hx : x = .rejected
      · subst hx
        rw [failuresAtEnd_append_rejected] at h
        exact Or.inr ⟨rfl, h, rfl⟩
      · rw [failuresAtEnd_append_of_ne hx] at h
        cases h
  · rintro (ho | ⟨rfl, h, rfl⟩)
    · exact .verdict hget ho
    · refine .network (by simp) ?_
      rw [htake, replicate_rejected_suffix_iff, failuresAtEnd_append_rejected]
      exact h

theorem SettlesAt.unique {outcomes : List PollOutcome} {n : ℕ} {o o' : Settlement}
    (h : SettlesAt outcomes n o) (h' : SettlesAt outcomes n o') : o = o' := by
  have hn : n < outcomes.length := h.lt_length
  have hsplit : outcomes = outcomes.take n ++ [outcomes[n]] ++ outcomes.drop (n + 1) := by
    rw [List.take_append_getElem, List.take_append_drop]
  have hlast : ∀ o₁, SettlesAt outcomes n o₁ →
      SettlesAt (outcomes.take n ++ [outcomes[n]]) (outcomes.take n).length o₁ := by
    intro o₁ h₁
    rw [hsplit] at h₁
    have hlength : (outcomes.take n).length = n := List.length_take_of_le hn.le
    rw [hlength]
    exact (settlesAt_append (by rw [List.length_append, hlength]; exact Nat.lt_succ_self n)).1 h₁
  rcases settlesAt_last_iff.1 (hlast o h) with ho | ⟨hx, -, ho⟩ <;>
    rcases settlesAt_last_iff.1 (hlast o' h') with ho' | ⟨hx', -, ho'⟩
  · exact Option.some.inj (ho.symm.trans ho')
  · rw [hx'] at ho
    cases ho
  · rw [hx] at ho'
    cases ho'
  · exact ho.trans ho'.symm

theorem FirstSettling.unique {outcomes : List PollOutcome} {n n' : ℕ} {o o' : Settlement}
    (h : FirstSettling outcomes n o) (h' : FirstSettling outcomes n' o') : n = n' ∧ o = o' := by
  rcases Nat.lt_trichotomy n n' with hlt | rfl | hlt
  · exact absurd h.settles (h'.first n hlt o)
  · exact ⟨rfl, h.settles.unique h'.settles⟩
  · exact absurd h'.settles (h.first n' hlt o')

theorem FirstSettling.append {w v : List PollOutcome} {n : ℕ} {o : Settlement} (h : FirstSettling w n o) :
    FirstSettling (w ++ v) n o := by
  have hn : n < w.length := h.settles.lt_length
  exact ⟨(settlesAt_append hn).2 h.settles,
    fun m hm o' h' => h.first m hm o' ((settlesAt_append (hm.trans hn)).1 h')⟩

/-- No outcome so far settles the session. -/
def Undecided (w : List PollOutcome) : Prop := ∀ n o, ¬ SettlesAt w n o

theorem undecided_nil : Undecided [] := fun n _ h => Nat.not_lt_zero n h.lt_length

theorem Undecided.append {w : List PollOutcome} {x : PollOutcome} (hw : Undecided w)
    (hx : ∀ o, ¬ SettlesAt (w ++ [x]) w.length o) : Undecided (w ++ [x]) := by
  intro n o h
  have hn : n < (w ++ [x]).length := h.lt_length
  rw [List.length_append, List.length_singleton] at hn
  rcases Nat.lt_or_eq_of_le (Nat.le_of_lt_succ hn) with hlt | rfl
  · exact hw n o ((settlesAt_append hlt).1 h)
  · exact hx o h

theorem Undecided.firstSettling {w : List PollOutcome} {x : PollOutcome} {o : Settlement} (hw : Undecided w)
    (hx : SettlesAt (w ++ [x]) w.length o) : FirstSettling (w ++ [x]) w.length o :=
  ⟨hx, fun m hm o' h => hw m o' ((settlesAt_append hm).1 h)⟩

/-! ### A session that is left alone -/

def Await.isGet : Await → Bool
  | .getFetch _ | .getBody _ => true
  | .postFetch | .postBody => false

namespace PollSession

/-- The number of `GET`s whose outcome is not known yet. -/
def gets (s : PollSession) : ℕ := s.awaiting.countP Await.isGet

/-- The state of a session that has consumed the outcomes `w`, if it was neither cancelled nor timed out. -/
structure Consumed (w : List PollOutcome) (s : PollSession) : Prop where
  posting : .postFetch ∈ s.awaiting → s.accepted = false
  undecided : s.settled = false → Undecided w
  requests : s.accepted = true ∨ s.settled = false → s.requests = 1 + w.length + s.gets
  failures : s.settled = false → (∀ jobId, .getBody jobId ∉ s.awaiting) →
    s.consecutivePollFailures = failuresAtEnd w
  reading : ∀ jobId, .getBody jobId ∈ s.awaiting → s.consecutivePollFailures = 0
  idle : s.settled = true → s.awaiting = []
  result : s.settled = true → s.accepted = true →
    ∃ n o, FirstSettling w n o ∧ w.length = n + 1 ∧ s.settlements = [o]

section Resume

variable {w : List PollOutcome} {x : PollOutcome} {s s' : PollSession} {jobId : JsString}

private theorem consumed_close (hidle : s.awaiting = []) (hnone : s.settlements = []) (hw : Undecided w)
    (hrequests : s.requests = 1 + w.length + 1) {o : Settlement} (hx : SettlesAt (w ++ [x]) w.length o) :
    Consumed (w ++ [x]) (s.close o) where
  posting h := by
    simp only [close, hidle] at h
    cases h
  undecided h := by cases h
  requests _ := by
    simp only [close, gets, hidle, List.countP_nil, List.length_append, List.length_singleton]
    omega
  failures h := by cases h
  reading _ h := by
    simp only [close, hidle] at h
    cases h
  idle _ := hidle
  result _ _ := ⟨w.length, o, hw.firstSettling hx, by simp, by simp [close, hnone]⟩

/-- Nothing is awaited any more, and the loop goes on. -/
private theorem consumed_schedulePoll (hidle : s.awaiting = []) (hopen : s.settled = false)
    (hw : Undecided (w ++ [x])) (hrequests : s.requests = 1 + w.length + 1)
    (hfailures : s.consecutivePollFailures = failuresAtEnd (w ++ [x])) :
    Consumed (w ++ [x]) (s.schedulePoll jobId) := by
  have htimer : s.schedulePoll jobId = s.setTimer (.poll jobId) := by simp [schedulePoll, hopen]
  rw [htimer]
  constructor
  case posting =>
    intro h
    simp only [setTimer, hidle] at h
    cases h
  case undecided => exact fun _ => hw
  case requests =>
    intro _
    simp only [setTimer, gets, hidle, List.countP_nil, List.length_append, List.length_singleton]
    omega
  case failures => exact fun _ _ => hfailures
  case reading =>
    intro _ h
    simp only [setTimer, hidle] at h
    cases h
  case idle =>
    intro h
    have h : s.settled = true := h
    rw [hopen] at h
    cases h
  case result =>
    intro h _
    have h : s.settled = true := h
    rw [hopen] at h
    cases h

/-- A request is under way, or a body is being read. -/
private theorem consumed_await {a : Await} (hpost : a ≠ .postFetch) (hawaiting : s.awaiting = [a])
    (hopen : s.settled = false) (hw : Undecided w) (hrequests : s.requests = 1 + w.length + s.gets)
    (hfailures : (∀ jobId, a ≠ .getBody jobId) → s.consecutivePollFailures = failuresAtEnd w)
    (hreading : ∀ jobId, a = .getBody jobId → s.consecutivePollFailures = 0) : Consumed w s := by
  constructor
  case posting =>
    intro h
    rw [hawaiting] at h
    exact absurd (List.mem_singleton.1 h).symm hpost
  case undecided => exact fun _ => hw
  case requests => exact fun _ => hrequests
  case failures =>
    intro _ hbody
    refine hfailures fun jobId ha => hbody jobId ?_
    rw [hawaiting, ha]
    exact List.mem_singleton.2 rfl
  case reading =>
    intro jobId h
    rw [hawaiting] at h
    exact hreading jobId (List.mem_singleton.1 h).symm
  case idle =>
    intro h
    rw [hopen] at h
    cases h
  case result =>
    intro h _
    rw [hopen] at h
    cases h

theorem consumed_start : Consumed [] start := by
  constructor
  case posting => exact fun _ => rfl
  case undecided => exact fun _ => undecided_nil
  case requests => exact fun _ => rfl
  case failures => exact fun _ _ => rfl
  case reading => exact fun _ _ => rfl
  case idle => exact fun h => by cases h
  case result => exact fun h => by cases h

/-- What `Consumed` and `SessionInv` give for the session whose only `await` is resumed. -/
private structure Resuming (w : List PollOutcome) (s : PollSession) (gets : ℕ) : Prop where
  awaiting : s.awaiting = []
  unsettled : s.settled = false
  unaborted : s.aborted = false
  settlements : s.settlements = []
  undecided : Undecided w
  requests : s.requests = 1 + w.length + gets

private theorem consumed_rejectedPoll (hs : Resuming w s 1)
    (hfailures : s.consecutivePollFailures = failuresAtEnd w) :
    Consumed (w ++ [.rejected]) (s.rejectedPoll jobId) := by
  simp only [rejectedPoll, hfailures]
  split
  · rename_i hthird
    have hsettles : SettlesAt (w ++ [.rejected]) w.length .networkError :=
      settlesAt_last_iff.2 (Or.inr ⟨rfl, hthird, rfl⟩)
    rw [settle, if_neg (by simp [hs.unsettled])]
    exact consumed_close (s := { s with consecutivePollFailures := failuresAtEnd w + 1 }) hs.awaiting
      hs.settlements hs.undecided hs.requests hsettles
  · rename_i hthird
    refine consumed_schedulePoll hs.awaiting hs.unsettled ?_ hs.requests ?_
    · refine hs.undecided.append fun o ho => ?_
      rcases settlesAt_last_iff.1 ho with hverdict | ⟨-, h, -⟩
      · cases hverdict
      · exact hthird h
    · exact (failuresAtEnd_append_rejected w).symm

private theorem consumed_answeredPoll (hs : Resuming w s 1) (status : ℕ) :
    Consumed (w ++ (ofEvent (.complete (.getFetch jobId) (.response status))).toList)
      (s.answeredPoll jobId status) := by
  unfold answeredPoll
  simp only [ofEvent]
  by_cases hok : responseOk status = true
  · have hne : status ≠ 404 := by
      rintro rfl
      exact absurd hok (by decide)
    rw [if_neg hne, if_neg (by simp [hok]), dif_neg (by simp [hok])]
    simp only [Option.toList_none, List.append_nil]
    -- the count of failures is 0 from now on, whatever the outcomes end with
    refine consumed_await (a := .getBody jobId) (by simp) ?_ hs.unsettled hs.undecided ?_ ?_ (fun _ _ => rfl)
    · simp [readBody, hs.awaiting]
    · simpa [readBody, gets, hs.awaiting, Await.isGet] using hs.requests
    · exact fun h => absurd rfl (h jobId)
  · have hnotOk : responseOk status = false := Bool.eq_false_iff.2 hok
    rw [dif_pos hnotOk]
    by_cases h404 : status = 404
    · have hsettles : SettlesAt (w ++ [.answered status hnotOk]) w.length .jobNotFoundError :=
        settlesAt_last_iff.2 (Or.inl (if_pos h404))
      rw [if_pos h404, settle, if_neg (by simp [hs.unsettled])]
      exact consumed_close hs.awaiting hs.settlements hs.undecided hs.requests hsettles
    · have hsettles : SettlesAt (w ++ [.answered status hnotOk]) w.length (.httpError status) :=
        settlesAt_last_iff.2 (Or.inl (if_neg h404))
      rw [if_neg h404, if_pos (by simp [hnotOk]), settle, if_neg (by simp [hs.unsettled])]
      exact consumed_close hs.awaiting hs.settlements hs.undecided hs.requests hsettles

private theorem consumed_polled (hs : Resuming w s 1) (hfailures : s.consecutivePollFailures = 0)
    (job : JobStatusPayload) : Consumed (w ++ [.body job]) (s.polled jobId job) := by
  have hsettle : ∀ o, verdict (.body job) = some o → Consumed (w ++ [.body job]) (s.settle o) := by
    intro o ho
    rw [settle, if_neg (by simp [hs.unsettled])]
    exact consumed_close hs.awaiting hs.settlements hs.undecided hs.requests
      (settlesAt_last_iff.2 (Or.inl ho))
  cases job with
  | succeeded translation => exact hsettle _ rfl
  | failed status_code => exact hsettle _ rfl
  | pending =>
    refine consumed_schedulePoll hs.awaiting hs.unsettled ?_ hs.requests ?_
    · refine hs.undecided.append fun o ho => ?_
      rcases settlesAt_last_iff.1 ho with hverdict | ⟨h, -, -⟩
      · cases hverdict
      · cases h
    · rw [failuresAtEnd_append_of_ne (by simp)]
      exact hfailures

/-- The `POST` fails. -/
private theorem consumed_unaccepted (hs : Resuming w s 0) (haccepted : s.accepted = false) (o : Settlement) :
    Consumed w (s.settle o) := by
  rw [settle, if_neg (by simp [hs.unsettled])]
  have hidle : (s.close o).awaiting = [] := hs.awaiting
  constructor
  case posting => exact fun _ => haccepted
  case undecided => exact fun h => by cases h
  case requests =>
    rintro (h | h)
    · have h : s.accepted = true := h
      rw [haccepted] at h
      cases h
    · cases h
  case failures => exact fun h => by cases h
  case reading =>
    intro _ h
    rw [hidle] at h
    cases h
  case idle => exact fun _ => hidle
  case result =>
    intro _ h
    have h : s.accepted = true := h
    rw [haccepted] at h
    cases h

private theorem consumed_of_resume {a : Await} {c : Completion}
    (hs : Resuming w s (if a.isGet then 1 else 0)) (hposting : a = .postFetch → s.accepted = false)
    (hfailures : (∀ jobId, a ≠ .getBody jobId) → s.consecutivePollFailures = failuresAtEnd w)
    (hreading : ∀ jobId, a = .getBody jobId → s.consecutivePollFailures = 0) (hc : c ≠ .badBody)
    (h : s.resume a c = some s') : Consumed (w ++ (ofEvent (.complete a c)).toList) s' := by
  cases a <;> cases c <;> simp only [resume, hs.unaborted, reduceCtorEq] at h
  case postBody.badBody | getBody.badBody => exact absurd rfl hc
  case postFetch.rejected isAbortError =>
    cases isAbortError with
    | true => cases h
    | false =>
      obtain rfl := Option.some.inj h
      show Consumed (w ++ []) (s.settle .networkError)
      rw [List.append_nil]
      exact consumed_unaccepted hs (hposting rfl) _
  case postFetch.response status =>
    obtain rfl := Option.some.inj h
    show Consumed (w ++ []) (s.answeredPost status)
    rw [List.append_nil, answeredPost]
    split
    · exact consumed_unaccepted hs (hposting rfl) _
    · have hcount : s.consecutivePollFailures = failuresAtEnd w := hfailures (by simp)
      refine consumed_await (a := .postBody) (by simp) ?_ hs.unsettled hs.undecided ?_ (fun _ => hcount)
        (fun _ ha => by cases ha)
      · simp [readBody, hs.awaiting]
      · simpa [readBody, gets, hs.awaiting, Await.isGet] using hs.requests
  case postBody.created jobId =>
    obtain rfl := Option.some.inj h
    have hcount : s.consecutivePollFailures = failuresAtEnd w := hfailures (by simp)
    show Consumed (w ++ []) (s.poll jobId)
    rw [List.append_nil, poll, if_neg (by simp [hs.unsettled])]
    refine consumed_await (a := .getFetch jobId) (by simp) ?_ hs.unsettled hs.undecided ?_ (fun _ => hcount)
      (fun _ ha => by cases ha)
    · simp [fetch, hs.awaiting]
    · simpa [fetch, gets, hs.awaiting, Await.isGet] using hs.requests
  case getFetch.rejected jobId isAbortError =>
    cases isAbortError with
    | true => cases h
    | false =>
      obtain rfl := Option.some.inj h
      exact consumed_rejectedPoll hs (hfailures (by simp))
  case getFetch.response jobId status =>
    obtain rfl := Option.some.inj h
    exact consumed_answeredPoll hs status
  case getBody.status jobId job =>
    obtain rfl := Option.some.inj h
    exact consumed_polled hs (hreading jobId rfl) job

end Resume

/-- A session that goes on is open. -/
private theorem open_of_step {w : List PollOutcome} {s s' : PollSession} {e : Event} (hs : SessionInv s)
    (hw : Consumed w s) (h : s.step e = some s') : s.settled = false ∧ s.aborted = false := by
  have hopen : s.settled = false := by
    cases hset : s.settled with
    | false => rfl
    | true =>
      have harmed : s.armed = [] := (hs.settled hset).2
      have hidle : s.awaiting = [] := hw.idle hset
      cases e <;> simp [step, harmed, hidle] at h
  refine ⟨hopen, Bool.eq_false_iff.2 fun haborted => ?_⟩
  have hset : s.settled = true := hs.aborted haborted
  rw [hopen] at hset
  cases hset

private theorem awaiting_eq_singleton {s : PollSession} (hs : SessionInv s) {a : Await} (ha : a ∈ s.awaiting) :
    s.awaiting = [a] := by
  have hidle : s.awaiting.erase a = [] := (idle_of_mem hs ha).1
  have hlength : (s.awaiting.erase a).length = s.awaiting.length - 1 := List.length_erase_of_mem ha
  have hpos : 0 < s.awaiting.length := List.length_pos_of_mem ha
  rw [hidle, List.length_nil] at hlength
  obtain ⟨b, hb⟩ := List.length_eq_one_iff.1 (show s.awaiting.length = 1 by omega)
  rw [hb] at ha ⊢
  rw [List.mem_singleton.1 ha]

theorem consumed_of_step {w : List PollOutcome} {s s' : PollSession} {e : Event} (hs : SessionInv s)
    (hw : Consumed w s) (hoverall : ∀ id, e ≠ .fire id .overall) (hbody : ∀ a, e ≠ .complete a .badBody)
    (h : s.step e = some s') : Consumed (w ++ (ofEvent e).toList) s' := by
  obtain ⟨hopen, hunaborted⟩ := open_of_step hs hw h
  have hrequests : s.requests = 1 + w.length + s.gets := hw.requests (Or.inr hopen)
  cases e with
  | fire id kind =>
    simp only [step] at h
    split at h
    · rename_i hmem
      obtain rfl := Option.some.inj h
      cases kind with
      | overall => exact absurd rfl (hoverall id)
      | poll jobId =>
        have hidle : s.awaiting = [] := (idle_of_armed hs hmem).1
        have hfailures : s.consecutivePollFailures = failuresAtEnd w :=
          hw.failures hopen (by simp [hidle])
        have hgets : s.gets = 0 := by simp [gets, hidle]
        rw [fire, poll, if_neg (by simp [hopen])]
        simp only [ofEvent, Option.toList_none, List.append_nil]
        refine consumed_await (a := .getFetch jobId) (by simp) ?_ hopen (hw.undecided hopen) ?_
          (fun _ => hfailures) (fun _ ha => by cases ha)
        · simp [fetch, hidle]
        · simp only [fetch, gets, hidle, List.countP_singleton, Await.isGet, if_true]
          omega
    · cases h
  | complete a c =>
    simp only [step] at h
    split at h
    · rename_i hmem
      have hidle : s.awaiting.erase a = [] := (idle_of_mem hs hmem).1
      have hawaiting : s.awaiting = [a] := awaiting_eq_singleton hs hmem
      have hgets : s.gets = if a.isGet then 1 else 0 := by
        rw [gets, hawaiting, List.countP_singleton]
      have hresuming : Resuming w { s with awaiting := s.awaiting.erase a } (if a.isGet then 1 else 0) :=
        ⟨hidle, hopen, hunaborted, (hs.unsettled hopen).1, hw.undecided hopen, hgets ▸ hrequests⟩
      refine consumed_of_resume hresuming ?_ ?_ ?_ ?_ h
      · rintro rfl
        exact hw.posting hmem
      · intro ha
        refine hw.failures hopen fun jobId h => ?_
        rw [hawaiting] at h
        exact ha jobId (List.mem_singleton.1 h).symm
      · rintro jobId rfl
        exact hw.reading jobId hmem
      · rintro rfl
        exact hbody a rfl
    · cases h

/-! ### Delivering an outcome -/

/-- What the network does for a poll of `jobId` to have an outcome. -/
def deliver (jobId : JsString) : PollOutcome → List Event
  | .rejected => [.complete (.getFetch jobId) (.rejected false)]
  | .answered status _ => [.complete (.getFetch jobId) (.response status)]
  | .body job => [.complete (.getFetch jobId) (.response 200), .complete (.getBody jobId) (.status job)]

theorem filterMap_ofEvent_deliver (jobId : JsString) (x : PollOutcome) :
    (deliver jobId x).filterMap ofEvent = [x] := by
  cases x with
  | rejected => rfl
  | answered status h => simp [deliver, ofEvent, h]
  | body job => rfl

section Deliver

variable {s : PollSession} {jobId : JsString}

private theorem settled_settle (s : PollSession) (o : Settlement) : (s.settle o).settled = true := by
  unfold settle
  split
  · assumption
  · rfl

private theorem accepted_settle (s : PollSession) (o : Settlement) :
    (s.settle o).accepted = s.accepted := by
  unfold settle
  split <;> rfl

/-- The session is settled, or another poll has just been scheduled in it. -/
private def Between (jobId : JsString) (accepted : Bool) (s' : PollSession) : Prop :=
  s'.accepted = accepted ∧
    (s'.settled = true ∨
      ∃ s₀ : PollSession, s₀.settled = false ∧ s₀.awaiting = [] ∧ s' = s₀.schedulePoll jobId)

private theorem between_settle (s : PollSession) (o : Settlement) :
    Between jobId s.accepted (s.settle o) :=
  ⟨accepted_settle s o, Or.inl (settled_settle s o)⟩

private theorem between_schedulePoll (hopen : s.settled = false) (hidle : s.awaiting = []) :
    Between jobId s.accepted (s.schedulePoll jobId) := by
  refine ⟨?_, Or.inr ⟨s, hopen, hidle, rfl⟩⟩
  simp [schedulePoll, hopen, setTimer]

private theorem run_deliver (hopen : s.settled = false) (hawaiting : s.awaiting = [.getFetch jobId])
    (x : PollOutcome) : ∃ s', run step s (deliver jobId x) = some s' ∧ Between jobId s.accepted s' := by
  -- the session when its `fetch` is done
  let s₀ : PollSession := { s with awaiting := [] }
  have hget : ∀ c, s.step (.complete (.getFetch jobId) c) = s₀.resume (.getFetch jobId) c := by
    intro c
    simp [step, hawaiting, s₀]
  cases x with
  | rejected =>
    refine ⟨s₀.rejectedPoll jobId, by simp [deliver, hget, resume], ?_⟩
    simp only [rejectedPoll]
    split
    · exact between_settle { s₀ with consecutivePollFailures := s.consecutivePollFailures + 1 } _
    · exact between_schedulePoll (s := { s₀ with consecutivePollFailures := _ }) hopen rfl
  | answered status h =>
    refine ⟨s₀.answeredPoll jobId status, by simp [deliver, hget, resume], ?_⟩
    simp only [answeredPoll, h, Bool.not_false, if_true]
    split
    · exact between_settle s₀ _
    · exact between_settle s₀ _
  | body job =>
    let s₁ : PollSession := { s₀ with consecutivePollFailures := 0 }
    have hread : s₀.resume (.getFetch jobId) (.response 200) = some (s₁.readBody (.getBody jobId)) := rfl
    have hbody : (s₁.readBody (.getBody jobId)).step (.complete (.getBody jobId) (.status job)) =
        some (s₁.polled jobId job) := by
      simp [step, readBody, resume, s₁, s₀]
    refine ⟨s₁.polled jobId job, ?_, ?_⟩
    · simp only [deliver, run_cons, hget, hread, hbody, run_nil, Option.bind_some]
    · cases job with
      | succeeded translation => exact between_settle s₁ _
      | failed status_code => exact between_settle s₁ _
      | pending => exact between_schedulePoll (s := s₁) hopen rfl

/-- The next poll starts when its timer fires. -/
private theorem step_fire_schedulePoll (hopen : s.settled = false) (hidle : s.awaiting = []) :
    ∃ s', (s.schedulePoll jobId).step (.fire s.nextTimer (.poll jobId)) = some s' ∧
      s'.accepted = (s.schedulePoll jobId).accepted ∧ s'.awaiting = [.getFetch jobId] := by
  refine ⟨{ s.schedulePoll jobId with armed := s.armed }.poll jobId, ?_, ?_, ?_⟩ <;>
    simp [schedulePoll, hopen, setTimer, step, fire, poll, fetch, hidle]

end Deliver

end PollSession

/-! ### Runs -/

/-- Neither does the session `i` time out nor is it cancelled, and the bodies that it reads are
well-formed. -/
def Undisturbed (i : ℕ) (c : Client) (e : ClientEvent) : Prop :=
  (∀ id, e ≠ .session i (.fire id .overall)) ∧ (e = .cancelTranslate → c.currentSession ≠ some i) ∧
    ∀ a, e ≠ .session i (.complete a .badBody)

/-- The outcome of a poll of the session `i` that an event is. -/
def ClientEvent.outcome (i : ℕ) : ClientEvent → Option PollOutcome
  | .session j e => if j = i then ofEvent e else none
  | .translate _ | .cancelTranslate => none

/-- The outcomes that the session `i` has consumed. -/
def pollOutcomes (i : ℕ) (es : List ClientEvent) : List PollOutcome := es.filterMap (·.outcome i)

/-- The session `i` is in the state `s` after the events `es`, which have left it undisturbed. -/
def LeftAlone (i : ℕ) (es : List ClientEvent) (s : PollSession) : Prop :=
  ∃ c, run Client.step .init es = some c ∧ StepsMeet Client.step (Undisturbed i) .init es ∧
    c.sessions i = some s

/-- The polls of the session `i`, whose `POST` was accepted, have had the first of the given outcomes: all of
them, unless the session has settled before. -/
structure PollRun (i : ℕ) (outcomes : List PollOutcome) (es : List ClientEvent) (s : PollSession) : Prop where
  leftAlone : LeftAlone i es s
  accepted : s.accepted = true
  consumed : pollOutcomes i es <+: outcomes
  complete : s.settled = false → pollOutcomes i es = outcomes

theorem pollOutcomes_append (i : ℕ) (es fs : List ClientEvent) :
    pollOutcomes i (es ++ fs) = pollOutcomes i es ++ pollOutcomes i fs :=
  List.filterMap_append ..

private theorem pollOutcomes_singleton (i : ℕ) (e : ClientEvent) :
    pollOutcomes i [e] = (e.outcome i).toList := by
  unfold pollOutcomes
  cases h : e.outcome i <;> simp [h]

private theorem Client.step_session {c : Client} {i : ℕ} {s s' : PollSession} {e : PollSession.Event}
    (hs : c.sessions i = some s) (h : s.step e = some s') : c.step (.session i e) = some (c.set i s') := by
  simp [Client.step, hs, h]

/-- The session `i` and the outcomes that it has consumed. -/
def Follows (i : ℕ) (es : List ClientEvent) (c : Client) : Prop :=
  (c.sessions i = none → pollOutcomes i es = []) ∧
    ∀ s, c.sessions i = some s → PollSession.Consumed (pollOutcomes i es) s

/-- An event that is not one of the session `i` leaves its outcomes as they are. -/
private theorem follows_of_outcome_none {i : ℕ} {es : List ClientEvent} {c c' : Client} {e : ClientEvent}
    (h : Follows i es c) (he : Undisturbed i c e) (hsession : ∀ e', e ≠ .session i e')
    (hstep : c.step e = some c') : Follows i (es ++ [e]) c' := by
  have houtcome : e.outcome i = none := by
    cases e with
    | session j e' => exact if_neg fun hj => hsession e' (by rw [hj])
    | translate j => rfl
    | cancelTranslate => rfl
  have hsame : pollOutcomes i (es ++ [e]) = pollOutcomes i es := by
    rw [pollOutcomes_append, pollOutcomes_singleton, houtcome, Option.toList_none, List.append_nil]
  unfold Follows
  rw [hsame]
  rcases Client.session_of_step hstep i with heq | ⟨hnone, hstart⟩ | ⟨s₀, hcancel, hcurrent, -⟩ |
    ⟨s₀, e', s', he', -⟩
  · rw [heq]
    exact h
  · refine ⟨fun _ => h.1 hnone, fun s hs => ?_⟩
    obtain rfl : PollSession.start = s := by simpa [hstart] using hs
    rw [h.1 hnone]
    exact PollSession.consumed_start
  · exact absurd hcurrent (he.2.1 hcancel)
  · exact absurd he' (hsession e')

theorem follows_of_run {i : ℕ} {es : List ClientEvent} {c : Client} (hrun : run Client.step .init es = some c)
    (hmeet : StepsMeet Client.step (Undisturbed i) .init es) : Follows i es c := by
  refine (history_invariant (I := fun es d => ClientInv d ∧ Follows i es d) ?_
    ⟨clientInv_init, fun _ => rfl, fun _ hs => by cases hs⟩ hmeet hrun).2
  rintro es d e d' ⟨hd, hfollows⟩ he hstep
  refine ⟨clientInv_of_step hd hstep, ?_⟩
  by_cases hsession : ∃ e', e = .session i e'
  · obtain ⟨e', rfl⟩ := hsession
    obtain ⟨s, hs, s', hs', h⟩ : ∃ s, d.sessions i = some s ∧ ∃ s', s.step e' = some s' ∧
        some (d.set i s') = some d' := by
      simp only [Client.step, Option.bind_eq_bind, Option.bind_eq_some_iff] at hstep
      exact hstep
    obtain rfl := Option.some.inj h
    have hnew : (d.set i s').sessions i = some s' := Function.update_self ..
    have houtcomes : pollOutcomes i (es ++ [.session i e']) = pollOutcomes i es ++ (ofEvent e').toList := by
      rw [pollOutcomes_append, pollOutcomes_singleton, ClientEvent.outcome, if_pos rfl]
    have hconsumed : PollSession.Consumed (pollOutcomes i es ++ (ofEvent e').toList) s' :=
      PollSession.consumed_of_step (hd i s hs) (hfollows.2 s hs) (fun id h => he.1 id (by rw [h]))
        (fun a h => he.2.2 a (by rw [h])) hs'
    refine ⟨fun hnone => ?_, fun s₁ hs₁ => ?_⟩
    · rw [hnew] at hnone
      cases hnone
    · obtain rfl : s' = s₁ := by simpa [hnew] using hs₁
      rw [houtcomes]
      exact hconsumed
  · exact follows_of_outcome_none hfollows he (fun e' h => hsession ⟨e', h⟩) hstep

theorem LeftAlone.consumed {i : ℕ} {es : List ClientEvent} {s : PollSession} (h : LeftAlone i es s) :
    PollSession.Consumed (pollOutcomes i es) s := by
  obtain ⟨c, hrun, hmeet, hs⟩ := h
  exact (follows_of_run hrun hmeet).2 s hs

/-! ### Every sequence of outcomes is met -/

private theorem LeftAlone.run {i : ℕ} {es : List ClientEvent} {s s' : PollSession} (h : LeftAlone i es s)
    (fs : List PollSession.Event)
    (hquiet : ∀ e ∈ fs, (∀ id, e ≠ .fire id .overall) ∧ ∀ a, e ≠ .complete a .badBody)
    (hrun : run PollSession.step s fs = some s') : LeftAlone i (es ++ fs.map (.session i)) s' := by
  induction fs generalizing es s with
  | nil =>
    cases hrun
    rwa [List.map_nil, List.append_nil]
  | cons e fs ih =>
    obtain ⟨s₁, hs₁, hrun⟩ := run_cons_eq_some.1 hrun
    obtain ⟨c, hc, hmeet, hs⟩ := h
    have hstep : c.step (.session i e) = some (c.set i s₁) := Client.step_session hs hs₁
    obtain ⟨hoverall, hbody⟩ := hquiet e (List.mem_cons_self ..)
    have hundisturbed : Undisturbed i c (.session i e) :=
      ⟨fun id h => hoverall id (by simpa using h), fun h => (by cases h),
        fun a h => hbody a (by simpa using h)⟩
    have hone : LeftAlone i (es ++ [.session i e]) s₁ := by
      refine ⟨c.set i s₁, run_append_cons_eq_some.2 ⟨c, _, hc, hstep, rfl⟩, ?_, Function.update_self ..⟩
      refine (stepsMeet_append hc).2 ⟨hmeet, (stepsMeet_cons_of_eq hstep).2 ⟨hundisturbed, trivial⟩⟩
    have hrest := ih hone (fun e' he' => hquiet e' (List.mem_cons_of_mem _ he')) hrun
    rwa [List.append_assoc, List.singleton_append, ← List.map_cons] at hrest

private theorem pollOutcomes_session (i : ℕ) (fs : List PollSession.Event) :
    pollOutcomes i (fs.map (.session i)) = fs.filterMap ofEvent := by
  unfold pollOutcomes
  rw [List.filterMap_map]
  exact List.filterMap_congr fun e _ => if_pos rfl

/-- The call of `translate` that makes the session `i`, up to the first `GET`. -/
def enqueued (i : ℕ) (jobId : JsString) : List ClientEvent :=
  [.translate i, .session i (.complete .postFetch (.response 202)),
    .session i (.complete .postBody (.created jobId))]

private theorem exists_leftAlone_enqueued (i : ℕ) (jobId : JsString) :
    ∃ s, LeftAlone i (enqueued i jobId) s ∧ s.accepted = true ∧ s.settled = false ∧
      s.awaiting = [.getFetch jobId] := by
  have hstart : LeftAlone i [.translate i] .start := by
    have hundisturbed : Undisturbed i .init (.translate i) :=
      ⟨fun _ h => (by cases h), fun h => (by cases h), fun _ h => (by cases h)⟩
    exact ⟨_, rfl, ⟨hundisturbed, fun _ _ => trivial⟩, Function.update_self ..⟩
  have hquiet : ∀ e ∈ [PollSession.Event.complete .postFetch (.response 202),
      .complete .postBody (.created jobId)],
      (∀ id, e ≠ .fire id .overall) ∧ ∀ a, e ≠ .complete a .badBody := by
    simp
  exact ⟨_, hstart.run _ hquiet rfl, rfl, rfl, rfl⟩

private theorem quiet_deliver (jobId : JsString) (x : PollOutcome) :
    ∀ e ∈ PollSession.deliver jobId x, (∀ id, e ≠ .fire id .overall) ∧ ∀ a, e ≠ .complete a .badBody := by
  cases x <;> simp [PollSession.deliver]

/-- A run as long as the outcomes, with the next poll under way if the session has not settled. -/
private theorem exists_pollRun_polling (i : ℕ) (jobId : JsString) (outcomes : List PollOutcome) :
    ∃ es s, PollRun i outcomes es s ∧ (s.settled = false → s.awaiting = [.getFetch jobId]) := by
  induction outcomes using List.reverseRecOn with
  | nil =>
    obtain ⟨s, hs, haccepted, -, hawaiting⟩ := exists_leftAlone_enqueued i jobId
    have hnone : pollOutcomes i (enqueued i jobId) = [] :=
      pollOutcomes_session i [.complete .postFetch (.response 202), .complete .postBody (.created jobId)]
    exact ⟨_, s, ⟨hs, haccepted, hnone ▸ List.prefix_rfl, fun _ => hnone⟩, fun _ => hawaiting⟩
  | append_singleton w x ih =>
    obtain ⟨es, s, hrun, hawaiting⟩ := ih
    cases hset : s.settled with
    | true =>
      have hconsumed : pollOutcomes i es <+: w ++ [x] := hrun.consumed.trans (List.prefix_append ..)
      refine ⟨es, s, ⟨hrun.leftAlone, hrun.accepted, hconsumed, fun hopen => ?_⟩, fun hopen => ?_⟩
      · rw [hset] at hopen
        cases hopen
      · rw [hset] at hopen
        cases hopen
    | false =>
      obtain ⟨s', hs', haccepted, hbetween⟩ := PollSession.run_deliver hset (hawaiting hset) x
      have hleft := hrun.leftAlone.run _ (quiet_deliver jobId x) hs'
      have hall : pollOutcomes i (es ++ (PollSession.deliver jobId x).map (.session i)) = w ++ [x] := by
        rw [pollOutcomes_append, hrun.complete hset, pollOutcomes_session,
          PollSession.filterMap_ofEvent_deliver]
      rcases hbetween with hset' | ⟨s₀, hopen, hidle, rfl⟩
      · have haccepted' : s'.accepted = true := haccepted.trans hrun.accepted
        refine ⟨_, s', ⟨hleft, haccepted', hall ▸ List.prefix_rfl, fun _ => hall⟩, fun hopen' => ?_⟩
        rw [hset'] at hopen'
        cases hopen'
      · -- the timer of the next poll fires
        obtain ⟨s₁, hfire, haccepted₁, hawaiting₁⟩ := PollSession.step_fire_schedulePoll hopen hidle
        have hleft₁ := hleft.run [.fire s₀.nextTimer (.poll jobId)] (by simp)
          (run_cons_eq_some.2 ⟨s₁, hfire, rfl⟩)
        have hall₁ := pollOutcomes_append i (es ++ (PollSession.deliver jobId x).map (.session i))
          [.session i (.fire s₀.nextTimer (.poll jobId))]
        have hnone : pollOutcomes i [.session i (.fire s₀.nextTimer (.poll jobId))] = [] :=
          pollOutcomes_session i [.fire s₀.nextTimer (.poll jobId)]
        rw [hall, hnone, List.append_nil] at hall₁
        exact ⟨_, s₁, ⟨hleft₁, haccepted₁.trans (haccepted.trans hrun.accepted),
          hall₁ ▸ List.prefix_rfl, fun _ => hall₁⟩, fun _ => hawaiting₁⟩

/-- The result of the poll loop.  Every sequence of outcomes is met by a run.  In a run that meets it, the
session settles at the first position at which it can, with what is due there, and has made one `GET` for each
outcome up to it; and it is still pending if there is no such position. -/
theorem poll_loop_result (i : ℕ) (outcomes : List PollOutcome) :
    (∃ es s, PollRun i outcomes es s) ∧
      ∀ es s, PollRun i outcomes es s →
        (∀ n o, FirstSettling outcomes n o →
          pollOutcomes i es = outcomes.take (n + 1) ∧ s.settled = true ∧ s.settlements = [o] ∧
            s.requests = 1 + (n + 1)) ∧
        ((∀ n o, ¬ SettlesAt outcomes n o) →
          pollOutcomes i es = outcomes ∧ s.settled = false ∧ s.settlements = [] ∧
            s.requests = 1 + outcomes.length + s.gets) := by
  constructor
  · obtain ⟨es, s, hrun, -⟩ := exists_pollRun_polling i [49] outcomes
    exact ⟨es, s, hrun⟩
  intro es s hrun
  have hconsumed : PollSession.Consumed (pollOutcomes i es) s := hrun.leftAlone.consumed
  obtain ⟨v, hv⟩ := hrun.consumed
  cases hset : s.settled with
  | true =>
    obtain ⟨n', o', hfirst', hlength, hsettlements⟩ := hconsumed.result hset hrun.accepted
    have hfirst'' : FirstSettling outcomes n' o' := hv ▸ hfirst'.append
    constructor
    · intro n o hfirst
      obtain ⟨rfl, rfl⟩ := hfirst.unique hfirst''
      have hgets : s.gets = 0 := by simp [PollSession.gets, hconsumed.idle hset]
      have hrequests : s.requests = 1 + (pollOutcomes i es).length + s.gets :=
        hconsumed.requests (Or.inl hrun.accepted)
      refine ⟨?_, rfl, hsettlements, by omega⟩
      rw [← hlength]
      exact List.prefix_iff_eq_take.1 hrun.consumed
    · intro hnone
      exact absurd hfirst''.settles (hnone n' o')
  | false =>
    have hall : pollOutcomes i es = outcomes := hrun.complete hset
    rw [hall] at hconsumed
    constructor
    · intro n o hfirst
      exact absurd hfirst.settles (hconsumed.undecided hset n o)
    · intro _
      obtain ⟨c, hc, -, hs⟩ := hrun.leftAlone
      have hnone : s.settlements = [] := ((clientInv_of_run hc i s hs).unsettled hset).1
      exact ⟨hall, rfl, hnone, hconsumed.requests (Or.inr hset)⟩

end KaqTranslator
