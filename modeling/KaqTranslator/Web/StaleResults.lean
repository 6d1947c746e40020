import KaqTranslator.Web.App

/-!
# Stale results are never shown

Every call gets its own request identifier, and a swap or a clear moves `requestIdRef` past all of them.  So
the identifier of a call is `requestIdRef.current` exactly when the call is the newest and has not been
abandoned (`AppInv.current`), and only such a call passes the guards of its continuation and of its warming
timer.
-/

namespace KaqTranslator

open EventMachine

namespace App

/-- The success state shows the result of the newest call, which has not been abandoned. -/
def ShowsNewest (s : App) (translation sourceText : JsString) : Prop :=
  ∃ c rest, s.calls = c :: rest ∧ c.abandoned = false ∧ c.text = sourceText ∧
    c.outcome = some (.resolved translation)

end App

structure AppInv (s : App) : Prop where
  ordered : s.calls.Pairwise fun c d => d.requestId < c.requestId  -- newer calls have larger identifiers
  bounded : ∀ c ∈ s.calls, c.requestId ≤ s.requestId
  /-- a call is current unless it has been abandoned or superseded -/
  newest : ∀ c rest, s.calls = c :: rest → (c.requestId = s.requestId ↔ c.abandoned = false)
  direction : ∀ c rest, s.calls = c :: rest → c.abandoned = false → c.direction = s.direction
  timer : ∀ c ∈ s.calls, c.warmingTimer = true → c.outcome = none
  shown : ∀ translation sourceText, s.translateState = .success translation sourceText →
    s.ShowsNewest translation sourceText
  rendered : ∀ translation sourceText, s.rendered = .success translation sourceText →
    s.translateState = .success translation sourceText

namespace App

private theorem current_of_inv {s : App} (hs : AppInv s) {c : Call} (hc : c ∈ s.calls)
    (hid : c.requestId = s.requestId) : c.abandoned = false ∧ ∃ rest, s.calls = c :: rest := by
  cases hcalls : s.calls with
  | nil =>
    rw [hcalls] at hc
    cases hc
  | cons d rest =>
    have hord := hs.ordered
    have hle : d.requestId ≤ s.requestId := hs.bounded d (hcalls ▸ List.mem_cons_self ..)
    rw [hcalls] at hc hord
    rcases List.mem_cons.1 hc with rfl | hmem
    · exact ⟨(hs.newest c rest hcalls).1 hid, rest, rfl⟩
    · -- an older call has a smaller identifier
      have hlt : c.requestId < d.requestId := (List.pairwise_cons.1 hord).1 c hmem
      omega

private theorem call?_eq_some {s : App} {requestId : ℕ} {p : Call → Bool} {c : Call}
    (h : s.call? requestId p = some c) : c ∈ s.calls ∧ c.requestId = requestId ∧ p c = true := by
  have hp := List.find?_some h
  simp only [Bool.and_eq_true, decide_eq_true_eq] at hp
  exact ⟨List.mem_of_find?_eq_some h, hp⟩

private theorem appInv_init : AppInv init := by
  constructor <;> simp [init]

private theorem appInv_runTranslate {s : App} (hs : AppInv s) : AppInv s.runTranslate := by
  constructor
  case ordered =>
    refine List.pairwise_cons.2 ⟨?_, hs.ordered⟩
    intro c hc
    have hle := hs.bounded c hc
    show c.requestId < s.requestId + 1
    omega
  case bounded =>
    intro c hc
    show c.requestId ≤ s.requestId + 1
    rcases List.mem_cons.1 hc with rfl | hc
    · exact Nat.le_refl _
    · have hle := hs.bounded c hc
      omega
  case newest =>
    rintro c rest h
    obtain ⟨rfl, -⟩ := List.cons.inj h
    exact iff_of_true rfl rfl
  case direction =>
    rintro c rest h -
    obtain ⟨rfl, -⟩ := List.cons.inj h
    rfl
  case timer =>
    intro c hc ht
    rcases List.mem_cons.1 hc with rfl | hc
    · rfl
    · exact hs.timer c hc ht
  case shown => intro _ _ h; cases h
  case rendered => intro _ _ h; cases h

/-- The state after a swap or a clear: every call is abandoned, and nothing is shown. -/
private theorem appInv_abandon {s s' : App} (hs : AppInv s) (hcalls : s'.calls = s.abandon.calls)
    (hid : s'.requestId = s.requestId + 1) (hstate : s'.translateState = .idle)
    (hrendered : s'.rendered = .idle) : AppInv s' := by
  have hmem : ∀ c ∈ s'.calls, ∃ d ∈ s.calls, c = { d with abandoned := true } := by
    intro c hc
    rw [hcalls] at hc
    obtain ⟨d, hd, rfl⟩ := List.mem_map.1 hc
    exact ⟨d, hd, rfl⟩
  have hhead : ∀ c rest, s'.calls = c :: rest → c.abandoned = true ∧ c.requestId ≤ s.requestId := by
    intro c rest h
    obtain ⟨d, hd, rfl⟩ := hmem c (h ▸ List.mem_cons_self ..)
    exact ⟨rfl, hs.bounded d hd⟩
  constructor
  case ordered =>
    rw [hcalls]
    exact List.pairwise_map.2 hs.ordered
  case bounded =>
    intro c hc
    obtain ⟨d, hd, rfl⟩ := hmem c hc
    have hle := hs.bounded d hd
    rw [hid]
    exact Nat.le_succ_of_le hle
  case newest =>
    intro c rest h
    obtain ⟨hab, hle⟩ := hhead c rest h
    rw [hab, hid]
    exact iff_of_false (by omega) (by simp)
  case direction =>
    intro c rest h hab
    obtain ⟨hab', -⟩ := hhead c rest h
    rw [hab] at hab'
    cases hab'
  case timer =>
    intro c hc ht
    obtain ⟨d, hd, rfl⟩ := hmem c hc
    exact hs.timer d hd ht
  case shown =>
    intro _ _ h
    rw [hstate] at h
    cases h
  case rendered =>
    intro _ _ h
    rw [hrendered] at h
    cases h

/-- What a continuation and a warming timer leave as it was in a call -/
structure KeepsCall (f : Call → Call) : Prop where
  requestId : ∀ d, (f d).requestId = d.requestId
  text : ∀ d, (f d).text = d.text
  direction : ∀ d, (f d).direction = d.direction
  abandoned : ∀ d, (f d).abandoned = d.abandoned

private theorem KeepsCall.ite {f : Call → Call} (hf : KeepsCall f) (requestId : ℕ) :
    KeepsCall fun d => if d.requestId = requestId then f d else d := by
  have hcases : ∀ d : Call, (if d.requestId = requestId then f d else d) = f d ∨
      (if d.requestId = requestId then f d else d) = d :=
    fun d => ite_eq_or_eq _ _ _
  constructor
  all_goals
    intro d
    rcases hcases d with h | h <;> rw [h]
  · exact hf.requestId d
  · exact hf.text d
  · exact hf.direction d
  · exact hf.abandoned d

section Update

variable {s : App} {c : Call} {f : Call → Call} {state : TranslateState} {translation sourceText : JsString}

/-- A call that is open is not the one whose result is shown. -/
private theorem ne_of_open (hs : AppInv s) (hc : c ∈ s.calls) (hopen : c.outcome = none)
    (h : s.translateState = .success translation sourceText) : s.requestId ≠ c.requestId := by
  intro heq
  obtain ⟨d, rest, hd, -, -, hout⟩ := hs.shown translation sourceText h
  obtain ⟨-, rest', hc'⟩ := current_of_inv hs hc heq.symm
  have hsame : d :: rest = c :: rest' := hd.symm.trans hc'
  obtain ⟨rfl, -⟩ := List.cons.inj hsame
  rw [hopen] at hout
  cases hout

private theorem showsNewest_update (hs : AppInv s) (hc : c ∈ s.calls) (hf : KeepsCall f)
    (hstate : ∀ translation sourceText, state = .success translation sourceText →
      c.text = sourceText ∧ (f c).outcome = some (.resolved translation))
    (h : (s.update c.requestId f state).translateState = .success translation sourceText) :
    (s.update c.requestId f state).ShowsNewest translation sourceText := by
  let g : Call → Call := fun d => if d.requestId = c.requestId then f d else d
  have hg : KeepsCall g := hf.ite c.requestId
  have hcalls : (s.update c.requestId f state).calls = s.calls.map g := rfl
  by_cases heq : s.requestId = c.requestId
  · -- the call is current, and the state is its own
    have hset : state = .success translation sourceText := (if_pos heq).symm.trans h
    obtain ⟨hcab, rest, hc'⟩ := current_of_inv hs hc heq.symm
    obtain ⟨hsrc, hout⟩ := hstate translation sourceText hset
    refine ⟨g c, rest.map g, by rw [hcalls, hc']; rfl, (hg.abandoned c).trans hcab, (hg.text c).trans hsrc, ?_⟩
    simpa only [g, if_true] using hout
  · have hset : s.translateState = .success translation sourceText := (if_neg heq).symm.trans h
    obtain ⟨d, rest, hd, hdab, hsrc, hout⟩ := hs.shown translation sourceText hset
    have hne : d.requestId ≠ c.requestId := by
      rw [(hs.newest d rest hd).2 hdab]
      exact heq
    refine ⟨g d, rest.map g, by rw [hcalls, hd]; rfl, (hg.abandoned d).trans hdab, (hg.text d).trans hsrc, ?_⟩
    simpa only [g, if_neg hne] using hout

private theorem appInv_update (hs : AppInv s) (hc : c ∈ s.calls) (hf : KeepsCall f)
    (htimer : ∀ d, (f d).warmingTimer = false) (hopen : c.outcome = none)
    (hstate : ∀ translation sourceText, state = .success translation sourceText →
      c.text = sourceText ∧ (f c).outcome = some (.resolved translation)) :
    AppInv (s.update c.requestId f state) := by
  have hg := hf.ite c.requestId
  constructor
  case ordered =>
    refine List.pairwise_map.2 (hs.ordered.imp ?_)
    intro d d' h
    rw [hg.requestId d, hg.requestId d']
    exact h
  case bounded =>
    intro d' hd'
    obtain ⟨d, hd, rfl⟩ := List.mem_map.1 hd'
    rw [hg.requestId d]
    exact hs.bounded d hd
  case newest =>
    intro d rest h
    obtain ⟨d, rest, hd, rfl, -⟩ := List.map_eq_cons_iff.1 h
    rw [hg.requestId d, hg.abandoned d]
    exact hs.newest d rest hd
  case direction =>
    intro d rest h hab
    obtain ⟨d, rest, hd, rfl, -⟩ := List.map_eq_cons_iff.1 h
    rw [hg.abandoned d] at hab
    rw [hg.direction d]
    exact hs.direction d rest hd hab
  case timer =>
    intro d' hd' ht
    obtain ⟨d, hd, rfl⟩ := List.mem_map.1 hd'
    by_cases hdc : d.requestId = c.requestId
    · simp only [if_pos hdc, htimer] at ht
      cases ht
    · simp only [if_neg hdc] at ht ⊢
      exact hs.timer d hd ht
  case shown => exact fun _ _ h => showsNewest_update hs hc hf hstate h
  case rendered =>
    intro translation sourceText h
    have hset : s.translateState = .success translation sourceText := hs.rendered translation sourceText h
    exact (if_neg (ne_of_open hs hc hopen hset)).trans hset

end Update

theorem appInv_of_step {s s' : App} {e : AppEvent} (hs : AppInv s) (h : s.step e = some s') : AppInv s' := by
  cases e with
  | type text =>
    simp only [step] at h
    split at h
    · obtain rfl := Option.some.inj h
      exact ⟨hs.ordered, hs.bounded, hs.newest, hs.direction, hs.timer, hs.shown, hs.rendered⟩
    · cases h
  | traducir | reintentar =>
    simp only [step] at h
    split at h
    · obtain rfl := Option.some.inj h
      exact appInv_runTranslate hs
    · cases h
  | swap | borrar =>
    simp only [step] at h
    split at h
    · obtain rfl := Option.some.inj h
      exact appInv_abandon hs rfl rfl rfl rfl
    · cases h
  | toggleView =>
    obtain rfl := Option.some.inj h
    exact ⟨hs.ordered, hs.bounded, hs.newest, hs.direction, hs.timer, hs.shown, hs.rendered⟩
  | continuation requestId outcome =>
    simp only [step, Option.bind_eq_bind, Option.bind_eq_some_iff] at h
    obtain ⟨c, hc, h⟩ := h
    obtain rfl := Option.some.inj h
    obtain ⟨hmem, rfl, hopen⟩ := call?_eq_some hc
    have hopen : c.outcome = none := Option.isNone_iff_eq_none.1 hopen
    have hkeeps : KeepsCall fun c => { c with outcome := some outcome, warmingTimer := false } :=
      ⟨fun _ => rfl, fun _ => rfl, fun _ => rfl, fun _ => rfl⟩
    refine appInv_update hs hmem hkeeps (fun _ => rfl) hopen ?_
    intro translation sourceText hstate
    cases outcome with
    | resolved t =>
      obtain ⟨rfl, rfl⟩ := TranslateState.success.inj hstate
      exact ⟨rfl, rfl⟩
    | _ => cases hstate
  | warmingTimer requestId =>
    simp only [step, Option.bind_eq_bind, Option.bind_eq_some_iff] at h
    obtain ⟨c, hc, h⟩ := h
    obtain rfl := Option.some.inj h
    obtain ⟨hmem, rfl, htimer⟩ := call?_eq_some hc
    have hopen : c.outcome = none := hs.timer c hmem htimer
    have hkeeps : KeepsCall fun c => { c with warmingTimer := false } :=
      ⟨fun _ => rfl, fun _ => rfl, fun _ => rfl, fun _ => rfl⟩
    exact appInv_update hs hmem hkeeps (fun _ => rfl) hopen (fun _ _ h => by cases h)
  | render =>
    obtain rfl := Option.some.inj h
    exact ⟨hs.ordered, hs.bounded, hs.newest, hs.direction, hs.timer, hs.shown, fun _ _ h => h⟩

/-! ### What comes of calls that are not current -/

def IsOf (e : AppEvent) (c : Call) : Prop :=
  (∃ outcome, e = .continuation c.requestId outcome) ∨ e = .warmingTimer c.requestId

/-- What comes of a call that is not current changes nothing that the user sees. -/
private theorem ui_of_step_of_ne {s s' : App} {e : AppEvent} {c : Call} (he : IsOf e c)
    (hne : s.requestId ≠ c.requestId) (h : s.step e = some s') : s'.toUi = s.toUi := by
  rcases he with ⟨outcome, rfl⟩ | rfl
  all_goals
    simp only [step, Option.bind_eq_bind, Option.bind_eq_some_iff] at h
    obtain ⟨_, _, h⟩ := h
    obtain rfl := Option.some.inj h
    simp only [update, if_neg hne]

end App

/-- Stale results are never shown.  Whenever the success state is set or rendered, it shows what the newest
call, not abandoned since, resolved to, and that call was made with the text shown and the direction that is
selected; what comes of an abandoned or superseded call changes nothing that the user sees. -/
theorem stale_results_never_shown {es : List AppEvent} {s : App} (hrun : run App.step .init es = some s) :
    (∀ translation sourceText, s.translateState = .success translation sourceText ∨
        s.rendered = .success translation sourceText →
      ∃ c rest, s.calls = c :: rest ∧ c.abandoned = false ∧ c.text = sourceText ∧ c.direction = s.direction ∧
        c.outcome = some (.resolved translation)) ∧
    (∀ c ∈ s.calls, (c.abandoned = true ∨ s.calls.head? ≠ some c) → ∀ e s', App.IsOf e c → s.step e = some s' →
      s'.toUi = s.toUi) := by
  have hs : AppInv s := invariant (fun _ _ _ hs h => App.appInv_of_step hs h) App.appInv_init hrun
  constructor
  · intro translation sourceText h
    have hstate : s.translateState = .success translation sourceText := h.elim id (hs.rendered _ _)
    obtain ⟨c, rest, hcalls, hab, htext, hout⟩ := hs.shown translation sourceText hstate
    have hdirection : c.direction = s.direction := hs.direction c rest hcalls hab
    exact ⟨c, rest, hcalls, hab, htext, hdirection, hout⟩
  · intro c hc hstale e s' he h
    have hne : s.requestId ≠ c.requestId := by
      intro heq
      obtain ⟨hab, rest, hcalls⟩ := App.current_of_inv hs hc heq.symm
      rcases hstale with hab' | hhead
      · rw [hab] at hab'
        cases hab'
      · exact hhead (by rw [hcalls]; rfl)
    exact App.ui_of_step_of_ne he hne h

/-- A call that fails, and its retry after an edit. -/
def retriedRun : List AppEvent :=
  [.type [97], .traducir, .continuation 1 .networkError, .render, .type [98], .reintentar,
    .continuation 2 (.resolved [120]), .render]

theorem stale_results_never_shown_retried :
    ∃ s, run App.step .init retriedRun = some s ∧ s.rendered = .success [120] [98] ∧
      ∃ c rest, s.calls = c :: rest ∧ c.abandoned = false ∧ c.text = [98] ∧ c.direction = s.direction ∧
        c.outcome = some (.resolved [120]) :=
  ⟨_, rfl, rfl, (@stale_results_never_shown retriedRun _ rfl).1 [120] [98] (Or.inr rfl)⟩

end KaqTranslator
