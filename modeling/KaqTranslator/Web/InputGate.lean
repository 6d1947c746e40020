import KaqTranslator.Web.App

/-!
# The input gate

The button Traducir is disabled while the input is blank or too long; Reintentar asks for neither.  So the
texts that are passed to `translate` have all passed the gate exactly if every click on Reintentar has found
an input that passes it (`submitted_texts_gated_iff`).
-/

namespace KaqTranslator

open EventMachine

/-- `input.trim() && !isOverLimit` -/
def PassesGate (input : JsString) : Prop := trim input ≠ [] ∧ input.length ≤ maxInputLength

instance (input : JsString) : Decidable (PassesGate input) := instDecidableAnd

namespace App

/-- Every text passed to `translate` so far has passed the gate. -/
def SubmittedGated (s : App) : Prop := ∀ c ∈ s.calls, PassesGate c.text

private theorem passesGate_of_canTranslate {s : App} (h : s.canTranslate = true) : PassesGate s.input := by
  simp only [canTranslate, Bool.and_eq_true, Bool.not_eq_true', List.isEmpty_eq_false_iff,
    decide_eq_true_eq] at h
  exact ⟨h.1.2, h.2⟩

private theorem submittedGated_runTranslate (s : App) :
    s.runTranslate.SubmittedGated ↔ s.SubmittedGated ∧ PassesGate s.input := by
  simp only [SubmittedGated, runTranslate, List.forall_mem_cons, and_comm]

/-- Changes of the calls that keep their texts. -/
private theorem submittedGated_map {s s' : App} {f : Call → Call} (hcalls : s'.calls = s.calls.map f)
    (htext : ∀ c, (f c).text = c.text) : s'.SubmittedGated ↔ s.SubmittedGated := by
  simp only [SubmittedGated, hcalls, List.forall_mem_map, htext]

private theorem submittedGated_update (s : App) (requestId : ℕ) {f : Call → Call} (state : TranslateState)
    (htext : ∀ c, (f c).text = c.text) : (s.update requestId f state).SubmittedGated ↔ s.SubmittedGated := by
  refine submittedGated_map rfl ?_
  intro c
  split
  · exact htext c
  · rfl

/-- What one event does to the texts submitted so far: only Reintentar can spoil them. -/
theorem submittedGated_of_step {s s' : App} {e : AppEvent} (h : s.step e = some s') :
    s'.SubmittedGated ↔ s.SubmittedGated ∧ (e = .reintentar → PassesGate s.input) := by
  cases e with
  | traducir =>
    simp only [step] at h
    split at h
    · rename_i hcan
      obtain rfl := Option.some.inj h
      -- the button asks for the gate
      have hgate : PassesGate s.input := passesGate_of_canTranslate hcan
      rw [submittedGated_runTranslate]
      simp [hgate]
    · cases h
  | reintentar =>
    simp only [step] at h
    split at h
    · obtain rfl := Option.some.inj h
      rw [submittedGated_runTranslate]
      simp
    · cases h
  | type =>
    simp only [step] at h
    split at h
    · obtain rfl := Option.some.inj h
      simp [SubmittedGated]
    · cases h
  | swap | borrar =>
    simp only [step] at h
    split at h
    · obtain rfl := Option.some.inj h
      rw [submittedGated_map (f := fun c => { c with abandoned := true }) rfl fun _ => rfl]
      simp
    · cases h
  | toggleView | render =>
    obtain rfl := Option.some.inj h
    simp [SubmittedGated]
  | continuation requestId outcome =>
    simp only [step, Option.bind_eq_bind, Option.bind_eq_some_iff] at h
    obtain ⟨c, hc, h⟩ := h
    obtain rfl := Option.some.inj h
    refine (submittedGated_update s requestId _ ?_).trans ?_
    · exact fun _ => rfl
    · simp
  | warmingTimer requestId =>
    simp only [step, Option.bind_eq_bind, Option.bind_eq_some_iff] at h
    obtain ⟨c, hc, h⟩ := h
    obtain rfl := Option.some.inj h
    refine (submittedGated_update s requestId _ ?_).trans ?_
    · exact fun _ => rfl
    · simp

end App

/-- The texts passed to `translate` in a run have all passed the gate if and only if every click on Reintentar
in the run has found an input that passes it. -/
theorem submitted_texts_gated_iff {es : List AppEvent} {s : App} (hrun : run App.step .init es = some s) :
    (∀ c ∈ s.calls, PassesGate c.text) ↔
      StepsMeet App.step (fun s e => e = .reintentar → PassesGate s.input) .init es := by
  have hinit : App.init.SubmittedGated := by simp [App.SubmittedGated, App.init]
  have hiff := iff_stepsMeet (G := App.SubmittedGated) (fun _ _ _ h => App.submittedGated_of_step h) hrun
  rw [and_iff_right hinit] at hiff
  exact hiff

/-- A request that fails, an input that is emptied, and a click on Reintentar. -/
def emptiedRetry : List AppEvent :=
  [.type [97], .traducir, .continuation 1 .networkError, .render, .type [], .reintentar]

/-- Reintentar submits an empty text. -/
theorem submitted_texts_not_gated :
    ¬ ∀ es s, run App.step .init es = some s → ∀ c ∈ s.calls, PassesGate c.text := by
  intro h
  have hgate : PassesGate [] := h emptiedRetry _ rfl _ (List.mem_cons_self ..)
  exact hgate.1 rfl

/-- The same clicks, with the input edited instead of emptied. -/
theorem submitted_texts_gated_iff_edited :
    ∃ s, run App.step .init [.type [97], .traducir, .continuation 1 .networkError, .render, .type [98],
        .reintentar] = some s ∧
      ((∀ c ∈ s.calls, PassesGate c.text) ↔
        StepsMeet App.step (fun s e => e = .reintentar → PassesGate s.input) .init
          [.type [97], .traducir, .continuation 1 .networkError, .render, .type [98], .reintentar]) :=
  ⟨_, rfl, submitted_texts_gated_iff rfl⟩

end KaqTranslator
