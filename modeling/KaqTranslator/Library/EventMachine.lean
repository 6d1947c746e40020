import Mathlib.Data.List.Forall2
import Mathlib.Logic.Function.Basic

/-!
# Event machines

A machine is a partial step function `σ → ε → Option σ`: an event that cannot happen in a state has no
successor.  A run is a list of events, each enabled where it happens.  `StepsMeet P` says that every step of a
run meets `P`, a condition on the event and on the state before it; the invariant rules (`history_invariant`,
`invariant_of_stepsMeet`, `invariant`) carry a property from the first state of a run to the last, and
`exists_first_failure` finds the first step of a run at which a condition fails.  `iff_stepsMeet` is for what
a step keeps exactly under a condition, `always_iff_stepsMeet` for what then holds in every state of a run,
and `run_simulates` lifts a one-step simulation to runs.  `run_related` compares two runs event by event.
-/

namespace EventMachine

variable {σ τ ε δ : Type*} {step : σ → ε → Option σ}

/-- The state after a list of events, if each event is enabled where it happens. -/
def run (step : σ → ε → Option σ) : σ → List ε → Option σ
  | s, [] => some s
  | s, e :: es => (step s e).bind fun s' => run step s' es

/-- Every step of the run of `es` from `s` meets `P`. -/
def StepsMeet (step : σ → ε → Option σ) (P : σ → ε → Prop) : σ → List ε → Prop
  | _, [] => True
  | s, e :: es => P s e ∧ ∀ s', step s e = some s' → StepsMeet step P s' es

def Reachable (step : σ → ε → Option σ) (init s : σ) : Prop :=
  ∃ es, run step init es = some s

@[simp] theorem run_nil (s : σ) : run step s [] = some s := rfl

@[simp] theorem run_cons (s : σ) (e : ε) (es : List ε) :
    run step s (e :: es) = (step s e).bind fun s' => run step s' es := rfl

@[simp] theorem stepsMeet_nil (P : σ → ε → Prop) (s : σ) : StepsMeet step P s [] := trivial

theorem run_cons_eq_some {s t : σ} {e : ε} {es : List ε} :
    run step s (e :: es) = some t ↔ ∃ u, step s e = some u ∧ run step u es = some t := by
  rw [run_cons, Option.bind_eq_some_iff]

theorem run_append (s : σ) (es fs : List ε) :
    run step s (es ++ fs) = (run step s es).bind fun u => run step u fs := by
  induction es generalizing s with
  | nil => rfl
  | cons e es ih =>
    rw [List.cons_append, run_cons, run_cons, Option.bind_assoc]
    exact congrArg _ (funext fun u => ih u)

theorem run_append_eq_some {s t : σ} {es fs : List ε} :
    run step s (es ++ fs) = some t ↔ ∃ u, run step s es = some u ∧ run step u fs = some t := by
  rw [run_append, Option.bind_eq_some_iff]

theorem run_append_cons_eq_some {s t : σ} {es fs : List ε} {e : ε} :
    run step s (es ++ e :: fs) = some t ↔
      ∃ u v, run step s es = some u ∧ step u e = some v ∧ run step v fs = some t := by
  rw [run_append_eq_some]
  constructor
  · rintro ⟨u, hu, h⟩
    obtain ⟨v, hv, ht⟩ := run_cons_eq_some.1 h
    exact ⟨u, v, hu, hv, ht⟩
  · rintro ⟨u, v, hu, hv, ht⟩
    exact ⟨u, hu, run_cons_eq_some.2 ⟨v, hv, ht⟩⟩

theorem Reachable.refl (init : σ) : Reachable step init init := ⟨[], rfl⟩

theorem Reachable.run {init s t : σ} {es : List ε} (h : Reachable step init s)
    (hrun : run step s es = some t) : Reachable step init t := by
  obtain ⟨fs, hfs⟩ := h
  exact ⟨fs ++ es, run_append_eq_some.2 ⟨s, hfs, hrun⟩⟩

/-! ### Conditions on the steps of a run -/

theorem stepsMeet_append {P : σ → ε → Prop} {s u : σ} {es fs : List ε} (hu : run step s es = some u) :
    StepsMeet step P s (es ++ fs) ↔ StepsMeet step P s es ∧ StepsMeet step P u fs := by
  induction es generalizing s with
  | nil => cases hu; simp
  | cons e es ih =>
    obtain ⟨v, hv, hu⟩ := run_cons_eq_some.1 hu
    simp only [List.cons_append, StepsMeet, hv, Option.some.injEq, forall_eq', ih hu, and_assoc]

theorem StepsMeet.at {P : σ → ε → Prop} {s u : σ} {es fs : List ε} {e : ε}
    (h : StepsMeet step P s (es ++ e :: fs)) (hu : run step s es = some u) : P u e :=
  ((stepsMeet_append hu).1 h).2.1

theorem StepsMeet.mono {P Q : σ → ε → Prop} (hPQ : ∀ s e, P s e → Q s e) {s : σ} {es : List ε}
    (h : StepsMeet step P s es) : StepsMeet step Q s es := by
  induction es generalizing s with
  | nil => trivial
  | cons e es ih => exact ⟨hPQ s e h.1, fun s' hs' => ih (h.2 s' hs')⟩

theorem stepsMeet_cons_of_eq {P : σ → ε → Prop} {s u : σ} {e : ε} {es : List ε} (hu : step s e = some u) :
    StepsMeet step P s (e :: es) ↔ P s e ∧ StepsMeet step P u es := by
  simp only [StepsMeet, hu, Option.some.injEq, forall_eq']

theorem stepsMeet_of_forall {P : σ → ε → Prop} {es : List ε} (h : ∀ e ∈ es, ∀ s, P s e) (s : σ) :
    StepsMeet step P s es := by
  induction es generalizing s with
  | nil => trivial
  | cons e es ih =>
    exact ⟨h e (List.mem_cons_self ..) s, fun s' _ => ih (fun e' he' => h e' (List.mem_cons_of_mem _ he')) s'⟩

theorem stepsMeet_true (s : σ) (es : List ε) : StepsMeet step (fun _ _ => True) s es :=
  stepsMeet_of_forall (fun _ _ _ => trivial) s

/-- A run that does not meet `P` throughout has a first step that fails it. -/
theorem exists_first_failure {P : σ → ε → Prop} {s t : σ} {es : List ε} (hrun : run step s es = some t)
    (h : ¬ StepsMeet step P s es) :
    ∃ pre e post u v, es = pre ++ e :: post ∧ run step s pre = some u ∧ StepsMeet step P s pre ∧
      ¬ P u e ∧ step u e = some v := by
  induction es generalizing s with
  | nil => exact absurd (stepsMeet_nil P s) h
  | cons e es ih =>
    obtain ⟨v, hv, hrun⟩ := run_cons_eq_some.1 hrun
    by_cases hP : P s e
    · have hrest : ¬ StepsMeet step P v es := fun hrest =>
        h ⟨hP, fun s' hs' => by rw [hv] at hs'; cases hs'; exact hrest⟩
      obtain ⟨pre, e', post, u, w, rfl, hpre, hmeet, hfail, hw⟩ := ih hrun hrest
      refine ⟨e :: pre, e', post, u, w, rfl, run_cons_eq_some.2 ⟨v, hv, hpre⟩, ⟨hP, ?_⟩, hfail, hw⟩
      intro s' hs'
      rw [hv] at hs'
      cases hs'
      exact hmeet
    · exact ⟨[], e, es, s, v, rfl, rfl, trivial, hP, hv⟩

/-! ### Invariants -/

/-- The invariant rule for runs whose steps all meet `P`, for a property of the events so far and the
state. -/
theorem history_invariant {P : σ → ε → Prop} {I : List ε → σ → Prop}
    (hstep : ∀ es s e s', I es s → P s e → step s e = some s' → I (es ++ [e]) s') {s t : σ} {es : List ε}
    (hs : I [] s) (hP : StepsMeet step P s es) (hrun : run step s es = some t) : I es t := by
  have h : ∀ pre, I pre s → I (pre ++ es) t := by
    clear hs
    induction es generalizing s with
    | nil =>
      intro pre hpre
      cases hrun
      rwa [List.append_nil]
    | cons e es ih =>
      intro pre hpre
      obtain ⟨u, hu, hrun⟩ := run_cons_eq_some.1 hrun
      have hu' : I (pre ++ [e]) u := hstep pre s e u hpre hP.1 hu
      have hrest : I (pre ++ [e] ++ es) t := ih (hP.2 u hu) hrun (pre ++ [e]) hu'
      rwa [List.append_assoc] at hrest
  exact h [] hs

/-- The invariant rule for runs whose steps all meet `P`. -/
theorem invariant_of_stepsMeet {P : σ → ε → Prop} {I : σ → Prop}
    (hstep : ∀ s e s', I s → P s e → step s e = some s' → I s') {s t : σ} {es : List ε} (hs : I s)
    (hP : StepsMeet step P s es) (hrun : run step s es = some t) : I t :=
  history_invariant (I := fun _ => I) (fun _ => hstep) hs hP hrun

/-- A condition on the steps that keeps an invariant, and with it gives another condition -/
theorem StepsMeet.of_invariant {P Q : σ → ε → Prop} {I : σ → Prop}
    (hkeep : ∀ s e s', I s → P s e → step s e = some s' → I s') (hQ : ∀ s e, I s → P s e → Q s e) {s : σ}
    {es : List ε} (hs : I s) (h : StepsMeet step P s es) : StepsMeet step Q s es := by
  induction es generalizing s with
  | nil => trivial
  | cons e es ih => exact ⟨hQ s e hs h.1, fun s' hs' => ih (hkeep s e s' hs h.1 hs') (h.2 s' hs')⟩

theorem invariant {I : σ → Prop} (hstep : ∀ s e s', I s → step s e = some s' → I s') {s t : σ} {es : List ε}
    (hs : I s) (hrun : run step s es = some t) : I t :=
  invariant_of_stepsMeet (P := fun _ _ => True) (fun s e s' hI _ h => hstep s e s' hI h) hs
    (stepsMeet_true s es) hrun

theorem Reachable.invariant {I : σ → Prop} {init s : σ} (h : Reachable step init s) (hinit : I init)
    (hstep : ∀ s e s', I s → step s e = some s' → I s') : I s := by
  obtain ⟨es, hes⟩ := h
  exact EventMachine.invariant hstep hinit hes

/-- A property that every step keeps exactly when the step meets `P` holds at the end of a run exactly when it
holds at its beginning and every step of the run meets `P`. -/
theorem iff_stepsMeet {P : σ → ε → Prop} {G : σ → Prop}
    (hstep : ∀ s e s', step s e = some s' → (G s' ↔ G s ∧ P s e)) {s t : σ} {es : List ε}
    (hrun : run step s es = some t) : G t ↔ G s ∧ StepsMeet step P s es := by
  induction es generalizing s with
  | nil =>
    cases hrun
    rw [and_iff_left (stepsMeet_nil P _)]
  | cons e es ih =>
    obtain ⟨u, hu, hrun⟩ := run_cons_eq_some.1 hrun
    rw [ih hrun, hstep s e u hu, stepsMeet_cons_of_eq hu, and_assoc]

/-- Every state of a run has `C` exactly when every step meets `P`, if some `I` that implies `C` is kept by
the steps that meet `P`, and `C` is lost at the steps that do not. -/
theorem always_iff_stepsMeet {P : σ → ε → Prop} {I C : σ → Prop} (hIC : ∀ s, I s → C s)
    (hkeep : ∀ s e s', I s → P s e → step s e = some s' → I s')
    (hlose : ∀ s e s', I s → ¬ P s e → step s e = some s' → ¬ C s') {s t : σ} {es : List ε} (hs : I s)
    (hrun : run step s es = some t) :
    (∀ pre post u, es = pre ++ post → run step s pre = some u → C u) ↔ StepsMeet step P s es := by
  constructor
  · intro hall
    by_contra hmeet
    -- the first step that does not meet `P` leaves a state without `C`
    obtain ⟨pre, e, post, u, v, rfl, hu, hpre, hfail, hv⟩ := exists_first_failure hrun hmeet
    have hI : I u := invariant_of_stepsMeet hkeep hs hpre hu
    have hrun' : run step s (pre ++ [e]) = some v := run_append_cons_eq_some.2 ⟨u, v, hu, hv, rfl⟩
    exact hlose u e v hI hfail hv (hall (pre ++ [e]) post v (by simp) hrun')
  · rintro hmeet pre post u rfl hu
    exact hIC u (invariant_of_stepsMeet hkeep hs ((stepsMeet_append hu).1 hmeet).1 hu)

/-- A step-by-step simulation: a run of the first machine is a run of the second between the images. -/
theorem run_simulates {step' : τ → δ → Option τ} {I : σ → Prop} (f : σ → τ)
    (hI : ∀ s e s', I s → step s e = some s' → I s')
    (hsim : ∀ s e s', I s → step s e = some s' → ∃ ds, run step' (f s) ds = some (f s')) {s t : σ}
    {es : List ε} (hs : I s) (hrun : run step s es = some t) : ∃ ds, run step' (f s) ds = some (f t) := by
  induction es generalizing s with
  | nil => cases hrun; exact ⟨[], rfl⟩
  | cons e es ih =>
    obtain ⟨u, hu, hrun⟩ := run_cons_eq_some.1 hrun
    obtain ⟨ds, hds⟩ := hsim s e u hs hu
    obtain ⟨ds', hds'⟩ := ih (hI s e u hs hu) hrun
    exact ⟨ds ++ ds', run_append_eq_some.2 ⟨f u, hds, hds'⟩⟩

/-- Two runs whose events are related pairwise, if related states take related events alike. -/
theorem run_related {step' : τ → δ → Option τ} {R : σ → τ → Prop} {E : ε → δ → Prop}
    (hstep : ∀ s t e d, R s t → E e d → Option.Rel R (step s e) (step' t d)) {s : σ} {t : τ} {es : List ε}
    {ds : List δ} (hs : R s t) (hes : List.Forall₂ E es ds) :
    Option.Rel R (run step s es) (run step' t ds) := by
  induction hes generalizing s t with
  | nil => exact .some hs
  | @cons e d es ds he _ ih =>
    rw [run_cons, run_cons]
    match step s e, step' t d, hstep s t e d hs he with
    | _, _, .none => exact .none
    | _, _, .some h => exact ih h

end EventMachine
