import KaqTranslator.Deployment.Packages

/-!
# Promotions between environments (`deployment/promote_model.py`)

Every environment has its own account, with a bucket and a Model Registry.  Training jobs store artifacts and
register them, `deploy.main` uploads and registers repackaged ones, reviewers set the approval of a package,
and `promote_model.main` copies a package from one environment to another.  The scripts take several calls,
between which the environments change: a promotion reads the source package, checks that it is approved,
downloads the artifact, uploads it and registers what it has uploaded.

`change_of_step` says what a step does to the environments, and `awaiting_of_step` what a script uploads.  A
script whose calls follow on each other is a run of its `main` (`run_deploy`, `run_promotion`).
-/

namespace KaqTranslator

open EventMachine

section System

variable {B : Type}

inductive PromotionPhase (B : Type) where
  | checked
  | downloaded (artifact : B)
  | ended

/-- A run of `promote_model.main` that has passed `ensure_approved` -/
structure Promotion (B : Type) where
  source : PackageRef
  sourceEnvironment : Str
  target : Account
  description : Description
  modelDataUrl : Str
  phase : PromotionPhase B

/-- What a script uploads, and the package that it then registers, from the URL of the object -/
structure Publication (B : Type) where
  key : Str
  artifact : B
  package : Str → ModelPackage
  key_ne_nil : key ≠ []
  modelDataUrl_package : ∀ url, (package url).modelDataUrl = url

structure Environments (B : Type) where
  environment : Account → Environment B
  promotions : List (Promotion B)
  awaiting : List (Account × Registration B)  -- what scripts have uploaded and are about to register

inductive PromotionEvent (B : Type) where
  | stored (account : Account) (key : Str) (artifact : B)  -- by a training job
  | registerTrained (account : Account) (approvalStatus : ModelApprovalStatus) (image modelDataUrl : Str)
      (runMetadata : RunMetadata) (modelCardText : Str)
  | deploy (account : Account) (r : DeployRun B)  -- to the end of the upload
  | review (ref : PackageRef) (approvalStatus : ModelApprovalStatus)
  | promote (source : PackageRef) (sourceEnvironment : Str) (target : Account)
  | download (i : ℕ)
  | upload (i : ℕ) (fault : Option Fault)
  | register (i : ℕ)

namespace Environments

def init (bucket : Account → Bucket) (objects : Account → Str → Option B) : Environments B :=
  ⟨fun account => .init (bucket account) (objects account), [], []⟩

def package (w : Environments B) (ref : PackageRef) : Option (Registration B) :=
  (w.environment ref.1).registrations[ref.2]?

def setEnvironment (w : Environments B) (account : Account) (env : Environment B) : Environments B :=
  { w with environment := Function.update w.environment account env }

def setPromotion (w : Environments B) (i : ℕ) (p : Promotion B) : Environments B :=
  { w with promotions := w.promotions.set i p }

/-- `upload_inference_artifact` and `upload_promoted_artifact`; the fault is that of the script. -/
def upload (w : Environments B) (account : Account) (p : Publication B) : Option Fault → Environments B
  | some .upload => w
  | some .register => w.setEnvironment account ((w.environment account).upload p.key p.artifact)
  | none => { w.setEnvironment account ((w.environment account).upload p.key p.artifact) with
      awaiting := w.awaiting ++
        [(account, ⟨p.package (s3Uri (w.environment account).bucket p.key), p.artifact⟩)] }

end Environments

/-- What a run of `deploy.main` publishes, if it comes that far -/
def DeployRun.publication (r : DeployRun B) : Option (Publication B) :=
  if r.dryRun then none
  else
    r.modelCard.bind fun text => r.repackaged.map fun artifact =>
      { key := buildInferenceArtifactKey (CustomerMetadata.runId (parseModelCardRunMetadata text))
        artifact := artifact
        package := fun modelDataUrl => ⟨r.approvalStatus, r.imageUri, modelDataUrl,
          buildInferenceCustomerMetadata (parseModelCardRunMetadata text) (parseModelCardMetrics text)
            r.sourceModelDataUrl⟩
        key_ne_nil := nofun
        modelDataUrl_package := fun _ => rfl }

/-- What a promotion publishes, from what it has read -/
def Promotion.publication (p : Promotion B) (artifact : B) : Publication B where
  key := buildPromotedArtifactKey p.description.customerMetadata.runId
  artifact := artifact
  package modelDataUrl := ⟨.approved, p.description.image, modelDataUrl,
    buildTargetCustomerMetadata p.description.customerMetadata p.sourceEnvironment
      p.description.modelPackageArn⟩
  key_ne_nil := nofun
  modelDataUrl_package _ := rfl

def Environments.step (group : Str) (w : Environments B) : PromotionEvent B → Option (Environments B)
  | .stored account key artifact =>
    some (w.setEnvironment account ((w.environment account).upload key artifact))
  | .registerTrained account approvalStatus image modelDataUrl runMetadata modelCardText =>
    -- `CreateModelPackage` checks that the object exists
    ((w.environment account).modelData modelDataUrl).map fun artifact =>
      w.setEnvironment account ((w.environment account).register
        (trainedPackage approvalStatus image modelDataUrl runMetadata modelCardText) artifact)
  | .deploy account r => some (r.publication.elim w fun p => w.upload account p r.fault)
  | .review ref approvalStatus =>
    (w.package ref).map fun g => w.setEnvironment ref.1 { w.environment ref.1 with
      registrations := (w.environment ref.1).registrations.set ref.2 (g.setStatus approvalStatus) }
  | .promote source sourceEnvironment target =>
    match w.package source with
    | none => some w
    | some g =>
      -- `ensure_approved`
      if g.package.modelApprovalStatus = .approved then
        some { w with promotions := w.promotions ++
          [⟨source, sourceEnvironment, target, g.describe (source.arn group), g.package.modelDataUrl,
            .checked⟩] }
      else some w
  | .download i =>
    match w.promotions[i]? with
    | some ⟨source, sourceEnvironment, target, description, modelDataUrl, .checked⟩ =>
      some (w.setPromotion i ⟨source, sourceEnvironment, target, description, modelDataUrl,
        ((w.environment source.1).modelData modelDataUrl).elim .ended .downloaded⟩)
    | _ => none
  | .upload i fault =>
    match w.promotions[i]? with
    | some ⟨source, sourceEnvironment, target, description, modelDataUrl, .downloaded artifact⟩ =>
      let p : Promotion B := ⟨source, sourceEnvironment, target, description, modelDataUrl, .ended⟩
      some ((w.upload target (p.publication artifact) fault).setPromotion i p)
    | _ => none
  | .register i =>
    (w.awaiting[i]?).map fun q => { w.setEnvironment q.1
      ((w.environment q.1).register q.2.package q.2.uploaded) with awaiting := w.awaiting.eraseIdx i }

/-- What a step uploads, and where -/
def PromotionEvent.uploads (w : Environments B) : PromotionEvent B → Option (Account × Str × B)
  | .stored account key artifact => some (account, key, artifact)
  | .deploy account r => r.uploads.map fun up => (account, up)
  | .upload i fault =>
    match w.promotions[i]? with
    | some ⟨_, _, target, description, _, .downloaded artifact⟩ =>
      (sent fault (buildPromotedArtifactKey description.customerMetadata.runId) artifact).map fun up =>
        (target, up)
    | _ => none
  | _ => none

/-- What a step registers, and where -/
def PromotionEvent.registers (w : Environments B) : PromotionEvent B → Option (Account × Registration B)
  | .registerTrained account approvalStatus image modelDataUrl runMetadata modelCardText =>
    ((w.environment account).modelData modelDataUrl).map fun artifact =>
      (account, ⟨trainedPackage approvalStatus image modelDataUrl runMetadata modelCardText, artifact⟩)
  | .register i => w.awaiting[i]?
  | _ => none

/-! ### What a step does -/

theorem DeployRun.uploads_eq (r : DeployRun B) :
    r.uploads = r.publication.bind fun p => sent r.fault p.key p.artifact := by
  unfold DeployRun.uploads DeployRun.publication
  split
  · rfl
  · cases r.modelCard with
    | none => rfl
    | some text => cases r.repackaged <;> rfl

theorem deployMain_eq (env : Environment B) (r : DeployRun B) :
    (deployMain env r).1 =
      r.publication.elim env fun p => (env.publish r.fault p.key p.artifact p.package).1 := by
  unfold deployMain DeployRun.publication
  split
  · rfl
  · cases r.modelCard with
    | none => rfl
    | some text => cases r.repackaged <;> rfl

theorem DeployRun.not_promoted {r : DeployRun B} {p : Publication B} (h : r.publication = some p)
    (url : Str) : ¬ (p.package url).Promoted := by
  unfold DeployRun.publication at h
  split at h
  · cases h
  · obtain ⟨text, -, h⟩ := Option.bind_eq_some_iff.1 h
    obtain ⟨artifact, -, rfl⟩ := Option.map_eq_some_iff.1 h
    exact not_promoted_inference text r.sourceModelDataUrl _ rfl

namespace Environments

theorem promotions_upload (w : Environments B) (account : Account) (p : Publication B)
    (fault : Option Fault) : (w.upload account p fault).promotions = w.promotions := by
  match fault with
  | none => rfl
  | some .upload => rfl
  | some .register => rfl

theorem environment_upload (w : Environments B) (account : Account) (p : Publication B)
    (fault : Option Fault) :
    (w.upload account p fault).environment = (sent fault p.key p.artifact).elim w.environment fun up =>
      (w.setEnvironment account ((w.environment account).upload up.1 up.2)).environment := by
  match fault with
  | none => rfl
  | some .upload => rfl
  | some .register => rfl

theorem mem_awaiting_upload {w : Environments B} {account : Account} {p : Publication B}
    {fault : Option Fault} {q : Account × Registration B} (h : q ∈ (w.upload account p fault).awaiting) :
    q ∈ w.awaiting ∨ sent fault p.key p.artifact = some (p.key, p.artifact) ∧
      q = (account, ⟨p.package (s3Uri (w.environment account).bucket p.key), p.artifact⟩) := by
  match fault with
  | none => exact (List.mem_append.1 h).imp_right fun hq => ⟨rfl, List.mem_singleton.1 hq⟩
  | some .upload => exact .inl h
  | some .register => exact .inl h

/-- A promotion begins if the package that it is of is there and approved. -/
theorem eq_of_promote {group : Str} {w w' : Environments B} {source : PackageRef} {sourceEnvironment : Str}
    {target : Account} (h : w.step group (.promote source sourceEnvironment target) = some w') :
    w' = w ∨ ∃ g, w.package source = some g ∧ g.package.modelApprovalStatus = .approved ∧
      w' = { w with promotions := w.promotions ++
        [⟨source, sourceEnvironment, target, g.describe (source.arn group), g.package.modelDataUrl,
          .checked⟩] } := by
  simp only [step] at h
  split at h
  · exact .inl (Option.some.inj h).symm
  · rename_i g hg
    split at h
    · rename_i hstatus
      exact .inr ⟨g, hg, hstatus, (Option.some.inj h).symm⟩
    · exact .inl (Option.some.inj h).symm

theorem eq_of_download {group : Str} {w w' : Environments B} {i : ℕ}
    (h : w.step group (.download i) = some w') :
    ∃ p, w.promotions[i]? = some p ∧ p.phase = .checked ∧ w' = w.setPromotion i { p with
      phase := ((w.environment p.source.1).modelData p.modelDataUrl).elim .ended .downloaded } := by
  simp only [step] at h
  split at h
  · rename_i hp
    exact ⟨_, hp, rfl, (Option.some.inj h).symm⟩
  · cases h

/-- A promotion uploads what it has downloaded. -/
theorem eq_of_upload {group : Str} {w w' : Environments B} {i : ℕ} {fault : Option Fault}
    (h : w.step group (.upload i fault) = some w') :
    ∃ p artifact, w.promotions[i]? = some p ∧ p.phase = .downloaded artifact ∧
      PromotionEvent.uploads w (.upload i fault) =
        (sent fault (p.publication artifact).key artifact).map (fun up => (p.target, up)) ∧
      w' = (w.upload p.target (p.publication artifact) fault).setPromotion i { p with phase := .ended } := by
  simp only [step] at h
  split at h
  · rename_i hp
    refine ⟨_, _, hp, rfl, ?_, (Option.some.inj h).symm⟩
    simp only [PromotionEvent.uploads, hp]
    rfl
  · cases h

/-- What a step does to the environments: nothing, an upload, a registration or a review. -/
inductive Change (w : Environments B) (e : PromotionEvent B) (w' : Environments B) : Prop where
  | nothing (hup : e.uploads w = none) (hreg : e.registers w = none) (henv : w'.environment = w.environment)
  | upload {account : Account} {key : Str} {artifact : B} (hup : e.uploads w = some (account, key, artifact))
      (hreg : e.registers w = none) (henv : w'.environment =
        (w.setEnvironment account ((w.environment account).upload key artifact)).environment)
  | register {account : Account} {g : Registration B} (hup : e.uploads w = none)
      (hreg : e.registers w = some (account, g)) (henv : w'.environment =
        (w.setEnvironment account ((w.environment account).register g.package g.uploaded)).environment)
  | review {ref : PackageRef} {g : Registration B} {approvalStatus : ModelApprovalStatus}
      (hg : w.package ref = some g) (hup : e.uploads w = none) (hreg : e.registers w = none)
      (henv : w'.environment = (w.setEnvironment ref.1 { w.environment ref.1 with
        registrations :=
          (w.environment ref.1).registrations.set ref.2 (g.setStatus approvalStatus) }).environment)

/-- A script that sends what it publishes uploads it. -/
private theorem change_upload {w w' : Environments B} {e : PromotionEvent B} {account : Account}
    {p : Publication B} {fault : Option Fault}
    (hup : e.uploads w = (sent fault p.key p.artifact).map fun up => (account, up))
    (hreg : e.registers w = none) (henv : w'.environment = (w.upload account p fault).environment) :
    Change w e w' := by
  rw [environment_upload] at henv
  cases hsent : sent fault p.key p.artifact with
  | none =>
    rw [hsent] at hup henv
    exact .nothing hup hreg henv
  | some up =>
    rw [hsent] at hup henv
    exact .upload hup hreg henv

theorem change_of_step {group : Str} {w w' : Environments B} {e : PromotionEvent B}
    (h : w.step group e = some w') : Change w e w' := by
  cases e with
  | stored account key artifact =>
    obtain rfl := Option.some.inj h
    exact .upload rfl rfl rfl
  | registerTrained account approvalStatus image modelDataUrl runMetadata modelCardText =>
    obtain ⟨artifact, hread, rfl⟩ := Option.map_eq_some_iff.1 h
    exact .register rfl (congrArg (Option.map _) hread) rfl
  | deploy account r =>
    obtain rfl := Option.some.inj h
    cases hp : r.publication with
    | none =>
      refine .nothing ?_ rfl rfl
      rw [PromotionEvent.uploads, r.uploads_eq, hp]
      rfl
    | some p =>
      refine change_upload (p := p) ?_ rfl rfl
      rw [PromotionEvent.uploads, r.uploads_eq, hp]
      rfl
  | review ref approvalStatus =>
    obtain ⟨g, hg, rfl⟩ := Option.map_eq_some_iff.1 h
    exact .review hg rfl rfl rfl
  | promote source sourceEnvironment target =>
    obtain rfl | ⟨g, -, -, rfl⟩ := eq_of_promote h
    · exact .nothing rfl rfl rfl
    · exact .nothing rfl rfl rfl
  | download i =>
    obtain ⟨p, -, -, rfl⟩ := eq_of_download h
    exact .nothing rfl rfl rfl
  | upload i fault =>
    obtain ⟨p, artifact, -, -, hup, rfl⟩ := eq_of_upload h
    exact change_upload hup rfl rfl
  | register i =>
    obtain ⟨q, hq, rfl⟩ := Option.map_eq_some_iff.1 h
    exact .register rfl hq rfl

/-- What a script can publish: a package that was not promoted, or the target of a promotion with what it has
read. -/
def Publishes (w : Environments B) (p : Publication B) : Prop :=
  (∀ url, ¬ (p.package url).Promoted) ∨
    ∃ r ∈ w.promotions, r.phase = .downloaded p.artifact ∧ p = r.publication p.artifact

theorem awaiting_of_step {group : Str} {w w' : Environments B} {e : PromotionEvent B}
    (h : w.step group e = some w') :
    ∀ q ∈ w'.awaiting, q ∈ w.awaiting ∨ ∃ p : Publication B, w.Publishes p ∧
      e.uploads w = some (q.1, p.key, p.artifact) ∧
      q.2 = ⟨p.package (s3Uri (w.environment q.1).bucket p.key), p.artifact⟩ := by
  intro q hq
  cases e with
  | stored account key artifact =>
    obtain rfl := Option.some.inj h
    exact .inl hq
  | registerTrained account approvalStatus image modelDataUrl runMetadata modelCardText =>
    obtain ⟨artifact, -, rfl⟩ := Option.map_eq_some_iff.1 h
    exact .inl hq
  | deploy account r =>
    obtain rfl := Option.some.inj h
    cases hp : r.publication with
    | none =>
      rw [hp] at hq
      exact .inl hq
    | some p =>
      rw [hp] at hq
      refine (mem_awaiting_upload hq).imp_right ?_
      rintro ⟨hsent, rfl⟩
      refine ⟨p, .inl (DeployRun.not_promoted hp), ?_, rfl⟩
      rw [PromotionEvent.uploads, r.uploads_eq, hp, Option.bind_some, hsent]
      rfl
  | review ref approvalStatus =>
    obtain ⟨g, -, rfl⟩ := Option.map_eq_some_iff.1 h
    exact .inl hq
  | promote source sourceEnvironment target =>
    obtain rfl | ⟨g, -, -, rfl⟩ := eq_of_promote h
    · exact .inl hq
    · exact .inl hq
  | download i =>
    obtain ⟨p, -, -, rfl⟩ := eq_of_download h
    exact .inl hq
  | upload i fault =>
    obtain ⟨p, artifact, hp, hphase, hup, rfl⟩ := eq_of_upload h
    refine (mem_awaiting_upload hq).imp_right ?_
    rintro ⟨hsent, rfl⟩
    exact ⟨_, .inr ⟨p, List.mem_of_getElem? hp, hphase, rfl⟩, hup.trans (congrArg (Option.map _) hsent), rfl⟩
  | register i =>
    obtain ⟨r, -, rfl⟩ := Option.map_eq_some_iff.1 h
    exact .inl (List.mem_of_mem_eraseIdx hq)

/-! ### The scripts as runs -/

/-- An upload, and the registration if it awaits one, are the end of a script. -/
private theorem run_registers (group : Str) (w w' : Environments B) (account : Account) (p : Publication B)
    (fault : Option Fault) (henv : w'.environment = (w.upload account p fault).environment)
    (hawaiting : w'.awaiting = (w.upload account p fault).awaiting) :
    ∃ registers w'', (registers = [] ∨ registers = [.register w.awaiting.length]) ∧
      run (step group) w' registers = some w'' ∧ w''.environment = (w.setEnvironment account
        ((w.environment account).publish fault p.key p.artifact p.package).1).environment := by
  match fault with
  | some .upload =>
    have hsame := Function.update_eq_self account w.environment
    exact ⟨[], w', .inl rfl, rfl, henv.trans hsame.symm⟩
  | some .register => exact ⟨[], w', .inl rfl, rfl, henv⟩
  | none =>
    have hget : w'.awaiting[w.awaiting.length]? =
        some (account, ⟨p.package (s3Uri (w.environment account).bucket p.key), p.artifact⟩) := by
      rw [hawaiting]
      exact List.getElem?_concat_length
    have hstep : step group w' (.register w.awaiting.length) = some
        { w'.setEnvironment account ((w'.environment account).register
            (p.package (s3Uri (w.environment account).bucket p.key)) p.artifact) with
          awaiting := w'.awaiting.eraseIdx w.awaiting.length } := by
      rw [step, hget, Option.map_some]
    refine ⟨[.register w.awaiting.length], _, .inr rfl, run_cons_eq_some.2 ⟨_, hstep, rfl⟩, ?_⟩
    dsimp only [setEnvironment]
    rw [henv]
    dsimp only [upload, setEnvironment]
    rw [Function.update_self, Function.update_idem]
    rfl

/-- A deployment in which nothing else happens is a run of `deploy.main`. -/
theorem run_deploy {group : Str} (w : Environments B) (account : Account) (r : DeployRun B) :
    ∃ registers w', (registers = [] ∨ registers = [.register w.awaiting.length]) ∧
      run (step group) w (.deploy account r :: registers) = some w' ∧
      w'.environment = (w.setEnvironment account (deployMain (w.environment account) r).1).environment := by
  rw [deployMain_eq]
  cases hp : r.publication with
  | none =>
    refine ⟨[], w, .inl rfl, ?_, (Function.update_eq_self account w.environment).symm⟩
    rw [run_cons, step, hp]
    rfl
  | some p =>
    obtain ⟨registers, w', hregisters, hrun, henv⟩ :=
      run_registers group w (w.upload account p r.fault) account p r.fault rfl rfl
    refine ⟨registers, w', hregisters, ?_, henv⟩
    rw [run_cons, step, hp]
    exact hrun

/-- A promotion in which nothing else happens is a run of `promote_model.main`. -/
theorem run_promotion {group : Str} {w : Environments B} {source : PackageRef} {g : Registration B}
    {artifact : B} (hg : w.package source = some g) (hstatus : g.package.modelApprovalStatus = .approved)
    (hread : (w.environment source.1).modelData g.package.modelDataUrl = some artifact)
    (sourceEnvironment : Str) (target : Account) (fault : Option Fault) :
    ∃ registers w', (registers = [] ∨ registers = [.register w.awaiting.length]) ∧
      run (step group) w (.promote source sourceEnvironment target :: .download w.promotions.length ::
        .upload w.promotions.length fault :: registers) = some w' ∧
      w'.environment = (w.setEnvironment target (promoteMain (w.environment target)
        ⟨sourceEnvironment, some (g.describe (source.arn group)), some artifact, fault⟩).1).environment := by
  let p (phase : PromotionPhase B) : Promotion B :=
    ⟨source, sourceEnvironment, target, g.describe (source.arn group), g.package.modelDataUrl, phase⟩
  have hpromote : w.step group (.promote source sourceEnvironment target) =
      some { w with promotions := w.promotions ++ [p .checked] } := by
    simp only [step, hg, hstatus, if_true, p]
  have hdownload : step group { w with promotions := w.promotions ++ [p .checked] }
      (.download w.promotions.length) =
        some { w with promotions := w.promotions ++ [p (.downloaded artifact)] } := by
    simp [step, setPromotion, hread, p]
  let v : Environments B := { w with promotions := w.promotions ++ [p (.downloaded artifact)] }
  have hupload : step group v (.upload w.promotions.length fault) =
      some ((v.upload target ((p .ended).publication artifact) fault).setPromotion w.promotions.length
        (p .ended)) := by
    simp [step, p, v]
  have hmain : (promoteMain (w.environment target)
      ⟨sourceEnvironment, some (g.describe (source.arn group)), some artifact, fault⟩).1 =
        ((w.environment target).publish fault ((p .ended).publication artifact).key artifact
          ((p .ended).publication artifact).package).1 := by
    have happroved : ¬ (g.describe (source.arn group)).modelApprovalStatus ≠ some .approved :=
      not_not.2 (congrArg some hstatus)
    rw [promoteMain]
    dsimp only
    rw [if_neg happroved]
    rfl
  obtain ⟨registers, w', hregisters, hrun, henv⟩ := run_registers group v
    ((v.upload target ((p .ended).publication artifact) fault).setPromotion w.promotions.length (p .ended))
    target ((p .ended).publication artifact) fault rfl rfl
  refine ⟨registers, w', hregisters, ?_, henv.trans ?_⟩
  · rw [run_cons, hpromote, Option.bind_some, run_cons, hdownload, Option.bind_some, run_cons, hupload,
      Option.bind_some]
    exact hrun
  · rw [hmain]
    rfl

/-! ### The packages after a step -/

theorem package_setEnvironment (w : Environments B) (account : Account) (env : Environment B)
    (ref : PackageRef) : (w.setEnvironment account env).package ref =
      if ref.1 = account then env.registrations[ref.2]? else w.package ref := by
  show (Function.update w.environment account env ref.1).registrations[ref.2]? = _
  by_cases h : ref.1 = account
  · rw [if_pos h, h, Function.update_self]
  · rw [if_neg h, Function.update_of_ne h]
    rfl

theorem package_congr {w w' : Environments B} (henv : w'.environment = w.environment) (ref : PackageRef) :
    w'.package ref = w.package ref := by
  rw [package, package, henv]

/-- Every package stays, and a new one meets `P`. -/
structure Grows (P : Registration B → Prop) (w w' : Environments B) : Prop where
  stays : ∀ ref g, w.package ref = some g → ∃ g', w'.package ref = some g' ∧ g.Same g'
  new : ∀ ref g', w'.package ref = some g' → (∃ g, w.package ref = some g ∧ g.Same g') ∨ P g'

theorem Grows.congr {P : Registration B → Prop} {w w' w'' : Environments B} (h : Grows P w w')
    (henv : w''.environment = w'.environment) : Grows P w w'' :=
  ⟨fun ref g hg => (package_congr henv ref) ▸ h.stays ref g hg,
    fun ref g' hg' => h.new ref g' ((package_congr henv ref).symm.trans hg')⟩

theorem Grows.mono {P Q : Registration B → Prop} (hPQ : ∀ g, P g → Q g) {w w' : Environments B}
    (h : Grows P w w') : Grows Q w w' :=
  ⟨h.stays, fun ref g' hg' => (h.new ref g' hg').imp_right (hPQ g')⟩

theorem grows_of_package_eq {P : Registration B → Prop} {w w' : Environments B}
    (h : ∀ ref, w'.package ref = w.package ref) : Grows P w w' :=
  ⟨fun ref g hg => ⟨g, (h ref).trans hg, .refl g⟩, fun ref g' hg' =>
    .inl ⟨g', (h ref).symm.trans hg', .refl g'⟩⟩

theorem grows_setEnvironment {P : Registration B → Prop} (w : Environments B) (account : Account)
    {env : Environment B}
    (h : env.registrations = (w.environment account).registrations ∨
      ∃ g, env.registrations = (w.environment account).registrations ++ [g] ∧ P g) :
    Grows P w (w.setEnvironment account env) := by
  rcases h with h | ⟨g₀, h, hP⟩
  · refine grows_of_package_eq fun ref => ?_
    rw [package_setEnvironment]
    split
    · rename_i href
      rw [h, package, href]
    · rfl
  · have hpackage : ∀ ref : PackageRef, (w.setEnvironment account env).package ref =
        if ref.1 = account then ((w.environment ref.1).registrations ++ [g₀])[ref.2]? else w.package ref := by
      intro ref
      rw [package_setEnvironment]
      split
      · rename_i href
        rw [h, href]
      · rfl
    refine ⟨fun ref g hg => ⟨g, ?_, .refl g⟩, fun ref g' hg' => ?_⟩
    · rw [hpackage]
      split
      · rw [List.getElem?_append_left (List.getElem?_eq_some_iff.1 hg).1]
        exact hg
      · exact hg
    · rw [hpackage] at hg'
      split at hg'
      · by_cases hlt : ref.2 < (w.environment ref.1).registrations.length
        · rw [List.getElem?_append_left hlt] at hg'
          exact .inl ⟨g', hg', .refl g'⟩
        · rw [List.getElem?_append_right (Nat.le_of_not_lt hlt)] at hg'
          have hmem := List.mem_of_getElem? hg'
          rw [List.mem_singleton] at hmem
          exact .inr (hmem ▸ hP)
      · exact .inl ⟨g', hg', .refl g'⟩

theorem grows_review (P : Registration B → Prop) {w : Environments B} {ref : PackageRef} {g : Registration B}
    (hg : w.package ref = some g) (approvalStatus : ModelApprovalStatus) :
    Grows P w (w.setEnvironment ref.1 { w.environment ref.1 with
      registrations := (w.environment ref.1).registrations.set ref.2 (g.setStatus approvalStatus) }) := by
  have hpackage : ∀ ref' : PackageRef, (w.setEnvironment ref.1 { w.environment ref.1 with
      registrations :=
        (w.environment ref.1).registrations.set ref.2 (g.setStatus approvalStatus) }).package ref' =
        if ref' = ref then some (g.setStatus approvalStatus) else w.package ref' := by
    intro ref'
    rw [package_setEnvironment]
    split
    · rename_i hfirst
      have hlt : ref.2 < (w.environment ref.1).registrations.length := (List.getElem?_eq_some_iff.1 hg).1
      rw [List.getElem?_set, if_pos hlt]
      by_cases href : ref' = ref
      · rw [if_pos href, if_pos (congrArg Prod.snd href).symm]
      · rw [if_neg href, if_neg fun hsecond => href (Prod.ext hfirst hsecond.symm), package, hfirst]
    · rename_i hfirst
      rw [if_neg fun href => hfirst (congrArg Prod.fst href)]
  have hsame : g.Same (g.setStatus approvalStatus) := ⟨rfl, rfl, rfl, rfl⟩
  refine ⟨fun ref' g₁ hg₁ => ?_, fun ref' g₁ hg₁ => ?_⟩
  · rw [hpackage]
    split
    · rename_i href
      obtain rfl : g = g₁ := Option.some.inj (hg.symm.trans (href ▸ hg₁))
      exact ⟨_, rfl, hsame⟩
    · exact ⟨g₁, hg₁, .refl g₁⟩
  · rw [hpackage] at hg₁
    split at hg₁
    · rename_i href
      obtain rfl := Option.some.inj hg₁
      exact .inl ⟨g, href ▸ hg, hsame⟩
    · exact .inl ⟨g₁, hg₁, .refl g₁⟩

/-- What a new package can be: one that was not promoted, or one that a script has uploaded -/
def Registers (w : Environments B) (g : Registration B) : Prop :=
  ¬ g.package.Promoted ∨ ∃ account, (account, g) ∈ w.awaiting

theorem registers_of_some {w : Environments B} {e : PromotionEvent B} {account : Account} {g : Registration B}
    (h : e.registers w = some (account, g)) : w.Registers g := by
  cases e with
  | registerTrained account approvalStatus image modelDataUrl runMetadata modelCardText =>
    obtain ⟨artifact, -, heq⟩ := Option.map_eq_some_iff.1 h
    cases heq
    exact .inl (not_promoted_trained approvalStatus image modelDataUrl runMetadata modelCardText)
  | register i => exact .inr ⟨account, List.mem_of_getElem? h⟩
  | _ => cases h

theorem grows_of_step {group : Str} {w w' : Environments B} {e : PromotionEvent B}
    (h : w.step group e = some w') : Grows (Registers w) w w' := by
  cases change_of_step h with
  | nothing _ _ henv => exact grows_of_package_eq (package_congr henv)
  | @upload account key artifact _ _ henv =>
    have hsame : ((w.environment account).upload key artifact).registrations =
      (w.environment account).registrations := rfl
    exact (grows_setEnvironment w account (.inl hsame)).congr henv
  | register _ hreg henv =>
    exact (grows_setEnvironment w _ (.inr ⟨_, rfl, registers_of_some hreg⟩)).congr henv
  | review hg _ _ henv => exact (grows_review _ hg _).congr henv

end Environments

end System

end KaqTranslator
