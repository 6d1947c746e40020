import KaqTranslator.Deployment.PromotionLineage

/-!
# The bytes of a promoted package

All scripts write to keys that are made from a run identifier, and between the upload of a script and its
registration another script can replace the object.  `promoted_artifact_bytes` says when all packages point to
the bytes of their origins: exactly if no upload replaces the object of a registered package by other bytes
(`KeepsPackages.uploads`) and every registration finds the bytes of its own script
(`KeepsPackages.registers`).
-/

namespace KaqTranslator

open EventMachine

variable {B : Type}

/-! ### One environment -/

theorem eq_s3Uri_of_parseS3Uri {bucket : Bucket} {url key : Str}
    (h : parseS3Uri url = some (bucket.name, key)) : key ≠ [] ∧ url = s3Uri bucket key := by
  simp only [parseS3Uri] at h
  split at h
  · rename_i hstart
    split at h
    · cases h
    · rename_i hkey
      obtain ⟨rest, rfl⟩ := List.isPrefixOf_iff_prefix.1 hstart
      rw [List.drop_left] at h hkey
      simp only [Option.some.injEq, Prod.mk.injEq] at h
      obtain ⟨hname, rfl⟩ := h
      refine ⟨by simpa using hkey, ?_⟩
      rw [s3Uri, ← hname]
      refine congrArg _ ((List.takeWhile_append_dropWhile ..).symm.trans (congrArg _ ?_))
      -- the rest starts with the slash
      cases hrest : rest.dropWhile (fun c => decide (c ≠ '/')) with
      | nil =>
        rw [hrest] at hkey
        exact absurd rfl hkey
      | cons c tail =>
        have hne : rest.dropWhile (fun c => decide (c ≠ '/')) ≠ [] := hrest ▸ List.cons_ne_nil c tail
        have hslash : decide (c ≠ '/') = false := by
          simpa only [hrest, List.head_cons] using List.head_dropWhile_not _ hne
        rw [not_not.1 (of_decide_eq_false hslash)]
        rfl
  · cases h

theorem registryInv_register {env : Environment B} (hinv : RegistryInv env) {package : ModelPackage}
    {artifact : B}
    (hread : env.modelData package.modelDataUrl = some artifact) :
    RegistryInv (env.register package artifact) := by
  have hnew : ∃ key, key ≠ [] ∧ package.modelDataUrl = s3Uri env.bucket key := by
    obtain ⟨⟨name, key⟩, hparse, hobject⟩ := Option.bind_eq_some_iff.1 hread
    split at hobject
    · rename_i hname
      exact ⟨key, eq_s3Uri_of_parseS3Uri (hname ▸ hparse)⟩
    · cases hobject
  refine ⟨fun g hg => ?_, fun g hg => ?_⟩
  · rcases List.mem_append.1 hg with hg | hg
    · exact hinv.located g hg
    · obtain rfl := List.mem_singleton.1 hg
      exact hnew
  · rcases List.mem_append.1 hg with hg | hg
    · exact hinv.intact g hg
    · obtain rfl := List.mem_singleton.1 hg
      exact hread

theorem registryInv_review {env : Environment B} (hinv : RegistryInv env) {i : ℕ} {g : Registration B}
    (hg : env.registrations[i]? = some g) (approvalStatus : ModelApprovalStatus) :
    RegistryInv { env with registrations := env.registrations.set i (g.setStatus approvalStatus) } := by
  have hmem : ∀ g₁ ∈ env.registrations.set i (g.setStatus approvalStatus), ∃ g₂ ∈ env.registrations,
      g₁.package.modelDataUrl = g₂.package.modelDataUrl ∧ g₁.uploaded = g₂.uploaded := by
    intro g₁ hg₁
    rcases List.mem_or_eq_of_mem_set hg₁ with hg₁ | rfl
    · exact ⟨g₁, hg₁, rfl, rfl⟩
    · exact ⟨g, List.mem_of_getElem? hg, rfl, rfl⟩
  refine ⟨fun g₁ hg₁ => ?_, fun g₁ hg₁ => ?_⟩
  · obtain ⟨g₂, hg₂, hurl, -⟩ := hmem g₁ hg₁
    rw [hurl]
    exact hinv.located g₂ hg₂
  · obtain ⟨g₂, hg₂, hurl, huploaded⟩ := hmem g₁ hg₁
    rw [hurl, huploaded]
    exact hinv.intact g₂ hg₂

theorem not_intact_upload {env : Environment B} (hinv : RegistryInv env) {key : Str} {artifact : B}
    {g : Registration B} (hg : g ∈ env.registrations) (hurl : g.package.modelDataUrl = s3Uri env.bucket key)
    (hne : g.uploaded ≠ artifact) : ¬ (env.upload key artifact).Intact := by
  intro hintact
  have hkey : key ≠ [] := by
    obtain ⟨key', hkey', hurl'⟩ := hinv.located g hg
    have hcancel := List.append_cancel_left (List.append_cancel_left (hurl.symm.trans hurl'))
    rw [(List.cons.inj hcancel).2]
    exact hkey'
  have hread : (env.upload key artifact).modelData g.package.modelDataUrl = some artifact := by
    rw [hurl, modelData_upload env hkey, if_pos rfl]
  exact hne (Option.some.inj ((hintact g hg).symm.trans hread))

/-! ### All environments -/

/-- An upload to the key of a registered package carries the artifact that was uploaded for the package, and a
registration finds the artifact that its script has uploaded. -/
structure KeepsPackages (w : Environments B) (e : PromotionEvent B) : Prop where
  uploads : ∀ account key artifact, e.uploads w = some (account, key, artifact) →
    ∀ g ∈ (w.environment account).registrations,
      g.package.modelDataUrl = s3Uri (w.environment account).bucket key → g.uploaded = artifact
  registers : ∀ account g, e.registers w = some (account, g) →
    (w.environment account).modelData g.package.modelDataUrl = some g.uploaded

/-- An upload to the key of a package that is registered or awaits its registration carries the artifact that
was uploaded for the package. -/
def KeepsAwaiting (w : Environments B) (e : PromotionEvent B) : Prop :=
  ∀ account key artifact, e.uploads w = some (account, key, artifact) →
    ∀ g, g ∈ (w.environment account).registrations ∨ (account, g) ∈ w.awaiting →
      g.package.modelDataUrl = s3Uri (w.environment account).bucket key → g.uploaded = artifact

/-- Every package points to the artifact that was uploaded for its origin. -/
def PointToOrigins (group : Str) (w : Environments B) : Prop :=
  ∀ ref g, w.package ref = some g →
    ∃ origin g₀, PackageLineage group (fun _ _ => True) (fun _ => True) w ref origin ∧
    w.package origin = some g₀ ∧ (w.environment ref.1).modelData g.package.modelDataUrl = some g₀.uploaded

section Bytes

variable {group : Str} {w w' : Environments B} {e : PromotionEvent B}

private theorem registryInv_setEnvironment (hinv : ∀ account, RegistryInv (w.environment account))
    (account : Account) {env : Environment B} (henv : RegistryInv env) (account' : Account) :
    RegistryInv ((w.setEnvironment account env).environment account') := by
  rw [Environments.setEnvironment]
  dsimp only
  by_cases h : account' = account
  · rw [h, Function.update_self]
    exact henv
  · rw [Function.update_of_ne h]
    exact hinv account'

private theorem not_intact_setEnvironment (account : Account) {env : Environment B} (henv : ¬ env.Intact) :
    ∃ account', ¬ ((w.setEnvironment account env).environment account').Intact := by
  refine ⟨account, ?_⟩
  rw [Environments.setEnvironment]
  dsimp only
  rwa [Function.update_self]

/-- The packages stay intact at a step exactly if it keeps them. -/
theorem intact_of_promotionStep (hinv : ∀ account, RegistryInv (w.environment account))
    (h : w.step group e = some w') :
    (KeepsPackages w e → ∀ account, RegistryInv (w'.environment account)) ∧
      (¬ KeepsPackages w e → ∃ account, ¬ (w'.environment account).Intact) := by
  have huploads : e.uploads w = none → ∀ up, e.uploads w ≠ some up := fun hup up hsome =>
    Option.some_ne_none up (hsome.symm.trans hup)
  have hregisters : e.registers w = none → ∀ q, e.registers w ≠ some q := fun hreg q hsome =>
    Option.some_ne_none q (hsome.symm.trans hreg)
  have hnone : e.uploads w = none → e.registers w = none → KeepsPackages w e := fun hup hreg =>
    ⟨fun _ _ _ hsome => absurd hsome (huploads hup _), fun _ _ hsome => absurd hsome (hregisters hreg _)⟩
  cases Environments.change_of_step h with
  | nothing hup hreg henv =>
    rw [henv]
    exact ⟨fun _ => hinv, fun hkeep => absurd (hnone hup hreg) hkeep⟩
  | @upload account key artifact hup hreg henv =>
    rw [henv]
    constructor
    · intro hkeep
      exact registryInv_setEnvironment hinv account
        (registryInv_upload (hinv account) (hkeep.uploads account key artifact hup))
    · intro hkeep
      have hlost : ∃ g ∈ (w.environment account).registrations,
          g.package.modelDataUrl = s3Uri (w.environment account).bucket key ∧ g.uploaded ≠ artifact := by
        by_contra hall
        refine hkeep ⟨fun account' key' artifact' hup' g hg hurl => ?_,
          fun _ _ hsome => absurd hsome (hregisters hreg _)⟩
        obtain ⟨rfl, rfl, rfl⟩ : account = account' ∧ key = key' ∧ artifact = artifact' := by
          simpa only [Option.some.injEq, Prod.mk.injEq] using hup.symm.trans hup'
        by_contra hne
        exact hall ⟨g, hg, hurl, hne⟩
      obtain ⟨g, hg, hurl, hne⟩ := hlost
      exact not_intact_setEnvironment account (not_intact_upload (hinv account) hg hurl hne)
  | @register account g hup hreg henv =>
    rw [henv]
    constructor
    · intro hkeep
      exact registryInv_setEnvironment hinv account
        (registryInv_register (hinv account) (hkeep.registers account g hreg))
    · intro hkeep
      refine not_intact_setEnvironment account fun hintact =>
        hkeep ⟨fun _ _ _ hsome => absurd hsome (huploads hup _), ?_⟩
      rintro account' g' hreg'
      obtain ⟨rfl, rfl⟩ : account = account' ∧ g = g' := by
        simpa only [Option.some.injEq, Prod.mk.injEq] using hreg.symm.trans hreg'
      exact hintact g (List.mem_append_right _ (List.mem_singleton_self g))
  | review hg hup hreg henv =>
    rw [henv]
    refine ⟨fun _ => ?_, fun hkeep => absurd (hnone hup hreg) hkeep⟩
    exact registryInv_setEnvironment hinv _ (registryInv_review (hinv _) hg _)

/-! ### Uploads that await their registration -/

/-- What a script has uploaded is still there. -/
def AwaitingInv (w : Environments B) : Prop :=
  ∀ q ∈ w.awaiting, ∃ key, key ≠ [] ∧ q.2.package.modelDataUrl = s3Uri (w.environment q.1).bucket key ∧
    (w.environment q.1).objects key = some q.2.uploaded

/-- What a step changes in a bucket -/
structure BucketStep (w : Environments B) (e : PromotionEvent B) (w' : Environments B) (account : Account) :
    Prop where
  bucket : (w'.environment account).bucket = (w.environment account).bucket
  uploaded : ∀ key artifact, e.uploads w = some (account, key, artifact) →
    (w'.environment account).objects key = some artifact
  kept : ∀ key, (∀ artifact, e.uploads w ≠ some (account, key, artifact)) →
    (w'.environment account).objects key = (w.environment account).objects key

/-- A step without an upload changes no bucket. -/
private theorem bucketStep_of_none (hup : e.uploads w = none) (hreg : ∀ account,
    (w'.environment account).bucket = (w.environment account).bucket ∧
      (w'.environment account).objects = (w.environment account).objects) (account : Account) :
    BucketStep w e w' account where
  bucket := (hreg account).1
  uploaded _ _ hsome := absurd (hsome.symm.trans hup) (Option.some_ne_none _)
  kept key _ := congrFun (hreg account).2 key

private theorem setEnvironment_keeps (account : Account) {env : Environment B}
    (hbucket : env.bucket = (w.environment account).bucket)
    (hobjects : env.objects = (w.environment account).objects) (account' : Account) :
    ((w.setEnvironment account env).environment account').bucket = (w.environment account').bucket ∧
      ((w.setEnvironment account env).environment account').objects = (w.environment account').objects := by
  rw [Environments.setEnvironment]
  dsimp only
  by_cases h : account' = account
  · rw [h, Function.update_self]
    exact ⟨hbucket, hobjects⟩
  · rw [Function.update_of_ne h]
    exact ⟨rfl, rfl⟩

theorem bucketStep_of_step (h : w.step group e = some w') (account : Account) :
    BucketStep w e w' account := by
  cases Environments.change_of_step h with
  | nothing hup _ henv =>
    exact bucketStep_of_none hup (fun account' => by rw [henv]; exact ⟨rfl, rfl⟩) account
  | @upload account' key artifact hup _ henv =>
    have henv : w'.environment = Function.update w.environment account'
      ((w.environment account').upload key artifact) := henv
    by_cases haccount : account = account'
    · subst haccount
      have hself : w'.environment account = (w.environment account).upload key artifact := by
        rw [henv, Function.update_self]
      refine ⟨by rw [hself]; rfl, fun key' artifact' hup' => ?_, fun key' hkept => ?_⟩
      · obtain ⟨-, rfl, rfl⟩ : account = account ∧ key = key' ∧ artifact = artifact' := by
          simpa only [Option.some.injEq, Prod.mk.injEq] using hup.symm.trans hup'
        rw [hself]
        exact Function.update_self ..
      · rw [hself]
        refine Function.update_of_ne ?_ _ _
        rintro rfl
        exact hkept artifact hup
    · have hother : w'.environment account = w.environment account := by
        rw [henv, Function.update_of_ne haccount]
      refine ⟨by rw [hother], fun key' artifact' hup' => ?_, fun key' _ => by rw [hother]⟩
      exact absurd (congrArg Prod.fst (Option.some.inj (hup'.symm.trans hup))) haccount
  | register hup _ henv =>
    refine bucketStep_of_none hup (fun account' => ?_) account
    rw [henv]
    exact setEnvironment_keeps _ (by rfl) (by rfl) account'
  | review _ hup _ henv =>
    refine bucketStep_of_none hup (fun account' => ?_) account
    rw [henv]
    exact setEnvironment_keeps _ (by rfl) (by rfl) account'

theorem awaitingInv_of_step (hinv : AwaitingInv w) (hkeep : KeepsAwaiting w e)
    (h : w.step group e = some w') : AwaitingInv w' := by
  intro q hq
  have hstep := bucketStep_of_step h q.1
  rw [hstep.bucket]
  rcases Environments.awaiting_of_step h q hq with hold | ⟨p, -, hup, hpackage⟩
  · obtain ⟨key, hkey, hurl, hobject⟩ := hinv q hold
    refine ⟨key, hkey, hurl, ?_⟩
    by_cases hup : ∃ artifact, e.uploads w = some (q.1, key, artifact)
    · obtain ⟨artifact, hup⟩ := hup
      rw [hstep.uploaded key artifact hup, hkeep q.1 key artifact hup q.2 (.inr hold) hurl]
    · rw [hstep.kept key fun artifact hsome => hup ⟨artifact, hsome⟩]
      exact hobject
  · rw [hpackage]
    exact ⟨p.key, p.key_ne_nil, p.modelDataUrl_package _, hstep.uploaded p.key p.artifact hup⟩

theorem keepsPackages_of_keepsAwaiting (hinv : AwaitingInv w) (hkeep : KeepsAwaiting w e) :
    KeepsPackages w e := by
  refine ⟨fun account key artifact hup g hg => hkeep account key artifact hup g (.inl hg),
    fun account g hreg => ?_⟩
  cases e with
  | registerTrained account' approvalStatus image modelDataUrl runMetadata modelCardText =>
    -- the artifact of the package is the object that is there
    obtain ⟨artifact, hread, heq⟩ := Option.map_eq_some_iff.1 hreg
    cases heq
    exact hread
  | register i =>
    obtain ⟨key, hkey, hurl, hobject⟩ := hinv (account, g) (List.mem_of_getElem? hreg)
    rw [hurl, modelData_s3Uri _ hkey]
    exact hobject
  | _ => cases hreg

theorem PackageLineage.uploaded {Approved : PackageRef → Prop} {ref origin : PackageRef}
    (h : PackageLineage group (fun g g' => g.uploaded = g'.uploaded) Approved w ref origin)
    {g g₀ : Registration B} (hg : w.package ref = some g) (hg₀ : w.package origin = some g₀) :
    g.uploaded = g₀.uploaded := by
  induction h generalizing g with
  | origin => rw [Option.some.inj (hg.symm.trans hg₀)]
  | @promoted ref source origin g₁ g' hg₁ hg' hcopy _ ih =>
    obtain rfl := Option.some.inj (hg₁.symm.trans hg)
    exact hcopy.artifacts.trans (ih hg' hg₀)

/-- The promotions of a state have copied bytes, and every environment is intact. -/
structure BytesInv (group : Str) (w : Environments B) : Prop where
  promotions : PromotionInv group (fun g g' => g.uploaded = g'.uploaded) (fun _ => True) w
  registries : ∀ account, RegistryInv (w.environment account)

theorem promotions_of_step (hinv : BytesInv group w) (h : w.step group e = some w') :
    PromotionInv group (fun g g' => g.uploaded = g'.uploaded) (fun _ => True) w' := by
  refine promotionInv_of_step ?_ (fun _ h => h) (fun _ _ _ _ => trivial) ?_ hinv.promotions h
  · intro g g' g₁ g₁' hg hg' huploaded
    rw [hg.uploaded, hg'.uploaded, huploaded]
  · -- what is downloaded is what was uploaded for the package
    intro ref g g' hg' hread
    have hmem : g' ∈ (w.environment ref.1).registrations := List.mem_of_getElem? hg'
    exact Option.some.inj (hread.symm.trans ((hinv.registries ref.1).intact g' hmem))

/-- What the packages point to is what was uploaded for their origins exactly if they are intact. -/
theorem pointToOrigins_iff
    (hinv : PromotionInv group (fun g g' => g.uploaded = g'.uploaded) (fun _ => True) w) :
    PointToOrigins group w ↔ ∀ account, (w.environment account).Intact := by
  have hlineage : ∀ ref g, w.package ref = some g → ∃ origin g₀,
      PackageLineage group (fun _ _ => True) (fun _ => True) w ref origin ∧ w.package origin = some g₀ ∧
        g.uploaded = g₀.uploaded := by
    intro ref g hg
    obtain ⟨origin, horigin⟩ := hinv.lineage ref g hg
    obtain ⟨g₀, hg₀, -⟩ := horigin.common hg
    refine ⟨origin, g₀, ?_, hg₀, horigin.uploaded hg hg₀⟩
    exact horigin.mono (fun _ _ _ _ _ _ _ => trivial) (fun _ h => h) fun ref g hg => ⟨g, hg, .refl g⟩
  constructor
  · intro hpoint account g hmem
    obtain ⟨i, hi⟩ := List.mem_iff_getElem?.1 hmem
    obtain ⟨origin, g₀, horigin, hg₀, hread⟩ := hpoint (account, i) g hi
    obtain ⟨origin', g₀', horigin', hg₀', huploaded⟩ := hlineage (account, i) g hi
    obtain rfl := horigin.origin_unique horigin'
    obtain rfl := Option.some.inj (hg₀.symm.trans hg₀')
    exact hread.trans (congrArg some huploaded.symm)
  · intro hintact ref g hg
    obtain ⟨origin, g₀, horigin, hg₀, huploaded⟩ := hlineage ref g hg
    refine ⟨origin, g₀, horigin, hg₀, ?_⟩
    rw [hintact ref.1 g (List.mem_of_getElem? hg), huploaded]

/-- The packages of all environments point to the artifacts of their origins in every state of a run exactly
if every upload of the run to the key of a registered package carries the artifact that was uploaded for it,
and every registration finds what its script has uploaded.  For this it is enough that the uploads also
respect the artifacts that await their registration. -/
theorem promoted_artifact_bytes {bucket : Account → Bucket} {objects : Account → Str → Option B}
    {es : List (PromotionEvent B)}
    (hrun : run (Environments.step group) (.init bucket objects) es = some w) :
    ((∀ pre post u, es = pre ++ post → run (Environments.step group) (.init bucket objects) pre = some u →
        PointToOrigins group u) ↔
      StepsMeet (Environments.step group) KeepsPackages (.init bucket objects) es) ∧
    (StepsMeet (Environments.step group) KeepsAwaiting (.init bucket objects) es →
      StepsMeet (Environments.step group) KeepsPackages (.init bucket objects) es) := by
  have hinit : BytesInv group (.init bucket objects) :=
    ⟨promotionInv_init bucket objects, fun _ => ⟨nofun, nofun⟩⟩
  constructor
  · refine always_iff_stepsMeet (I := BytesInv group) ?_ ?_ ?_ hinit hrun
    · exact fun u hu => (pointToOrigins_iff hu.promotions).2 fun account => (hu.registries account).intact
    · intro u e v hu hkeep hstep
      exact ⟨promotions_of_step hu hstep, (intact_of_promotionStep hu.registries hstep).1 hkeep⟩
    · intro u e v hu hkeep hstep hpoint
      obtain ⟨account, hlost⟩ := (intact_of_promotionStep hu.registries hstep).2 hkeep
      exact hlost ((pointToOrigins_iff (promotions_of_step hu hstep)).1 hpoint account)
  · refine StepsMeet.of_invariant (I := AwaitingInv) ?_ (fun _ _ => keepsPackages_of_keepsAwaiting) nofun
    exact fun _ _ _ => awaitingInv_of_step

theorem promoted_artifact_bytes_prod :
    ((∀ pre post u, promotionRun = pre ++ post →
        run (Environments.step "models".toList) sampleEnvironments pre = some u →
        PointToOrigins "models".toList u) ↔
      StepsMeet (Environments.step "models".toList) KeepsPackages sampleEnvironments promotionRun) ∧
    (StepsMeet (Environments.step "models".toList) KeepsAwaiting sampleEnvironments promotionRun →
      StepsMeet (Environments.step "models".toList) KeepsPackages sampleEnvironments promotionRun) :=
  promoted_artifact_bytes rfl

/-- Two deployments without a run identifier, in two accounts, which are both promoted to qa.  The first
promotion registers after the upload of the second. -/
def crossedRun : List (PromotionEvent ℕ) :=
  let deployRun (artifact : ℕ) : DeployRun ℕ :=
    ⟨false, "s3://data/model.tar.gz".toList, .pendingManualApproval, "image".toList, some [],
      some artifact, none⟩
  [.deploy devAccount (deployRun 14), .register 0, .review (devAccount, 0) .approved,
    .deploy prodAccount (deployRun 15), .register 0, .review (prodAccount, 0) .approved,
    .promote (devAccount, 0) "dev".toList qaAccount, .promote (prodAccount, 0) "prod".toList qaAccount,
    .download 0, .download 1, .upload 0 none, .upload 1 none, .register 0]

/-- Its package points to the artifact of the second promotion. -/
example : (run (Environments.step "models".toList) sampleEnvironments crossedRun).bind (fun w =>
    (w.package (qaAccount, 0)).map fun g =>
      (g.uploaded, (w.environment qaAccount).modelData g.package.modelDataUrl)) = some (14, some 15) := by
  decide +kernel

end Bytes

end KaqTranslator
