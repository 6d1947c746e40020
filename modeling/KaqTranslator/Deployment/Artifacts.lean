import KaqTranslator.Evaluation.ModelCard
import KaqTranslator.Library.EventMachine

/-!
# Registered artifacts (`deployment/deploy.py`, `deployment/promote_model.py`)

An environment has a bucket and a Model Registry.  `deploy.main` uploads a repackaged artifact and registers
it, `promote_model.main` uploads a copy of an artifact that another environment has registered and registers
the copy; both derive the key of the object from the run id alone.  A script run does one of three things to
the environment (`Effect`): nothing, an upload, or an upload and a registration.  The registered packages stay
intact in every state of a history exactly if no upload replaces the object of a registered package by other
bytes (`registered_artifacts_intact_iff`).

The artifacts are of any type `B`; the source artifact, its repackaging and its download are inputs of a
script run, as are the faults of the two services.
-/

namespace KaqTranslator

open EventMachine

/-! ### Packages and objects -/

/-- `CustomerMetadataProperties`, a `dict` in the order of its keys. -/
abbrev CustomerMetadata := List (Str × Str)

namespace CustomerMetadata

/-- `metadata[key] = value` -/
def setItem (metadata : CustomerMetadata) (key value : Str) : CustomerMetadata :=
  if key ∈ metadata.map Prod.fst then metadata.map fun p => if p.1 = key then (key, value) else p
  else metadata ++ [(key, value)]

def update (metadata other : CustomerMetadata) : CustomerMetadata :=
  other.foldl (fun metadata p => metadata.setItem p.1 p.2) metadata

/-- `metadata.get("run_id", "unknown-run")` -/
def runId (metadata : CustomerMetadata) : Str := (metadata.lookup "run_id".toList).getD "unknown-run".toList

end CustomerMetadata

inductive ModelApprovalStatus where
  | pendingManualApproval
  | approved
  | rejected
  deriving DecidableEq

structure ModelPackage where
  modelApprovalStatus : ModelApprovalStatus
  image : Str
  modelDataUrl : Str
  customerMetadata : CustomerMetadata

/-- A registered package, with the artifact that was uploaded for it. -/
structure Registration (B : Type) where
  package : ModelPackage
  uploaded : B

structure Bucket where
  name : Str
  no_slash : ∀ c ∈ name, c ≠ '/'

structure Environment (B : Type) where
  bucket : Bucket
  objects : Str → Option B
  registrations : List (Registration B)

def s3Uri (bucket : Bucket) (key : Str) : Str := "s3://".toList ++ (bucket.name ++ '/' :: key)

/-- The bucket and the key of an `s3://` URI -/
def parseS3Uri (uri : Str) : Option (Str × Str) :=
  if uri.startsWith "s3://".toList then
    let rest := uri.drop "s3://".toList.length
    let key := (rest.dropWhile (· ≠ '/')).drop 1
    if key.isEmpty then none else some (rest.takeWhile (· ≠ '/'), key)
  else none

namespace Environment

variable {B : Type}

def init (bucket : Bucket) (objects : Str → Option B) : Environment B := ⟨bucket, objects, []⟩

/-- `upload_file`, which replaces what readers of the key get -/
def upload (env : Environment B) (key : Str) (artifact : B) : Environment B :=
  { env with objects := Function.update env.objects key (some artifact) }

/-- `create_model_package` -/
def register (env : Environment B) (package : ModelPackage) (artifact : B) : Environment B :=
  { env with registrations := env.registrations ++ [⟨package, artifact⟩] }

/-- The object to which a `ModelDataUrl` points -/
def modelData (env : Environment B) (url : Str) : Option B :=
  (parseS3Uri url).bind fun p => if p.1 = env.bucket.name then env.objects p.2 else none

/-- Every registered package points to the artifact that was uploaded for it. -/
def Intact (env : Environment B) : Prop :=
  ∀ g ∈ env.registrations, env.modelData g.package.modelDataUrl = some g.uploaded

end Environment

/-! ### The scripts -/

/-- The call that fails, if one does. -/
inductive Fault where
  | upload
  | register

inductive ExitStatus where
  | returned (code : ℕ)
  | raised

section Scripts

variable {B : Type}

/-- The end of both scripts: the upload, and the registration of the uploaded object. -/
def Environment.publish (env : Environment B) (fault : Option Fault) (key : Str) (artifact : B)
    (package : Str → ModelPackage) : Environment B × ExitStatus :=
  match fault with
  | some .upload => (env, .raised)
  | some .register => (env.upload key artifact, .raised)
  | none => ((env.upload key artifact).register (package (s3Uri env.bucket key)) artifact, .returned 0)

def buildInferenceArtifactKey (runId : Str) : Str :=
  "inference-artifacts/".toList ++ (runId ++ "/model.tar.gz".toList)

def buildInferenceCustomerMetadata (runMetadata metrics : CustomerMetadata) (sourceModelDataUrl : Str) :
    CustomerMetadata :=
  (CustomerMetadata.update [("artifact_type".toList, "inference".toList),
    ("source_model_data_url".toList, sourceModelDataUrl)] runMetadata).update metrics

/-- A run of `deploy.main` -/
structure DeployRun (B : Type) where
  dryRun : Bool
  sourceModelDataUrl : Str
  approvalStatus : ModelApprovalStatus
  imageUri : Str
  modelCard : Option Str  -- `none` if the source artifact cannot be downloaded or has no model card
  repackaged : Option B  -- `none` if `repackage_model_artifact` raises
  fault : Option Fault

def deployMain (env : Environment B) (r : DeployRun B) : Environment B × ExitStatus :=
  if r.dryRun then (env, .returned 0)
  else
    match r.modelCard with
    | none => (env, .raised)
    | some modelCardText =>
      let metrics := parseModelCardMetrics modelCardText
      let runMetadata := parseModelCardRunMetadata modelCardText
      let runId := CustomerMetadata.runId runMetadata
      match r.repackaged with
      | none => (env, .raised)
      | some artifact =>
        env.publish r.fault (buildInferenceArtifactKey runId) artifact fun modelDataUrl =>
          ⟨r.approvalStatus, r.imageUri, modelDataUrl,
            buildInferenceCustomerMetadata runMetadata metrics r.sourceModelDataUrl⟩

def buildPromotedArtifactKey (runId : Str) : Str :=
  "promoted-artifacts/".toList ++ (runId ++ "/model.tar.gz".toList)

def buildTargetCustomerMetadata (sourceCustomerMetadata : CustomerMetadata)
    (sourceEnvironment sourceModelPackageArn : Str) : CustomerMetadata :=
  (sourceCustomerMetadata.setItem "promoted_from_environment".toList sourceEnvironment).setItem
    "promoted_from_model_package_arn".toList sourceModelPackageArn

/-- The answer of `DescribeModelPackage` -/
structure Description where
  modelApprovalStatus : Option ModelApprovalStatus
  modelPackageArn : Str
  image : Str
  customerMetadata : CustomerMetadata

/-- A run of `promote_model.main` -/
structure PromoteRun (B : Type) where
  sourceEnvironment : Str
  description : Option Description  -- `none` if the call fails
  downloaded : Option B  -- the object to which the source package points
  fault : Option Fault

def promoteMain (env : Environment B) (r : PromoteRun B) : Environment B × ExitStatus :=
  match r.description with
  | none => (env, .raised)
  | some description =>
    -- `ensure_approved`
    if description.modelApprovalStatus ≠ some .approved then (env, .returned 1)
    else
      let runId := description.customerMetadata.runId
      match r.downloaded with
      | none => (env, .raised)
      | some artifact =>
        env.publish r.fault (buildPromotedArtifactKey runId) artifact fun modelDataUrl =>
          ⟨.approved, description.image, modelDataUrl,
            buildTargetCustomerMetadata description.customerMetadata r.sourceEnvironment
              description.modelPackageArn⟩

inductive ScriptRun (B : Type) where
  | deploy (r : DeployRun B)
  | promote (r : PromoteRun B)

def ScriptRun.main (env : Environment B) : ScriptRun B → Environment B × ExitStatus
  | .deploy r => deployMain env r
  | .promote r => promoteMain env r

/-- An environment takes any script run. -/
def Environment.step (env : Environment B) (r : ScriptRun B) : Option (Environment B) := some (r.main env).1

/-- The upload of a script that gets as far as `publish` -/
def sent : Option Fault → Str → B → Option (Str × B)
  | some .upload, _, _ => none
  | _, key, artifact => some (key, artifact)

def DeployRun.uploads (r : DeployRun B) : Option (Str × B) :=
  if r.dryRun then none
  else
    r.modelCard.bind fun text => r.repackaged.bind fun artifact =>
      sent r.fault (buildInferenceArtifactKey (CustomerMetadata.runId (parseModelCardRunMetadata text)))
        artifact

def PromoteRun.uploads (r : PromoteRun B) : Option (Str × B) :=
  r.description.bind fun description =>
    if description.modelApprovalStatus ≠ some .approved then none
    else
      r.downloaded.bind fun artifact =>
        sent r.fault (buildPromotedArtifactKey description.customerMetadata.runId) artifact

/-- What a script run uploads, and the key -/
def ScriptRun.uploads : ScriptRun B → Option (Str × B)
  | .deploy r => r.uploads
  | .promote r => r.uploads

/-- An upload to the key of a registered package carries the artifact that was uploaded for the package. -/
def KeepsRegistered (env : Environment B) (r : ScriptRun B) : Prop :=
  ∀ key artifact, r.uploads = some (key, artifact) →
    ∀ g ∈ env.registrations, g.package.modelDataUrl = s3Uri env.bucket key → g.uploaded = artifact

/-! ### Keys -/

theorem parseS3Uri_s3Uri (bucket : Bucket) {key : Str} (hkey : key ≠ []) :
    parseS3Uri (s3Uri bucket key) = some (bucket.name, key) := by
  have hstart : (s3Uri bucket key).startsWith "s3://".toList = true :=
    List.isPrefixOf_iff_prefix.2 (List.prefix_append ..)
  have hdrop : (s3Uri bucket key).drop "s3://".toList.length = bucket.name ++ '/' :: key := List.drop_left
  have hname : ∀ c ∈ bucket.name, decide (c ≠ '/') = true := fun c hc => decide_eq_true (bucket.no_slash c hc)
  have htake : (bucket.name ++ '/' :: key).takeWhile (fun c => decide (c ≠ '/')) = bucket.name := by
    rw [List.takeWhile_append_of_pos hname, List.takeWhile_cons_of_neg (by simp), List.append_nil]
  have hrest : (bucket.name ++ '/' :: key).dropWhile (fun c => decide (c ≠ '/')) = '/' :: key := by
    rw [List.dropWhile_append_of_pos hname, List.dropWhile_cons_of_neg (by simp)]
  simp only [parseS3Uri, hstart, if_true, hdrop, hrest, htake, List.drop_succ_cons, List.drop_zero]
  rw [if_neg (by simpa using hkey)]

/-- Two uploads go to one key exactly if one script makes both, for one run id. -/
theorem artifactKeys_distinct (runId runId' : Str) :
    (buildInferenceArtifactKey runId = buildInferenceArtifactKey runId' ↔ runId = runId') ∧
      (buildPromotedArtifactKey runId = buildPromotedArtifactKey runId' ↔ runId = runId') ∧
      buildInferenceArtifactKey runId ≠ buildPromotedArtifactKey runId' := by
  have hcancel : ∀ {a b : Str} {r r' : Str}, a ++ (r ++ b) = a ++ (r' ++ b) → r = r' := fun h =>
    List.append_cancel_right (List.append_cancel_left h)
  refine ⟨⟨hcancel, congrArg _⟩, ⟨hcancel, congrArg _⟩, fun h => ?_⟩
  -- the prefixes differ in their first character
  exact absurd (List.cons.inj h).1 (by decide)

/-! ### Steps -/

/-- What a script run that uploads `up` can do to its environment. -/
def Effect (env : Environment B) (up : Option (Str × B)) (env' : Environment B) : Prop :=
  (up = none ∧ env' = env) ∨
    ∃ key artifact, key ≠ [] ∧ up = some (key, artifact) ∧
      (env' = env.upload key artifact ∨
        ∃ package : ModelPackage, package.modelDataUrl = s3Uri env.bucket key ∧
          env' = (env.upload key artifact).register package artifact)

private theorem effect_publish (env : Environment B) (fault : Option Fault) {key : Str} (hkey : key ≠ [])
    (artifact : B) {package : Str → ModelPackage} (hurl : ∀ url, (package url).modelDataUrl = url) :
    Effect env (sent fault key artifact) (env.publish fault key artifact package).1 := by
  match fault with
  | some .upload => exact .inl ⟨rfl, rfl⟩
  | some .register => exact .inr ⟨key, artifact, hkey, rfl, .inl rfl⟩
  | none => exact .inr ⟨key, artifact, hkey, rfl, .inr ⟨_, hurl _, rfl⟩⟩

private theorem effect_deployMain (env : Environment B) (r : DeployRun B) :
    Effect env r.uploads (deployMain env r).1 := by
  rw [DeployRun.uploads, deployMain]
  by_cases hdry : r.dryRun = true
  · rw [if_pos hdry, if_pos hdry]
    exact .inl ⟨rfl, rfl⟩
  · rw [if_neg hdry, if_neg hdry]
    cases r.modelCard with
    | none => exact .inl ⟨rfl, rfl⟩
    | some text =>
      have hkey : ∀ runId, buildInferenceArtifactKey runId ≠ [] := fun _ => nofun
      cases r.repackaged with
      | none => exact .inl ⟨rfl, rfl⟩
      | some artifact =>
        rw [Option.bind_some, Option.bind_some]
        refine effect_publish env r.fault (hkey _) artifact ?_
        exact fun _ => rfl

private theorem effect_promoteMain (env : Environment B) (r : PromoteRun B) :
    Effect env r.uploads (promoteMain env r).1 := by
  rw [PromoteRun.uploads, promoteMain]
  cases r.description with
  | none => exact .inl ⟨rfl, rfl⟩
  | some description =>
    have hkey : ∀ runId, buildPromotedArtifactKey runId ≠ [] := fun _ => nofun
    rw [Option.bind_some]
    by_cases hstatus : description.modelApprovalStatus ≠ some .approved
    · simp only [if_pos hstatus]
      exact .inl ⟨rfl, rfl⟩
    · simp only [if_neg hstatus]
      cases r.downloaded with
      | none => exact .inl ⟨rfl, rfl⟩
      | some artifact =>
        rw [Option.bind_some]
        refine effect_publish env r.fault (hkey _) artifact ?_
        exact fun _ => rfl

theorem effect_of_step {env env' : Environment B} {r : ScriptRun B} (h : env.step r = some env') :
    Effect env r.uploads env' := by
  obtain rfl := Option.some.inj h
  cases r with
  | deploy r => exact effect_deployMain env r
  | promote r => exact effect_promoteMain env r

/-! ### Registered packages -/

/-- Every registered package points to an object of the bucket, which holds the artifact uploaded for it. -/
structure RegistryInv (env : Environment B) : Prop where
  located : ∀ g ∈ env.registrations, ∃ key, key ≠ [] ∧ g.package.modelDataUrl = s3Uri env.bucket key
  intact : env.Intact

theorem modelData_s3Uri (env : Environment B) {key : Str} (hkey : key ≠ []) :
    env.modelData (s3Uri env.bucket key) = env.objects key := by
  rw [Environment.modelData, parseS3Uri_s3Uri env.bucket hkey, Option.bind_some, if_pos rfl]

theorem modelData_upload (env : Environment B) {key key' : Str} (hkey' : key' ≠ []) (artifact : B) :
    (env.upload key artifact).modelData (s3Uri env.bucket key') =
      if key' = key then some artifact else env.objects key' := by
  have hread := modelData_s3Uri (env.upload key artifact) hkey'
  rw [show (env.upload key artifact).bucket = env.bucket from rfl] at hread
  rw [hread, Environment.upload]
  exact Function.update_apply ..

theorem registryInv_upload {env : Environment B} (hinv : RegistryInv env) {key : Str} {artifact : B}
    (hkeep : ∀ g ∈ env.registrations, g.package.modelDataUrl = s3Uri env.bucket key → g.uploaded = artifact) :
    RegistryInv (env.upload key artifact) := by
  refine ⟨hinv.located, fun g hg => ?_⟩
  obtain ⟨key', hkey', hurl⟩ := hinv.located g hg
  have hold := hinv.intact g hg
  rw [hurl, modelData_s3Uri env hkey'] at hold
  rw [hurl, modelData_upload env hkey']
  split
  · -- the object of `g` is replaced, by the same artifact
    rename_i heq
    rw [hkeep g hg (heq ▸ hurl)]
  · exact hold

theorem registryInv_of_step {env env' : Environment B} {r : ScriptRun B} (hinv : RegistryInv env)
    (hkeep : KeepsRegistered env r) (h : env.step r = some env') : RegistryInv env' := by
  obtain ⟨-, rfl⟩ | ⟨key, artifact, hkey, hup, rfl | ⟨package, hurl, rfl⟩⟩ := effect_of_step h
  · exact hinv
  · exact registryInv_upload hinv (hkeep key artifact hup)
  · have hup := registryInv_upload hinv (hkeep key artifact hup)
    have hnew : (env.upload key artifact).modelData package.modelDataUrl = some artifact := by
      rw [hurl, modelData_upload env hkey, if_pos rfl]
    refine ⟨fun g hg => ?_, fun g hg => ?_⟩
    · rcases List.mem_append.1 hg with hg | hg
      · exact hup.located g hg
      · obtain rfl := List.mem_singleton.1 hg
        exact ⟨key, hkey, hurl⟩
    · rcases List.mem_append.1 hg with hg | hg
      · exact hup.intact g hg
      · obtain rfl := List.mem_singleton.1 hg
        exact hnew

/-- An upload of other bytes to the key of a registered package is what its readers get. -/
theorem not_intact_of_step {env env' : Environment B} {r : ScriptRun B} (hkeep : ¬ KeepsRegistered env r)
    (h : env.step r = some env') : ¬ env'.Intact := by
  simp only [KeepsRegistered, not_forall] at hkeep
  obtain ⟨key, artifact, hup, g, hg, hurl, hne⟩ := hkeep
  have hread : ∀ key', key' ≠ [] → key' = key →
      (env.upload key artifact).modelData g.package.modelDataUrl = some artifact := by
    rintro key' hkey' rfl
    rw [hurl, modelData_upload env hkey', if_pos rfl]
  intro hintact
  obtain ⟨hnone, -⟩ | ⟨key', artifact', hkey', hup', henv⟩ := effect_of_step h
  · rw [hnone] at hup
    cases hup
  · obtain ⟨rfl, rfl⟩ : key' = key ∧ artifact' = artifact := by simpa [hup'] using hup
    have hobject := hread key' hkey' rfl
    have hsame : some artifact' = some g.uploaded := by
      rcases henv with rfl | ⟨package, -, rfl⟩
      · exact hobject.symm.trans (hintact g hg)
      · exact hobject.symm.trans (hintact g (List.mem_append_left _ hg))
    exact hne (Option.some.inj hsame).symm

private theorem exists_run (env : Environment B) (rs : List (ScriptRun B)) :
    ∃ env', run Environment.step env rs = some env' := by
  induction rs generalizing env with
  | nil => exact ⟨env, rfl⟩
  | cons r rs ih => exact ih (r.main env).1

/-- The registered packages are intact in every state of a history exactly if every upload of the history to
the key of a registered package carries the artifact that was uploaded for that package. -/
theorem registered_artifacts_intact_iff (bucket : Bucket) (objects : Str → Option B) (rs : List (ScriptRun B)) :
    (∀ pre post env, rs = pre ++ post → run Environment.step (.init bucket objects) pre = some env →
        env.Intact) ↔
      StepsMeet Environment.step KeepsRegistered (.init bucket objects) rs := by
  obtain ⟨env, hrun⟩ := exists_run (.init bucket objects) rs
  have hinit : RegistryInv (.init bucket objects) := ⟨nofun, nofun⟩
  refine always_iff_stepsMeet (fun _ hinv => hinv.intact) ?_ ?_ hinit hrun
  · exact fun _ _ _ hinv hkeep h => registryInv_of_step hinv hkeep h
  · exact fun _ _ _ _ hkeep h => not_intact_of_step hkeep h

end Scripts

/-- The promotion of a package that `deploy.main` has registered for the run `run-1`. -/
def promoteRun1 (version : String) (artifact : ℕ) : ScriptRun ℕ :=
  .promote ⟨"dev".toList, some ⟨some .approved, version.toList, [], [("run_id".toList, "run-1".toList)]⟩,
    some artifact, none⟩

/-- One run is repackaged again, and both its packages are promoted: the first one then points to the artifact
of the second. -/
theorem promoted_twice :
    ¬ ∀ (bucket : Bucket) (objects : Str → Option ℕ) (rs : List (ScriptRun ℕ)) pre post env, rs = pre ++ post →
      run Environment.step (.init bucket objects) pre = some env → env.Intact := by
  intro h
  have hintact := h ⟨"data".toList, by simp⟩ (fun _ => none) [promoteRun1 "14" 14, promoteRun1 "15" 15] _ [] _
    (List.append_nil _).symm rfl
  have hfirst := hintact _ (List.mem_cons_self ..)
  exact absurd hfirst (by decide)

end KaqTranslator
