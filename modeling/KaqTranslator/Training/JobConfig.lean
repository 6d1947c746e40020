import Mathlib.Data.List.Infix
import KaqTranslator.Training.Submission

/-!
# Where the data of a training job lie (`training/submit_job.py`)

SageMaker downloads the object of a channel into the container, and uploads the local checkpoints to their own
S3 prefix while the job runs.  The URIs of the channels and the container paths of the hyperparameters are
made by different functions: `job_config_paths` says that they agree if SageMaker keeps to the convention that
`submit_job.py` states (`KeepsBasenames`), and which prefixes have objects in common.
-/

namespace KaqTranslator

open ArgParse

def corpusPrefix : Str := "corpus/almg/v1".toList

def buildChannelUris (bucket : Str) (corpus_prefix_arg init_model_s3_uri : Option Str) : Dict Str Str :=
  let pre := (given corpus_prefix_arg).getD corpusPrefix
  let channels : Dict Str Str := Dict.ofItems
    [⟨"train".toList, "s3://".toList ++ bucket ++ '/' :: pre ++ "/train.tsv".toList⟩,
      ⟨"validation".toList, "s3://".toList ++ bucket ++ '/' :: pre ++ "/val.tsv".toList⟩]
  match given init_model_s3_uri with
  | some uri => channels.insert "init-model".toList uri
  | none => channels

def buildCheckpointS3Uri (bucket runId : Str) : Str :=
  "s3://".toList ++ (bucket ++ ("/model-checkpoints/".toList ++ (runId ++ ['/'])))

structure JobConfig where
  outputPath : Str
  checkpointS3Uri : Str
  hyperparameters : Hyperparameters
  baseJobName : Str
  channels : Dict Str Str

variable {F : Type} (floats : FloatText F)

/-- `build_job_config`; `none` if the hyperparameters have no run identifier. -/
def buildJobConfig (bucket : Str) (args : Namespace (ArgValue F)) (generatedRunId : Str) :
    Option JobConfig := do
  let hyperparameters := buildHyperparameters (submitArgs floats args) generatedRunId
  let runId ← hyperparameters.lookup "run-id".toList
  return {
    outputPath := "s3://".toList ++ (bucket ++ "/model-artifacts/".toList)
    checkpointS3Uri := buildCheckpointS3Uri bucket runId.str
    hyperparameters := hyperparameters
    baseJobName := "traductor-kaqchikel-".toList ++ runId.str
    channels := buildChannelUris bucket (textAt floats args "corpus_prefix")
      (textAt floats args "init_model_s3_uri") }

/-- The object of a channel is at `/opt/ml/input/data/<channel>/<s3-object-basename>` in the container. -/
def KeepsBasenames (channelPath : Str → Str → Str) : Prop :=
  ∀ channel uri, channelPath channel uri =
    "/opt/ml/input/data/".toList ++ channel ++ '/' :: uri.rtakeWhile (· ≠ '/')

/-- The run identifier that a submission gives to its job -/
def submittedRunId (args : Namespace (ArgValue F)) (generatedRunId : Str) : Str :=
  (given (textAt floats args "run_id")).getD generatedRunId

/-! ### Channels -/

private theorem rtakeWhile_append_slash (s : Str) {name : Str} (h : '/' ∉ name) :
    (s ++ '/' :: name).rtakeWhile (· ≠ '/') = name := by
  have hname : ∀ c ∈ name.reverse, decide (c ≠ '/') = true := fun c hc =>
    decide_eq_true fun heq => h (heq ▸ List.mem_reverse.1 hc)
  rw [List.rtakeWhile, List.reverse_append, List.reverse_cons, List.append_assoc,
    List.takeWhile_append_of_pos hname, List.singleton_append, List.takeWhile_cons_of_neg (by simp),
    List.append_nil, List.reverse_reverse]

theorem KeepsBasenames.corpus {channelPath : Str → Str → Str} (h : KeepsBasenames channelPath)
    (bucket pre : Str) :
    channelPath "train".toList ("s3://".toList ++ bucket ++ '/' :: pre ++ "/train.tsv".toList) =
        trainContainerPath ∧
      channelPath "validation".toList ("s3://".toList ++ bucket ++ '/' :: pre ++ "/val.tsv".toList) =
        validationContainerPath := by
  rw [h, h]
  have htrain := rtakeWhile_append_slash ("s3://".toList ++ bucket ++ '/' :: pre)
    (by decide : '/' ∉ "train.tsv".toList)
  have hvalidation := rtakeWhile_append_slash ("s3://".toList ++ bucket ++ '/' :: pre)
    (by decide : '/' ∉ "val.tsv".toList)
  exact ⟨congrArg ("/opt/ml/input/data/train/".toList ++ ·) htrain,
    congrArg ("/opt/ml/input/data/validation/".toList ++ ·) hvalidation⟩

/-- The channels of a job, and the hyperparameters that point to them -/
structure ChannelsLand (channelPath : Str → Str → Str) (c : JobConfig) : Prop where
  path : ∀ name uri, c.channels.lookup name = some uri →
    c.hyperparameters.lookup name = some (.text (channelPath name uri))
  channel : ∀ name ∈ ["train", "validation", "init-model"].map String.toList, ∀ value,
    c.hyperparameters.lookup name = some value → ∃ uri, c.channels.lookup name = some uri

theorem lookup_buildChannelUris (bucket : Str) (corpus_prefix_arg init_model_s3_uri : Option Str)
    (name : Str) : (buildChannelUris bucket corpus_prefix_arg init_model_s3_uri).lookup name =
      if name = "init-model".toList then given init_model_s3_uri
      else if name = "validation".toList then
        some ("s3://".toList ++ bucket ++ '/' :: (given corpus_prefix_arg).getD corpusPrefix ++
          "/val.tsv".toList)
      else if name = "train".toList then
        some ("s3://".toList ++ bucket ++ '/' :: (given corpus_prefix_arg).getD corpusPrefix ++
          "/train.tsv".toList)
      else none := by
  unfold buildChannelUris Dict.ofItems
  dsimp only
  cases given init_model_s3_uri with
  | none =>
    simp only [Dict.update_cons, Dict.update_nil, Dict.lookup_insert_eq, AList.lookup_empty]
    by_cases hname : name = "init-model".toList
    · rw [if_pos hname, if_neg (by rw [hname]; decide), if_neg (by rw [hname]; decide)]
    · rw [if_neg hname]
  | some uri => simp only [Dict.update_cons, Dict.update_nil, Dict.lookup_insert_eq, AList.lookup_empty]

theorem lookup_of_mem_lead {args : SubmitArgs} {generatedRunId : Str} {q : Σ _ : Str, HyperValue}
    (hq : q ∈ leadItems args generatedRunId) :
    (buildHyperparameters args generatedRunId).lookup q.1 = some q.2 := by
  refine lookup_of_mem args generatedRunId ?_
  simp only [submittedItems, List.append_assoc]
  exact List.mem_append_left _ hq

/-- The configuration of a job, which every submission has -/
theorem exists_buildJobConfig {channelPath : Str → Str → Str} (hpath : KeepsBasenames channelPath)
    (bucket : Str) (args : Namespace (ArgValue F)) (generatedRunId : Str) :
    ∃ c, buildJobConfig floats bucket args generatedRunId = some c ∧ ChannelsLand channelPath c ∧
      c.outputPath = "s3://".toList ++ (bucket ++ "/model-artifacts/".toList) ∧
      c.checkpointS3Uri = buildCheckpointS3Uri bucket (submittedRunId floats args generatedRunId) := by
  have hlead : ∀ q ∈ leadItems (submitArgs floats args) generatedRunId,
      (buildHyperparameters (submitArgs floats args) generatedRunId).lookup q.1 = some q.2 :=
    fun q hq => lookup_of_mem_lead hq
  simp only [leadItems, List.forall_mem_cons] at hlead
  obtain ⟨htrain, hvalidation, -, -, -, hrunId, -⟩ := hlead
  have hinitModel := lookup_initModel (submitArgs floats args) generatedRunId
  have hbuild : buildJobConfig floats bucket args generatedRunId = some
      { outputPath := "s3://".toList ++ (bucket ++ "/model-artifacts/".toList)
        checkpointS3Uri := buildCheckpointS3Uri bucket (submittedRunId floats args generatedRunId)
        hyperparameters := buildHyperparameters (submitArgs floats args) generatedRunId
        baseJobName := "traductor-kaqchikel-".toList ++ submittedRunId floats args generatedRunId
        channels := buildChannelUris bucket (textAt floats args "corpus_prefix")
          (textAt floats args "init_model_s3_uri") } := by
    unfold buildJobConfig
    dsimp only
    rw [hrunId]
    rfl
  refine ⟨_, hbuild, ⟨fun name uri huri => ?_, fun name hname value hvalue => ?_⟩, rfl, rfl⟩
  · dsimp only at huri ⊢
    obtain ⟨htrainPath, hvalidationPath⟩ :=
      hpath.corpus bucket ((given (textAt floats args "corpus_prefix")).getD corpusPrefix)
    rw [lookup_buildChannelUris] at huri
    split at huri
    · rename_i hname
      rw [hname, hinitModel, hpath]
      exact congrArg (Option.map _) huri
    · split at huri
      · rename_i hname
        obtain rfl := Option.some.inj huri
        rw [hname, hvalidationPath]
        exact hvalidation
      · split at huri
        · rename_i hname
          obtain rfl := Option.some.inj huri
          rw [hname, htrainPath]
          exact htrain
        · cases huri
  · dsimp only at hvalue ⊢
    simp only [lookup_buildChannelUris]
    simp only [List.map_cons, List.map_nil, List.mem_cons, List.not_mem_nil, or_false] at hname
    rcases hname with rfl | rfl | rfl
    · exact ⟨_, rfl⟩
    · exact ⟨_, rfl⟩
    · rw [hinitModel] at hvalue
      obtain ⟨uri, huri, -⟩ := Option.map_eq_some_iff.1 hvalue
      exact ⟨uri, huri⟩

/-! ### Prefixes -/

/-- An object lies under both prefixes. -/
def Overlap (u v : Str) : Prop := ∃ object : Str, u <+: object ∧ v <+: object

theorem overlap_iff {u v : Str} : Overlap u v ↔ u <+: v ∨ v <+: u := by
  constructor
  · rintro ⟨object, hu, hv⟩
    exact List.prefix_or_prefix_of_prefix hu hv
  · rintro (h | h)
    · exact ⟨v, h, List.prefix_rfl⟩
    · exact ⟨u, List.prefix_rfl, h⟩

/-- Prefixes that continue one prefix -/
theorem overlap_append_iff (s : Str) {u v : Str} : Overlap (s ++ u) (s ++ v) ↔ Overlap u v := by
  rw [overlap_iff, overlap_iff, List.prefix_append_right_inj, List.prefix_append_right_inj]

/-- Run identifiers without a slash -/
theorem overlap_slash {r r' : Str} (hr : '/' ∉ r) (hr' : '/' ∉ r') :
    Overlap (r ++ ['/']) (r' ++ ['/']) ↔ r = r' := by
  have hbegins : ∀ {r r' : Str}, '/' ∉ r' → r ++ ['/'] <+: r' ++ ['/'] → r = r' := by
    rintro r r' hr' ⟨t, ht⟩
    cases List.eq_nil_or_concat t with
    | inl hnil =>
      rw [hnil, List.append_nil] at ht
      exact List.append_cancel_right ht
    | inr hconcat =>
      obtain ⟨t', c, rfl⟩ := hconcat
      rw [List.concat_eq_append, ← List.append_assoc] at ht
      have hmem : '/' ∈ r' := by
        rw [← (List.append_inj' ht rfl).1]
        simp
      exact absurd hmem hr'
  rw [overlap_iff]
  constructor
  · rintro (h | h)
    · exact hbegins hr' h
    · exact (hbegins hr h).symm
  · rintro rfl
    exact .inl List.prefix_rfl

/-- The hyperparameters point to where the channels are downloaded.  The artifacts and the checkpoints of a
bucket lie apart, and so do the checkpoints of two jobs unless one run identifier continues the other after a
slash. -/
theorem job_config_paths {channelPath : Str → Str → Str} (hpath : KeepsBasenames channelPath) (bucket : Str)
    (args args' : Namespace (ArgValue F)) (generatedRunId generatedRunId' : Str) :
    ∃ c c', buildJobConfig floats bucket args generatedRunId = some c ∧
      buildJobConfig floats bucket args' generatedRunId' = some c' ∧ ChannelsLand channelPath c ∧
      ¬ Overlap c.outputPath c'.checkpointS3Uri ∧
      (Overlap c.checkpointS3Uri c'.checkpointS3Uri ↔
        Overlap (submittedRunId floats args generatedRunId ++ ['/'])
          (submittedRunId floats args' generatedRunId' ++ ['/'])) ∧
      ('/' ∉ submittedRunId floats args generatedRunId → '/' ∉ submittedRunId floats args' generatedRunId' →
        (Overlap c.checkpointS3Uri c'.checkpointS3Uri ↔
          submittedRunId floats args generatedRunId = submittedRunId floats args' generatedRunId')) := by
  obtain ⟨c, hc, hland, houtput, hcheckpoint⟩ := exists_buildJobConfig floats hpath bucket args generatedRunId
  obtain ⟨c', hc', -, -, hcheckpoint'⟩ := exists_buildJobConfig floats hpath bucket args' generatedRunId'
  have hoverlap : Overlap c.checkpointS3Uri c'.checkpointS3Uri ↔
      Overlap (submittedRunId floats args generatedRunId ++ ['/'])
        (submittedRunId floats args' generatedRunId' ++ ['/']) := by
    rw [hcheckpoint, hcheckpoint']
    exact ((overlap_append_iff _).trans (overlap_append_iff bucket)).trans (overlap_append_iff _)
  refine ⟨c, c', hc, hc', hland, ?_, hoverlap, fun hr hr' => hoverlap.trans (overlap_slash hr hr')⟩
  rw [houtput, hcheckpoint']
  refine fun h => ?_
  have hnames := (overlap_append_iff bucket).1 ((overlap_append_iff _).1 h)
  -- the two names differ in a letter
  rcases overlap_iff.1 hnames with h | h <;> simp [List.cons_prefix_cons] at h

/-- A continuation, and a submission without arguments -/
theorem job_config_paths_continuation :
    ∃ c c', buildJobConfig decimalText "data".toList continuationArgs "run-2".toList = some c ∧
      buildJobConfig decimalText "data".toList (fun _ => none) "run-1".toList = some c' ∧
      ChannelsLand (fun channel uri =>
        "/opt/ml/input/data/".toList ++ channel ++ '/' :: uri.rtakeWhile (· ≠ '/')) c ∧
      ¬ Overlap c.outputPath c'.checkpointS3Uri ∧ ¬ Overlap c.checkpointS3Uri c'.checkpointS3Uri := by
  obtain ⟨c, c', hc, hc', hland, houtput, -, hcheckpoints⟩ :=
    job_config_paths decimalText (fun _ _ => rfl) "data".toList continuationArgs (fun _ => none)
      "run-2".toList "run-1".toList
  have hrunId : submittedRunId decimalText continuationArgs "run-2".toList = "run-2".toList := by
    decide +kernel
  have hrunId' : submittedRunId decimalText (fun _ => none) "run-1".toList = "run-1".toList := rfl
  rw [hrunId, hrunId'] at hcheckpoints
  refine ⟨c, c', hc, hc', hland, houtput, fun h => ?_⟩
  exact absurd ((hcheckpoints (by decide) (by decide)).1 h) (by decide)

end KaqTranslator
