import Mathlib.Data.List.DropRight
import KaqTranslator.Evaluation.ModelCard
import KaqTranslator.Library.Dict

/-!
# The two registration paths (`training/submit_job.py`, `training/model_registry.py`)

`main` submits a training job with the hyperparameters that `build_hyperparameters` makes, waits for it and
registers its artifact; the metadata are picked from the submitted hyperparameters key by key.
`register_existing_job` registers the artifact of a job that has been submitted before, and rebuilds the
metadata from what `describe_training_job` returns, where every value is a string: what is not on a list of
exclusions is recorded.  `registration_paths_agree` says that both record the same.
-/

namespace KaqTranslator

/-! ### Submission -/

/-- The arguments of `submit_job.py` that become hyperparameters -/
structure SubmitArgs where
  corpusVersion : Str
  baseModel : Str
  direction : Str
  runId : Option Str
  initModelS3Uri : Option Str
  epochs : HyperValue
  batchSize : HyperValue
  learningRate : HyperValue
  maxLength : HyperValue
  seed : HyperValue
  warmupRatio : HyperValue
  weightDecay : HyperValue
  labelSmoothing : HyperValue
  gradientAccumulationSteps : HyperValue
  subwordVocabSize : HyperValue
  embeddingInitStrategy : Str
  dropout : Option HyperValue
  bpeDropoutAlpha : Option HyperValue

def trainContainerPath : Str := "/opt/ml/input/data/train/train.tsv".toList

def validationContainerPath : Str := "/opt/ml/input/data/validation/val.tsv".toList

def initModelContainerPath (initModelS3Uri : Str) : Str :=
  "/opt/ml/input/data/init-model/".toList ++ initModelS3Uri.rtakeWhile (· ≠ '/')

/-- The value of an argument that is given and not empty -/
def given (arg : Option Str) : Option Str := arg.filter fun s => !s.isEmpty

abbrev Hyperparameters := Dict Str HyperValue

def buildHyperparameters (args : SubmitArgs) (generatedRunId : Str) : Hyperparameters :=
  let runId := (given args.runId).getD generatedRunId
  let hyperparameters : Hyperparameters := Dict.ofItems
    [⟨"train".toList, .text trainContainerPath⟩, ⟨"validation".toList, .text validationContainerPath⟩,
      ⟨"corpus-version".toList, .text args.corpusVersion⟩, ⟨"base-model".toList, .text args.baseModel⟩,
      ⟨"direction".toList, .text args.direction⟩, ⟨"run-id".toList, .text runId⟩,
      ⟨"epochs".toList, args.epochs⟩, ⟨"batch-size".toList, args.batchSize⟩,
      ⟨"learning-rate".toList, args.learningRate⟩, ⟨"max-length".toList, args.maxLength⟩,
      ⟨"seed".toList, args.seed⟩, ⟨"warmup-ratio".toList, args.warmupRatio⟩,
      ⟨"weight-decay".toList, args.weightDecay⟩, ⟨"label-smoothing".toList, args.labelSmoothing⟩,
      ⟨"gradient-accumulation-steps".toList, args.gradientAccumulationSteps⟩,
      ⟨"subword-vocab-size".toList, args.subwordVocabSize⟩,
      ⟨"embedding-init-strategy".toList, .text args.embeddingInitStrategy⟩]
  let hyperparameters := match given args.initModelS3Uri with
    | some uri => hyperparameters.insert "init-model".toList (.text (initModelContainerPath uri))
    | none => hyperparameters
  let hyperparameters := match args.dropout with
    | some dropout => hyperparameters.insert "dropout".toList dropout
    | none => hyperparameters
  match args.bpeDropoutAlpha with
  | some alpha => hyperparameters.insert "bpe-dropout-alpha".toList alpha
  | none => hyperparameters

/-! ### Registration -/

structure RunMetadata where
  corpusVersion : HyperValue
  direction : HyperValue
  runId : HyperValue
  hyperparameters : Hyperparameters

def buildCustomerMetadata (runMetadata : RunMetadata) (metrics : List (Str × Str)) : Dict Str Str :=
  let metadata : Dict Str Str := Dict.ofItems
    [⟨"corpus_version".toList, runMetadata.corpusVersion.str⟩,
      ⟨"direction".toList, runMetadata.direction.str⟩, ⟨"run_id".toList, runMetadata.runId.str⟩]
  (metadata.update
    (runMetadata.hyperparameters.entries.map fun p => ⟨"hp_".toList ++ p.1, p.2.str⟩)).update
      (metrics.map fun p => ⟨p.1, p.2⟩)

/-- The `CustomerMetadataProperties` of the package that `register_model_package` creates -/
def customerMetadataProperties (runMetadata : RunMetadata) (modelCardText : Str) : Dict Str Str :=
  buildCustomerMetadata runMetadata (parseModelCardMetrics modelCardText)

/-- The hyperparameters that `main` records: the key of the record, and that of the submission. -/
def recordedHyperparameters : List (Str × Str) :=
  [("epochs", "epochs"), ("batch_size", "batch-size"), ("learning_rate", "learning-rate"),
    ("max_length", "max-length"), ("seed", "seed"), ("warmup_ratio", "warmup-ratio"),
    ("weight_decay", "weight-decay"), ("label_smoothing", "label-smoothing"),
    ("gradient_accumulation_steps", "gradient-accumulation-steps"),
    ("subword_vocab_size", "subword-vocab-size"),
    ("embedding_init_strategy", "embedding-init-strategy")].map fun p => (p.1.toList, p.2.toList)

/-- `submitted_hyperparameters[key] = config["hyperparameters"][configKey]`, if it was submitted -/
def recordIfSubmitted (hyperparameters submitted : Hyperparameters) (key configKey : Str) : Hyperparameters :=
  match hyperparameters.lookup configKey with
  | some value => submitted.insert key value
  | none => submitted

/-- The run metadata of `main`; `none` if a key is missing. -/
def submittedRunMetadata (hyperparameters : Hyperparameters) : Option RunMetadata := do
  let items ← recordedHyperparameters.mapM fun p =>
    (hyperparameters.lookup p.2).map fun value => (⟨p.1, value⟩ : Σ _ : Str, HyperValue)
  let submitted := Dict.ofItems items
  let submitted := recordIfSubmitted hyperparameters submitted "dropout".toList "dropout".toList
  let submitted := recordIfSubmitted hyperparameters submitted "bpe_dropout_alpha".toList
    "bpe-dropout-alpha".toList
  return {
    corpusVersion := ← hyperparameters.lookup "corpus-version".toList
    direction := ← hyperparameters.lookup "direction".toList
    runId := ← hyperparameters.lookup "run-id".toList
    hyperparameters := submitted }

/-- The hyperparameters of a job that are not recorded. -/
def excluded : List Str :=
  ["train", "validation", "corpus-version", "direction", "run-id", "output-path", "training-image", "region",
    "register-model", "model-package-group-name", "approval-status", "init-model",
    "base-model"].map String.toList

/-- `key.replace("-", "_")` -/
def metadataKey (key : Str) : Str := key.map fun c => if c = '-' then '_' else c

def reconstructRunMetadataFromJobHyperparameters (hyperparameters : Dict Str Str) : RunMetadata where
  corpusVersion := .text ((hyperparameters.lookup "corpus-version".toList).getD "unknown".toList)
  direction := .text ((hyperparameters.lookup "direction".toList).getD "unknown".toList)
  runId := .text ((hyperparameters.lookup "run-id".toList).getD "unknown".toList)
  hyperparameters := Dict.ofItems
    ((hyperparameters.entries.filter fun p => p.1 ∉ excluded).map fun p => ⟨metadataKey p.1, .text p.2⟩)

/-! ### What is submitted and what is recorded -/

section Items

variable (args : SubmitArgs) (generatedRunId : Str)

/-- What is always recorded -/
def coreItems : List (Σ _ : Str, HyperValue) :=
  [⟨"epochs".toList, args.epochs⟩, ⟨"batch-size".toList, args.batchSize⟩,
    ⟨"learning-rate".toList, args.learningRate⟩, ⟨"max-length".toList, args.maxLength⟩,
    ⟨"seed".toList, args.seed⟩, ⟨"warmup-ratio".toList, args.warmupRatio⟩,
    ⟨"weight-decay".toList, args.weightDecay⟩, ⟨"label-smoothing".toList, args.labelSmoothing⟩,
    ⟨"gradient-accumulation-steps".toList, args.gradientAccumulationSteps⟩,
    ⟨"subword-vocab-size".toList, args.subwordVocabSize⟩,
    ⟨"embedding-init-strategy".toList, .text args.embeddingInitStrategy⟩]

def optionItem (key : Str) (value : Option HyperValue) : List (Σ _ : Str, HyperValue) :=
  value.toList.map fun v => ⟨key, v⟩

def leadItems : List (Σ _ : Str, HyperValue) :=
  [⟨"train".toList, .text trainContainerPath⟩, ⟨"validation".toList, .text validationContainerPath⟩,
    ⟨"corpus-version".toList, .text args.corpusVersion⟩, ⟨"base-model".toList, .text args.baseModel⟩,
    ⟨"direction".toList, .text args.direction⟩,
    ⟨"run-id".toList, .text ((given args.runId).getD generatedRunId)⟩]

def submittedItems : List (Σ _ : Str, HyperValue) :=
  leadItems args generatedRunId ++ coreItems args ++
    optionItem "init-model".toList
      ((given args.initModelS3Uri).map fun uri => .text (initModelContainerPath uri)) ++
    optionItem "dropout".toList args.dropout ++ optionItem "bpe-dropout-alpha".toList args.bpeDropoutAlpha

private def recordedItems : List (Σ _ : Str, HyperValue) :=
  (coreItems args).map (fun q => ⟨metadataKey q.1, q.2⟩) ++ optionItem "dropout".toList args.dropout ++
    optionItem "bpe_dropout_alpha".toList args.bpeDropoutAlpha

theorem buildHyperparameters_eq :
    buildHyperparameters args generatedRunId = Dict.ofItems (submittedItems args generatedRunId) := by
  unfold buildHyperparameters submittedItems
  cases given args.initModelS3Uri <;> cases args.dropout <;> cases args.bpeDropoutAlpha <;>
    simp only [Dict.insert_ofItems] <;> rfl

theorem keys_append (l m : List (Σ _ : Str, HyperValue)) : (l ++ m).keys = l.keys ++ m.keys :=
  List.map_append

theorem keys_optionItem (key : Str) (value : Option HyperValue) :
    (optionItem key value).keys.Sublist [key] := by
  cases value with
  | none => exact List.nil_sublist _
  | some v => exact List.Sublist.refl _

/-- The keys of the items that are always submitted, and those of them that are recorded -/
def leadKeys : List Str :=
  ["train", "validation", "corpus-version", "base-model", "direction", "run-id"].map String.toList

def coreKeys : List Str :=
  ["epochs", "batch-size", "learning-rate", "max-length", "seed", "warmup-ratio", "weight-decay",
    "label-smoothing", "gradient-accumulation-steps", "subword-vocab-size",
    "embedding-init-strategy"].map String.toList

theorem keys_lead : (leadItems args generatedRunId).keys = leadKeys := rfl

theorem keys_core : (coreItems args).keys = coreKeys := rfl

private theorem recordedHyperparameters_eq :
    recordedHyperparameters = coreKeys.map fun key => (metadataKey key, key) := by decide +kernel

/-- The keys that can be submitted -/
def submittedKeys : List Str :=
  leadKeys ++ coreKeys ++ ["init-model".toList] ++ ["dropout".toList] ++ ["bpe-dropout-alpha".toList]

theorem keys_submittedItems : (submittedItems args generatedRunId).keys.Sublist submittedKeys := by
  unfold submittedItems submittedKeys
  rw [keys_append, keys_append, keys_append, keys_append, keys_lead, keys_core]
  exact (((List.Sublist.refl _).append (keys_optionItem ..)).append (keys_optionItem ..)).append
    (keys_optionItem ..)

theorem nodupKeys_submittedItems : (submittedItems args generatedRunId).NodupKeys := by
  have hnodup : submittedKeys.Nodup := by decide +kernel
  exact hnodup.sublist (keys_submittedItems args generatedRunId)

private theorem keys_map_core :
    ((coreItems args).map fun q => (⟨metadataKey q.1, q.2⟩ : Σ _ : Str, HyperValue)).keys =
      coreKeys.map metadataKey :=
  (Dict.keys_map metadataKey id _).trans (congrArg _ (keys_core args))

private theorem nodupKeys_recordedItems : (recordedItems args).NodupKeys := by
  have hkeys : (recordedItems args).keys.Sublist
      (coreKeys.map metadataKey ++ ["dropout".toList] ++ ["bpe_dropout_alpha".toList]) := by
    unfold recordedItems
    rw [keys_append, keys_append, keys_map_core]
    exact ((List.Sublist.refl _).append (keys_optionItem ..)).append (keys_optionItem ..)
  have hnodup : (coreKeys.map metadataKey ++ ["dropout".toList] ++ ["bpe_dropout_alpha".toList]).Nodup := by
    decide +kernel
  exact hnodup.sublist hkeys

/-- What is not excluded of the submitted hyperparameters, under the keys of the record. -/
private theorem filter_submittedItems :
    ((submittedItems args generatedRunId).filter fun p => p.1 ∉ excluded).map
      (fun p => (⟨metadataKey p.1, p.2⟩ : Σ _ : Str, HyperValue)) = recordedItems args := by
  unfold submittedItems recordedItems
  cases given args.initModelS3Uri <;> cases args.dropout <;> cases args.bpeDropoutAlpha <;> rfl

theorem lookup_buildHyperparameters (key : Str) :
    (buildHyperparameters args generatedRunId).lookup key =
      (submittedItems args generatedRunId).dlookup key := by
  rw [buildHyperparameters_eq]
  exact Dict.lookup_ofItems (nodupKeys_submittedItems args generatedRunId) key

theorem lookup_of_mem {p : Σ _ : Str, HyperValue} (h : p ∈ submittedItems args generatedRunId) :
    (buildHyperparameters args generatedRunId).lookup p.1 = some p.2 := by
  rw [lookup_buildHyperparameters]
  exact List.mem_dlookup (nodupKeys_submittedItems args generatedRunId) h

private theorem mapM_lookup {d : Hyperparameters} {items : List (Σ _ : Str, HyperValue)}
    (h : ∀ q ∈ items, d.lookup q.1 = some q.2) (key : Str → Str) :
    ((items.map fun q => (key q.1, q.1)).mapM fun p =>
      (d.lookup p.2).map fun value => (⟨p.1, value⟩ : Σ _ : Str, HyperValue)) =
      some (items.map fun q => ⟨key q.1, q.2⟩) := by
  induction items with
  | nil => rfl
  | cons q items ih =>
    have hq : d.lookup q.1 = some q.2 := h q (List.mem_cons_self ..)
    have hitems := ih fun q' hq' => h q' (List.mem_cons_of_mem _ hq')
    simp only [List.map_cons, List.mapM_cons, hq, hitems, Option.map_some]
    rfl

theorem lookup_optionItem {key : Str} {value : Option HyperValue}
    (hmem : ∀ v, value = some v → ⟨key, v⟩ ∈ submittedItems args generatedRunId)
    (hnone : value = none → key ∉ (submittedItems args generatedRunId).keys) :
    (buildHyperparameters args generatedRunId).lookup key = value := by
  cases value with
  | none =>
    rw [lookup_buildHyperparameters]
    exact List.dlookup_eq_none.2 (hnone rfl)
  | some v => exact lookup_of_mem args generatedRunId (hmem v rfl)

theorem lookup_initModel :
    (buildHyperparameters args generatedRunId).lookup "init-model".toList =
      (given args.initModelS3Uri).map fun uri => .text (initModelContainerPath uri) := by
  refine lookup_optionItem args generatedRunId (fun v hv => ?_) (fun hnone hmem => ?_)
  · simp [submittedItems, optionItem, hv]
  · have hothers : "init-model".toList ∉ leadKeys ++ coreKeys ++ [] ++ ["dropout".toList] ++
        ["bpe-dropout-alpha".toList] := by decide +kernel
    unfold submittedItems at hmem
    rw [keys_append, keys_append, keys_append, keys_append, keys_lead, keys_core, hnone] at hmem
    exact hothers ((((List.Sublist.refl _).append (List.Sublist.refl [])).append (keys_optionItem ..)).append
      (keys_optionItem ..) |>.subset hmem)

theorem lookup_dropout :
    (buildHyperparameters args generatedRunId).lookup "dropout".toList = args.dropout := by
  refine lookup_optionItem args generatedRunId (fun v hv => ?_) (fun hnone hmem => ?_)
  · simp [submittedItems, optionItem, hv]
  · have hothers : "dropout".toList ∉ leadKeys ++ coreKeys ++ ["init-model".toList] ++ [] ++
        ["bpe-dropout-alpha".toList] := by decide +kernel
    unfold submittedItems at hmem
    rw [keys_append, keys_append, keys_append, keys_append, keys_lead, keys_core, hnone] at hmem
    exact hothers ((((List.Sublist.refl _).append (keys_optionItem ..)).append
      (List.Sublist.refl [])).append (keys_optionItem ..) |>.subset hmem)

theorem lookup_bpeDropoutAlpha :
    (buildHyperparameters args generatedRunId).lookup "bpe-dropout-alpha".toList = args.bpeDropoutAlpha := by
  refine lookup_optionItem args generatedRunId (fun v hv => ?_) (fun hnone hmem => ?_)
  · simp [submittedItems, optionItem, hv]
  · have hothers : "bpe-dropout-alpha".toList ∉ leadKeys ++ coreKeys ++ ["init-model".toList] ++
        ["dropout".toList] ++ [] := by decide +kernel
    unfold submittedItems at hmem
    rw [keys_append, keys_append, keys_append, keys_append, keys_lead, keys_core, hnone] at hmem
    exact hothers ((((List.Sublist.refl _).append (keys_optionItem ..)).append
      (keys_optionItem ..)).append (List.Sublist.refl []) |>.subset hmem)

private theorem lookup_lead :
    ∀ q ∈ leadItems args generatedRunId,
      (buildHyperparameters args generatedRunId).lookup q.1 = some q.2 := by
  intro q hq
  exact lookup_of_mem args generatedRunId (by simp [submittedItems, hq])

/-- No key that `main` reads is missing. -/
private theorem submittedRunMetadata_eq :
    submittedRunMetadata (buildHyperparameters args generatedRunId) = some
      { corpusVersion := .text args.corpusVersion
        direction := .text args.direction
        runId := .text ((given args.runId).getD generatedRunId)
        hyperparameters := Dict.ofItems (recordedItems args) } := by
  have hlead := lookup_lead args generatedRunId
  have hcore : ∀ q ∈ coreItems args, (buildHyperparameters args generatedRunId).lookup q.1 = some q.2 := by
    intro q hq
    exact lookup_of_mem args generatedRunId (by simp [submittedItems, hq])
  have htable : recordedHyperparameters = (coreItems args).map fun q => (metadataKey q.1, q.1) := by
    rw [recordedHyperparameters_eq, ← keys_core args]
    show List.map _ (List.map Sigma.fst _) = _
    rw [List.map_map]
    rfl
  simp only [leadItems, List.forall_mem_cons] at hlead
  obtain ⟨-, -, hcorpus, -, hdirection, hrunId, -⟩ := hlead
  unfold submittedRunMetadata recordIfSubmitted
  rw [htable, mapM_lookup hcore metadataKey, lookup_dropout, lookup_bpeDropoutAlpha, hcorpus, hdirection,
    hrunId]
  unfold recordedItems
  cases args.dropout <;> cases args.bpeDropoutAlpha <;>
    simp only [Dict.insert_ofItems, Option.bind_eq_bind, Option.bind_some, optionItem, Option.toList, List.map,
      List.append_nil] <;> rfl

end Items

/-! ### The two paths -/

/-- The items of the metadata that are made of hyperparameters -/
private def hpItems (items : List (Σ _ : Str, HyperValue)) : List (Σ _ : Str, Str) :=
  items.map fun p => ⟨"hp_".toList ++ p.1, p.2.str⟩

private theorem nodupKeys_hpItems {items : List (Σ _ : Str, HyperValue)} (h : items.NodupKeys) :
    (hpItems items).NodupKeys := by
  have hkeys : (hpItems items).keys = items.keys.map fun key => "hp_".toList ++ key :=
    Dict.keys_map (fun key => "hp_".toList ++ key) HyperValue.str items
  rw [List.NodupKeys, hkeys]
  exact List.Nodup.map (fun _ _ => List.append_cancel_left) h

/-- Metadata with the same hyperparameters, in any order, are the same. -/
private theorem same_customerMetadataProperties {m m' : RunMetadata}
    (hcorpus : m.corpusVersion = m'.corpusVersion) (hdirection : m.direction = m'.direction)
    (hrunId : m.runId = m'.runId)
    (hhyper : (hpItems m.hyperparameters.entries).Perm (hpItems m'.hyperparameters.entries))
    (modelCardText : Str) :
    (customerMetadataProperties m modelCardText).Same (customerMetadataProperties m' modelCardText) := by
  unfold customerMetadataProperties buildCustomerMetadata
  rw [hcorpus, hdirection, hrunId]
  apply Dict.Same.update
  exact Dict.same_update_of_perm (nodupKeys_hpItems m.hyperparameters.nodupKeys) hhyper _

/-- What `describe_training_job` returns, as strings, of what is recorded. -/
private theorem perm_reconstructed {args : SubmitArgs} {generatedRunId : Str} {returned : Dict Str Str}
    (h : returned.Same ((buildHyperparameters args generatedRunId).mapValues HyperValue.str)) :
    (reconstructRunMetadataFromJobHyperparameters returned).hyperparameters.entries.Perm
      ((recordedItems args).map fun p => ⟨p.1, .text p.2.str⟩) := by
  have hitems : (buildHyperparameters args generatedRunId).entries.Perm
      (submittedItems args generatedRunId) := by
    rw [buildHyperparameters_eq]
    exact Dict.perm_ofItems (nodupKeys_submittedItems args generatedRunId)
  have hreturned : returned.entries.Perm
      ((submittedItems args generatedRunId).map fun p => ⟨p.1, p.2.str⟩) :=
    h.perm.trans (hitems.map _)
  have hrecorded : ((returned.entries.filter fun p => p.1 ∉ excluded).map fun p =>
      (⟨metadataKey p.1, .text p.2⟩ : Σ _ : Str, HyperValue)).Perm
        ((recordedItems args).map fun p => ⟨p.1, .text p.2.str⟩) := by
    rw [← filter_submittedItems args generatedRunId, List.map_map]
    refine ((hreturned.filter _).map _).trans (List.Perm.of_eq ?_)
    rw [List.filter_map, List.map_map]
    rfl
  have hnodup : ((recordedItems args).map fun p =>
      (⟨p.1, .text p.2.str⟩ : Σ _ : Str, HyperValue)).NodupKeys := by
    rw [List.NodupKeys, Dict.keys_map_values fun v : HyperValue => HyperValue.text v.str]
    exact nodupKeys_recordedItems args
  exact (Dict.perm_ofItems ((List.perm_nodupKeys hrecorded).2 hnodup)).trans hrecorded

/-- Both registration paths record the same metadata, if `describe_training_job` returns the hyperparameters
that were submitted, as strings. -/
theorem registration_paths_agree (args : SubmitArgs) (generatedRunId modelCardText : Str)
    (returned : Dict Str Str)
    (h : returned.Same ((buildHyperparameters args generatedRunId).mapValues HyperValue.str)) :
    ∃ runMetadata, submittedRunMetadata (buildHyperparameters args generatedRunId) = some runMetadata ∧
      (customerMetadataProperties runMetadata modelCardText).Same
        (customerMetadataProperties (reconstructRunMetadataFromJobHyperparameters returned) modelCardText) := by
  refine ⟨_, submittedRunMetadata_eq args generatedRunId, ?_⟩
  have hlead : ∀ q ∈ leadItems args generatedRunId, returned.lookup q.1 = some q.2.str := by
    intro q hq
    rw [h q.1, Dict.lookup_mapValues, lookup_lead args generatedRunId q hq, Option.map_some]
  simp only [leadItems, List.forall_mem_cons] at hlead
  obtain ⟨-, -, hcorpus, -, hdirection, hrunId, -⟩ := hlead
  apply same_customerMetadataProperties
  · simp only [reconstructRunMetadataFromJobHyperparameters, hcorpus]
    rfl
  · simp only [reconstructRunMetadataFromJobHyperparameters, hdirection]
    rfl
  · simp only [reconstructRunMetadataFromJobHyperparameters, hrunId]
    rfl
  · have hrecorded : (hpItems (Dict.ofItems (recordedItems args)).entries).Perm
        (hpItems (recordedItems args)) :=
      (Dict.perm_ofItems (nodupKeys_recordedItems args)).map _
    have hrebuilt := (perm_reconstructed h).map fun p =>
      (⟨"hp_".toList ++ p.1, p.2.str⟩ : Σ _ : Str, Str)
    rw [List.map_map] at hrebuilt
    exact hrecorded.trans hrebuilt.symm

/-- A continuation with both of the optional levers -/
def leversArgs : SubmitArgs where
  corpusVersion := "almg-v1".toList
  baseModel := "facebook/m2m100_418M".toList
  direction := "both".toList
  runId := none
  initModelS3Uri := some "s3://models/run-1/model.tar.gz".toList
  epochs := .number 3
  batchSize := .number 8
  learningRate := .text "5e-05".toList
  maxLength := .number 128
  seed := .number 42
  warmupRatio := .text "0.05".toList
  weightDecay := .text "0.01".toList
  labelSmoothing := .text "0.0".toList
  gradientAccumulationSteps := .number 4
  subwordVocabSize := .number 8000
  embeddingInitStrategy := "mean".toList
  dropout := some (.text "0.3".toList)
  bpeDropoutAlpha := some (.text "0.1".toList)

theorem registration_paths_agree_levers :
    ∃ runMetadata, submittedRunMetadata (buildHyperparameters leversArgs "run-1".toList) = some runMetadata ∧
      (customerMetadataProperties runMetadata "**BLEU**: 12.3".toList).Same
        (customerMetadataProperties (reconstructRunMetadataFromJobHyperparameters
          ((buildHyperparameters leversArgs "run-1".toList).mapValues HyperValue.str))
          "**BLEU**: 12.3".toList) :=
  registration_paths_agree leversArgs "run-1".toList "**BLEU**: 12.3".toList _ fun _ => rfl

end KaqTranslator
