import KaqTranslator.Evaluation.CardRoundTrip
import KaqTranslator.Evaluation.PredictionFiles
import KaqTranslator.Training.Chain
import KaqTranslator.Training.Generation

/-!
# Scoring a checkpoint again (`run_training_job` of `train.py`, `evaluation/evaluate_checkpoint.py`)

A training run translates its validation set with the tokenizer that it has just extended, writes the files
from which its metrics are computed, and saves the tokenizer, the model and the card.  An evaluation loads
what was saved, reads the card, reconstructs the boundary tokens of the tokenizer from the training corpus,
and translates the validation set again, in batches of a size of its own.

`reevaluation_reproduces_iff` says when the evaluation of the checkpoint of a first run writes the files of
the run, under a tokenizer whose `batch_decode` decodes a row as a whole (`DecodesWhole`): exactly if the
model generates none of the word-initial subword pieces that the run has added, which only the live tokenizer
takes for boundary tokens.
-/

namespace KaqTranslator

/-! ### A trained model -/

/-- The weights, and what `transformers` does with a tokenizer.  The rows are lists of identifiers, and
`tokens` are the tokens of a row but for the special ones. -/
structure TrainedModel (E P : Type) where
  unk_token_id : ℕ
  encode : Vocab → ℕ → List Str → List E
  generate : GenerateKwargs P → List E → List (List ℕ)
  batchDecode : Tokenizer → List (List ℕ) → List Str  -- `batch_decode(…, skip_special_tokens=True)`
  tokens : Vocab → List ℕ → List Str
  encode_rowwise : ∀ vocab max_length, Batches.Rowwise (encode vocab max_length)
  generate_rowwise : ∀ kwargs, Batches.Rowwise (generate kwargs)
  batchDecode_rowwise : ∀ t, Batches.Rowwise (batchDecode t)

namespace TrainedModel

variable {E P : Type}

/-- The model beside a tokenizer that is in memory -/
def withTokenizer (m : TrainedModel E P) (t : Tokenizer) : ModelAndTokenizer E (List ℕ) P where
  convertTokensToIds token := (t.getVocab token).getD m.unk_token_id
  encode := m.encode t.getVocab
  generate := m.generate
  batchDecode := m.batchDecode t
  encode_rowwise := m.encode_rowwise t.getVocab
  generate_rowwise := m.generate_rowwise
  batchDecode_rowwise := m.batchDecode_rowwise t

/-- `batch_decode` hands the tokens of a row, the special ones apart, to one call of
`convert_tokens_to_string`. -/
def DecodesWhole (m : TrainedModel E P) (sp : SentencePiece) : Prop := ∀ (t : Tokenizer) rows,
  m.batchDecode t rows = rows.map fun ids => t.convertTokensToString sp (m.tokens t.getVocab ids)

/-- The tokens that the model generates for a tagged text -/
def generated (m : TrainedModel E P) (vocab : Vocab) (s : GenerationSettings P) (target_lang : Language)
    (text : Str) : List Str :=
  let kwargs : GenerateKwargs P :=
    ⟨(vocab (directionTag target_lang)).getD m.unk_token_id, s.max_length, s.num_beams, s.logits_processor⟩
  (m.generate kwargs (m.encode vocab s.max_length [text])).flatMap (m.tokens vocab)

/-- The tokens of the hypothesis of an example -/
def generatedFor (m : TrainedModel E P) (vocab : Vocab) (s : GenerationSettings P) (e : TranslationExample) :
    List Str :=
  m.generated vocab s e.target_lang (tagSourceText e.source_text e.target_lang)

end TrainedModel

/-! ### What a run writes -/

def Language.code : Language → Str
  | .es => "es".toList
  | .cak => "cak".toList

def directionLabel (e : TranslationExample) : Str := e.source_lang.code ++ "->".toList ++ e.target_lang.code

structure EvaluationFiles where
  predictions : Str
  references : Str
  directions : Str
  deriving DecidableEq

def evaluationFiles (hypotheses : List Str) (examples : List TranslationExample) : EvaluationFiles where
  predictions := linesFile hypotheses
  references := linesFile (examples.map TranslationExample.target_text)
  directions := linesFile (examples.map directionLabel)

/-- What `run_evaluation` computes from the files -/
abbrev Metrics := MetricsResult ℕ × Option (List (Str × MetricsResult ℕ))

/-- The corpus scores, in tenths -/
structure CorpusScores where
  bleu : List Str → List Str → ℕ
  chrf : List Str → List Str → ℕ

def EvaluationFiles.metrics (scores : CorpusScores) (files : EvaluationFiles) : Except ValueError Metrics :=
  runEvaluation scores.bleu scores.chrf files.predictions files.references (some files.directions)

def DirectionChoice.str : DirectionChoice → Str
  | .esToCak => "es->cak".toList
  | .cakToEs => "cak->es".toList
  | .both => "both".toList

def EmbeddingInit.str : EmbeddingInit → Str
  | .mean => "mean".toList
  | .compositional => "compositional".toList

/-- The arguments of `train.py` -/
structure TrainArgs where
  run_id : Str
  timestamp : Str
  base_model : Str
  corpus_version : Str
  direction : DirectionChoice
  max_length : ℕ
  embedding_init_strategy : EmbeddingInit
  epochs : HyperValue
  batch_size : HyperValue
  learning_rate : HyperValue
  seed : HyperValue
  warmup_ratio : HyperValue
  weight_decay : HyperValue
  label_smoothing : HyperValue
  gradient_accumulation_steps : HyperValue
  subword_vocab_size : HyperValue
  dropout : Option HyperValue
  bpe_dropout_alpha : Option HyperValue

section Card

variable (args : TrainArgs) (init_model : Option Str) (added : ℕ) (coverage : Option ℕ) (scoping : Option Str)

def fixedHyperparameters : List (Str × HyperValue) :=
  [("epochs".toList, args.epochs), ("batch_size".toList, args.batch_size),
    ("learning_rate".toList, args.learning_rate), ("max_length".toList, .number args.max_length),
    ("seed".toList, args.seed), ("warmup_ratio".toList, args.warmup_ratio),
    ("weight_decay".toList, args.weight_decay), ("label_smoothing".toList, args.label_smoothing),
    ("gradient_accumulation_steps".toList, args.gradient_accumulation_steps),
    ("subword_vocab_size".toList, args.subword_vocab_size), (newTokensAddedKey, .number added),
    ("resumed_from_checkpoint".toList, .text (if init_model.isSome then "True".toList else "False".toList)),
    ("embedding_init_strategy".toList, .text args.embedding_init_strategy.str)]

/-- The hyperparameters that are recorded only if they are there -/
def recordedIf (key : Str) (value : Option HyperValue) : List (Str × HyperValue) :=
  value.toList.map fun v => (key, v)

def trainingHyperparameters : List (Str × HyperValue) :=
  fixedHyperparameters args init_model added ++ recordedIf "dropout".toList args.dropout ++
    recordedIf "bpe_dropout_alpha".toList args.bpe_dropout_alpha ++
    recordedIf "embedding_init_compositional_coverage".toList
      (coverage.map fun n => .text (natStr n ++ '/' :: natStr added)) ++
    recordedIf vocabExtensionScopingKey (scoping.map .text)

def trainingKeys : List Str :=
  ["epochs", "batch_size", "learning_rate", "max_length", "seed", "warmup_ratio", "weight_decay",
    "label_smoothing", "gradient_accumulation_steps", "subword_vocab_size", "new_tokens_added",
    "resumed_from_checkpoint", "embedding_init_strategy", "dropout", "bpe_dropout_alpha",
    "embedding_init_compositional_coverage", "vocab_extension_scoping"].map String.toList

theorem keys_recordedIf (key : Str) (value : Option HyperValue) :
    ((recordedIf key value).map Prod.fst).Sublist [key] := by
  cases value with
  | none => exact List.nil_sublist _
  | some v => exact List.Sublist.refl _

theorem keys_trainingHyperparameters :
    ((trainingHyperparameters args init_model added coverage scoping).map Prod.fst).Sublist trainingKeys := by
  simp only [trainingHyperparameters, List.map_append]
  exact ((((List.Sublist.refl _).append (keys_recordedIf ..)).append (keys_recordedIf ..)).append
    (keys_recordedIf ..)).append (keys_recordedIf ..)

theorem lookup_newTokensAdded :
    (trainingHyperparameters args init_model added coverage scoping).lookup newTokensAddedKey =
      some (.number added) := rfl

/-- `" ".join(notes_parts) or None` -/
def trainingNotes : Option Str :=
  let notes_parts :=
    (if args.direction = .both then
      [("Single multilingual checkpoint trained with explicit direction tags for both es->cak and " ++
        "cak->es (see training/direction.py and ADR 0006) rather than two separate checkpoints.").toList]
    else []) ++
    init_model.toList.map fun source =>
      "Continued training from a previous checkpoint (".toList ++ source ++
        (") rather than starting from the base pretrained model -- train_sentence_count/hyperparameters " ++
          "below describe only this run's additional training, not the full cumulative history.").toList
  if notes_parts = [] then none else some (Str.join [' '] notes_parts)

def trainingCard (train_sentence_count : ℕ) (files : EvaluationFiles) (metrics : Metrics) :
    ModelCardData where
  runId := args.run_id
  timestamp := args.timestamp
  baseModel := args.base_model
  direction := args.direction.str
  corpusVersion := args.corpus_version
  trainSentenceCount := train_sentence_count
  validationSentenceCount := (readLines files.references).length
  hyperparameters := trainingHyperparameters args init_model added coverage scoping
  metrics := metrics.1
  notes := trainingNotes args init_model
  perDirectionMetrics := metrics.2
  keys p hp := by
    have hkeys : ∀ key ∈ trainingKeys, isKey key = true := by decide
    exact hkeys _ ((keys_trainingHyperparameters ..).subset (List.mem_map_of_mem hp))
  nodup := List.Nodup.sublist (keys_trainingHyperparameters ..) (by decide)
  newTokens v hv := ⟨added, Option.some.inj ((lookup_newTokensAdded ..).symm.trans hv).symm⟩

end Card

/-! ### The two runs -/

/-- What is in `model_dir`; a run whose metrics cannot be computed leaves no card. -/
structure SavedCheckpoint (E P : Type) where
  tokenizer : Tokenizer
  model : TrainedModel E P
  model_card : Option Str

def defaultNumBeams : ℕ := 5

/-- The settings of `generate_translations` in `run_training_job` -/
def trainingSettings (P : Type) (max_length : ℕ) : GenerationSettings P :=
  ⟨max_length, 16, defaultNumBeams, none⟩

structure TrainingResult (E P : Type) where
  files : EvaluationFiles
  metrics : Except ValueError Metrics
  checkpoint : SavedCheckpoint E P

section Runs

variable {E P : Type} (scores : CorpusScores)

/-- `run_training_job`, from the pairs of the two files.  `subwords` is the SentencePiece training, and
`trainer` the fine-tuning. -/
def runTrainingJob (args : TrainArgs) (base : Tokenizer) (init_model : Option (Str × SavedCheckpoint E P))
    (subwords : List Str → List Str)
    (trainer : Tokenizer → List TranslationExample → List TranslationExample → TrainedModel E P)
    (train_pairs val_pairs : List (Str × Str)) : Except GenerationError (TrainingResult E P) := do
  let train_examples := buildDirectionExamples train_pairs args.direction
  let val_examples := buildDirectionExamples val_pairs args.direction
  -- `_resolve_vocab_extension_scoping_for_model_card`
  let scoping := match init_model with
    | none => some kaqchikelOnly
    | some (_, ancestor) =>
      if extractVocabExtensionScoping ancestor.model_card = some kaqchikelOnly then some kaqchikelOnly
      else none
  let loaded := (match init_model with
    | none => base
    | some (_, ancestor) => ancestor.tokenizer).reload
  let extended := extendTokenizerForExamples loaded subwords train_examples
  let coverage := if args.embedding_init_strategy = .compositional then
      some (countDecomposableTokens extended.2 loaded.getVocab)
    else none
  let model := trainer extended.1 train_examples val_examples
  let hypotheses ← generateTranslations (model.withTokenizer extended.1) val_examples
    (trainingSettings P args.max_length)
  let files := evaluationFiles hypotheses val_examples
  let metrics := files.metrics scores
  return ⟨files, metrics, extended.1.reload, model, metrics.toOption.map fun m => renderModelCard
    (trainingCard args (init_model.map Prod.fst) extended.2.length coverage scoping train_pairs.length
      files m)⟩

/-- The arguments of `evaluate_checkpoint.py`, and the processor that `--debias-delta-multiplier` asks for -/
structure EvaluationArgs (P : Type) where
  direction : DirectionChoice
  settings : GenerationSettings P

/-- `run_checkpoint_evaluation`, up to its own model card -/
def runCheckpointEvaluation (args : EvaluationArgs P) (base_vocab : Vocab) (checkpoint : SavedCheckpoint E P)
    (train_pairs val_pairs : List (Str × Str)) :
    Except GenerationError (EvaluationFiles × Except ValueError Metrics) := do
  let val_examples := buildDirectionExamples val_pairs args.direction
  let vocab_extension_scoping := extractVocabExtensionScoping checkpoint.model_card
  let train_sample_texts := buildTrainSampleTexts train_pairs vocab_extension_scoping
  let patched := patchWordBoundaryDecodingForCheckpoint checkpoint.tokenizer.reload base_vocab
    train_sample_texts
  let hypotheses ← generateTranslations (checkpoint.model.withTokenizer patched.1) val_examples args.settings
  let files := evaluationFiles hypotheses val_examples
  return (files, files.metrics scores)

/-! ### Generated texts -/

variable {sp : SentencePiece} {m : TrainedModel E P}

theorem translatesRows_withTokenizer (hdecodes : m.DecodesWhole sp) (t : Tokenizer)
    (s : GenerationSettings P) :
    TranslatesRows (m.withTokenizer t) s fun target_lang text =>
      t.convertTokensToString sp (m.generated t.getVocab s target_lang text) := by
  intro target_lang texts
  obtain ⟨encoded, hencoded⟩ := m.encode_rowwise t.getVocab s.max_length
  obtain ⟨row, hrow⟩ := m.generate_rowwise (generateKwargs (m.withTokenizer t) s target_lang)
  show m.batchDecode t (m.generate _ (m.encode t.getVocab s.max_length texts)) = _
  rw [hdecodes, hencoded, hrow, List.map_map, List.map_map]
  refine List.map_congr_left fun text _ => ?_
  have hone : m.generate (generateKwargs (m.withTokenizer t) s target_lang)
      (m.encode t.getVocab s.max_length [text]) = [row (encoded text)] := by
    rw [hencoded, hrow]
    rfl
  exact congrArg (t.convertTokensToString sp)
    ((List.flatMap_singleton (m.tokens t.getVocab) _).symm.trans (congrArg (List.flatMap _) hone.symm))

/-- The hypotheses of a model and a tokenizer in memory -/
def hypothesesOf (sp : SentencePiece) (m : TrainedModel E P) (t : Tokenizer) (s : GenerationSettings P)
    (examples : List TranslationExample) : List Str :=
  examples.map fun e => generatedText sp t (m.generatedFor t.getVocab s e) e.target_lang

theorem generateTranslations_withTokenizer (hdecodes : m.DecodesWhole sp) (t : Tokenizer)
    {s : GenerationSettings P} (hbatch : 1 ≤ s.batch_size) (examples : List TranslationExample) :
    generateTranslations (m.withTokenizer t) examples s = .ok (hypothesesOf sp m t s examples) :=
  generateTranslations_eq (translatesRows_withTokenizer hdecodes t s) hbatch

/-! ### Live and patched -/

/-- A marked piece is a boundary token of the live tokenizer alone. -/
theorem not_mem_of_markedPieces {examples : List TranslationExample} {run : TrainingRun} {token : Str}
    (h : token ∈ markedPiecesOfRun examples run) :
    token.startsWith wordBoundaryMarker = true ∧ run.1.getVocab token = none ∧
      token ∉ wholeWordsOfRun examples run := by
  unfold markedPiecesOfRun at h
  split at h
  · cases h
  · exact not_mem_of_addedMarkedPieces h

section Patched

variable {examples : List TranslationExample} {run : TrainingRun} {patched : Tokenizer}

theorem generatedText_live_eq_patched (hloaded : run.1.boundaryTokens = none)
    (hpatched : patched.boundaryTokens = some (wholeWordsOfRun examples run))
    (hwords : wholeWordsOfRun examples run ≠ []) {tokens : List Str} {target_lang : Language}
    (hnot : ∀ token ∈ tokens, token ∉ markedPiecesOfRun examples run) :
    generatedText sp (liveOfRun examples run) tokens target_lang =
      generatedText sp patched tokens target_lang := by
  have hlive := boundaryTokens_liveOfRun examples hloaded
  have hsome : (liveOfRun examples run).boundaryTokens =
      some (wholeWordsOfRun examples run ++ markedPiecesOfRun examples run) := by
    cases hb : (liveOfRun examples run).boundaryTokens with
    | none =>
      rw [hb] at hlive
      exact absurd (List.append_eq_nil_iff.1 hlive.symm).1 hwords
    | some b => rw [← hlive, hb, Option.getD_some]
  refine congrArg (stripLeadingDirectionTag · target_lang) ?_
  simp only [Tokenizer.convertTokensToString, hpatched, hsome]
  apply convertWithWordBoundaries_congr
  intro token hmem
  rw [List.mem_append]
  exact or_iff_left (hnot token hmem)

/-- The patched tokenizer leaves more markers, if it decodes a marked piece. -/
theorem markers_generatedText (hloaded : run.1.boundaryTokens = none)
    (hpatched : patched.boundaryTokens = some (wholeWordsOfRun examples run))
    (hnative : ∀ token, sp.native token = true → run.1.getVocab token ≠ none) (tokens : List Str)
    (target_lang : Language) :
    markers (generatedText sp (liveOfRun examples run) tokens target_lang) ≤
        markers (generatedText sp patched tokens target_lang) ∧
      ∀ token ∈ tokens, token ∈ markedPiecesOfRun examples run →
        markers (generatedText sp (liveOfRun examples run) tokens target_lang) <
          markers (generatedText sp patched tokens target_lang) := by
  have hlive := boundaryTokens_liveOfRun examples hloaded
  have hsub : ∀ token ∈ patched.boundaryTokens.getD [],
      token ∈ (liveOfRun examples run).boundaryTokens.getD [] := by
    intro token hmem
    rw [hpatched] at hmem
    rw [hlive]
    exact List.mem_append_left _ hmem
  have hmarked : ∀ token ∈ (liveOfRun examples run).boundaryTokens.getD [],
      token ∉ patched.boundaryTokens.getD [] →
        sp.native token = false ∧ token.startsWith wordBoundaryMarker = true := by
    intro token hmem hnot
    rw [hlive] at hmem
    rw [hpatched] at hnot
    obtain ⟨hmarker, hnone, -⟩ := not_mem_of_markedPieces ((List.mem_append.1 hmem).resolve_left hnot)
    exact ⟨Bool.eq_false_iff.2 fun h => hnative token h hnone, hmarker⟩
  simp only [generatedText, markers_stripLeadingDirectionTag]
  refine ⟨markers_convertTokensToString_le hsub hmarked tokens, fun token hmem hpiece => ?_⟩
  refine markers_convertTokensToString_lt hsub hmarked hmem ?_ ?_
  · rw [hlive]
    exact List.mem_append_right _ hpiece
  · rw [hpatched]
    exact (not_mem_of_markedPieces hpiece).2.2

theorem markers_linesFile (xs : List Str) : markers (linesFile xs) = (xs.map markers).sum := by
  have hnewline : markers ['\n'] = 0 := by decide
  rw [linesFile, markers_append, markers_join hnewline, hnewline, Nat.add_zero]

/-- The texts of examples whose hypotheses have the given tokens -/
def generatedTexts (sp : SentencePiece) (t : Tokenizer) (tokens : TranslationExample → List Str)
    (examples : List TranslationExample) : List Str :=
  examples.map fun e => generatedText sp t (tokens e) e.target_lang

variable {tokens : TranslationExample → List Str} {val_examples : List TranslationExample}

theorem generatedTexts_of_unmarked (hloaded : run.1.boundaryTokens = none)
    (hpatched : patched.boundaryTokens = some (wholeWordsOfRun examples run))
    (hwords : wholeWordsOfRun examples run ≠ [])
    (hnot : ∀ e ∈ val_examples, ∀ token ∈ tokens e, token ∉ markedPiecesOfRun examples run) :
    generatedTexts sp patched tokens val_examples =
      generatedTexts sp (liveOfRun examples run) tokens val_examples :=
  List.map_congr_left fun e he => (generatedText_live_eq_patched hloaded hpatched hwords (hnot e he)).symm

/-- The two files differ in their markers. -/
theorem linesFile_ne_of_marked (hloaded : run.1.boundaryTokens = none)
    (hpatched : patched.boundaryTokens = some (wholeWordsOfRun examples run))
    (hnative : ∀ token, sp.native token = true → run.1.getVocab token ≠ none) {e : TranslationExample}
    (he : e ∈ val_examples) {token : Str} (hmem : token ∈ tokens e)
    (hpiece : token ∈ markedPiecesOfRun examples run) :
    linesFile (generatedTexts sp patched tokens val_examples) ≠
      linesFile (generatedTexts sp (liveOfRun examples run) tokens val_examples) := by
  intro hsame
  have hsum := congrArg markers hsame
  rw [markers_linesFile, markers_linesFile, generatedTexts, generatedTexts, List.map_map,
    List.map_map] at hsum
  refine absurd hsum (ne_of_gt (List.sum_lt_sum _ _ (fun e' _ => ?_) ⟨e, he, ?_⟩))
  · exact (markers_generatedText hloaded hpatched hnative (tokens e') e'.target_lang).1
  · exact (markers_generatedText hloaded hpatched hnative (tokens e) e.target_lang).2 token hmem hpiece

end Patched

/-! ### The checkpoint of a first run -/

theorem getVocab_markWordBoundaryTokens (t : Tokenizer) (tokens : List Str) :
    (t.markWordBoundaryTokens tokens).getVocab = t.getVocab := by
  unfold Tokenizer.markWordBoundaryTokens
  split <;> rfl

section First

variable {scores : CorpusScores} {args : TrainArgs} {base : Tokenizer} {subwords : List Str → List Str}
  {trainer : Tokenizer → List TranslationExample → List TranslationExample → TrainedModel E P}
  {train_pairs val_pairs : List (Str × Str)} {result : TrainingResult E P}

/-- The run, as the tokenizer model sees it -/
def firstRun (base : Tokenizer) (subwords : List Str → List Str) : TrainingRun := (base.reload, subwords)

/-- What a first run leaves -/
structure FirstResult (sp : SentencePiece) (scores : CorpusScores) (args : TrainArgs) (live : Tokenizer)
    (val_examples : List TranslationExample) (result : TrainingResult E P) : Prop where
  tokenizer : result.checkpoint.tokenizer = live.reload
  files : result.files = evaluationFiles (hypothesesOf sp result.checkpoint.model live
    (trainingSettings P args.max_length) val_examples) val_examples
  metrics : result.metrics = result.files.metrics scores

theorem result_of_first
    (hrun : runTrainingJob scores args base none subwords trainer train_pairs val_pairs = .ok result)
    (hdecodes : result.checkpoint.model.DecodesWhole sp) :
    FirstResult sp scores args
      (liveOfRun (buildDirectionExamples train_pairs args.direction) (firstRun base subwords))
      (buildDirectionExamples val_pairs args.direction) result := by
  unfold runTrainingJob at hrun
  dsimp only at hrun
  generalize hgenerated : generateTranslations _ _ _ = generated at hrun
  cases generated with
  | error e => cases hrun
  | ok hypotheses =>
    obtain rfl := Except.ok.inj hrun
    have hhypotheses := Except.ok.inj
      (hgenerated.symm.trans (generateTranslations_withTokenizer hdecodes _ (show 1 ≤ 16 by decide) _))
    exact ⟨rfl, congrArg (evaluationFiles · _) hhypotheses, rfl⟩

theorem patched_of_first (train_pairs : List (Str × Str)) (direction : DirectionChoice) (t : Tokenizer)
    (hwords : wholeWordsOfRun (buildDirectionExamples train_pairs direction) (firstRun base subwords) ≠ []) :
    (patchWordBoundaryDecodingForCheckpoint t.reload base.getVocab
        (buildTrainSampleTexts train_pairs (some kaqchikelOnly))).1.boundaryTokens =
      some (wholeWordsOfRun (buildDirectionExamples train_pairs direction) (firstRun base subwords)) := by
  let r : CorpusRun := ⟨direction, subwords⟩
  have hwhole : reconstructed train_pairs base =
      wholeWordsOfRun (buildDirectionExamples train_pairs direction) (firstRun base subwords) :=
    (wholeWords_load r base).symm.trans (wholeWords_of_unpatched rfl)
  rw [patchWordBoundaryDecodingForCheckpoint, Tokenizer.boundaryTokens_mark]
  have hne : reconstructed train_pairs base ≠ [] := hwhole ▸ hwords
  exact (if_neg hne).trans (congrArg some hwhole)

/-- The evaluation of the checkpoint of a first run decodes the tokens of the run with the patched
tokenizer. -/
theorem evaluation_of_first (hfirst : FirstResult sp scores args
      (liveOfRun (buildDirectionExamples train_pairs args.direction) (firstRun base subwords))
      (buildDirectionExamples val_pairs args.direction) result)
    (hdecodes : result.checkpoint.model.DecodesWhole sp)
    (hcard : extractVocabExtensionScoping result.checkpoint.model_card = some kaqchikelOnly) {batch_size : ℕ}
    (hbatch : 1 ≤ batch_size) {tokens : TranslationExample → List Str}
    (htokens : tokens = result.checkpoint.model.generatedFor result.checkpoint.tokenizer.getVocab
      (trainingSettings P args.max_length)) :
    (∃ files, runCheckpointEvaluation scores
        ⟨args.direction, { trainingSettings P args.max_length with batch_size := batch_size }⟩ base.getVocab
          result.checkpoint train_pairs val_pairs = .ok (files, files.metrics scores) ∧
      files = evaluationFiles
        (generatedTexts sp
          (patchWordBoundaryDecodingForCheckpoint result.checkpoint.tokenizer.reload base.getVocab
            (buildTrainSampleTexts train_pairs (some kaqchikelOnly))).1 tokens
          (buildDirectionExamples val_pairs args.direction))
        (buildDirectionExamples val_pairs args.direction)) ∧
    result.files = evaluationFiles
      (generatedTexts sp
        (liveOfRun (buildDirectionExamples train_pairs args.direction) (firstRun base subwords)) tokens
        (buildDirectionExamples val_pairs args.direction))
      (buildDirectionExamples val_pairs args.direction) := by
  subst htokens
  have hlive :
      (liveOfRun (buildDirectionExamples train_pairs args.direction) (firstRun base subwords)).getVocab =
        result.checkpoint.tokenizer.getVocab := by
    rw [hfirst.tokenizer]
    rfl
  constructor
  · unfold runCheckpointEvaluation
    simp only [hcard]
    rw [generateTranslations_withTokenizer hdecodes _ (show 1 ≤ batch_size from hbatch)]
    refine ⟨_, rfl, ?_⟩
    unfold hypothesesOf
    rw [patchWordBoundaryDecodingForCheckpoint, getVocab_markWordBoundaryTokens]
    rfl
  · rw [hfirst.files]
    unfold hypothesesOf
    rw [hlive]
    rfl

/-- Scored again with the corpus, the validation set and the settings of the run, in batches of any size, the
checkpoint of a first run gives the files of the run and its metrics, exactly if no hypothesis has a
word-initial piece that the run has added. -/
theorem reevaluation_reproduces_iff (htag : base.getVocab (directionTag .cak) = none)
    (hnative : ∀ token, sp.native token = true → base.getVocab token ≠ none)
    (hrun : runTrainingJob scores args base none subwords trainer train_pairs val_pairs = .ok result)
    (hdecodes : result.checkpoint.model.DecodesWhole sp)
    (hcard : extractVocabExtensionScoping result.checkpoint.model_card = some kaqchikelOnly) {batch_size : ℕ}
    (hbatch : 1 ≤ batch_size) :
    ∃ files, runCheckpointEvaluation scores
        ⟨args.direction, { trainingSettings P args.max_length with batch_size := batch_size }⟩ base.getVocab
          result.checkpoint train_pairs val_pairs = .ok (files, files.metrics scores) ∧
      files.references = result.files.references ∧ files.directions = result.files.directions ∧
      (files.predictions = result.files.predictions ↔
        ∀ e ∈ buildDirectionExamples val_pairs args.direction,
          ∀ token ∈ result.checkpoint.model.generatedFor result.checkpoint.tokenizer.getVocab
              (trainingSettings P args.max_length) e,
            token ∉ markedPiecesOfRun (buildDirectionExamples train_pairs args.direction)
              (firstRun base subwords)) ∧
      (files.predictions = result.files.predictions → files.metrics scores = result.metrics) := by
  have hfirst := result_of_first hrun hdecodes
  obtain ⟨⟨_, heval, rfl⟩, hfiles⟩ := evaluation_of_first hfirst hdecodes hcard hbatch rfl
  have hwords : wholeWordsOfRun (buildDirectionExamples train_pairs args.direction)
      (firstRun base subwords) ≠ [] :=
    List.ne_nil_of_mem (tag_mem_wholeWordsOfRun htag)
  have hpatched := patched_of_first train_pairs args.direction result.checkpoint.tokenizer hwords
  refine ⟨_, heval, by rw [hfiles]; rfl, by rw [hfiles]; rfl, ?_, fun hsame => ?_⟩
  · rw [hfiles]
    refine ⟨fun hsame e he token hmem hpiece => ?_, fun hnot => congrArg linesFile ?_⟩
    · exact linesFile_ne_of_marked rfl hpatched hnative he hmem hpiece hsame
    · exact generatedTexts_of_unmarked rfl hpatched hwords hnot
  · rw [hfirst.metrics, hfiles]
    rw [hfiles] at hsame
    exact congrArg (fun predictions => EvaluationFiles.metrics scores ⟨predictions, _, _⟩) hsame

end First

end Runs

def zqArgs : TrainArgs where
  run_id := "run-1".toList
  timestamp := "2026-01-01T00:00:00+00:00".toList
  base_model := "facebook/m2m100_418M".toList
  corpus_version := "v1".toList
  direction := .esToCak
  max_length := 8
  embedding_init_strategy := .mean
  epochs := .number 3
  batch_size := .number 8
  learning_rate := .text "5e-05".toList
  seed := .number 42
  warmup_ratio := .text "0.05".toList
  weight_decay := .text "0.01".toList
  label_smoothing := .text "0.0".toList
  gradient_accumulation_steps := .number 4
  subword_vocab_size := .number 8000
  dropout := none
  bpe_dropout_alpha := none

/-- A model that generates the same tokens for every text -/
def zqModel (tokens : List Str) : TrainedModel Str Unit where
  unk_token_id := 3
  encode _ _ texts := texts
  generate kwargs rows := rows.map fun _ => [kwargs.forced_bos_token_id]
  batchDecode t rows := rows.map fun _ => t.convertTokensToString riDecoder tokens
  tokens _ _ := tokens
  encode_rowwise _ _ := ⟨id, fun texts => (List.map_id texts).symm⟩
  generate_rowwise _ := .map _
  batchDecode_rowwise _ := .map _

def zqPairs : List (Str × Str) := [("ri".toList, "zq".toList)]

/-- A run of which the model generates a continuation piece, and no word-initial one. -/
def zqTraining : Except GenerationError (TrainingResult Str Unit) :=
  runTrainingJob ⟨fun _ _ => 0, fun _ _ => 0⟩ zqArgs riBase none zqvPieces
    (fun _ _ _ => zqModel ["__cak__".toList, "zq".toList, "wkr".toList]) zqPairs zqPairs

theorem reevaluation_reproduces_zq : ∃ result files, zqTraining = .ok result ∧
    runCheckpointEvaluation ⟨fun _ _ => 0, fun _ _ => 0⟩
        ⟨zqArgs.direction, { trainingSettings Unit zqArgs.max_length with batch_size := 1 }⟩ riBase.getVocab
          result.checkpoint zqPairs zqPairs =
      .ok (files, files.metrics ⟨fun _ _ => 0, fun _ _ => 0⟩) ∧
    files.predictions = result.files.predictions := by
  have hnative : ∀ token, riDecoder.native token = true → riBase.getVocab token ≠ none := by
    intro token h
    rw [of_decide_eq_true h]
    decide
  obtain ⟨result, hresult, hdecodes, hcard, htokens⟩ : ∃ result, zqTraining = .ok result ∧
      result.checkpoint.model.DecodesWhole riDecoder ∧
      extractVocabExtensionScoping result.checkpoint.model_card = some kaqchikelOnly ∧
      ∀ e ∈ buildDirectionExamples zqPairs zqArgs.direction,
        ∀ token ∈ result.checkpoint.model.generatedFor result.checkpoint.tokenizer.getVocab
            (trainingSettings Unit zqArgs.max_length) e,
          token ∉ markedPiecesOfRun (buildDirectionExamples zqPairs zqArgs.direction)
            (firstRun riBase zqvPieces) :=
    ⟨_, rfl, fun _ _ => rfl, by decide +kernel, by decide +kernel⟩
  obtain ⟨files, heval, -, -, hiff, -⟩ :=
    reevaluation_reproduces_iff (by decide) hnative hresult hdecodes hcard (Nat.le_refl 1)
  exact ⟨result, files, hresult, heval, hiff.2 htokens⟩

end KaqTranslator
