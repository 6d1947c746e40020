import KaqTranslator.Deployment.Registration
import KaqTranslator.Library.ArgParse
import Mathlib.Algebra.Ring.Nat

/-!
# From a submission to a training run (`training/submit_job.py`, `training/train.py`)

`submit_job.parse_args` reads the options of a submission, `build_hyperparameters` renders them, the training
container turns each hyperparameter into `--key value`, and `train.parse_args` reads those.  Hyperparameters
are a map of strings to strings on the way, so their order is not kept.  The container is not part of the
repository: it is a function of which `submit_job.py` says that its flags are literal (`LiteralFlags`).

`submission_reaches_training` says when the training run starts, and that it then has the options of the
submission, each with its type, and the run id of the submission or the generated one.  Strings with a leading
dash are read as `argparse` does it in Python 3.12, the version of the training image (`PY_VERSION`).
-/

namespace KaqTranslator

open ArgParse

/-! ### Values -/

/-- `str(n)` -/
def intStr : ℤ → Str
  | .ofNat n => natStr n
  | .negSucc n => '-' :: natStr (n + 1)

/-- `sys.get_int_max_str_digits()` -/
def intMaxStrDigits : ℕ := 4300

/-- Digits, which single underscores may separate -/
def magnitude (s : Str) : Option ℕ :=
  let parts := s.splitOn '_'
  let digits := parts.flatten
  if parts.all (fun part => !part.isEmpty && part.all isDecimal) && digits.length ≤ intMaxStrDigits then
    some (intOf digits)
  else none

/-- `int(s)`; `none` is a `ValueError`. -/
def pythonInt (s : Str) : Option ℤ :=
  match s.strip with
  | '-' :: t => (magnitude t).map fun n : ℕ => -(n : ℤ)
  | '+' :: t => (magnitude t).map fun n : ℕ => (n : ℤ)
  | t => (magnitude t).map fun n : ℕ => (n : ℤ)

/-- `str(n)` has no more digits than `int` reads. -/
def Printable (n : ℤ) : Prop := (natStr n.natAbs).length ≤ intMaxStrDigits

instance instDecidablePrintable (n : ℤ) : Decidable (Printable n) := inferInstanceAs (Decidable (_ ≤ _))

private theorem magnitude_natStr {n : ℕ} (h : (natStr n).length ≤ intMaxStrDigits) :
    magnitude (natStr n) = some n := by
  have hsplit : (natStr n).splitOn '_' = [natStr n] := by
    refine List.splitOn_eq_singleton fun hmem => ?_
    exact absurd (isDigit_of_mem_natStr hmem) (by decide)
  have hdecimal : (natStr n).all isDecimal = true := List.all_eq_true.2 fun c hc => isDecimal_of_mem_natStr hc
  have hne : (natStr n).isEmpty = false := by simpa using natStr_ne_nil n
  simp only [magnitude, hsplit, List.all_cons, List.all_nil, hdecimal, hne, List.flatten_cons,
    List.flatten_nil, List.append_nil, h, decide_true, Bool.not_false, Bool.and_self, if_true, intOf_natStr]

/-- `int(str(n)) = n` -/
theorem pythonInt_intStr {n : ℤ} (h : Printable n) : pythonInt (intStr n) = some n := by
  have hspace : ∀ {m : ℕ} {c : Char}, c ∈ natStr m → isspace c = false := fun hc =>
    isspace_of_isDigit (isDigit_of_mem_natStr hc)
  cases n with
  | ofNat n =>
    have hstrip : (natStr n).strip = natStr n :=
      Str.strip_of_not_space (fun c hc => hspace (List.mem_of_head? hc))
        fun c hc => hspace (List.mem_of_getLast? hc)
    show pythonInt (natStr n) = _
    rw [pythonInt, hstrip]
    split
    · rename_i t ht
      exact absurd (isDigit_of_mem_natStr (ht ▸ List.mem_cons_self : '-' ∈ natStr n)) (by decide)
    · rename_i t ht
      exact absurd (isDigit_of_mem_natStr (ht ▸ List.mem_cons_self : '+' ∈ natStr n)) (by decide)
    · rw [magnitude_natStr (n := n) h]
      rfl
  | negSucc n =>
    have hstrip : Str.strip ('-' :: natStr (n + 1)) = '-' :: natStr (n + 1) := by
      refine Str.strip_of_not_space (fun c hc => ?_) fun c hc => ?_
      · cases hc
        decide
      · rcases List.mem_cons.1 (List.mem_of_getLast? hc) with rfl | hc
        · decide
        · exact hspace hc
    show pythonInt ('-' :: natStr (n + 1)) = _
    rw [pythonInt, hstrip]
    show (magnitude (natStr (n + 1))).map _ = _
    rw [magnitude_natStr (n := n + 1) h]
    rfl

private theorem decimalValue_le {c : Char} : (decimalValue c).getD 0 ≤ 9 := by
  rw [decimalValue]
  cases hz : decimalZeros.find? fun z => z ≤ c.toNat && c.toNat ≤ z + 9 with
  | none => exact Nat.zero_le 9
  | some z =>
    have hrange := List.find?_some hz
    rw [Bool.and_eq_true, decide_eq_true_eq, decide_eq_true_eq] at hrange
    show c.toNat - z ≤ 9
    omega

private theorem intOf_lt (s : Str) : intOf s < 10 ^ s.length := by
  have hfold : ∀ (s : Str) (k : ℕ),
      s.foldl (fun n c => 10 * n + (decimalValue c).getD 0) k < (k + 1) * 10 ^ s.length := by
    intro s
    induction s with
    | nil => exact fun k => by simp
    | cons c s ih =>
      intro k
      have hc : (decimalValue c).getD 0 ≤ 9 := decimalValue_le
      have hk : 10 * k + (decimalValue c).getD 0 + 1 ≤ (k + 1) * 10 := by omega
      calc _ < (10 * k + (decimalValue c).getD 0 + 1) * 10 ^ s.length := ih _
        _ ≤ (k + 1) * 10 * 10 ^ s.length := Nat.mul_le_mul_right _ hk
        _ = (k + 1) * 10 ^ (s.length + 1) := by rw [Nat.pow_succ, Nat.mul_assoc, Nat.mul_comm 10]
  simpa [intOf] using hfold s 0

private theorem length_of_magnitude {s : Str} {n : ℕ} (h : magnitude s = some n) :
    (natStr n).length ≤ intMaxStrDigits := by
  unfold magnitude at h
  dsimp only at h
  split at h
  · rename_i hparts
    cases h
    rw [Bool.and_eq_true, decide_eq_true_eq] at hparts
    have hlt := intOf_lt (s.splitOn '_').flatten
    refine (Nat.length_toDigits_le_iff (by decide) (by decide)).2 (hlt.trans_le ?_)
    exact Nat.pow_le_pow_right (by decide) hparts.2
  · cases h

theorem printable_of_pythonInt {s : Str} {n : ℤ} (h : pythonInt s = some n) : Printable n := by
  unfold pythonInt at h
  split at h
  all_goals
    obtain ⟨m, hm, rfl⟩ := Option.map_eq_some_iff.1 h
    simpa [Printable] using length_of_magnitude hm

/-- `float(s)` and `str(x)` -/
structure FloatText (F : Type) where
  float : Str → Option F
  str : F → Str
  float_str : ∀ x, float (str x) = some x

/-- The value of an option -/
inductive ArgValue (F : Type) where
  | int (n : ℤ)
  | float (x : F)
  | text (s : Str)
  | bool (b : Bool)

variable {F : Type} (floats : FloatText F)

/-- `str(value)` -/
def ArgValue.str : ArgValue F → Str
  | .int n => intStr n
  | .float x => floats.str x
  | .text s => s
  | .bool b => if b then "True".toList else "False".toList

/-! ### The two command lines -/

def textOption (name : String) (default : Option String) : Opt (ArgValue F) :=
  ⟨name.toList, .store fun s => some (.text s), default.map fun s => .text s.toList, false⟩

def requiredOption (name : String) : Opt (ArgValue F) := { textOption name none with required := true }

def choiceOption (name : String) (choices : List Str) (default : String) : Opt (ArgValue F) :=
  ⟨name.toList, .store fun s => if s ∈ choices then some (.text s) else none, some (.text default.toList),
    false⟩

def intOption (name : String) (default : ℤ) : Opt (ArgValue F) :=
  ⟨name.toList, .store fun s => (pythonInt s).map .int, some (.int default), false⟩

def floatOption (name : String) (default : Option F) : Opt (ArgValue F) :=
  ⟨name.toList, .store fun s => (floats.float s).map .float, default.map .float, false⟩

/-- `action="store_true"` -/
def flagOption (name : String) : Opt (ArgValue F) :=
  ⟨name.toList, .flag (.bool true), some (.bool false), false⟩

def directionChoices : List Str := ["es->cak", "cak->es", "both"].map String.toList

def embeddingInitStrategies : List Str := ["mean", "compositional"].map String.toList

def approvalStatuses : List Str := ["PendingManualApproval", "Approved", "Rejected"].map String.toList

variable [OfScientific F]

/-- `parse_args` of `submit_job.py` -/
def submitParser : Parser (ArgValue F) where
  options :=
    [textOption "environment" (some "dev"), textOption "region" (some "us-east-1"),
      textOption "instance-type" (some "ml.g4dn.xlarge"), intOption "max-run" 10800,
      textOption "corpus-version" (some "almg-v1"), textOption "corpus-prefix" none,
      choiceOption "direction" directionChoices "both", textOption "run-id" none,
      textOption "base-model" (some "facebook/m2m100_418M"), textOption "init-model-s3-uri" none,
      intOption "epochs" 3, intOption "batch-size" 8, floatOption floats "learning-rate" (some 5e-5),
      intOption "max-length" 128, intOption "seed" 42, floatOption floats "warmup-ratio" (some 0.05),
      floatOption floats "weight-decay" (some 0.01), floatOption floats "label-smoothing" (some 0.0),
      intOption "gradient-accumulation-steps" 4, intOption "subword-vocab-size" 8000,
      floatOption floats "dropout" none, floatOption floats "bpe-dropout-alpha" none,
      choiceOption "embedding-init-strategy" embeddingInitStrategies "mean",
      textOption "model-package-group-name" (some "traductor-kaqchikel-es-cak"),
      choiceOption "approval-status" approvalStatuses "PendingManualApproval", flagOption "no-wait",
      flagOption "no-logs", flagOption "no-register", textOption "register-existing" none,
      flagOption "dry-run"]
  digit := isDecimal

/-- `parse_args` of `train.py`, with the environment variables of the container -/
def trainParser (environ : Str → Option Str) : Parser (ArgValue F) where
  options :=
    [requiredOption "train", requiredOption "validation", requiredOption "corpus-version",
      { textOption "model-dir" none with
        default := some (.text ((environ "SM_MODEL_DIR".toList).getD "./model-output".toList)) },
      { textOption "output-data-dir" none with
        default := some (.text ((environ "SM_OUTPUT_DATA_DIR".toList).getD "./output-data".toList)) },
      textOption "checkpoint-dir" (some "/opt/ml/checkpoints"),
      textOption "base-model" (some "facebook/m2m100_418M"), textOption "init-model" none,
      choiceOption "direction" directionChoices "both", textOption "run-id" none,
      intOption "epochs" 3, intOption "batch-size" 8, floatOption floats "learning-rate" (some 5e-5),
      intOption "max-length" 128, intOption "seed" 42, floatOption floats "warmup-ratio" (some 0.05),
      floatOption floats "weight-decay" (some 0.01), floatOption floats "label-smoothing" (some 0.0),
      intOption "gradient-accumulation-steps" 4, intOption "subword-vocab-size" 8000,
      floatOption floats "dropout" none, floatOption floats "bpe-dropout-alpha" none,
      choiceOption "embedding-init-strategy" embeddingInitStrategies "mean"]
  digit := isDecimal

/-! ### The hyperparameters of a submission -/

/-- The value of an option as a hyperparameter -/
def ArgValue.hyper : ArgValue F → HyperValue
  | .int (.ofNat n) => .number n
  | value => .text (value.str floats)

/-- The value at a destination as a hyperparameter; `str(None)` is `None`. -/
def hyperAt (args : Namespace (ArgValue F)) (dest : String) : HyperValue :=
  (args dest.toList).elim (.text "None".toList) (ArgValue.hyper floats)

def textAt (args : Namespace (ArgValue F)) (dest : String) : Option Str :=
  (args dest.toList).map (ArgValue.str floats)

/-- The arguments of a submission -/
def submitArgs (args : Namespace (ArgValue F)) : SubmitArgs where
  corpusVersion := (hyperAt floats args "corpus_version").str
  baseModel := (hyperAt floats args "base_model").str
  direction := (hyperAt floats args "direction").str
  runId := textAt floats args "run_id"
  initModelS3Uri := textAt floats args "init_model_s3_uri"
  epochs := hyperAt floats args "epochs"
  batchSize := hyperAt floats args "batch_size"
  learningRate := hyperAt floats args "learning_rate"
  maxLength := hyperAt floats args "max_length"
  seed := hyperAt floats args "seed"
  warmupRatio := hyperAt floats args "warmup_ratio"
  weightDecay := hyperAt floats args "weight_decay"
  labelSmoothing := hyperAt floats args "label_smoothing"
  gradientAccumulationSteps := hyperAt floats args "gradient_accumulation_steps"
  subwordVocabSize := hyperAt floats args "subword_vocab_size"
  embeddingInitStrategy := (hyperAt floats args "embedding_init_strategy").str
  dropout := (args "dropout".toList).map (ArgValue.hyper floats)
  bpeDropoutAlpha := (args "bpe_dropout_alpha".toList).map (ArgValue.hyper floats)

/-! ### The options that both command lines have -/

section Options

omit [OfScientific F]

/-- Every value that `o` gives is read back by `o'`. -/
def ReadBack (o o' : Opt (ArgValue F)) : Prop :=
  ∀ value, o.default = some value ∨ o.Yields value → o'.Converts (value.str floats) value

theorem readBack_int (name : String) {n m : ℤ} (h : Printable n) :
    ReadBack floats (intOption name n) (intOption name m) := by
  have hprintable : ∀ k, Printable k →
      (intOption name m : Opt (ArgValue F)).Converts ((ArgValue.int k).str floats) (.int k) := fun k hk =>
    ⟨_, rfl, by simp only [ArgValue.str, pythonInt_intStr hk, Option.map_some]⟩
  rintro value (hdefault | hflag | ⟨s, convert, haction, hconvert⟩)
  · obtain rfl := Option.some.inj hdefault
    exact hprintable n h
  · cases hflag
  · cases haction
    obtain ⟨k, hk, rfl⟩ := Option.map_eq_some_iff.1 hconvert
    exact hprintable k (printable_of_pythonInt hk)

theorem readBack_float (name : String) (x y : Option F) :
    ReadBack floats (floatOption floats name x) (floatOption floats name y) := by
  have hfloat : ∀ z, (floatOption floats name y).Converts ((ArgValue.float z).str floats) (.float z) := by
    intro z
    exact ⟨_, rfl, by simp only [ArgValue.str, floats.float_str, Option.map_some]⟩
  rintro value (hdefault | hflag | ⟨s, convert, haction, hconvert⟩)
  · obtain ⟨z, -, rfl⟩ := Option.map_eq_some_iff.1 hdefault
    exact hfloat z
  · cases hflag
  · cases haction
    obtain ⟨z, -, rfl⟩ := Option.map_eq_some_iff.1 hconvert
    exact hfloat z

theorem readBack_text (name : String) (x : Option String) {o' : Opt (ArgValue F)}
    (h : o'.action = .store fun s => some (.text s)) : ReadBack floats (textOption name x) o' := by
  rintro value (hdefault | hflag | ⟨s, convert, haction, hconvert⟩)
  · obtain ⟨s, -, rfl⟩ := Option.map_eq_some_iff.1 hdefault
    exact ⟨_, h, rfl⟩
  · cases hflag
  · cases haction
    obtain rfl := Option.some.inj hconvert
    exact ⟨_, h, rfl⟩

theorem readBack_choice (name : String) {choices : List Str} {x y : String} (h : x.toList ∈ choices) :
    ReadBack floats (choiceOption name choices x) (choiceOption name choices y) := by
  have hchoice : ∀ s ∈ choices,
      (choiceOption name choices y : Opt (ArgValue F)).Converts ((ArgValue.text s).str floats) (.text s) :=
    fun s hs => ⟨_, rfl, if_pos hs⟩
  rintro value (hdefault | hflag | ⟨s, convert, haction, hconvert⟩)
  · obtain rfl := Option.some.inj hdefault
    exact hchoice _ h
  · cases hflag
  · cases haction
    dsimp only at hconvert
    split at hconvert
    · rename_i hs
      obtain rfl := Option.some.inj hconvert
      exact hchoice s hs
    · cases hconvert

/-- A parser whose options have these names -/
theorem lawful_of_names (names : List String) {p : Parser (ArgValue F)}
    (hnames : p.options.map Opt.name = names.map String.toList)
    (hdest : (names.map fun name => destination name.toList).Nodup)
    (hhelp : ∀ name ∈ names, name.toList ≠ "help".toList ∧ name.toList ≠ []) : p.Lawful where
  nodup_dest := by
    have hmap : p.options.map Opt.dest = (p.options.map Opt.name).map destination := by
      rw [List.map_map]
      rfl
    rw [hmap, hnames, List.map_map]
    exact hdest
  no_help o ho := by
    have hmem : o.name ∈ p.options.map Opt.name := List.mem_map_of_mem ho
    rw [hnames] at hmem
    obtain ⟨name, hname, heq⟩ := List.mem_map.1 hmem
    rw [← heq]
    exact hhelp name hname

end Options

def submitNames : List String :=
  ["environment", "region", "instance-type", "max-run", "corpus-version", "corpus-prefix", "direction",
    "run-id", "base-model", "init-model-s3-uri", "epochs", "batch-size", "learning-rate", "max-length",
    "seed", "warmup-ratio", "weight-decay", "label-smoothing", "gradient-accumulation-steps",
    "subword-vocab-size", "dropout", "bpe-dropout-alpha", "embedding-init-strategy",
    "model-package-group-name", "approval-status", "no-wait", "no-logs", "no-register", "register-existing",
    "dry-run"]

def trainNames : List String :=
  ["train", "validation", "corpus-version", "model-dir", "output-data-dir", "checkpoint-dir", "base-model",
    "init-model", "direction", "run-id", "epochs", "batch-size", "learning-rate", "max-length", "seed",
    "warmup-ratio", "weight-decay", "label-smoothing", "gradient-accumulation-steps", "subword-vocab-size",
    "dropout", "bpe-dropout-alpha", "embedding-init-strategy"]

theorem submitParser_lawful : (submitParser floats).Lawful :=
  lawful_of_names submitNames rfl (by decide +kernel) (by decide +kernel)

theorem trainParser_lawful (environ : Str → Option Str) : (trainParser floats environ).Lawful :=
  lawful_of_names trainNames rfl (by decide +kernel) (by decide +kernel)

/-- The options that both command lines have, the run identifier apart -/
def sharedNames : List String := submitNames.filter fun name => name ∈ trainNames ∧ name ≠ "run-id"

theorem sharedNames_eq : sharedNames =
    ["corpus-version", "direction", "base-model", "epochs", "batch-size", "learning-rate", "max-length",
      "seed", "warmup-ratio", "weight-decay", "label-smoothing", "gradient-accumulation-steps",
      "subword-vocab-size", "dropout", "bpe-dropout-alpha", "embedding-init-strategy"] := by
  decide +kernel

/-- The options that a submission may leave out -/
def optionalNames : List String := ["dropout", "bpe-dropout-alpha"]

/-- Both have an option of this name, and the second reads back what the first gives. -/
def Shared (environ : Str → Option Str) (name : String) : Prop :=
  ∃ o ∈ (submitParser floats).options, ∃ o' ∈ (trainParser floats environ).options,
    o.name = name.toList ∧ o'.name = name.toList ∧ ReadBack floats o o' ∧
      (o.default = none → name ∈ optionalNames ∧ o'.default = none)

theorem shared_of_mem (environ : Str → Option Str) : ∀ name ∈ sharedNames, Shared floats environ name := by
  have hint : ∀ {name : String} (n : ℤ), Printable n → intOption name n ∈ (submitParser floats).options →
      intOption name n ∈ (trainParser floats environ).options → Shared floats environ name :=
    fun {name} n hn ho ho' => ⟨_, ho, _, ho', rfl, rfl, readBack_int floats name hn, fun h => by cases h⟩
  have hfloat : ∀ {name : String} (x : Option F), (x = none → name ∈ optionalNames) →
      floatOption floats name x ∈ (submitParser floats).options →
      floatOption floats name x ∈ (trainParser floats environ).options → Shared floats environ name :=
    fun {name} x hx ho ho' =>
      ⟨_, ho, _, ho', rfl, rfl, readBack_float floats name x x, fun h => ⟨hx (Option.map_eq_none_iff.1 h), h⟩⟩
  have hchoice : ∀ {name : String} (choices : List Str) (x : String), x.toList ∈ choices →
      choiceOption name choices x ∈ (submitParser floats).options →
      choiceOption name choices x ∈ (trainParser floats environ).options → Shared floats environ name :=
    fun {name} _ _ hx ho ho' => ⟨_, ho, _, ho', rfl, rfl, readBack_choice floats name hx, fun h => by cases h⟩
  rw [sharedNames_eq]
  simp only [List.forall_mem_cons]
  refine ⟨?_, ?_, ?_, ?_, ?_, ?_, ?_, ?_, ?_, ?_, ?_, ?_, ?_, ?_, ?_, ?_,
    fun _ h => (List.not_mem_nil h).elim⟩
  · exact ⟨textOption "corpus-version" (some "almg-v1"), by simp [submitParser],
      requiredOption "corpus-version", by simp [trainParser], rfl, rfl, readBack_text floats _ _ rfl,
      fun h => by cases h⟩
  · exact hchoice directionChoices "both" (by decide) (by simp [submitParser]) (by simp [trainParser])
  · exact ⟨textOption "base-model" (some "facebook/m2m100_418M"), by simp [submitParser],
      textOption "base-model" (some "facebook/m2m100_418M"), by simp [trainParser], rfl, rfl,
      readBack_text floats _ _ rfl, fun h => by cases h⟩
  · exact hint 3 (by decide) (by simp [submitParser]) (by simp [trainParser])
  · exact hint 8 (by decide) (by simp [submitParser]) (by simp [trainParser])
  · exact hfloat (some 5e-5) (fun h => by cases h) (by simp [submitParser]) (by simp [trainParser])
  · exact hint 128 (by decide) (by simp [submitParser]) (by simp [trainParser])
  · exact hint 42 (by decide) (by simp [submitParser]) (by simp [trainParser])
  · exact hfloat (some 0.05) (fun h => by cases h) (by simp [submitParser]) (by simp [trainParser])
  · exact hfloat (some 0.01) (fun h => by cases h) (by simp [submitParser]) (by simp [trainParser])
  · exact hfloat (some 0.0) (fun h => by cases h) (by simp [submitParser]) (by simp [trainParser])
  · exact hint 4 (by decide) (by simp [submitParser]) (by simp [trainParser])
  · exact hint 8000 (by decide) (by simp [submitParser]) (by simp [trainParser])
  · exact hfloat none (fun _ => by decide) (by simp [submitParser]) (by simp [trainParser])
  · exact hfloat none (fun _ => by decide) (by simp [submitParser]) (by simp [trainParser])
  · exact hchoice embeddingInitStrategies "mean" (by decide) (by simp [submitParser]) (by simp [trainParser])

/-! ### The hyperparameters that reach the container -/

/-- What `submit_job.py` says of the container: a flag `--key value` for each hyperparameter.  They are in any
order. -/
def LiteralFlags (cliArgs : Dict Str Str → List Str) : Prop :=
  ∀ hyperparameters, ∃ items : List (Σ _ : Str, Str), items.Perm hyperparameters.entries ∧
    cliArgs hyperparameters = Parser.cliArgs items

/-- The flags are those of the same map, in another order. -/
theorem LiteralFlags.exists_same {cliArgs : Dict Str Str → List Str} (h : LiteralFlags cliArgs)
    (hyperparameters : Dict Str Str) :
    ∃ sent : Dict Str Str, sent.Same hyperparameters ∧ sent.entries.Perm hyperparameters.entries ∧
      cliArgs hyperparameters = Parser.cliArgs sent.entries := by
  obtain ⟨items, hperm, hargs⟩ := h hyperparameters
  have hnodup : items.NodupKeys := (List.perm_nodupKeys hperm).2 hyperparameters.nodupKeys
  exact ⟨⟨items, hnodup⟩, fun key => List.perm_dlookup key hnodup hperm, hperm, hargs⟩

section Returned

variable {floats} {args : SubmitArgs} {generatedRunId : Str} {returned : Dict Str Str}

theorem lookup_returned_of_mem
    (h : returned.Same ((buildHyperparameters args generatedRunId).mapValues HyperValue.str)) {key : Str}
    {value : HyperValue} (hmem : ⟨key, value⟩ ∈ submittedItems args generatedRunId) :
    returned.lookup key = some value.str := by
  rw [h key, Dict.lookup_mapValues, lookup_of_mem args generatedRunId hmem, Option.map_some]

theorem mem_submittedKeys
    (h : returned.Same ((buildHyperparameters args generatedRunId).mapValues HyperValue.str)) {key : Str}
    (hkey : key ∈ returned.entries.keys) : key ∈ submittedKeys := by
  apply (keys_submittedItems args generatedRunId).subset
  by_contra hnot
  have hnone : returned.lookup key = none := by
    rw [h key, Dict.lookup_mapValues, lookup_buildHyperparameters, List.dlookup_eq_none.2 hnot]
    rfl
  exact List.dlookup_eq_none.1 hnone hkey

end Returned

omit [OfScientific F] in
@[simp] theorem str_hyper (value : ArgValue F) : (value.hyper floats).str = value.str floats := by
  cases value with
  | int n => cases n <;> rfl
  | _ => rfl

section Sent

variable {floats} {argv : List Str} {args : Namespace (ArgValue F)} {generatedRunId : Str}
  {sent : Dict Str Str}

/-- What the option of a submission gives -/
theorem value_of_submit (h : (submitParser floats).parseArgs argv = .ok args) {o : Opt (ArgValue F)}
    (ho : o ∈ (submitParser floats).options) {value : ArgValue F} (hvalue : args o.dest = some value) :
    o.default = some value ∨ o.Yields value := by
  rcases (submitParser_lawful floats).parseArgs_yields h o ho with ⟨-, hdefault⟩ | ⟨v, hv, hyields⟩
  · exact .inl (hdefault.symm.trans hvalue)
  · obtain rfl := Option.some.inj (hv.symm.trans hvalue)
    exact .inr hyields

theorem isSome_of_submit (h : (submitParser floats).parseArgs argv = .ok args) {o : Opt (ArgValue F)}
    (ho : o ∈ (submitParser floats).options) (hdefault : o.default ≠ none) :
    ∃ value, args o.dest = some value := by
  rcases (submitParser_lawful floats).parseArgs_yields h o ho with ⟨-, heq⟩ | ⟨v, hv, -⟩
  · rw [heq]
    exact Option.ne_none_iff_exists'.1 hdefault
  · exact ⟨v, hv⟩

/-- An option that both command lines have is sent as it was given, or left out. -/
theorem lookup_sent (environ : Str → Option Str) (h : (submitParser floats).parseArgs argv = .ok args)
    (hsent : sent.Same
      ((buildHyperparameters (submitArgs floats args) generatedRunId).mapValues HyperValue.str)) :
    ∀ name ∈ sharedNames,
      sent.lookup name.toList = (args (destination name.toList)).map (ArgValue.str floats) := by
  have hvalue : ∀ {name : String}, name ∈ sharedNames → name ∉ optionalNames →
      ∃ value, args (destination name.toList) = some value := by
    intro name hname hrequired
    obtain ⟨o, ho, o', -, hoName, -, -, hdefault⟩ := shared_of_mem floats environ name hname
    obtain ⟨value, hvalue⟩ := isSome_of_submit h ho fun hnone => hrequired (hdefault hnone).1
    exact ⟨value, by rw [← hoName]; exact hvalue⟩
  -- a required option, of which the item is named
  have hitem : ∀ {name : String} (dest : String) {value : HyperValue},
      (name ∈ sharedNames ∧ name ∉ optionalNames ∧ destination name.toList = dest.toList) →
      value.str = (hyperAt floats args dest).str →
      ⟨name.toList, value⟩ ∈ submittedItems (submitArgs floats args) generatedRunId →
      sent.lookup name.toList = (args (destination name.toList)).map (ArgValue.str floats) := by
    rintro name dest value ⟨hname, hrequired, hdest⟩ hstr hmem
    obtain ⟨v, hv⟩ := hvalue hname hrequired
    rw [lookup_returned_of_mem hsent hmem, hstr, hyperAt, ← hdest, hv, Option.map_some, Option.elim_some,
      str_hyper]
  have htext : ∀ {name : String} (dest : String),
      (name ∈ sharedNames ∧ name ∉ optionalNames ∧ destination name.toList = dest.toList) →
      ⟨name.toList, .text (hyperAt floats args dest).str⟩ ∈
        submittedItems (submitArgs floats args) generatedRunId →
      sent.lookup name.toList = (args (destination name.toList)).map (ArgValue.str floats) :=
    fun dest hname => hitem dest hname rfl
  have hnumber : ∀ {name : String} (dest : String),
      (name ∈ sharedNames ∧ name ∉ optionalNames ∧ destination name.toList = dest.toList) →
      ⟨name.toList, hyperAt floats args dest⟩ ∈ submittedItems (submitArgs floats args) generatedRunId →
      sent.lookup name.toList = (args (destination name.toList)).map (ArgValue.str floats) :=
    fun dest hname => hitem dest hname rfl
  have hoptional : ∀ {key dest : Str},
      (buildHyperparameters (submitArgs floats args) generatedRunId).lookup key =
        (args dest).map (ArgValue.hyper floats) →
      sent.lookup key = (args dest).map (ArgValue.str floats) := by
    intro key dest hlookup
    rw [hsent key, Dict.lookup_mapValues, hlookup, Option.map_map]
    exact congrArg (fun f => (args dest).map f) (funext (str_hyper floats))
  rw [sharedNames_eq]
  simp only [List.forall_mem_cons]
  refine ⟨?_, ?_, ?_, ?_, ?_, ?_, ?_, ?_, ?_, ?_, ?_, ?_, ?_, ?_, ?_, ?_,
    fun _ h => (List.not_mem_nil h).elim⟩
  · exact htext "corpus_version" (by decide +kernel)
      (by simp [submittedItems, leadItems, coreItems, submitArgs])
  · exact htext "direction" (by decide +kernel) (by simp [submittedItems, leadItems, coreItems, submitArgs])
  · exact htext "base_model" (by decide +kernel) (by simp [submittedItems, leadItems, coreItems, submitArgs])
  · exact hnumber "epochs" (by decide +kernel) (by simp [submittedItems, coreItems, submitArgs])
  · exact hnumber "batch_size" (by decide +kernel) (by simp [submittedItems, coreItems, submitArgs])
  · exact hnumber "learning_rate" (by decide +kernel) (by simp [submittedItems, coreItems, submitArgs])
  · exact hnumber "max_length" (by decide +kernel) (by simp [submittedItems, coreItems, submitArgs])
  · exact hnumber "seed" (by decide +kernel) (by simp [submittedItems, coreItems, submitArgs])
  · exact hnumber "warmup_ratio" (by decide +kernel) (by simp [submittedItems, coreItems, submitArgs])
  · exact hnumber "weight_decay" (by decide +kernel) (by simp [submittedItems, coreItems, submitArgs])
  · exact hnumber "label_smoothing" (by decide +kernel) (by simp [submittedItems, coreItems, submitArgs])
  · exact hnumber "gradient_accumulation_steps" (by decide +kernel)
      (by simp [submittedItems, coreItems, submitArgs])
  · exact hnumber "subword_vocab_size" (by decide +kernel) (by simp [submittedItems, coreItems, submitArgs])
  · exact hoptional (lookup_dropout _ generatedRunId)
  · exact hoptional (lookup_bpeDropoutAlpha _ generatedRunId)
  · exact htext "embedding_init_strategy" (by decide +kernel)
      (by simp [submittedItems, leadItems, coreItems, submitArgs])

/-- What the training run receives for an option -/
theorem received {environ : Str → Option Str} {args' : Namespace (ArgValue F)}
    (hstores : ∀ item ∈ sent.entries, (trainParser floats environ).Stores item.1)
    (hparse : (trainParser floats environ).parseArgs (Parser.cliArgs sent.entries) = .ok args')
    {o' : Opt (ArgValue F)} (ho' : o' ∈ (trainParser floats environ).options) :
    (sent.lookup o'.name = none ∧ args' o'.dest = o'.default) ∨
      ∃ arg value, sent.lookup o'.name = some arg ∧ o'.Converts arg value ∧ args' o'.dest = some value := by
  rcases (trainParser_lawful floats environ).parseArgs_cliArgs sent.nodupKeys hstores hparse o' ho' with
    ⟨hkey, hdefault⟩ | ⟨arg, value, hmem, hconverts, hvalue⟩
  · exact .inl ⟨List.dlookup_eq_none.2 hkey, hdefault⟩
  · exact .inr ⟨arg, value, List.mem_dlookup sent.nodupKeys hmem, hconverts, hvalue⟩

/-- The options of a training run, from those of its submission -/
structure Reaches (floats : FloatText F) (environ : Str → Option Str) (args args' : Namespace (ArgValue F))
    (generatedRunId : Str) : Prop where
  shared : ∀ name ∈ sharedNames, args' (destination name.toList) = args (destination name.toList)
  run_id : args' "run_id".toList = some (.text ((given (textAt floats args "run_id")).getD generatedRunId))
  train : args' "train".toList = some (.text trainContainerPath)
  validation : args' "validation".toList = some (.text validationContainerPath)
  init_model : args' "init_model".toList =
    (given (textAt floats args "init_model_s3_uri")).map fun uri => .text (initModelContainerPath uri)
  model_dir : args' "model_dir".toList =
    some (.text ((environ "SM_MODEL_DIR".toList).getD "./model-output".toList))
  output_data_dir : args' "output_data_dir".toList =
    some (.text ((environ "SM_OUTPUT_DATA_DIR".toList).getD "./output-data".toList))
  checkpoint_dir : args' "checkpoint_dir".toList = some (.text "/opt/ml/checkpoints".toList)

def leadNames : List String := ["train", "validation", "run-id", "init-model"]

/-- A hyperparameter is shared, or an option of the training run that takes any text. -/
theorem option_of_key (floats : FloatText F) (environ : Str → Option Str) : ∀ key ∈ submittedKeys,
    key ∈ sharedNames.map String.toList ∨
      key ∈ leadNames.map String.toList ∧ ∃ o' ∈ (trainParser floats environ).options, o'.name = key ∧
        o'.action = .store fun s => some (.text s) := by
  have hkeys : ∀ key ∈ submittedKeys,
      key ∈ sharedNames.map String.toList ∨ key ∈ leadNames.map String.toList := by
    decide +kernel
  refine fun key hkey => (hkeys key hkey).imp_right fun hlead => ⟨hlead, ?_⟩
  simp only [leadNames, List.map_cons, List.map_nil, List.mem_cons, List.not_mem_nil, or_false] at hlead
  rcases hlead with rfl | rfl | rfl | rfl
  · exact ⟨requiredOption "train", by simp [trainParser], rfl, rfl⟩
  · exact ⟨requiredOption "validation", by simp [trainParser], rfl, rfl⟩
  · exact ⟨textOption "run-id" none, by simp [trainParser], rfl, rfl⟩
  · exact ⟨textOption "init-model" none, by simp [trainParser], rfl, rfl⟩

/-- Every hyperparameter is an option of the training run, and its text is converted. -/
theorem converts_sent (environ : Str → Option Str) (h : (submitParser floats).parseArgs argv = .ok args)
    (hsent : sent.Same
      ((buildHyperparameters (submitArgs floats args) generatedRunId).mapValues HyperValue.str)) :
    ∀ item ∈ sent.entries, ∃ o' ∈ (trainParser floats environ).options, o'.name = item.1 ∧
      ∃ value, o'.Converts item.2 value := by
  rintro ⟨key, arg⟩ hitem
  have hlookup : sent.lookup key = some arg := List.mem_dlookup sent.nodupKeys hitem
  rcases option_of_key floats environ key (mem_submittedKeys hsent (List.mem_keys_of_mem hitem)) with
    hshared | ⟨-, o', ho', hkey, haction⟩
  · obtain ⟨name, hname, rfl⟩ := List.mem_map.1 hshared
    obtain ⟨o, ho, o', ho', hoName, ho'Name, hread, -⟩ := shared_of_mem floats environ name hname
    rw [lookup_sent environ h hsent name hname] at hlookup
    obtain ⟨value, hvalue, rfl⟩ := Option.map_eq_some_iff.1 hlookup
    rw [← hoName] at hvalue
    exact ⟨o', ho', ho'Name, value, hread value (value_of_submit h ho hvalue)⟩
  · exact ⟨o', ho', hkey, .text arg, _, haction, rfl⟩

/-- What is sent of the options that are not shared -/
structure LeadSent (floats : FloatText F) (args : Namespace (ArgValue F)) (generatedRunId : Str)
    (sent : Dict Str Str) : Prop where
  train : sent.lookup "train".toList = some trainContainerPath
  validation : sent.lookup "validation".toList = some validationContainerPath
  corpus_version : sent.lookup "corpus-version".toList = some (submitArgs floats args).corpusVersion
  run_id : sent.lookup "run-id".toList = some ((given (textAt floats args "run_id")).getD generatedRunId)
  init_model : sent.lookup "init-model".toList =
    (given (textAt floats args "init_model_s3_uri")).map initModelContainerPath

omit [OfScientific F] in
theorem leadSent
    (hsent : sent.Same
      ((buildHyperparameters (submitArgs floats args) generatedRunId).mapValues HyperValue.str)) :
    LeadSent floats args generatedRunId sent := by
  have hlead : ∀ q ∈ leadItems (submitArgs floats args) generatedRunId, sent.lookup q.1 = some q.2.str := by
    intro q hq
    refine lookup_returned_of_mem hsent ?_
    simp only [submittedItems, List.append_assoc]
    exact List.mem_append_left _ hq
  simp only [leadItems, List.forall_mem_cons] at hlead
  obtain ⟨htrain, hvalidation, hcorpus, -, -, hrunId, -⟩ := hlead
  refine ⟨htrain, hvalidation, hcorpus, hrunId, ?_⟩
  rw [hsent, Dict.lookup_mapValues, lookup_initModel, Option.map_map]
  rfl

theorem stores_sent (environ : Str → Option Str) (h : (submitParser floats).parseArgs argv = .ok args)
    (hsent : sent.Same
      ((buildHyperparameters (submitArgs floats args) generatedRunId).mapValues HyperValue.str)) :
    ∀ item ∈ sent.entries, (trainParser floats environ).Stores item.1 := by
  intro item hitem
  obtain ⟨o', ho', hkey, value, convert, haction, -⟩ := converts_sent environ h hsent item hitem
  exact ⟨o', ho', hkey, convert, haction⟩

theorem training_starts_iff (environ : Str → Option Str) (h : (submitParser floats).parseArgs argv = .ok args)
    (hsent : sent.Same
      ((buildHyperparameters (submitArgs floats args) generatedRunId).mapValues HyperValue.str)) :
    (∃ args', (trainParser floats environ).parseArgs (Parser.cliArgs sent.entries) = .ok args') ↔
      ∀ item ∈ sent.entries, (trainParser floats environ).isArgument item.2 = true := by
  have hlead := leadSent hsent
  have hrequired : ∀ o' ∈ (trainParser floats environ).options, o'.required = true →
      o'.name ∈ sent.entries.keys := by
    intro o' ho' hrequired
    have hfilter : ((trainParser floats environ).options.filter Opt.required).map Opt.name =
        ["train".toList, "validation".toList, "corpus-version".toList] := rfl
    have hname : o'.name ∈ ((trainParser floats environ).options.filter Opt.required).map Opt.name :=
      List.mem_map_of_mem (List.mem_filter.2 ⟨ho', hrequired⟩)
    have hkey : ∀ {key : Str} {arg : Str}, sent.lookup key = some arg → key ∈ sent.entries.keys :=
      fun hlookup => List.mem_keys_of_mem (List.of_mem_dlookup hlookup)
    rw [hfilter] at hname
    simp only [List.mem_cons, List.not_mem_nil, or_false] at hname
    rcases hname with hname | hname | hname <;> rw [hname]
    · exact hkey hlead.train
    · exact hkey hlead.validation
    · exact hkey hlead.corpus_version
  refine ((trainParser_lawful floats environ).exists_parseArgs_cliArgs_iff sent.nodupKeys
    (stores_sent environ h hsent) hrequired).trans ?_
  exact forall₂_congr fun item hitem => and_iff_left (converts_sent environ h hsent item hitem)

theorem reaches_of_starts {environ : Str → Option Str} (h : (submitParser floats).parseArgs argv = .ok args)
    (hsent : sent.Same
      ((buildHyperparameters (submitArgs floats args) generatedRunId).mapValues HyperValue.str))
    {args' : Namespace (ArgValue F)}
    (hparse : (trainParser floats environ).parseArgs (Parser.cliArgs sent.entries) = .ok args') :
    Reaches floats environ args args' generatedRunId := by
  have hlead := leadSent hsent
  -- an option that takes any text
  have htext : ∀ o' : Opt (ArgValue F), o' ∈ (trainParser floats environ).options →
      (o'.action = .store fun s => some (.text s)) → (sent.lookup o'.name = none → o'.default = none) →
      args' o'.dest = (sent.lookup o'.name).map .text := by
    intro o' ho' haction hnone
    rcases received (stores_sent environ h hsent) hparse ho' with
      ⟨hlookup, hvalue⟩ | ⟨arg, value, hlookup, hconverts, hvalue⟩
    · rw [hvalue, hnone hlookup, hlookup]
      rfl
    · rw [hvalue, hlookup, hconverts.unique ⟨_, haction, rfl⟩]
      rfl
  have hdirectory : ∀ o' : Opt (ArgValue F), o' ∈ (trainParser floats environ).options →
      o'.name ∉ submittedKeys → args' o'.dest = o'.default := by
    intro o' ho' hkey
    rcases received (stores_sent environ h hsent) hparse ho' with ⟨-, hvalue⟩ | ⟨arg, value, hlookup, -, -⟩
    · exact hvalue
    · exact absurd (mem_submittedKeys hsent (List.mem_keys_of_mem (List.of_mem_dlookup hlookup))) hkey
  refine ⟨fun name hname => ?_, ?_, ?_, ?_, ?_, ?_, ?_, ?_⟩
  · obtain ⟨o, ho, o', ho', hoName, ho'Name, hread, hdefault⟩ := shared_of_mem floats environ name hname
    have hsame : sent.lookup o'.name = (args o.dest).map (ArgValue.str floats) := by
      rw [ho'Name, lookup_sent environ h hsent name hname, Opt.dest, hoName]
    have hdest : args' o'.dest = args o.dest := by
      rcases received (stores_sent environ h hsent) hparse ho' with
        ⟨hlookup, hvalue⟩ | ⟨arg, value, hlookup, hconverts, hvalue⟩
      · have hnone : args o.dest = none := Option.map_eq_none_iff.1 (hsame.symm.trans hlookup)
        have hleft : o.default = none := by
          by_contra hsome
          obtain ⟨v, hv⟩ := isSome_of_submit h ho hsome
          rw [hnone] at hv
          cases hv
        rw [hvalue, hnone, (hdefault hleft).2]
      · obtain ⟨v, hv, rfl⟩ := Option.map_eq_some_iff.1 (hsame.symm.trans hlookup)
        rw [hvalue, hv, hconverts.unique (hread v (value_of_submit h ho hv))]
    rwa [Opt.dest, Opt.dest, hoName, ho'Name] at hdest
  · refine (htext (textOption "run-id" none) (by simp [trainParser]) rfl fun _ => rfl).trans ?_
    exact congrArg (Option.map _) hlead.run_id
  · refine (htext (requiredOption "train") (by simp [trainParser]) rfl fun _ => rfl).trans ?_
    exact congrArg (Option.map _) hlead.train
  · refine (htext (requiredOption "validation") (by simp [trainParser]) rfl fun _ => rfl).trans ?_
    exact congrArg (Option.map _) hlead.validation
  · refine (htext (textOption "init-model" none) (by simp [trainParser]) rfl fun _ => rfl).trans ?_
    refine (congrArg (Option.map _) hlead.init_model).trans ?_
    rw [Option.map_map]
    rfl
  · have hkey : "model-dir".toList ∉ submittedKeys := by decide +kernel
    exact hdirectory _ (List.mem_of_getElem? (i := 3) rfl) hkey
  · have hkey : "output-data-dir".toList ∉ submittedKeys := by decide +kernel
    exact hdirectory _ (List.mem_of_getElem? (i := 4) rfl) hkey
  · have hkey : "checkpoint-dir".toList ∉ submittedKeys := by decide +kernel
    exact hdirectory _ (List.mem_of_getElem? (i := 5) rfl) hkey

theorem isArgument_intStr (environ : Str → Option Str) (n : ℤ) :
    (trainParser floats environ).isArgument (intStr n) = true := by
  cases n with
  | ofNat n =>
    refine Parser.isArgument_of_head fun hhead => ?_
    exact absurd (isDigit_of_mem_natStr (List.mem_of_head? hhead)) (by decide)
  | negSucc n =>
    exact Parser.isArgument_of_digits (natStr_ne_nil _) (fun c hc => isDecimal_of_mem_natStr hc)
      fun c hc => isDigit_of_mem_natStr hc

/-- Every hyperparameter is read as an argument if no text and no floating-point number that is submitted
begins with a dash. -/
theorem isArgument_sent (environ : Str → Option Str) (h : (submitParser floats).parseArgs argv = .ok args)
    (hsent : sent.Same
      ((buildHyperparameters (submitArgs floats args) generatedRunId).mapValues HyperValue.str))
    (hgenerated : generatedRunId.head? ≠ some '-')
    (hvalues : ∀ name ∈ "run-id" :: sharedNames, ∀ value, args (destination name.toList) = some value →
      (∃ n, value = .int n) ∨ (value.str floats).head? ≠ some '-') :
    ∀ item ∈ sent.entries, (trainParser floats environ).isArgument item.2 = true := by
  have hvalue : ∀ name ∈ "run-id" :: sharedNames, ∀ value, args (destination name.toList) = some value →
      (trainParser floats environ).isArgument (value.str floats) = true := by
    intro name hname value hvalue
    rcases hvalues name hname value hvalue with ⟨n, rfl⟩ | hhead
    · exact isArgument_intStr environ n
    · exact Parser.isArgument_of_head hhead
  have hlead := leadSent hsent
  rintro ⟨key, arg⟩ hitem
  have hlookup : sent.lookup key = some arg := List.mem_dlookup sent.nodupKeys hitem
  -- the container paths begin with a slash
  have hpath : ∀ {arg : Str}, arg.head? = some '/' → (trainParser floats environ).isArgument arg = true := by
    intro arg hhead
    refine Parser.isArgument_of_head ?_
    rw [hhead]
    decide
  rcases option_of_key floats environ key (mem_submittedKeys hsent (List.mem_keys_of_mem hitem)) with
    hshared | ⟨hname, -⟩
  · obtain ⟨name, hname, rfl⟩ := List.mem_map.1 hshared
    rw [lookup_sent environ h hsent name hname] at hlookup
    obtain ⟨value, hgiven, rfl⟩ := Option.map_eq_some_iff.1 hlookup
    exact hvalue name (List.mem_cons_of_mem _ hname) value hgiven
  · simp only [leadNames, List.map_cons, List.map_nil, List.mem_cons, List.not_mem_nil, or_false] at hname
    rcases hname with rfl | rfl | rfl | rfl
    · obtain rfl := Option.some.inj (hlead.train.symm.trans hlookup)
      exact hpath rfl
    · obtain rfl := Option.some.inj (hlead.validation.symm.trans hlookup)
      exact hpath rfl
    · obtain rfl := Option.some.inj (hlead.run_id.symm.trans hlookup)
      cases hgiven : given (textAt floats args "run_id") with
      | none => exact Parser.isArgument_of_head hgenerated
      | some runId =>
        obtain ⟨value, hrunId, rfl⟩ := Option.map_eq_some_iff.1 (Option.eq_some_of_filter_eq_some hgiven)
        exact hvalue "run-id" (List.mem_cons_self ..) value hrunId
    · obtain ⟨uri, -, rfl⟩ := Option.map_eq_some_iff.1 (hlead.init_model.symm.trans hlookup)
      exact hpath rfl

/-- The training run starts exactly if every hyperparameter is read as an argument; its options are then those
of the submission. -/
theorem submission_reaches_training {cliArgs : Dict Str Str → List Str} (hflags : LiteralFlags cliArgs)
    (environ : Str → Option Str) (h : (submitParser floats).parseArgs argv = .ok args)
    (hsent : sent.Same
      ((buildHyperparameters (submitArgs floats args) generatedRunId).mapValues HyperValue.str)) :
    ((∃ args', (trainParser floats environ).parseArgs (cliArgs sent) = .ok args') ↔
        ∀ item ∈ sent.entries, (trainParser floats environ).isArgument item.2 = true) ∧
      ∀ args', (trainParser floats environ).parseArgs (cliArgs sent) = .ok args' →
        Reaches floats environ args args' generatedRunId := by
  obtain ⟨flags, hsame, hperm, hargs⟩ := hflags.exists_same sent
  have hflagsSent : flags.Same
      ((buildHyperparameters (submitArgs floats args) generatedRunId).mapValues HyperValue.str) :=
    fun key => (hsame key).trans (hsent key)
  rw [hargs]
  refine ⟨(training_starts_iff environ h hflagsSent).trans ?_, fun _ => reaches_of_starts h hflagsSent⟩
  exact forall_congr' fun item => imp_congr_left hperm.mem_iff

end Sent

/-- Numbers in the form in which `repr` gives them -/
structure DecimalText where
  repr : Str

def decimalText : FloatText DecimalText := ⟨fun s => some ⟨s⟩, DecimalText.repr, fun _ => rfl⟩

instance instOfScientificDecimalText : OfScientific DecimalText :=
  ⟨fun mantissa _ exponent =>
    ⟨if exponent < 5 then
        "0.".toList ++ (List.replicate (exponent - (natStr mantissa).length) '0' ++ natStr mantissa)
      else natStr mantissa ++ "e-0".toList ++ natStr exponent⟩⟩

/-- A continuation, with a negative seed -/
def continuationArgv : List Str :=
  ["--init-model-s3-uri", "s3://models/run-1/model.tar.gz", "--epochs", "13", "--label-smoothing", "0.1",
    "--seed=-1"].map String.toList

def continuationArgs : Namespace (ArgValue DecimalText) :=
  ((submitParser decimalText).parseArgs continuationArgv).toOption.getD fun _ => none

theorem submission_reaches_training_continuation : ∃ args',
    (trainParser decimalText fun _ => none).parseArgs (Parser.cliArgs
      ((buildHyperparameters (submitArgs decimalText continuationArgs) "run-2".toList).mapValues
        HyperValue.str).entries) = .ok args' ∧
      Reaches decimalText (fun _ => none) continuationArgs args' "run-2".toList := by
  have hargs : (submitParser decimalText).parseArgs continuationArgv = .ok continuationArgs := by
    have hok : ((submitParser decimalText).parseArgs continuationArgv).isOk = true := by decide +kernel
    unfold continuationArgs
    cases hparse : (submitParser decimalText).parseArgs continuationArgv with
    | ok args => rfl
    | error e =>
      rw [hparse] at hok
      cases hok
  have hsent : ((buildHyperparameters (submitArgs decimalText continuationArgs) "run-2".toList).mapValues
      HyperValue.str).Same ((buildHyperparameters (submitArgs decimalText continuationArgs)
        "run-2".toList).mapValues HyperValue.str) := fun _ => rfl
  have hflags : LiteralFlags fun hyperparameters => Parser.cliArgs hyperparameters.entries :=
    fun hyperparameters => ⟨_, .refl _, rfl⟩
  obtain ⟨hstart, hreaches⟩ := submission_reaches_training hflags (fun _ => none) hargs hsent
  obtain ⟨args', hparse⟩ := hstart.2 (by decide +kernel)
  exact ⟨args', hparse, hreaches args' hparse⟩

end KaqTranslator
