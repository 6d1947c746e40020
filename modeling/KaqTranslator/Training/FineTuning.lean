import KaqTranslator.Library.Causal
import KaqTranslator.Training.Generation

/-!
# What fine-tuning learns from (`train.py`)

`fine_tune` gives the trainer a data set that encodes an example each time it is fetched, if asked to with
sampled segmentations, and a collator that adds the decoder inputs to a batch.  The tokenizer that is in use
everywhere is patched while an example is encoded.

With the weights of some moment and without dropout, an epoch asks the model for each label of each example
that it has fetched, after the start symbol and the labels before it: what stands beside an example in its
batch makes no difference, nor does label smoothing.  The labels are those of the example's own target text
(`ItemOf`).  Afterwards the tokenizer is as before (`epoch_teacher_forced`).
-/

namespace KaqTranslator

open Causal

/-! ### The tokenizer -/

def defaultSubwordSamplingNbestSize : ℤ := -1

/-- What `tokenizer._tokenize` is bound to: the method of its class, or `_sampled_tokenize` -/
inductive TokenizeMethod (A : Type) where
  | original
  | sampled (nbest_size : ℤ) (alpha : A)

/-- The keyword arguments of a call of the tokenizer, beside `truncation=True` -/
structure TokenizerKwargs where
  max_length : ℕ
  add_special_tokens : Bool

/-- The tokenizer as the data set calls it.  Only a sampled segmentation draws from the sampler, whose state
is an `R`; `truncation` cuts to `max_length` what has no special tokens. -/
structure SeqTokenizer (A R ε : Type) where
  convertTokensToIds : Str → ℕ
  eos_token_id : ℕ
  has_sp_model : Bool
  encode : TokenizerKwargs → Str → Except ε (List ℕ)
  sample : ℤ → A → TokenizerKwargs → Str → R → Except ε (List ℕ) × R
  encode_length : ∀ kwargs text ids, kwargs.add_special_tokens = false → encode kwargs text = .ok ids →
    ids.length ≤ kwargs.max_length
  sample_length : ∀ nbest_size alpha kwargs text r ids, kwargs.add_special_tokens = false →
    (sample nbest_size alpha kwargs text r).1 = .ok ids → ids.length ≤ kwargs.max_length

/-- The tokenizer object between two calls -/
structure LiveTokenizer (A R : Type) where
  tokenize : TokenizeMethod A
  sampler : R

/-- Code that uses the tokenizer, and may raise -/
abbrev TokenizerM (A R ε : Type) := ExceptT ε (StateM (LiveTokenizer A R))

namespace SeqTokenizer

variable {A R ε α : Type} (t : SeqTokenizer A R ε)

def call (kwargs : TokenizerKwargs) (text : Str) : TokenizerM A R ε (List ℕ) := ExceptT.mk fun s =>
  match s.tokenize with
  | .original => (t.encode kwargs text, s)
  | .sampled nbest_size alpha =>
    let (ids, sampler) := t.sample nbest_size alpha kwargs text s.sampler
    (ids, { s with sampler := sampler })

/-- A call with this `_tokenize` can return these identifiers. -/
def Encodes (method : TokenizeMethod A) (kwargs : TokenizerKwargs) (text : Str) (ids : List ℕ) : Prop :=
  ∃ sampler, ((t.call kwargs text).run ⟨method, sampler⟩).1 = .ok ids

/-- `enable_subword_sampling`, around `body` -/
def enableSubwordSampling (alpha : A) (body : TokenizerM A R ε α) : TokenizerM A R ε α := ExceptT.mk fun s =>
  if t.has_sp_model then
    let original_tokenize := s.tokenize
    let (result, s) := body.run { s with tokenize := .sampled defaultSubwordSamplingNbestSize alpha }
    -- the `finally` block, also after an exception
    (result, { s with tokenize := original_tokenize })
  else body.run s

end SeqTokenizer

/-! ### The data set -/

structure TranslationDataset (A : Type) where
  examples : List TranslationExample
  max_length : ℕ
  subword_dropout_alpha : Option A

structure ModelInputs where
  input_ids : List ℕ
  labels : List ℕ
  deriving DecidableEq

namespace TranslationDataset

variable {A R ε α : Type} (d : TranslationDataset A) (t : SeqTokenizer A R ε)

def encodingContext (body : TokenizerM A R ε α) : TokenizerM A R ε α :=
  match d.subword_dropout_alpha with
  | none => body
  | some alpha => t.enableSubwordSampling alpha body

/-- `max(1, self._max_length - 2)` -/
def targetBudget : ℕ := max 1 (d.max_length - 2)

/-- `__getitem__` -/
def getItem (index : Fin d.examples.length) : TokenizerM A R ε ModelInputs := do
  let e := d.examples[index]
  let target_tag_id := t.convertTokensToIds (directionTag e.target_lang)
  let (input_ids, target_ids) ← d.encodingContext t do
    let input_ids ← t.call ⟨d.max_length, true⟩ (tagSourceText e.source_text e.target_lang)
    let target_ids ← t.call ⟨d.targetBudget, false⟩ e.target_text
    return (input_ids, target_ids)
  return ⟨input_ids, target_tag_id :: (target_ids ++ [t.eos_token_id])⟩

end TranslationDataset

/-! ### The batches -/

/-- The label at which the loss is not computed -/
def ignoreIndex : ℤ := -100

def ModelInputs.labelIds (item : ModelInputs) : List ℤ := item.labels.map Int.ofNat

/-- The length to which the labels of a batch are padded -/
def labelWidth (items : List ModelInputs) : ℕ := (items.map fun item => item.labels.length).foldr max 0

/-- A collated batch; the inputs of the encoder are an `X`. -/
structure Batch (X : Type) where
  inputs : X
  labels : Option (List (List ℤ))
  decoder_input_ids : Option (List (List ℤ))

/-- What fine-tuning uses of transformers, with the weights of some moment and without dropout: the collator,
which pads the labels, `shift_tokens_right` of the model, and the forward pass, which treats each example by
itself and each position by what comes before it. -/
structure Seq2SeqModel (X L : Type) where
  pad_token_id : ℕ
  decoder_start_token_id : ℕ
  baseCollator : List ModelInputs → Batch X  -- `DataCollatorForSeq2Seq`
  shiftTokensRight : List (List ℤ) → ℤ → ℤ → List (List ℤ)
  forward : X → List (List ℤ) → List (List L)  -- the logits at each position
  decode : List ℕ → List ℤ → List L  -- those of a single example
  baseCollator_labels : ∀ items, items ≠ [] → (baseCollator items).labels =
    some (items.map fun item => padRight (labelWidth items) ignoreIndex item.labelIds)
  shiftTokensRight_eq : ∀ rows width pad start, 0 < width → (∀ row ∈ rows, row.length = width) →
    shiftTokensRight rows pad start = rows.map (shiftRight start ignoreIndex pad)
  forward_rowwise : ∀ items rows, items ≠ [] → rows.length = items.length →
    forward (baseCollator items).inputs rows =
      List.zipWith (fun item row => decode item.input_ids row) items rows
  decode_causal : ∀ input_ids, IsCausal (decode input_ids)

namespace Seq2SeqModel

variable {X L : Type} (m : Seq2SeqModel X L)

def attachDecoderInputIds (batch : Batch X) : Batch X :=
  match batch.labels with
  | none => batch
  | some labels =>
    { batch with
      decoder_input_ids := some (m.shiftTokensRight labels m.pad_token_id m.decoder_start_token_id) }

/-- `build_data_collator` -/
def collate (items : List ModelInputs) : Batch X := m.attachDecoderInputIds (m.baseCollator items)

/-- The decoder inputs of a training step.  The model makes its own from the labels, but the trainer does not
pass it the labels if it smooths them. -/
def decoderInputs (label_smoothing : Bool) (batch : Batch X) : Option (List (List ℤ)) :=
  match batch.decoder_input_ids, batch.labels with
  | some ids, _ => some ids
  | none, some labels =>
    if label_smoothing then none
    else some (m.shiftTokensRight labels m.pad_token_id m.decoder_start_token_id)
  | none, none => none

/-- The logits from which a training step computes its loss, with their labels; `none` if the decoder has no
inputs -/
def lossTerms (label_smoothing : Bool) (batch : Batch X) : Option (List (L × ℤ)) := do
  let ids ← m.decoderInputs label_smoothing batch
  let labels ← batch.labels
  return (List.zipWith (supervised ignoreIndex) (m.forward batch.inputs ids) labels).flatten

/-- What an example by itself is asked for, label by label -/
def teacherForced (item : ModelInputs) : List (Option L × ℤ) :=
  Causal.teacherForced (m.decode item.input_ids) [(m.decoder_start_token_id : ℤ)] item.labelIds

end Seq2SeqModel

inductive TrainingError (ε : Type) where
  | encoding (e : ε)
  | noDecoderInputs

section Epoch

variable {A R ε X L : Type} (m : Seq2SeqModel X L) (t : SeqTokenizer A R ε) (d : TranslationDataset A)
  (label_smoothing : Bool)

/-- The loss terms of a step, from the indices of its batch -/
def trainingStep (indices : List (Fin d.examples.length)) :
    TokenizerM A R (TrainingError ε) (List (L × ℤ)) := do
  let items ← ExceptT.adapt TrainingError.encoding (indices.mapM (d.getItem t))
  match m.lossTerms label_smoothing (m.collate items) with
  | none => throw .noDecoderInputs
  | some terms => return terms

/-- The loss terms of an epoch, batch by batch -/
def epoch (batches : List (List (Fin d.examples.length))) :
    TokenizerM A R (TrainingError ε) (List (List (L × ℤ))) :=
  batches.mapM (trainingStep m t d label_smoothing)

end Epoch

/-! ### The patch -/

section Patch

variable {A R ε α β : Type} {t : SeqTokenizer A R ε} {d : TranslationDataset A}

/-- The code leaves `_tokenize` bound to what it was bound to, however it ends. -/
def KeepsTokenize (body : TokenizerM A R ε α) : Prop := ∀ s, (body.run s).2.tokenize = s.tokenize

theorem keepsTokenize_pure (a : α) : KeepsTokenize (pure a : TokenizerM A R ε α) := fun _ => rfl

theorem run_bind (body : TokenizerM A R ε α) (k : α → TokenizerM A R ε β) (s : LiveTokenizer A R) :
    (body >>= k).run s = match body.run s with
      | (.ok a, s) => (k a).run s
      | (.error e, s) => (.error e, s) := by
  have hrun : (body >>= k).run s = match (body.run s).1 with
      | .ok a => (k a).run (body.run s).2
      | .error e => (.error e, (body.run s).2) := by
    rw [ExceptT.run_bind]
    show (match (body.run s).1 with | .ok a => (k a).run | .error e => pure (.error e)) (body.run s).2 = _
    cases (body.run s).1 <;> rfl
  rw [hrun]
  rcases body.run s with ⟨_ | a, s⟩ <;> rfl

theorem KeepsTokenize.bind {body : TokenizerM A R ε α} {k : α → TokenizerM A R ε β} (h : KeepsTokenize body)
    (hk : ∀ a, KeepsTokenize (k a)) : KeepsTokenize (body >>= k) := by
  intro s
  have hbody := h s
  rw [run_bind]
  rcases hrun : body.run s with ⟨_ | a, s₁⟩
  · rwa [hrun] at hbody
  · rw [hrun] at hbody
    exact (hk a s₁).trans hbody

theorem keepsTokenize_call (kwargs : TokenizerKwargs) (text : Str) : KeepsTokenize (t.call kwargs text) := by
  intro s
  simp only [SeqTokenizer.call, ExceptT.run_mk]
  cases hs : s.tokenize with
  | original => exact hs
  | sampled nbest_size alpha => rfl

theorem KeepsTokenize.encodingContext {body : TokenizerM A R ε α} (h : KeepsTokenize body) :
    KeepsTokenize (d.encodingContext t body) := by
  intro s
  unfold TranslationDataset.encodingContext
  cases d.subword_dropout_alpha with
  | none => exact h s
  | some alpha =>
    simp only [SeqTokenizer.enableSubwordSampling, ExceptT.run_mk]
    split
    · rfl
    · exact h s

theorem keepsTokenize_getItem (index : Fin d.examples.length) : KeepsTokenize (d.getItem t index) := by
  refine KeepsTokenize.bind (KeepsTokenize.encodingContext ?_) fun _ => keepsTokenize_pure _
  refine (keepsTokenize_call _ _).bind fun _ => ?_
  exact (keepsTokenize_call _ _).bind fun _ => keepsTokenize_pure _

theorem KeepsTokenize.mapM {f : α → TokenizerM A R ε β} (h : ∀ a, KeepsTokenize (f a)) (as : List α) :
    KeepsTokenize (as.mapM f) := by
  induction as with
  | nil => exact keepsTokenize_pure []
  | cons a as ih =>
    rw [List.mapM_cons]
    exact (h a).bind fun _ => ih.bind fun _ => keepsTokenize_pure _

theorem run_adapt {ε' : Type} (f : ε → ε') (body : TokenizerM A R ε α) (s : LiveTokenizer A R) :
    (ExceptT.adapt f body).run s = ((body.run s).1.mapError f, (body.run s).2) := rfl

theorem KeepsTokenize.adapt {body : TokenizerM A R ε α} (h : KeepsTokenize body) {ε' : Type} (f : ε → ε') :
    KeepsTokenize (ExceptT.adapt f body) := h

theorem keepsTokenize_trainingStep {X L : Type} (m : Seq2SeqModel X L) (label_smoothing : Bool)
    (indices : List (Fin d.examples.length)) :
    KeepsTokenize (trainingStep m t d label_smoothing indices) := by
  refine ((KeepsTokenize.mapM keepsTokenize_getItem indices).adapt _).bind fun items => ?_
  cases m.lossTerms label_smoothing (m.collate items) with
  | none => exact fun _ => rfl
  | some terms => exact keepsTokenize_pure terms

end Patch

/-! ### The items -/

section Items

variable {A R ε α β : Type} {t : SeqTokenizer A R ε} {d : TranslationDataset A} {s s' : LiveTokenizer A R}

/-- What `_tokenize` is while an example is encoded, if it is `method` before and after -/
def TranslationDataset.encodingMethod (d : TranslationDataset A) (t : SeqTokenizer A R ε)
    (method : TokenizeMethod A) : TokenizeMethod A :=
  match d.subword_dropout_alpha with
  | some alpha => if t.has_sp_model then .sampled defaultSubwordSamplingNbestSize alpha else method
  | none => method

/-- An item of the example `e`.  The inputs encode its tagged source text; the labels are the tag of its
target language, with which generation is forced to begin, what encodes its target text, and the end of the
sentence. -/
structure ItemOf (t : SeqTokenizer A R ε) (d : TranslationDataset A) (method : TokenizeMethod A)
    (e : TranslationExample) (item : ModelInputs) : Prop where
  input_ids : t.Encodes method ⟨d.max_length, true⟩ (tagSourceText e.source_text e.target_lang) item.input_ids
  labels : ∃ target_ids, t.Encodes method ⟨d.targetBudget, false⟩ e.target_text target_ids ∧
    item.labels = t.convertTokensToIds (directionTag e.target_lang) :: (target_ids ++ [t.eos_token_id])
  labels_length : item.labels.length ≤ max 3 d.max_length

/-- The item without sampling -/
def TranslationDataset.plainItem (d : TranslationDataset A) (t : SeqTokenizer A R ε)
    (index : Fin d.examples.length) : Except ε ModelInputs := do
  let e := d.examples[index]
  let target_tag_id := t.convertTokensToIds (directionTag e.target_lang)
  let encoded : Except ε (List ℕ × List ℕ) := do
    let input_ids ← t.encode ⟨d.max_length, true⟩ (tagSourceText e.source_text e.target_lang)
    let target_ids ← t.encode ⟨d.targetBudget, false⟩ e.target_text
    return (input_ids, target_ids)
  let (input_ids, target_ids) ← encoded
  return ⟨input_ids, target_tag_id :: (target_ids ++ [t.eos_token_id])⟩

theorem exists_of_run_bind {body : TokenizerM A R ε α} {k : α → TokenizerM A R ε β} {b : β}
    (h : (body >>= k).run s = (.ok b, s')) :
    ∃ a s₁, body.run s = (.ok a, s₁) ∧ (k a).run s₁ = (.ok b, s') := by
  rw [run_bind] at h
  rcases hrun : body.run s with ⟨_ | a, s₁⟩
  · rw [hrun] at h
    cases h
  · rw [hrun] at h
    exact ⟨a, s₁, rfl, h⟩

theorem SeqTokenizer.Encodes.length_le {method : TokenizeMethod A} {kwargs : TokenizerKwargs} {text : Str}
    {ids : List ℕ} (h : t.Encodes method kwargs text ids) (hspecial : kwargs.add_special_tokens = false) :
    ids.length ≤ kwargs.max_length := by
  obtain ⟨sampler, hcall⟩ := h
  cases method with
  | original => exact t.encode_length _ _ _ hspecial hcall
  | sampled nbest_size alpha => exact t.sample_length _ _ _ _ _ _ hspecial hcall

theorem encodes_of_run {kwargs : TokenizerKwargs} {text : Str} {ids : List ℕ}
    (h : (t.call kwargs text).run s = (.ok ids, s')) :
    t.Encodes s.tokenize kwargs text ids ∧ s'.tokenize = s.tokenize := by
  refine ⟨⟨s.sampler, congrArg Prod.fst h⟩, ?_⟩
  have hkept := keepsTokenize_call (t := t) kwargs text s
  rwa [h] at hkept

theorem exists_of_run_encodingContext {body : TokenizerM A R ε α} {a : α}
    (h : (d.encodingContext t body).run s = (.ok a, s')) :
    ∃ s₁ s₂, s₁.tokenize = d.encodingMethod t s.tokenize ∧ body.run s₁ = (.ok a, s₂) := by
  unfold TranslationDataset.encodingContext at h
  unfold TranslationDataset.encodingMethod
  cases halpha : d.subword_dropout_alpha with
  | none =>
    rw [halpha] at h
    exact ⟨s, s', rfl, h⟩
  | some alpha =>
    rw [halpha] at h
    simp only [SeqTokenizer.enableSubwordSampling, ExceptT.run_mk] at h
    dsimp only
    split at h
    · rename_i hmodel
      let patched : LiveTokenizer A R := { s with tokenize := .sampled defaultSubwordSamplingNbestSize alpha }
      rw [if_pos hmodel]
      exact ⟨patched, (body.run patched).2, rfl, Prod.ext (Prod.ext_iff.1 h).1 rfl⟩
    · rename_i hmodel
      rw [if_neg hmodel]
      exact ⟨s, s', rfl, h⟩

theorem itemOf_getItem {index : Fin d.examples.length} {item : ModelInputs}
    (h : (d.getItem t index).run s = (.ok item, s')) :
    ItemOf t d (d.encodingMethod t s.tokenize) d.examples[index] item := by
  obtain ⟨⟨input_ids, target_ids⟩, s₁, hcontext, hitem⟩ := exists_of_run_bind h
  obtain ⟨s₂, s₃, hmethod, hbody⟩ := exists_of_run_encodingContext hcontext
  obtain ⟨input_ids', s₄, hinput, hbody⟩ := exists_of_run_bind hbody
  obtain ⟨target_ids', s₅, htarget, hpair⟩ := exists_of_run_bind hbody
  cases hpair
  cases hitem
  obtain ⟨hsource, hkept⟩ := encodes_of_run hinput
  obtain ⟨hlabels, -⟩ := encodes_of_run htarget
  rw [hkept, hmethod] at hlabels
  rw [hmethod] at hsource
  refine ⟨hsource, ⟨target_ids, hlabels, rfl⟩, ?_⟩
  have hlength : target_ids.length ≤ max 1 (d.max_length - 2) := hlabels.length_le rfl
  simp only [List.length_cons, List.length_append, List.length_nil]
  omega

theorem run_bind_of_run {body : TokenizerM A R ε α} {k : α → TokenizerM A R ε β} {x : Except ε α}
    {y : α → Except ε β} (hbody : body.run s = (x, s)) (hk : ∀ a, (k a).run s = (y a, s)) :
    (body >>= k).run s = (x >>= y, s) := by
  rw [run_bind, hbody]
  cases x with
  | error e => rfl
  | ok a => exact hk a

theorem run_getItem_plain (halpha : d.subword_dropout_alpha = none) (hs : s.tokenize = .original)
    (index : Fin d.examples.length) : (d.getItem t index).run s = (d.plainItem t index, s) := by
  have hcall : ∀ kwargs text, (t.call kwargs text).run s = (t.encode kwargs text, s) := by
    intro kwargs text
    simp only [SeqTokenizer.call, ExceptT.run_mk, hs]
  have hcontext : ∀ {α : Type} (body : TokenizerM A R ε α), d.encodingContext t body = body := by
    intro α body
    rw [TranslationDataset.encodingContext, halpha]
  show (d.encodingContext t _ >>= _).run s = _
  rw [hcontext]
  refine run_bind_of_run (run_bind_of_run (hcall _ _) fun input_ids => ?_) fun _ => rfl
  exact run_bind_of_run (hcall _ _) fun _ => rfl

/-- The results of a loop are related to its inputs, if those of its body are in every state with this
method. -/
theorem forall₂_mapM {f : α → TokenizerM A R ε β} {r : α → β → Prop} {method : TokenizeMethod A}
    (hkeep : ∀ a, KeepsTokenize (f a))
    (hf : ∀ a s b s', s.tokenize = method → (f a).run s = (.ok b, s') → r a b) {as : List α} {bs : List β}
    (hs : s.tokenize = method) (h : (as.mapM f).run s = (.ok bs, s')) : List.Forall₂ r as bs := by
  induction as generalizing s bs with
  | nil =>
    cases h
    exact .nil
  | cons a as ih =>
    rw [List.mapM_cons] at h
    obtain ⟨b, s₁, hb, h⟩ := exists_of_run_bind h
    obtain ⟨bs', s₂, hbs, hcons⟩ := exists_of_run_bind h
    cases hcons
    have hs₁ : s₁.tokenize = method := by
      have hkept := hkeep a s
      rw [hb] at hkept
      exact hkept.trans hs
    exact .cons (hf a s b s₁ hs hb) (ih hs₁ hbs)

theorem exists_of_mapM_eq_error {f : α → TokenizerM A R ε β} {as : List α} {e : ε}
    (h : ((as.mapM f).run s).1 = .error e) : ∃ a ∈ as, ∃ s₁, ((f a).run s₁).1 = .error e := by
  induction as generalizing s with
  | nil => cases h
  | cons a as ih =>
    rw [List.mapM_cons, run_bind] at h
    rcases hrun : (f a).run s with ⟨e' | b, s₁⟩
    · rw [hrun] at h
      cases h
      exact ⟨a, List.mem_cons_self, s, congrArg Prod.fst hrun⟩
    · rw [hrun] at h
      dsimp only at h
      rw [run_bind] at h
      rcases hrest : (as.mapM f).run s₁ with ⟨e' | bs, s₂⟩
      · rw [hrest] at h
        cases h
        obtain ⟨a', ha', s₃, hs₃⟩ := ih (congrArg Prod.fst hrest)
        exact ⟨a', List.mem_cons_of_mem _ ha', s₃, hs₃⟩
      · rw [hrest] at h
        cases h

theorem run_mapM {f : α → TokenizerM A R ε β} {g : α → β} {as : List α}
    (h : ∀ a ∈ as, (f a).run s = (.ok (g a), s)) : (as.mapM f).run s = (.ok (as.map g), s) := by
  induction as with
  | nil => rfl
  | cons a as ih =>
    obtain ⟨ha, has⟩ := List.forall_mem_cons.1 h
    rw [List.mapM_cons, run_bind, ha]
    dsimp only
    rw [run_bind, ih has]
    rfl

end Items

/-! ### A batch -/

section LossTerms

variable {X L : Type} (m : Seq2SeqModel X L) {items : List ModelInputs}

theorem ModelInputs.labelIds_ne_ignoreIndex (item : ModelInputs) : ∀ x ∈ item.labelIds, x ≠ ignoreIndex := by
  intro x hx
  obtain ⟨n, -, rfl⟩ := List.mem_map.1 hx
  simp only [ignoreIndex, Int.ofNat_eq_natCast]
  omega

theorem length_le_labelWidth {item : ModelInputs} (h : item ∈ items) :
    item.labelIds.length ≤ labelWidth items := by
  rw [ModelInputs.labelIds, List.length_map]
  induction items with
  | nil => cases h
  | cons first items ih =>
    have hwidth : labelWidth (first :: items) = max first.labels.length (labelWidth items) := rfl
    rcases List.mem_cons.1 h with rfl | hmem
    · omega
    · have hle := ih hmem
      omega

theorem zipWith_zipWith_map {α β γ δ ε : Type*} (F : γ → δ → ε) (G : α → β → γ) (g : α → β) (h : α → δ)
    (as : List α) :
    List.zipWith F (List.zipWith G as (as.map g)) (as.map h) = as.map fun a => F (G a (g a)) (h a) := by
  induction as with
  | nil => rfl
  | cons a as ih => simp [ih]

/-- A batch is asked for what its examples by themselves are asked for, one example after the other. -/
theorem exists_lossTerms (label_smoothing : Bool) (hne : items ≠ [])
    (hlabels : ∀ item ∈ items, item.labels ≠ []) :
    ∃ terms, m.lossTerms label_smoothing (m.collate items) = some terms ∧
      terms.map (fun p => (some p.1, p.2)) = items.flatMap m.teacherForced := by
  let start : ℤ := m.decoder_start_token_id
  let padded : ModelInputs → List ℤ := fun item => padRight (labelWidth items) ignoreIndex item.labelIds
  let shifted : ModelInputs → List ℤ := fun item => shiftRight start ignoreIndex m.pad_token_id (padded item)
  have hids : ∀ item ∈ items, item.labelIds ≠ [] := fun item hitem h =>
    hlabels item hitem (List.map_eq_nil_iff.1 h)
  have hwidth : 0 < labelWidth items := by
    obtain ⟨first, hfirst⟩ := List.exists_mem_of_ne_nil items hne
    exact (List.length_pos_of_ne_nil (hids first hfirst)).trans_le (length_le_labelWidth hfirst)
  have hlength : ∀ row ∈ items.map padded, row.length = labelWidth items := by
    intro row hrow
    obtain ⟨item, hitem, rfl⟩ := List.mem_map.1 hrow
    exact length_padRight (length_le_labelWidth hitem) ignoreIndex
  have hshift : m.shiftTokensRight (items.map padded) m.pad_token_id start = items.map shifted := by
    rw [m.shiftTokensRight_eq _ _ _ _ hwidth hlength, List.map_map]
    rfl
  have hcollate : m.collate items =
      { m.baseCollator items with decoder_input_ids := some (items.map shifted) } := by
    unfold Seq2SeqModel.collate Seq2SeqModel.attachDecoderInputIds
    rw [← hshift]
    simp only [m.baseCollator_labels items hne, padded, start]
  have hforward : m.forward (m.baseCollator items).inputs (items.map shifted) =
      List.zipWith (fun item row => m.decode item.input_ids row) items (items.map shifted) :=
    m.forward_rowwise items _ hne (List.length_map _)
  refine ⟨items.flatMap fun item => supervised ignoreIndex (m.decode item.input_ids (shifted item))
    (padded item), ?_, ?_⟩
  · rw [hcollate]
    show ((m.baseCollator items).labels.bind fun labels => some (List.zipWith (supervised ignoreIndex)
      (m.forward (m.baseCollator items).inputs (items.map shifted)) labels).flatten) = _
    rw [m.baseCollator_labels items hne, Option.bind_some, hforward, zipWith_zipWith_map, List.flatMap_def]
  · rw [List.map_flatMap]
    refine List.flatMap_congr fun item hitem => ?_
    exact supervised_padRight (m.decode_causal item.input_ids) item.labelIds_ne_ignoreIndex (hids item hitem)
      (labelWidth items)

end LossTerms

/-! ### An epoch -/

section Epoch

variable {A R ε X L : Type} {m : Seq2SeqModel X L} {t : SeqTokenizer A R ε} {d : TranslationDataset A}
  {label_smoothing : Bool} {batches : List (List (Fin d.examples.length))} {s s' : LiveTokenizer A R}

variable {method : TokenizeMethod A}

theorem ItemOf.labels_ne_nil {e : TranslationExample} {item : ModelInputs} (h : ItemOf t d method e item) :
    item.labels ≠ [] := by
  obtain ⟨target_ids, -, hlabels⟩ := h.labels
  rw [hlabels]
  exact List.cons_ne_nil _ _

/-- The items of a batch -/
theorem itemsOf_mapM {indices : List (Fin d.examples.length)} {items : List ModelInputs}
    (h : (indices.mapM (d.getItem t)).run s = (.ok items, s')) :
    List.Forall₂ (fun index item => ItemOf t d (d.encodingMethod t s.tokenize) d.examples[index] item) indices
      items :=
  forall₂_mapM keepsTokenize_getItem (fun _ _ _ _ hs h => hs ▸ itemOf_getItem h) rfl h

theorem labels_ne_nil_of_forall₂ {indices : List (Fin d.examples.length)} {items : List ModelInputs}
    (h : List.Forall₂ (fun index item => ItemOf t d method d.examples[index] item) indices items) :
    ∀ item ∈ items, item.labels ≠ [] := by
  induction h with
  | nil => exact fun _ hitem => (List.not_mem_nil hitem).elim
  | cons hitem _ ih => exact List.forall_mem_cons.2 ⟨hitem.labels_ne_nil, ih⟩

/-- A step: an exception of the encoding ends it, and the loss terms are always there. -/
theorem trainingStep_cases {indices : List (Fin d.examples.length)} (hindices : indices ≠ [])
    (s : LiveTokenizer A R) :
    (∃ e s₁, (indices.mapM (d.getItem t)).run s = (.error e, s₁) ∧
      (trainingStep m t d label_smoothing indices).run s = (.error (.encoding e), s₁)) ∨
    ∃ items terms s₁, (indices.mapM (d.getItem t)).run s = (.ok items, s₁) ∧
      (trainingStep m t d label_smoothing indices).run s = (.ok terms, s₁) ∧
      terms.map (fun p => (some p.1, p.2)) = items.flatMap m.teacherForced := by
  unfold trainingStep
  rw [run_bind, run_adapt]
  rcases hrun : (indices.mapM (d.getItem t)).run s with ⟨e | items, s₁⟩
  · exact .inl ⟨e, s₁, rfl, rfl⟩
  · have hitems := itemsOf_mapM hrun
    have hne : items ≠ [] := by
      rintro rfl
      exact hindices (List.forall₂_nil_right_iff.1 hitems)
    obtain ⟨terms, hterms, hforced⟩ := exists_lossTerms m label_smoothing hne
      (labels_ne_nil_of_forall₂ hitems)
    refine .inr ⟨items, terms, s₁, rfl, ?_, hforced⟩
    simp only [Except.mapError, hterms]
    rfl

theorem epoch_ne_noDecoderInputs (hbatches : ∀ indices ∈ batches, indices ≠ []) (s : LiveTokenizer A R) :
    ((epoch m t d label_smoothing batches).run s).1 ≠ .error .noDecoderInputs := by
  intro h
  obtain ⟨indices, hindices, s₁, hstep⟩ := exists_of_mapM_eq_error h
  rcases @trainingStep_cases _ _ _ _ _ m t d label_smoothing _ (hbatches indices hindices) s₁ with
    ⟨e, s₂, -, hrun⟩ | ⟨items, terms, s₂, -, hrun, -⟩
  · rw [hrun] at hstep
    cases hstep
  · rw [hrun] at hstep
    cases hstep

/-- The loss terms of an epoch, from a relation between the indices and the items that are fetched while the
tokenizer has this method -/
theorem terms_of_epoch {r : Fin d.examples.length → ModelInputs → Prop} {method : TokenizeMethod A}
    (hr : ∀ index s item s', s.tokenize = method → (d.getItem t index).run s = (.ok item, s') → r index item)
    (hbatches : ∀ indices ∈ batches, indices ≠ []) {terms : List (List (L × ℤ))} (hs : s.tokenize = method)
    (h : (epoch m t d label_smoothing batches).run s = (.ok terms, s')) :
    ∃ items, List.Forall₂ r batches.flatten items ∧
      terms.flatten.map (fun p => (some p.1, p.2)) = items.flatMap m.teacherForced := by
  have hstep : List.Forall₂ (fun indices terms => indices ≠ [] → ∃ items, List.Forall₂ r indices items ∧
      terms.map (fun p => (some p.1, p.2)) = items.flatMap m.teacherForced) batches terms := by
    refine forall₂_mapM (keepsTokenize_trainingStep m label_smoothing) ?_ hs h
    intro indices s₁ terms s₂ hs₁ hrun hindices
    rcases @trainingStep_cases _ _ _ _ _ m t d label_smoothing _ hindices s₁ with
      ⟨e, s₃, -, herror⟩ | ⟨items, terms', s₃, hitems, hok, hforced⟩
    · rw [hrun] at herror
      cases herror
    · rw [hrun] at hok
      cases hok
      exact ⟨items, forall₂_mapM keepsTokenize_getItem hr hs₁ hitems, hforced⟩
  clear h
  induction hstep with
  | nil => exact ⟨[], .nil, rfl⟩
  | @cons indices terms batches rest hfirst _ ih =>
    obtain ⟨hindices, hrest⟩ := List.forall_mem_cons.1 hbatches
    obtain ⟨items, hitems, hforced⟩ := hfirst hindices
    obtain ⟨items', hitems', hforced'⟩ := ih hrest
    refine ⟨items ++ items', List.rel_append hitems hitems', ?_⟩
    rw [List.flatten_cons, List.map_append, hforced, hforced', List.flatMap_append]

/-- The item without sampling, where there is one -/
def TranslationDataset.plainInputs (d : TranslationDataset A) (t : SeqTokenizer A R ε)
    (index : Fin d.examples.length) : ModelInputs := (d.plainItem t index).toOption.getD ⟨[], []⟩

/-- Without sampling an epoch succeeds if its items can be encoded. -/
theorem exists_epoch_plain (halpha : d.subword_dropout_alpha = none) (hs : s.tokenize = .original)
    (hbatches : ∀ indices ∈ batches, indices ≠ [])
    (hitem : ∀ index ∈ batches.flatten, d.plainItem t index = .ok (d.plainInputs t index)) :
    ∃ terms, (epoch m t d label_smoothing batches).run s = (.ok terms, s) := by
  have hstep : ∀ indices ∈ batches, ∃ terms,
      (trainingStep m t d label_smoothing indices).run s = (.ok terms, s) := by
    intro indices hindices
    have hfetch : (indices.mapM (d.getItem t)).run s = (.ok (indices.map (d.plainInputs t)), s) := by
      refine run_mapM fun index hindex => ?_
      rw [run_getItem_plain halpha hs, hitem index (List.mem_flatten.2 ⟨indices, hindices, hindex⟩)]
    rcases @trainingStep_cases _ _ _ _ _ m t d label_smoothing _ (hbatches indices hindices) s with
      ⟨e, s₁, herror, -⟩ | ⟨items, terms, s₁, hitems, hok, -⟩
    · rw [hfetch] at herror
      cases herror
    · rw [hfetch] at hitems
      cases hitems
      exact ⟨terms, hok⟩
  choose! terms hterms using hstep
  exact ⟨batches.map terms, run_mapM hterms⟩

theorem eq_map_plainInputs {indices : List (Fin d.examples.length)} {items : List ModelInputs}
    (h : List.Forall₂ (fun index item => d.plainItem t index = .ok item) indices items) :
    (∀ index ∈ indices, d.plainItem t index = .ok (d.plainInputs t index)) ∧
      items = indices.map (d.plainInputs t) := by
  induction h with
  | nil => exact ⟨fun _ hindex => (List.not_mem_nil hindex).elim, rfl⟩
  | @cons index item indices items hfirst _ ih =>
    have heq : d.plainInputs t index = item := by
      rw [TranslationDataset.plainInputs, hfirst]
      rfl
    refine ⟨List.forall_mem_cons.2 ⟨heq ▸ hfirst, ih.1⟩, ?_⟩
    rw [List.map_cons, heq, ih.2]

/-- Without sampling the loss terms of an epoch are those of its examples. -/
theorem terms_of_epoch_plain (halpha : d.subword_dropout_alpha = none) (hs : s.tokenize = .original)
    (hbatches : ∀ indices ∈ batches, indices ≠ []) {terms : List (List (L × ℤ))}
    (h : (epoch m t d label_smoothing batches).run s = (.ok terms, s')) :
    (∀ index ∈ batches.flatten, d.plainItem t index = .ok (d.plainInputs t index)) ∧
      terms.flatten.map (fun p => (some p.1, p.2)) =
        (batches.flatten.map (d.plainInputs t)).flatMap m.teacherForced := by
  have hplain : ∀ index s item s', s.tokenize = .original → (d.getItem t index).run s = (.ok item, s') →
      d.plainItem t index = .ok item := by
    intro index s item s' hs hrun
    rw [run_getItem_plain halpha hs] at hrun
    exact (Prod.ext_iff.1 hrun).1
  obtain ⟨items, hitems, hforced⟩ := terms_of_epoch hplain hbatches hs h
  obtain ⟨hitem, heq⟩ := eq_map_plainInputs hitems
  exact ⟨hitem, heq ▸ hforced⟩

/-- An epoch with fixed weights and without dropout asks for the labels of the examples that it has fetched,
each after the start symbol and the labels before it, and leaves the tokenizer as it was, however it ends.
Without sampling, neither the batches nor the order nor label smoothing make a difference. -/
theorem epoch_teacher_forced (hbatches : ∀ indices ∈ batches, indices ≠ []) (s : LiveTokenizer A R) :
    ((epoch m t d label_smoothing batches).run s).2.tokenize = s.tokenize ∧
      ((epoch m t d label_smoothing batches).run s).1 ≠ .error .noDecoderInputs ∧
      ∀ terms, ((epoch m t d label_smoothing batches).run s).1 = .ok terms →
        (∃ items,
          List.Forall₂ (fun index item => ItemOf t d (d.encodingMethod t s.tokenize) d.examples[index] item)
            batches.flatten items ∧
          terms.flatten.map (fun p => (some p.1, p.2)) = items.flatMap m.teacherForced) ∧
        (d.subword_dropout_alpha = none → s.tokenize = .original →
          ∀ (label_smoothing' : Bool) (batches' : List (List (Fin d.examples.length)))
            (s₂ : LiveTokenizer A R),
            (∀ indices ∈ batches', indices ≠ []) → batches'.flatten.Perm batches.flatten →
            s₂.tokenize = .original →
              ∃ terms', ((epoch m t d label_smoothing' batches').run s₂).1 = .ok terms' ∧
                terms'.flatten.Perm terms.flatten) := by
  refine ⟨KeepsTokenize.mapM (keepsTokenize_trainingStep m label_smoothing) batches s,
    epoch_ne_noDecoderInputs hbatches s, fun terms hterms => ?_⟩
  have hrun : (epoch m t d label_smoothing batches).run s =
      (.ok terms, ((epoch m t d label_smoothing batches).run s).2) := Prod.ext hterms rfl
  refine ⟨terms_of_epoch (fun _ _ _ _ hs h => hs ▸ itemOf_getItem h) hbatches rfl hrun, ?_⟩
  intro halpha hs label_smoothing' batches' s₂ hbatches' hperm hs₂
  obtain ⟨hitem, hforced⟩ := terms_of_epoch_plain halpha hs hbatches hrun
  obtain ⟨terms', hterms'⟩ := @exists_epoch_plain _ _ _ _ _ m t d label_smoothing' batches' s₂ halpha hs₂
    hbatches'
    fun index hindex => hitem index (hperm.mem_iff.1 hindex)
  obtain ⟨-, hforced'⟩ := terms_of_epoch_plain halpha hs₂ hbatches' hterms'
  refine ⟨terms', congrArg Prod.fst hterms', ?_⟩
  have hinjective : Function.Injective fun p : L × ℤ => (some p.1, p.2) := by
    rintro ⟨x, n⟩ ⟨y, k⟩ hpq
    simpa using hpq
  rw [← List.map_perm_map_iff hinjective, hforced, hforced']
  exact (hperm.map _).flatMap_right _

end Epoch

/-- Characters as tokens, in a random order if they are sampled -/
def charTokenizer : SeqTokenizer Unit ℕ Unit where
  convertTokensToIds token := token.length
  eos_token_id := 2
  has_sp_model := true
  encode kwargs text := .ok ((text.map Char.toNat).take kwargs.max_length)
  sample _ _ kwargs text r := (.ok (((text.map Char.toNat).rotate r).take kwargs.max_length), r + 1)
  encode_length := by
    rintro kwargs text ids - ⟨⟩
    exact List.length_take_le _ _
  sample_length := by
    rintro nbest_size alpha kwargs text r ids - ⟨⟩
    exact List.length_take_le _ _

/-- A decoder whose logits are its inputs, and the collator of transformers -/
def copyingModel : Seq2SeqModel (List (List ℕ)) ℤ where
  pad_token_id := 1
  decoder_start_token_id := 2
  baseCollator items := ⟨items.map ModelInputs.input_ids,
    some (items.map fun item => padRight (labelWidth items) ignoreIndex item.labelIds), none⟩
  shiftTokensRight rows pad start := rows.map (shiftRight start ignoreIndex pad)
  forward := List.zipWith fun input_ids row => row.map (· + input_ids.length)
  decode input_ids := List.map (· + input_ids.length)
  baseCollator_labels _ _ := rfl
  shiftTokensRight_eq _ _ _ _ _ _ := rfl
  forward_rowwise _ _ _ _ := List.zipWith_map_left ..
  decode_causal _ := ⟨fun _ => List.length_map _, fun _ _ => List.map_take⟩

def sampleDataset : TranslationDataset Unit :=
  ⟨[⟨"hola".toList, "utz".toList, .es, .cak⟩, ⟨"ja".toList, "casa".toList, .cak, .es⟩], 8, none⟩

def firstExample : Fin sampleDataset.examples.length := ⟨0, Nat.zero_lt_two⟩

def secondExample : Fin sampleDataset.examples.length := ⟨1, Nat.one_lt_two⟩

/-- Both examples in one batch with label smoothing, and one by one without -/
theorem epoch_teacher_forced_sample :
    ∃ terms terms', ((epoch copyingModel charTokenizer sampleDataset true [[firstExample, secondExample]]).run
        ⟨.original, 0⟩).1 = .ok terms ∧
      ((epoch copyingModel charTokenizer sampleDataset false [[secondExample], [firstExample]]).run
        ⟨.original, 0⟩).1 = .ok terms' ∧
      terms'.flatten.Perm terms.flatten ∧ terms.flatten.length = 11 := by
  have hbatches : ∀ indices ∈ [[firstExample, secondExample]], indices ≠ [] := by simp
  obtain ⟨-, -, h⟩ := @epoch_teacher_forced _ _ _ _ _ copyingModel charTokenizer sampleDataset true _ hbatches
    ⟨.original, 0⟩
  obtain ⟨terms', hterms', hperm⟩ := (h _ rfl).2 rfl rfl false [[secondExample], [firstExample]]
    ⟨.original, 0⟩
    (by simp) (List.Perm.swap ..) rfl
  exact ⟨_, terms', rfl, hterms', hperm, by decide +kernel⟩

end KaqTranslator
