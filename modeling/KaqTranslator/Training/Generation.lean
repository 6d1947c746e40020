import KaqTranslator.Library.Batches
import KaqTranslator.Training.Vocabulary

/-!
# Generating translations (`train.py`)

`generate_translations` groups the examples by target language, cuts each group into batches, translates a
batch at a time, and writes each text at the index of its example.  The model and its tokenizer are a
parameter, with what `generate_translations` relies on: a batch is translated row by row.

Whatever the batch size, every index is written once, with the translation of its example
(`generateTranslations_eq`).
-/

namespace KaqTranslator

open Batches

/-- `tag_source_text` (`direction.py`) -/
def tagSourceText (source_text : Str) (target_lang : Language) : Str :=
  directionTag target_lang ++ ' ' :: source_text

/-- The keyword arguments of `model.generate`. -/
structure GenerateKwargs (P : Type*) where
  forced_bos_token_id : ℕ
  max_length : ℕ
  num_beams : ℕ
  logits_processor : Option P

/-- A model and its tokenizer: the rows of an encoded batch are an `E` each, the generated ones a `G`. -/
structure ModelAndTokenizer (E G P : Type*) where
  convertTokensToIds : Str → ℕ
  encode : ℕ → List Str → List E  -- `tokenizer(…, padding=True, truncation=True, max_length=…)`
  generate : GenerateKwargs P → List E → List G
  batchDecode : List G → List Str
  encode_rowwise : ∀ max_length, Rowwise (encode max_length)
  generate_rowwise : ∀ kwargs, Rowwise (generate kwargs)
  batchDecode_rowwise : Rowwise batchDecode

/-- The ways in which `generate_translations` can fail. -/
inductive GenerationError where
  | value (e : ValueError)
  | assertion
  deriving DecidableEq

/-- `zip(as, bs, strict=True)` -/
def zipStrict {α β : Type*} (as : List α) (bs : List β) : Except GenerationError (List (α × β)) :=
  if bs.length < as.length then .error (.value ⟨"zip() argument 2 is shorter than argument 1".toList⟩)
  else if as.length < bs.length then .error (.value ⟨"zip() argument 2 is longer than argument 1".toList⟩)
  else .ok (as.zip bs)

/-- `range(0, stop, step)`, which checks its step -/
def rangeChecked (stop step : ℕ) : Except GenerationError (List ℕ) :=
  if step = 0 then .error (.value ⟨"range() arg 3 must not be zero".toList⟩) else .ok (rangeStep stop step)

section Generation

variable {E G P : Type*} (m : ModelAndTokenizer E G P) (examples : List TranslationExample)

/-- The indices of the examples, by target language. -/
def indicesByTargetLang : List (Language × List (Fin examples.length)) :=
  groups (fun i : Fin examples.length => examples[i].target_lang) (List.finRange examples.length)

structure GenerationSettings (P : Type*) where
  max_length : ℕ
  batch_size : ℕ
  num_beams : ℕ
  logits_processor : Option P

variable (s : GenerationSettings P)

def generateKwargs (target_lang : Language) : GenerateKwargs P where
  forced_bos_token_id := m.convertTokensToIds (directionTag target_lang)
  max_length := s.max_length
  num_beams := s.num_beams
  logits_processor := s.logits_processor

/-- The loop body: the texts of a batch, with the indices they are written at. -/
def translateBatch (target_lang : Language) (batch_indices : List (Fin examples.length)) :
    Except GenerationError (List (Fin examples.length × Str)) := do
  let batch_texts := batch_indices.map fun i => tagSourceText examples[i].source_text target_lang
  let encoded := m.encode s.max_length batch_texts
  let generated_ids := m.generate (generateKwargs m s target_lang) encoded
  let decoded := m.batchDecode generated_ids
  let pairs ← zipStrict batch_indices decoded
  return pairs.map fun pair => (pair.1, stripLeadingDirectionTag pair.2 target_lang)

/-- The inner loop, over the starts of the batches of one language. -/
def translateSlices (target_lang : Language) (indices : List (Fin examples.length)) :
    List ℕ → Except GenerationError (List (Fin examples.length × Str))
  | [] => .ok []
  | start :: starts => do
    let written ← translateBatch m examples s target_lang ((indices.drop start).take s.batch_size)
    let rest ← translateSlices target_lang indices starts
    return written ++ rest

/-- The outer loop, over the languages. -/
def translateGroups : List (Language × List (Fin examples.length)) →
    Except GenerationError (List (Fin examples.length × Str))
  | [] => .ok []
  | (target_lang, indices) :: rest => do
    let starts ← rangeChecked indices.length s.batch_size
    let written ← translateSlices m examples s target_lang indices starts
    let rest ← translateGroups rest
    return written ++ rest

/-- All that is written into `hypotheses`, in order. -/
def generationWrites : Except GenerationError (List (Fin examples.length × Str)) :=
  translateGroups m examples s (indicesByTargetLang examples)

def generateTranslations : Except GenerationError (List Str) := do
  let writes ← generationWrites m examples s
  let hypotheses := scatter (List.replicate examples.length none) (writes.map fun w => (w.1, some w.2))
  if hypotheses.all Option.isSome then .ok (hypotheses.filterMap id) else .error .assertion

/-! ### One row at a time -/

/-- What the model makes of a batch, by rows. -/
def TranslatesRows (row : Language → Str → Str) : Prop := ∀ (target_lang : Language) (texts : List Str),
  m.batchDecode (m.generate (generateKwargs m s target_lang) (m.encode s.max_length texts)) =
    texts.map (row target_lang)

theorem exists_translatesRows : ∃ row, TranslatesRows m s row := by
  have hrow : ∀ target_lang, ∃ row : Str → Str, ∀ texts : List Str,
      m.batchDecode (m.generate (generateKwargs m s target_lang) (m.encode s.max_length texts)) =
        texts.map row :=
    fun target_lang => m.batchDecode_rowwise.comp
      ((m.generate_rowwise (generateKwargs m s target_lang)).comp (m.encode_rowwise s.max_length))
  choose row hrow using hrow
  exact ⟨row, hrow⟩

/-- The translation of a text, from its row. -/
def translation (row : Language → Str → Str) (source_text : Str) (target_lang : Language) : Str :=
  stripLeadingDirectionTag (row target_lang (tagSourceText source_text target_lang)) target_lang

variable {m examples s} {row : Language → Str → Str}

private theorem zipStrict_map {α β : Type*} (as : List α) (f : α → β) :
    zipStrict as (as.map f) = .ok (as.map fun a => (a, f a)) := by
  have hlength : (as.map f).length = as.length := List.length_map _
  have hzip : as.zip (as.map f) = as.map fun a => (a, f a) := by
    induction as with
    | nil => rfl
    | cons a as ih => rw [List.map_cons, List.zip_cons_cons, ih (List.length_map _), List.map_cons]
  rw [zipStrict, if_neg (by omega), if_neg (by omega), hzip]

private theorem translateBatch_eq (hrow : TranslatesRows m s row) (target_lang : Language)
    (batch_indices : List (Fin examples.length)) :
    translateBatch m examples s target_lang batch_indices =
      .ok (batch_indices.map fun i => (i, translation row examples[i].source_text target_lang)) := by
  have hdecoded := hrow target_lang
    (batch_indices.map fun i => tagSourceText examples[i].source_text target_lang)
  rw [List.map_map] at hdecoded
  unfold translateBatch
  simp only [hdecoded, zipStrict_map]
  show Except.ok _ = Except.ok _
  rw [List.map_map]
  rfl

private theorem translateSlices_eq (hrow : TranslatesRows m s row) (target_lang : Language)
    (indices : List (Fin examples.length)) (starts : List ℕ) :
    translateSlices m examples s target_lang indices starts =
      .ok ((starts.map fun start => (indices.drop start).take s.batch_size).flatten.map fun i =>
        (i, translation row examples[i].source_text target_lang)) := by
  induction starts with
  | nil => rfl
  | cons start starts ih =>
    rw [translateSlices, translateBatch_eq hrow, ih, List.map_cons, List.flatten_cons, List.map_append]
    rfl

private theorem translateGroups_eq (hrow : TranslatesRows m s row) (hbatch : 1 ≤ s.batch_size)
    (by_lang : List (Language × List (Fin examples.length))) :
    translateGroups m examples s by_lang =
      .ok (by_lang.flatMap fun e => e.2.map fun i => (i, translation row examples[i].source_text e.1)) := by
  induction by_lang with
  | nil => rfl
  | cons e by_lang ih =>
    obtain ⟨target_lang, indices⟩ := e
    have hslices : ((rangeStep indices.length s.batch_size).map fun start =>
        (indices.drop start).take s.batch_size).flatten = indices := flatten_slices hbatch indices
    rw [translateGroups, rangeChecked, if_neg (by omega), ih, List.flatMap_cons]
    show (do
      let written ← translateSlices m examples s target_lang indices (rangeStep indices.length s.batch_size)
      Except.ok (written ++ _)) = _
    rw [translateSlices_eq hrow, hslices]
    rfl

/-- The writes: every index once, with the translation of its example. -/
theorem generationWrites_spec (examples : List TranslationExample) (hrow : TranslatesRows m s row)
    (hbatch : 1 ≤ s.batch_size) :
    ∃ writes, generationWrites m examples s = .ok writes ∧
      (writes.map Prod.fst).Perm (List.finRange examples.length) ∧
      ∀ w ∈ writes, w.2 = translation row examples[w.1].source_text examples[w.1].target_lang := by
  refine ⟨_, translateGroups_eq hrow hbatch _, ?_, ?_⟩
  · have hperm := perm_groups (fun i : Fin examples.length => examples[i].target_lang)
      (List.finRange examples.length)
    have hfst : ((indicesByTargetLang examples).flatMap fun e =>
        e.2.map fun i => (i, translation row examples[i].source_text e.1)).map Prod.fst =
        (indicesByTargetLang examples).flatMap Prod.snd := by
      rw [List.map_flatMap]
      refine congrArg (List.flatMap · _) (funext fun e => ?_)
      rw [List.map_map]
      exact List.map_id _
    rw [hfst]
    exact hperm
  · intro w hw
    obtain ⟨e, he, hw⟩ := List.mem_flatMap.1 hw
    obtain ⟨i, hi, rfl⟩ := List.mem_map.1 hw
    have hkey : examples[i].target_lang = e.1 := key_of_mem_groups he i hi
    rw [← hkey]

/-- The list that is returned: the translation of each example, at its index. -/
theorem generateTranslations_eq (hrow : TranslatesRows m s row) (hbatch : 1 ≤ s.batch_size) :
    generateTranslations m examples s =
      .ok (examples.map fun e => translation row e.source_text e.target_lang) := by
  obtain ⟨writes, hwrites, hperm, hvalues⟩ := generationWrites_spec examples hrow hbatch
  have hslots : scatter (List.replicate examples.length none) (writes.map fun w => (w.1, some w.2)) =
      (examples.map fun e => translation row e.source_text e.target_lang).map some := by
    apply List.ext_getElem?
    intro k
    by_cases hk : k < examples.length
    · have hslot : k < (List.replicate examples.length (none : Option Str)).length := by
        rw [List.length_replicate]
        exact hk
      have hvalue : ∀ w ∈ writes.map (fun w => (w.1, some w.2)), w.1 = ⟨k, hk⟩ →
          w.2 = some (translation row examples[k].source_text examples[k].target_lang) := by
        intro w hw hpos
        obtain ⟨⟨i, text⟩, hv, rfl⟩ := List.mem_map.1 hw
        obtain rfl : i = ⟨k, hk⟩ := hpos
        exact congrArg some (hvalues _ hv)
      have hwritten : (⟨k, hk⟩ : Fin examples.length) ∈ (writes.map fun w => (w.1, some w.2)).map Prod.fst := by
        rw [List.map_map]
        exact hperm.mem_iff.2 (List.mem_finRange _)
      refine (getElem?_scatter (i := ⟨k, hk⟩) hslot hvalue (Or.inr hwritten)).trans ?_
      rw [List.getElem?_map, List.getElem?_map, List.getElem?_eq_getElem hk]
      rfl
    · have hle : examples.length ≤ k := Nat.le_of_not_lt hk
      rw [List.getElem?_eq_none, List.getElem?_eq_none]
      · rw [List.length_map, List.length_map]
        exact hle
      · rw [length_scatter, List.length_replicate]
        exact hle
  rw [generateTranslations, hwrites]
  show (if (scatter (List.replicate examples.length none) (writes.map fun w => (w.1, some w.2))).all
    Option.isSome then Except.ok _ else _) = _
  rw [hslots, if_pos (by simp), List.filterMap_map]
  exact congrArg Except.ok List.filterMap_some

end Generation

end KaqTranslator
