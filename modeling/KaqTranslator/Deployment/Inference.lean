import KaqTranslator.Training.Generation

/-!
# The endpoint (`deployment/inference.py`)

`translate` translates one request as a batch of one row.
-/

namespace KaqTranslator

structure InferenceRequest (T : Type*) where
  source_lang : Language
  target_lang : Language
  text : T

section Translate

variable {E G P : Type*} (m : ModelAndTokenizer E G P)

/-- `translate`; there is no text when `decoded` has no row. -/
def translate (request : InferenceRequest Str) (max_length num_beams : ℕ) : Option Str :=
  let tagged_text := tagSourceText request.text request.target_lang
  let encoded := m.encode max_length [tagged_text]
  let generated_ids := m.generate
    { forced_bos_token_id := m.convertTokensToIds (directionTag request.target_lang)
      max_length
      num_beams
      logits_processor := none } encoded
  let decoded := m.batchDecode generated_ids
  decoded.head?.map fun text => stripLeadingDirectionTag text request.target_lang

variable {m}

/-- One request is translated as its row. -/
theorem translate_eq {s : GenerationSettings P} {row : Language → Str → Str} (hrow : TranslatesRows m s row)
    (hnone : s.logits_processor = none) (request : InferenceRequest Str) :
    translate m request s.max_length s.num_beams = some (translation row request.text request.target_lang) := by
  have hdecoded := hrow request.target_lang [tagSourceText request.text request.target_lang]
  rw [generateKwargs, hnone] at hdecoded
  unfold translate
  simp only [hdecoded]
  rfl

variable (m)

/-- Batched generation.  Whatever the mix of languages and the batch size, `generate_translations` writes
every index once and returns, for each example, what `translate` returns for its text and target language. -/
theorem batched_generation (examples : List TranslationExample) (max_length batch_size num_beams : ℕ)
    (logits_processor : Option P) (hbatch : 1 ≤ batch_size) :
    ∃ writes translations,
      generationWrites m examples ⟨max_length, batch_size, num_beams, logits_processor⟩ = .ok writes ∧
      (writes.map Prod.fst).Perm (List.finRange examples.length) ∧
      generateTranslations m examples ⟨max_length, batch_size, num_beams, logits_processor⟩ = .ok translations ∧
      translations.length = examples.length ∧
      (∀ w ∈ writes, translations[w.1.val]? = some w.2) ∧
      (logits_processor = none → ∀ (i : Fin examples.length) (source_lang : Language),
        translations[i.val]? =
          translate m ⟨source_lang, examples[i].target_lang, examples[i].source_text⟩ max_length num_beams) ∧
      ∀ batch_size' : ℕ, 1 ≤ batch_size' →
        generateTranslations m examples ⟨max_length, batch_size', num_beams, logits_processor⟩ =
          .ok translations := by
  -- the batch size does not enter into the rows
  obtain ⟨row, hrow⟩ := exists_translatesRows m ⟨max_length, batch_size, num_beams, logits_processor⟩
  have hrow' : ∀ batch_size', TranslatesRows m ⟨max_length, batch_size', num_beams, logits_processor⟩ row :=
    fun _ => hrow
  obtain ⟨writes, hwrites, hperm, hvalues⟩ := generationWrites_spec examples hrow hbatch
  have hget : ∀ i : Fin examples.length,
      (examples.map fun e => translation row e.source_text e.target_lang)[i.val]? =
        some (translation row examples[i].source_text examples[i].target_lang) := by
    intro i
    rw [List.getElem?_map, List.getElem?_eq_getElem i.isLt]
    rfl
  refine ⟨writes, _, hwrites, hperm, generateTranslations_eq hrow hbatch, List.length_map _, ?_, ?_, ?_⟩
  · intro w hw
    rw [hget, hvalues w hw]
  · intro hnone i source_lang
    rw [hget]
    exact (translate_eq hrow hnone ⟨source_lang, examples[i].target_lang, examples[i].source_text⟩).symm
  · exact fun batch_size' hbatch' => generateTranslations_eq (hrow' batch_size') hbatch'

end Translate

/-- A model that gives the tagged text back, word for word. -/
def echo : ModelAndTokenizer Str Str Unit where
  convertTokensToIds token := token.length
  encode max_length := List.map (List.take max_length)
  generate _ := List.map id
  batchDecode := List.map id
  encode_rowwise max_length := .map (List.take max_length)
  generate_rowwise _ := .map id
  batchDecode_rowwise := .map id

/-- Three examples of two languages, in batches of two. -/
theorem batched_generation_echo :
    ∃ translations, generateTranslations echo [⟨"a".toList, [], .es, .cak⟩, ⟨"b".toList, [], .cak, .es⟩,
        ⟨"c".toList, [], .es, .cak⟩] ⟨128, 2, 5, none⟩ = .ok translations ∧
      translations[2]? = translate echo ⟨.es, .cak, "c".toList⟩ 128 5 := by
  obtain ⟨writes, translations, -, -, hok, -, -, hsame, -⟩ := batched_generation echo
    [⟨"a".toList, [], .es, .cak⟩, ⟨"b".toList, [], .cak, .es⟩, ⟨"c".toList, [], .es, .cak⟩] 128 2 5 none
    (by decide)
  exact ⟨translations, hok, hsame rfl ⟨2, by decide⟩ .es⟩

end KaqTranslator
