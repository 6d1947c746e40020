import KaqTranslator.Deployment.InputFn

/-!
# The hooks of the endpoint, in order (`deployment/inference.py`)

For every request the serving toolkit calls `input_fn`, `predict_fn` and `output_fn`, and what `output_fn`
returns is the body of the response.  The default length and beam width of `translate` are those of the
module.
-/

namespace KaqTranslator

open Unicode

/-! ### The hooks -/

def Inference.defaultMaxLength : ℕ := 128

def Inference.defaultNumBeams : ℕ := 5

/-- The exceptions of the hooks -/
inductive HookError where
  | input (e : InputError)
  | encodeError  -- the tokenizer refuses a text with surrogates
  | indexError  -- nothing was decoded
  | acceptError (accept : Str)

section Hooks

variable {E G P : Type*} (m : ModelAndTokenizer E G P)

/-- `predict_fn` -/
def predictFn (request : InferenceRequest (List CodePoint)) : Except HookError (List (Str × Str)) :=
  match toChars request.text with
  | none => .error .encodeError
  | some text =>
    match translate m ⟨request.source_lang, request.target_lang, text⟩ Inference.defaultMaxLength
      Inference.defaultNumBeams with
    | none => .error .indexError
    | some translated_text => .ok [("translated_text".toList, translated_text)]

def outputFn (prediction : List (Str × Str)) (accept : Str) : Except HookError Str :=
  if accept ≠ contentTypeJson then .error (.acceptError accept) else .ok (JsonText.dumpsObject prediction)

/-- The body that a request is answered with -/
def serve (depth : ℕ) (request_body : List CodePoint) (content_type accept : Str) : Except HookError Str := do
  let request ← (inputFn depth request_body content_type).mapError .input
  let prediction ← predictFn m request
  outputFn prediction accept

variable {m}

/-- A text without surrogates is always translated. -/
theorem exists_translate (request : InferenceRequest Str) (max_length num_beams : ℕ) :
    ∃ t, translate m request max_length num_beams = some t := by
  obtain ⟨row, hrow⟩ := exists_translatesRows m ⟨max_length, 1, num_beams, none⟩
  exact ⟨_, translate_eq hrow rfl request⟩

/-- A request that `input_fn` accepts is answered with the translation alone. -/
theorem serve_of_inputFn {depth : ℕ} {request_body : List CodePoint} {source target : Language} {text t : Str}
    (hinput : inputFn depth request_body contentTypeJson = .ok ⟨source, target, ofChars text⟩)
    (ht : translate m ⟨source, target, text⟩ Inference.defaultMaxLength Inference.defaultNumBeams = some t) :
    serve m depth request_body contentTypeJson contentTypeJson =
      .ok (JsonText.dumpsObject [("translated_text".toList, t)]) := by
  have hpredict : predictFn m ⟨source, target, ofChars text⟩ = .ok [("translated_text".toList, t)] := by
    simp only [predictFn, toChars_ofChars, ht]
  have haccept : ¬ contentTypeJson ≠ contentTypeJson := fun h => h rfl
  rw [serve, hinput]
  show (predictFn m ⟨source, target, ofChars text⟩ >>=
    fun prediction => outputFn prediction contentTypeJson) = _
  rw [hpredict]
  show outputFn _ contentTypeJson = _
  rw [outputFn, if_neg haccept]

theorem serve_of_inputFn_error {depth : ℕ} {request_body : List CodePoint} {content_type accept : Str}
    {e : InputError} (hinput : inputFn depth request_body content_type = .error e) :
    serve m depth request_body content_type accept = .error (.input e) := by
  rw [serve, hinput]
  rfl

end Hooks

end KaqTranslator
