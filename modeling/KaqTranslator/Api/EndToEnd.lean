import KaqTranslator.Api.EndpointContract
import KaqTranslator.Deployment.Handler

/-!
# A translation through the endpoint

`translate_via_sagemaker` (`app/translation.py`) called with an endpoint that runs `deployment/inference.py`:
the request is written, read, translated and answered, and the answer is read.  SageMaker and its serving
toolkit are not part of the repository: the endpoint is a function of which `RunsHooks` says what the two
modules rely on.

`endpoint_translates` says what the API gets: of a text that is not blank the translation of the stripped
text, character for character, and of a blank one the error of an invalid input.
-/

namespace KaqTranslator

open Unicode

section Invoke

variable {E G P : Type*} (m : ModelAndTokenizer E G P) (depth : ℕ)

/-- An endpoint that runs the hooks: what they serve is the body of its response, and if one of them raises,
the caller gets a `ClientError` with the code `ModelError`. -/
structure RunsHooks (invoke : Endpoint.InvokeArgs → Endpoint.InvokeOutcome) : Prop where
  served : ∀ args body, serve m depth (ofChars args.body) args.content_type args.accept = .ok body →
    invoke args = .response (encodeUtf8 body)
  raised : ∀ args e, serve m depth (ofChars args.body) args.content_type args.accept = .error e →
    invoke args = .clientError (some "ModelError".toList)

/-- The languages of a direction -/
def directionLangs : Direction → Language × Language
  | .esToCak => (.es, .cak)
  | .cakToEs => (.cak, .es)

/-- What the model makes of a request of the API -/
def modelTranslation (request : TranslateRequest) : Option Str :=
  let langs := directionLangs request.direction
  translate m ⟨langs.1, langs.2, request.text.strip⟩ Inference.defaultMaxLength Inference.defaultNumBeams

/-! ### The languages and the payload -/

theorem directionLangs_ne (direction : Direction) :
    (directionLangs direction).1 ≠ (directionLangs direction).2 := by
  cases direction <;> decide

theorem payload_eq (request : TranslateRequest) :
    Endpoint.payload request =
      ⟨langCode (directionLangs request.direction).1, langCode (directionLangs request.direction).2,
        request.text⟩ := by
  rw [Endpoint.payload]
  cases request.direction <;> rfl

/-! ### The answer -/

variable {m depth} {invoke : Endpoint.InvokeArgs → Endpoint.InvokeOutcome}

/-- The body of a translation is read back as this translation. -/
theorem readResponse_dumpsObject {acceptsStr : List CodePoint → Bool} {t : Str}
    (haccepts : acceptsStr (ofChars t) = true) :
    Endpoint.readResponse (depth + 1) acceptsStr
        (encodeUtf8 (JsonText.dumpsObject [("translated_text".toList, t)])) = .ok (ofChars t) := by
  have hlookup : JsonText.lookup [(ofChars "translated_text".toList, JsonText.Value.str (ofChars t))]
      Endpoint.translatedTextKey = some (.str (ofChars t)) := rfl
  rw [Endpoint.readResponse, JsonText.loadsBytes_dumpsObject, List.map_singleton]
  dsimp only [Endpoint.translatedText]
  rw [hlookup]
  dsimp only [Endpoint.translateResponse]
  rw [haccepts, if_pos rfl]

/-- What the endpoint answers to the requests of the API -/
theorem RunsHooks.invoke_payload (hhooks : RunsHooks m (depth + 1) invoke) (endpoint_name : Str)
    (request : TranslateRequest) :
    (¬ request.text.Blank → ∃ t, modelTranslation m request = some t ∧
      invoke (Endpoint.invokeArgs endpoint_name (Endpoint.payload request)) =
        .response (encodeUtf8 (JsonText.dumpsObject [("translated_text".toList, t)]))) ∧
    (request.text.Blank →
      invoke (Endpoint.invokeArgs endpoint_name (Endpoint.payload request)) =
        .clientError (some "ModelError".toList)) := by
  have hinput :
      inputFn (depth + 1) (ofChars (Endpoint.dumpsPayload (Endpoint.payload request))) contentTypeJson =
        if request.text.strip.isEmpty then .error (.valueError .emptyText)
        else .ok ⟨(directionLangs request.direction).1, (directionLangs request.direction).2,
          ofChars request.text.strip⟩ := by
    rw [payload_eq]
    exact inputFn_dumpsPayload depth (directionLangs_ne request.direction) request.text
  refine ⟨fun hblank => ?_, fun hblank => ?_⟩
  · obtain ⟨t, ht⟩ := @exists_translate _ _ _ m
      ⟨(directionLangs request.direction).1, (directionLangs request.direction).2, request.text.strip⟩
      Inference.defaultMaxLength Inference.defaultNumBeams
    have hstrip : request.text.strip.isEmpty = false :=
      List.isEmpty_eq_false_iff.2 fun h => hblank (Str.strip_eq_nil_iff.1 h)
    rw [hstrip, if_neg Bool.false_ne_true] at hinput
    exact ⟨t, ht, hhooks.served _ _ (serve_of_inputFn hinput ht)⟩
  · have hstrip : request.text.strip.isEmpty = true := List.isEmpty_iff.2 (Str.strip_eq_nil_iff.2 hblank)
    rw [hstrip, if_pos rfl] at hinput
    exact hhooks.raised _ _ (serve_of_inputFn_error hinput)

/-- The answer as the service decodes it -/
theorem RunsHooks.decoded (hhooks : RunsHooks m (depth + 1) invoke) (endpoint_name : Str)
    {request : TranslateRequest} (hblank : ¬ request.text.Blank) :
    ∃ t, modelTranslation m request = some t ∧
      (invoke (Endpoint.invokeArgs endpoint_name (Endpoint.payload request))).decoded (depth + 1) =
        .response (.value (.obj [("translated_text".toList, .str t)])) := by
  obtain ⟨t, ht, hinvoke⟩ := (hhooks.invoke_payload endpoint_name request).1 hblank
  have hbody : Endpoint.decodedBody (.obj [(ofChars "translated_text".toList, .str (ofChars t))]) =
      .obj [("translated_text".toList, .str t)] := by
    simp only [Endpoint.decodedBody, Endpoint.decodedMember, Endpoint.decodedText, List.filterMap_cons,
      List.filterMap_nil, toChars_ofChars, Option.map_some, Option.getD_some]
  refine ⟨t, ht, ?_⟩
  rw [hinvoke]
  dsimp only [Endpoint.InvokeOutcome.decoded]
  rw [JsonText.loadsBytes_dumpsObject, List.map_singleton]
  dsimp only
  rw [hbody]

/-- What the service is given, when the outcome of its call is that of the endpoint -/
theorem RunsHooks.modelTranslation_of_ok (hhooks : RunsHooks m (depth + 1) invoke)
    {endpoint_name : Option Str} {request : TranslateRequest} {t : Str}
    (h : translateViaSagemaker endpoint_name
      (fun _ => (invoke (Endpoint.invokeArgs (endpoint_name.getD []) (Endpoint.payload request))).decoded
        (depth + 1)) request = .ok t) :
    ¬ request.text.Blank ∧ modelTranslation m request = some t := by
  unfold translateViaSagemaker at h
  split at h
  · cases h
  · by_cases hblank : request.text.Blank
    · rw [(hhooks.invoke_payload (endpoint_name.getD []) request).2 hblank] at h
      cases h
    · obtain ⟨u, hu, hdecoded⟩ := hhooks.decoded (endpoint_name.getD []) hblank
      rw [hdecoded] at h
      obtain rfl : u = t := Except.ok.inj h
      exact ⟨hblank, hu⟩

variable (acceptsStr : List CodePoint → Bool)

/-- A translation through an endpoint that runs the hooks.  If every text is a valid string to pydantic, an
admitted request comes back as the translation that the model gives of its stripped text in the languages of
its direction; a blank text comes back as the error of an invalid input. -/
theorem endpoint_translates (hhooks : RunsHooks m (depth + 1) invoke)
    (haccepts : ∀ t : Str, acceptsStr (ofChars t) = true) {endpoint_name : Str} (hname : endpoint_name ≠ [])
    (request : TranslateRequest) :
    (¬ request.text.Blank → ∃ t, modelTranslation m request = some t ∧
      Endpoint.translateViaSagemaker (depth + 1) acceptsStr (some endpoint_name) invoke request =
        .ok (ofChars t)) ∧
    (request.text.Blank →
      Endpoint.translateViaSagemaker (depth + 1) acceptsStr (some endpoint_name) invoke request =
        .error (.service ⟨400, invalidInputMessage⟩)) := by
  have hset : endpoint_name.isEmpty = false := List.isEmpty_eq_false_iff.2 hname
  obtain ⟨htext, hblank⟩ := hhooks.invoke_payload endpoint_name request
  unfold Endpoint.translateViaSagemaker
  rw [Option.getD_some, hset, if_neg Bool.false_ne_true]
  refine ⟨fun h => ?_, fun h => ?_⟩
  · obtain ⟨t, ht, hinvoke⟩ := htext h
    refine ⟨t, ht, ?_⟩
    rw [hinvoke]
    exact readResponse_dumpsObject (haccepts t)
  · rw [hblank h]
    exact if_pos rfl

end Invoke

theorem utzRequest_not_blank : ¬ utzRequest.text.Blank := by
  intro h
  have hu : isspace 'u' = true := h 'u' (List.mem_cons_self ..)
  cases hu

theorem modelTranslation_echo : modelTranslation echo utzRequest = some "utz".toList := by
  decide +kernel

/-- An endpoint with the echo behind it -/
def echoEndpoint (args : Endpoint.InvokeArgs) : Endpoint.InvokeOutcome :=
  match serve echo 1 (ofChars args.body) args.content_type args.accept with
  | .ok body => .response (encodeUtf8 body)
  | .error _ => .clientError (some "ModelError".toList)

theorem runsHooks_echoEndpoint : RunsHooks echo 1 echoEndpoint where
  served args body h := by rw [echoEndpoint, h]
  raised args e h := by rw [echoEndpoint, h]

theorem endpoint_translates_utz :
    Endpoint.translateViaSagemaker 1 (fun _ => true) (some ['k']) echoEndpoint utzRequest =
      .ok (ofChars "utz".toList) := by
  obtain ⟨t, ht, hok⟩ := (endpoint_translates (fun _ => true) runsHooks_echoEndpoint (fun _ => rfl)
    (List.cons_ne_nil 'k' []) utzRequest).1 utzRequest_not_blank
  rw [hok, Option.some.inj (ht.symm.trans modelTranslation_echo)]

end KaqTranslator
