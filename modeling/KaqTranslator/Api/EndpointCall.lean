import KaqTranslator.Api.Translation
import KaqTranslator.Library.JsonText

/-!
# The call of the SageMaker endpoint, on the wire (`app/translation.py`)

`Endpoint.translateViaSagemaker` is `translate_via_sagemaker` down to the bytes: it writes the body of the
request, and reads that of the response, which may be any bytes.  Two functions stand for the interpreter and
for pydantic: `depth` is the number of containers that `json.loads` can enter, and `acceptsStr` says which
strings are valid as a `str`.

A response goes one of six ways (`readResponse_cases`), and on three of them an exception escapes that is not
a `TranslationServiceError`; `classified_iff` says when none does.  Seen through `InvokeOutcome.decoded`, the
function is the `translateViaSagemaker` of the service (`translateViaSagemaker_decoded`).
-/

namespace KaqTranslator

open Unicode

namespace Endpoint

/-! ### The call -/

/-- The arguments of `invoke_endpoint` -/
structure InvokeArgs where
  endpoint_name : Str
  content_type : Str
  accept : Str
  body : Str
  deriving DecidableEq

/-- What `invoke_endpoint` does, and the bytes that its body holds. -/
inductive InvokeOutcome where
  | clientError (code : Option Str)
  | botoCoreError
  | response (body : List UInt8)
  deriving DecidableEq

/-- The exceptions of `translate_via_sagemaker` -/
inductive CallError where
  | service (e : TranslationServiceError)
  | runtimeError  -- the name of the endpoint is not set
  | json (e : JsonText.JsonError)  -- an exception of `json.loads` that is not caught
  | typeError  -- the body is not an object
  | validationError  -- the translation is not a valid string
  deriving DecidableEq

def contentTypeJson : Str := "application/json".toList

def payload (request : TranslateRequest) : EndpointPayload :=
  let langs := endpointLangs request.direction
  ⟨langs.1, langs.2, request.text⟩

/-- `json.dumps(payload)` -/
def dumpsPayload (p : EndpointPayload) : Str :=
  JsonText.dumpsObject [("source_lang".toList, p.source_lang), ("target_lang".toList, p.target_lang),
    ("text".toList, p.text)]

def invokeArgs (endpoint_name : Str) (p : EndpointPayload) : InvokeArgs :=
  ⟨endpoint_name, contentTypeJson, contentTypeJson, dumpsPayload p⟩

def translatedTextKey : List CodePoint := ofChars "translated_text".toList

/-- `body["translated_text"]`; `none` is a `KeyError`. -/
def translatedText : JsonText.Value → Except CallError (Option JsonText.Value)
  | .obj members => .ok (JsonText.lookup members translatedTextKey)
  | _ => .error .typeError

section Call

variable (depth : ℕ) (acceptsStr : List CodePoint → Bool)

/-- `TranslateResponse(translation=…)` -/
def translateResponse : JsonText.Value → Except CallError (List CodePoint)
  | .str s => if acceptsStr s then .ok s else .error .validationError
  | _ => .error .validationError

/-- What is made of the body of a response -/
def readResponse (body : List UInt8) : Except CallError (List CodePoint) :=
  match JsonText.loadsBytes depth body with
  | .error .jsonDecodeError => .error (.service ⟨502, unavailableMessage⟩)
  | .error e => .error (.json e)
  | .ok value =>
    match translatedText value with
    | .error e => .error e
    | .ok none => .error (.service ⟨502, unavailableMessage⟩)
    | .ok (some translation) => translateResponse acceptsStr translation

/-- `translate_via_sagemaker`; `endpoint_name` is `SAGEMAKER_ENDPOINT_NAME`. -/
def translateViaSagemaker (endpoint_name : Option Str) (invoke_endpoint : InvokeArgs → InvokeOutcome)
    (request : TranslateRequest) : Except CallError (List CodePoint) :=
  if (endpoint_name.getD []).isEmpty then .error .runtimeError
  else
    match invoke_endpoint (invokeArgs (endpoint_name.getD []) (payload request)) with
    | .clientError code =>
      if code = some "ModelError".toList then .error (.service ⟨400, invalidInputMessage⟩)
      else .error (.service ⟨502, unavailableMessage⟩)
    | .botoCoreError => .error (.service ⟨504, timeoutMessage⟩)
    | .response body => readResponse depth acceptsStr body

/-! ### Which responses are handled -/

/-- The status of the failure that an outcome is to be reported as -/
def failureStatus : InvokeOutcome → ℕ
  | .clientError code => if code = some "ModelError".toList then 400 else 502
  | .botoCoreError => 504
  | .response _ => 502

/-- The result is the translation that the body holds, or a `TranslationServiceError` with the status of the
outcome. -/
def Classified (outcome : InvokeOutcome) (result : Except CallError (List CodePoint)) : Prop :=
  (∃ body members s, outcome = .response body ∧ JsonText.loadsBytes depth body = .ok (.obj members) ∧
    JsonText.lookup members translatedTextKey = some (.str s) ∧ result = .ok s) ∨
  ∃ message, result = .error (.service ⟨failureStatus outcome, message⟩)

/-- There is no response, or its body is no JSON text, or is an object where the translation is missing or a
valid string. -/
def Handled : InvokeOutcome → Prop
  | .response body =>
    JsonText.loadsBytes depth body = .error .jsonDecodeError ∨
      ∃ members, JsonText.loadsBytes depth body = .ok (.obj members) ∧
        (JsonText.lookup members translatedTextKey = none ∨
          ∃ s, JsonText.lookup members translatedTextKey = some (.str s) ∧ acceptsStr s = true)
  | _ => True

variable {depth acceptsStr}

/-- What a response comes to: one case for each way out of `readResponse`. -/
theorem readResponse_cases (body : List UInt8) :
    (JsonText.loadsBytes depth body = .error .jsonDecodeError ∧
      readResponse depth acceptsStr body = .error (.service ⟨502, unavailableMessage⟩)) ∨
    (∃ e, JsonText.loadsBytes depth body = .error e ∧ e ≠ .jsonDecodeError ∧
      readResponse depth acceptsStr body = .error (.json e)) ∨
    (∃ value, JsonText.loadsBytes depth body = .ok value ∧ (∀ members, value ≠ .obj members) ∧
      readResponse depth acceptsStr body = .error .typeError) ∨
    ∃ members, JsonText.loadsBytes depth body = .ok (.obj members) ∧
      ((JsonText.lookup members translatedTextKey = none ∧
          readResponse depth acceptsStr body = .error (.service ⟨502, unavailableMessage⟩)) ∨
        (∃ s, JsonText.lookup members translatedTextKey = some (.str s) ∧ acceptsStr s = true ∧
          readResponse depth acceptsStr body = .ok s) ∨
        ∃ translation, JsonText.lookup members translatedTextKey = some translation ∧
          (∀ s, translation = .str s → acceptsStr s = false) ∧
          readResponse depth acceptsStr body = .error .validationError) := by
  unfold readResponse
  cases hloads : JsonText.loadsBytes depth body with
  | error e =>
    cases e with
    | jsonDecodeError => exact Or.inl ⟨rfl, rfl⟩
    | unicodeDecodeError => exact Or.inr (Or.inl ⟨_, rfl, (by decide), rfl⟩)
    | recursionError => exact Or.inr (Or.inl ⟨_, rfl, (by decide), rfl⟩)
    | valueError => exact Or.inr (Or.inl ⟨_, rfl, (by decide), rfl⟩)
  | ok value =>
    right; right
    cases value with
    | obj members =>
      right
      refine ⟨members, rfl, ?_⟩
      dsimp only [translatedText]
      cases hlookup : JsonText.lookup members translatedTextKey with
      | none => exact Or.inl ⟨rfl, rfl⟩
      | some translation =>
        right
        cases translation with
        | str s =>
          dsimp only [translateResponse]
          cases haccepts : acceptsStr s with
          | true => exact Or.inl ⟨s, rfl, haccepts, rfl⟩
          | false =>
            right
            refine ⟨.str s, rfl, fun t ht => ?_, rfl⟩
            obtain rfl := JsonText.Value.str.inj ht
            exact haccepts
        | _ => exact Or.inr ⟨_, rfl, (fun _ h => by cases h), rfl⟩
    | _ => exact Or.inl ⟨_, rfl, (fun _ h => by cases h), rfl⟩

private theorem not_classified_error {outcome : InvokeOutcome} {e : CallError} (h : ∀ s, e ≠ .service s) :
    ¬ Classified depth outcome (.error e) := by
  rintro (⟨_, _, _, _, _, _, hok⟩ | ⟨_, hservice⟩)
  · cases hok
  · exact h _ (Except.error.inj hservice)

private theorem classified_response_iff (body : List UInt8) :
    Classified depth (.response body) (readResponse depth acceptsStr body) ↔
      Handled depth acceptsStr (.response body) := by
  rcases @readResponse_cases depth acceptsStr body with ⟨hloads, hread⟩ | ⟨e, hloads, hne, hread⟩ |
    ⟨value, hloads, hnobj, hread⟩ | ⟨members, hloads, ⟨hlookup, hread⟩ | ⟨s, hlookup, haccepts, hread⟩ |
      ⟨translation, hlookup, hinvalid, hread⟩⟩
  · exact iff_of_true (Or.inr ⟨_, hread⟩) (Or.inl hloads)
  · rw [hread]
    apply iff_of_false (not_classified_error fun _ h => by cases h)
    rintro (hdecode | ⟨members, hobj, -⟩)
    · rw [hloads] at hdecode
      exact hne (Except.error.inj hdecode)
    · rw [hloads] at hobj
      cases hobj
  · rw [hread]
    apply iff_of_false (not_classified_error fun _ h => by cases h)
    rintro (hdecode | ⟨members, hobj, -⟩)
    · rw [hloads] at hdecode
      cases hdecode
    · rw [hloads] at hobj
      exact hnobj members (Except.ok.inj hobj)
  · exact iff_of_true (Or.inr ⟨_, hread⟩) (Or.inr ⟨members, hloads, Or.inl hlookup⟩)
  · exact iff_of_true (Or.inl ⟨body, members, s, rfl, hloads, hlookup, hread⟩)
      (Or.inr ⟨members, hloads, Or.inr ⟨s, hlookup, haccepts⟩⟩)
  · rw [hread]
    apply iff_of_false (not_classified_error fun _ h => by cases h)
    rintro (hdecode | ⟨members', hobj, hnone | ⟨s, hsome, haccepts⟩⟩)
    · rw [hloads] at hdecode
      cases hdecode
    · obtain rfl := JsonText.Value.obj.inj (Except.ok.inj (hloads.symm.trans hobj))
      rw [hlookup] at hnone
      cases hnone
    · obtain rfl := JsonText.Value.obj.inj (Except.ok.inj (hloads.symm.trans hobj))
      rw [hlookup] at hsome
      have hrefused := hinvalid s (Option.some.inj hsome)
      rw [haccepts] at hrefused
      cases hrefused

variable (depth acceptsStr)

/-- When failures are classified.  With the name of the endpoint set, the result is classified if and only if
the outcome is handled. -/
theorem classified_iff {name : Str} (hname : name ≠ []) (invoke_endpoint : InvokeArgs → InvokeOutcome)
    (request : TranslateRequest) :
    Classified depth (invoke_endpoint (invokeArgs name (payload request)))
        (translateViaSagemaker depth acceptsStr (some name) invoke_endpoint request) ↔
      Handled depth acceptsStr (invoke_endpoint (invokeArgs name (payload request))) := by
  have hset : name.isEmpty = false := List.isEmpty_eq_false_iff.2 hname
  unfold translateViaSagemaker
  rw [Option.getD_some, hset, if_neg Bool.false_ne_true]
  cases invoke_endpoint (invokeArgs name (payload request)) with
  | clientError code =>
    refine iff_of_true (Or.inr ?_) trivial
    dsimp only [failureStatus]
    split
    · exact ⟨_, rfl⟩
    · exact ⟨_, rfl⟩
  | botoCoreError => exact iff_of_true (Or.inr ⟨_, rfl⟩) trivial
  | response body => exact classified_response_iff body

end Call

/-- `{"translated_text": 1}` -/
private def numberBody : List UInt8 :=
  [0x7B, 0x22, 0x74, 0x72, 0x61, 0x6E, 0x73, 0x6C, 0x61, 0x74, 0x65, 0x64, 0x5F, 0x74, 0x65, 0x78, 0x74, 0x22,
    0x3A, 0x20, 0x31, 0x7D]

/-- A response cut short is no JSON text, and is handled. -/
theorem classified_iff_cut :
    Classified 8 (.response (numberBody.take 21)) (translateViaSagemaker 8 (fun _ => true) (some ['k'])
      (fun _ => .response (numberBody.take 21)) utzRequest) :=
  (classified_iff 8 (fun _ => true) (List.cons_ne_nil _ _) (fun _ => .response (numberBody.take 21))
    utzRequest).2 (Or.inl rfl)

/-- Bytes that are no text, an array, and a translation that is a number -/
theorem unclassified_responses :
    (¬ Classified 8 (.response [0xFF])
      (translateViaSagemaker 8 (fun _ => true) (some ['k']) (fun _ => .response [0xFF]) utzRequest)) ∧
    (¬ Classified 8 (.response [0x5B, 0x5D])
      (translateViaSagemaker 8 (fun _ => true) (some ['k']) (fun _ => .response [0x5B, 0x5D]) utzRequest)) ∧
    ¬ Classified 8 (.response numberBody)
      (translateViaSagemaker 8 (fun _ => true) (some ['k']) (fun _ => .response numberBody) utzRequest) :=
  ⟨@not_classified_error _ _ (.json .unicodeDecodeError) (fun _ h => by cases h),
    @not_classified_error _ _ .typeError (fun _ h => by cases h),
    @not_classified_error _ _ .validationError (fun _ h => by cases h)⟩

/-! ### The decoded call -/

/-- What `translateViaSagemaker` of the service keeps of a text; one with a surrogate is not a string to
it. -/
def decodedText : JsonText.Value → Json
  | .str s => ((toChars s).map Json.str).getD .null
  | _ => .null

def decodedMember (p : List CodePoint × JsonText.Value) : Option (Str × Json) :=
  (toChars p.1).map fun key => (key, decodedText p.2)

def decodedBody : JsonText.Value → Json
  | .obj members => .obj (members.filterMap decodedMember)
  | _ => .null

def InvokeOutcome.decoded (depth : ℕ) : InvokeOutcome → KaqTranslator.InvokeOutcome
  | clientError code => .clientError code
  | botoCoreError => .botoCoreError
  | response body =>
    .response <| match JsonText.loadsBytes depth body with
      | .ok value => .value (decodedBody value)
      | .error .jsonDecodeError => .jsonDecodeError
      | .error _ => .unicodeDecodeError

def CallError.decoded : CallError → TranslateError
  | service e => .service e
  | _ => .other

private theorem decodedText_eq_str {value : JsonText.Value} {t : Str} (h : decodedText value = .str t) :
    value = .str (ofChars t) := by
  cases value with
  | str s =>
    cases hs : toChars s with
    | none =>
      rw [decodedText, hs] at h
      cases h
    | some u =>
      rw [decodedText, hs] at h
      obtain rfl : u = t := Json.str.inj h
      rw [toChars_eq_some.1 hs]
  | _ => cases h

private theorem lookup_decodedMember (members : List (List CodePoint × JsonText.Value)) (key : Str) :
    (members.filterMap decodedMember).reverse.lookup key =
      (JsonText.lookup members (ofChars key)).map decodedText := by
  rw [JsonText.lookup, ← List.filterMap_reverse]
  induction members.reverse with
  | nil => rfl
  | cons p ps ih =>
    rw [List.lookup_cons, List.filterMap_cons]
    cases hkey : toChars p.1 with
    | none =>
      have hne : (ofChars key == p.1) = false := by
        apply beq_eq_false_iff_ne.2
        intro h
        rw [← h, toChars_ofChars] at hkey
        cases hkey
      rw [decodedMember, hkey, hne]
      exact ih
    | some k =>
      obtain h := toChars_eq_some.1 hkey
      rw [decodedMember, hkey]
      show List.lookup key ((k, decodedText p.2) :: ps.filterMap decodedMember) = _
      rw [List.lookup_cons, ih, h]
      by_cases hk : key = k
      · subst hk
        simp
      · have hne : ofChars key ≠ ofChars k := fun h => hk (ofChars_injective h)
        rw [beq_eq_false_iff_ne.2 hne, beq_eq_false_iff_ne.2 hk]

/-- The body as the service reads it -/
private theorem translatedText_decodedBody (members : List (List CodePoint × JsonText.Value)) :
    KaqTranslator.translatedText (decodedBody (.obj members)) =
      match (JsonText.lookup members translatedTextKey).map decodedText with
      | none => .ok none
      | some (.str s) => .ok (some s)
      | some _ => .error .other := by
  rw [translatedTextKey, ← lookup_decodedMember]
  rfl

section Decoded

variable {depth : ℕ} {acceptsStr : List CodePoint → Bool} {endpoint_name : Option Str}
  {request : TranslateRequest}

private theorem readResponse_decoded (haccepts : ∀ s : Str, acceptsStr (ofChars s) = true) {body : List UInt8}
    (hscalar : ∀ s, readResponse depth acceptsStr body = .ok s → ∃ t, s = ofChars t)
    (hname : ¬ (endpoint_name.getD []).isEmpty = true) :
    (readResponse depth acceptsStr body).mapError CallError.decoded =
      (KaqTranslator.translateViaSagemaker endpoint_name
        (fun _ => (InvokeOutcome.response body).decoded depth) request).map ofChars := by
  unfold KaqTranslator.translateViaSagemaker
  rw [if_neg hname]
  dsimp only [InvokeOutcome.decoded]
  rcases @readResponse_cases depth acceptsStr body with ⟨hloads, hread⟩ | ⟨e, hloads, hne, hread⟩ |
    ⟨value, hloads, hnobj, hread⟩ | ⟨members, hloads, ⟨hlookup, hread⟩ | ⟨s, hlookup, -, hread⟩ |
      ⟨translation, hlookup, hinvalid, hread⟩⟩
  · rw [hloads, hread]
    rfl
  · rw [hloads, hread]
    cases e with
    | jsonDecodeError => exact absurd rfl hne
    | _ => rfl
  · rw [hloads, hread]
    cases value with
    | obj members => exact absurd rfl (hnobj members)
    | _ => rfl
  · rw [hloads, hread]
    dsimp only
    rw [translatedText_decodedBody, hlookup]
    rfl
  · obtain ⟨t, rfl⟩ := hscalar s hread
    rw [hloads, hread]
    dsimp only
    rw [translatedText_decodedBody, hlookup, Option.map_some, decodedText, toChars_ofChars]
    rfl
  · rw [hloads, hread]
    dsimp only
    rw [translatedText_decodedBody, hlookup, Option.map_some]
    cases hdecoded : decodedText translation with
    | str t =>
      have hrefused := hinvalid _ (decodedText_eq_str hdecoded)
      rw [haccepts] at hrefused
      cases hrefused
    | _ => rfl

/-- The call with decoded outcomes, where a translation has no surrogates -/
theorem translateViaSagemaker_decoded (haccepts : ∀ s : Str, acceptsStr (ofChars s) = true)
    {invoke_endpoint : InvokeArgs → InvokeOutcome}
    (hscalar : ∀ s, translateViaSagemaker depth acceptsStr endpoint_name invoke_endpoint request = .ok s →
      ∃ t, s = ofChars t) :
    (translateViaSagemaker depth acceptsStr endpoint_name invoke_endpoint request).mapError CallError.decoded =
      (KaqTranslator.translateViaSagemaker endpoint_name
        (fun p => (invoke_endpoint (invokeArgs (endpoint_name.getD []) p)).decoded depth)
        request).map ofChars := by
  have hcall : KaqTranslator.translateViaSagemaker endpoint_name
        (fun p => (invoke_endpoint (invokeArgs (endpoint_name.getD []) p)).decoded depth) request =
      KaqTranslator.translateViaSagemaker endpoint_name
        (fun _ => (invoke_endpoint (invokeArgs (endpoint_name.getD []) (payload request))).decoded depth)
        request := rfl
  rw [hcall]
  unfold translateViaSagemaker at hscalar ⊢
  by_cases hname : (endpoint_name.getD []).isEmpty = true
  · unfold KaqTranslator.translateViaSagemaker
    rw [if_pos hname, if_pos hname]
    rfl
  · rw [if_neg hname] at hscalar ⊢
    cases houtcome : invoke_endpoint (invokeArgs (endpoint_name.getD []) (payload request)) with
    | clientError code =>
      unfold KaqTranslator.translateViaSagemaker
      rw [if_neg hname]
      dsimp only [InvokeOutcome.decoded]
      split
      · rfl
      · rfl
    | botoCoreError =>
      unfold KaqTranslator.translateViaSagemaker
      rw [if_neg hname]
      rfl
    | response body =>
      rw [houtcome] at hscalar
      exact readResponse_decoded haccepts hscalar hname

end Decoded

end Endpoint

end KaqTranslator
