import Mathlib.Data.Int.Notation
import KaqTranslator.Api.Jobs

/-!
# The call of the SageMaker endpoint (`app/translation.py`)

`translateViaSagemaker` is the function as the code computes it from the outcome of `invoke_endpoint`.  The
outcomes are those of the boto3 client: a `ClientError` with its code, a `BotoCoreError`, or a response whose
body `json.loads` decodes or fails to decode.
-/

namespace KaqTranslator

inductive Json where
  | null
  | bool (b : Bool)
  | num (n : ℤ)
  | str (s : Str)
  | arr (xs : List Json)
  | obj (fields : List (Str × Json))

inductive JsonLoads where
  | value (v : Json)
  | jsonDecodeError
  | unicodeDecodeError

structure EndpointPayload where
  source_lang : Str
  target_lang : Str
  text : Str
  deriving DecidableEq

/-- What `invoke_endpoint` and the read of its body do. -/
inductive InvokeOutcome where
  | clientError (code : Option Str)
  | botoCoreError
  | response (body : JsonLoads)

structure TranslationServiceError where
  status_code : ℕ
  message : Str
  deriving DecidableEq

/-- The exceptions of `translate_via_sagemaker`: its own, or any other. -/
inductive TranslateError where
  | service (e : TranslationServiceError)
  | other
  deriving DecidableEq

def endpointLangs : Direction → Str × Str
  | .esToCak => ("es".toList, "cak".toList)
  | .cakToEs => ("cak".toList, "es".toList)

def invalidInputMessage : Str :=
  "No se pudo traducir el texto enviado. Verifica el contenido e inténtalo de nuevo.".toList

def unavailableMessage : Str :=
  "El servicio de traducción no está disponible en este momento. Inténtalo más tarde.".toList

def timeoutMessage : Str :=
  "El servicio de traducción tardó demasiado en responder. Inténtalo de nuevo.".toList

/-- `body["translated_text"]` and its validation as `TranslateResponse.translation`; `none` is a
`KeyError`. -/
def translatedText : Json → Except TranslateError (Option Str)
  -- a repeated key keeps its last value
  | .obj fields =>
    match fields.reverse.lookup "translated_text".toList with
    | none => .ok none
    | some (.str s) => .ok (some s)
    | some _ => .error .other
  | _ => .error .other

/-- `translate_via_sagemaker`; `endpoint_name` is `SAGEMAKER_ENDPOINT_NAME`. -/
def translateViaSagemaker (endpoint_name : Option Str) (invoke_endpoint : EndpointPayload → InvokeOutcome)
    (request : TranslateRequest) : Except TranslateError Str :=
  let langs := endpointLangs request.direction
  if (endpoint_name.getD []).isEmpty then .error .other
  else
    match invoke_endpoint ⟨langs.1, langs.2, request.text⟩ with
    | .clientError code =>
      if code = some "ModelError".toList then .error (.service ⟨400, invalidInputMessage⟩)
      else .error (.service ⟨502, unavailableMessage⟩)
    | .botoCoreError => .error (.service ⟨504, timeoutMessage⟩)
    | .response .jsonDecodeError => .error (.service ⟨502, unavailableMessage⟩)
    | .response .unicodeDecodeError => .error .other
    | .response (.value body) => do
      match ← translatedText body with
      | some translation => return translation
      | none => throw (.service ⟨502, unavailableMessage⟩)

end KaqTranslator
