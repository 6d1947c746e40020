import KaqTranslator.Deployment.Inference
import KaqTranslator.Library.JsonText

/-!
# The requests that the endpoint accepts (`deployment/inference.py`)

`input_fn` reads the body of a request as JSON and gives it to `parse_request`.  The body is a `str`, and a
text in it may hold surrogates, so that both are lists of code points.  `parseRequest_ok_iff` says which
payloads are accepted, and `parseRequest_obj` that an object is either accepted or rejected with one of the
errors of `parse_request` itself; each of them names the fields that it is about (`RequestError.names_field`).
-/

namespace KaqTranslator

open Unicode

/-! ### Languages and fields -/

/-- `SPANISH` and `KAQCHIKEL` -/
def langCode : Language → Str
  | .es => "es".toList
  | .cak => "cak".toList

def supportedLangs : List Language := [.es, .cak]

/-- The member of `SUPPORTED_LANGS` that a value is, if it is one -/
def supportedLang : JsonText.Value → Option Language
  | .str s => supportedLangs.find? fun lang => ofChars (langCode lang) = s
  | _ => none

inductive RequestField where
  | sourceLang
  | targetLang
  | text
  deriving DecidableEq

def RequestField.key : RequestField → Str
  | sourceLang => "source_lang".toList
  | targetLang => "target_lang".toList
  | text => "text".toList

def requiredFields : List RequestField := [.sourceLang, .targetLang, .text]

/-! ### Errors -/

/-- The `ValueError`s that `parse_request` and `input_fn` raise themselves -/
inductive RequestError where
  | contentType (content_type : Str)
  | notJson
  | missing (field : RequestField)
  | unsupported (field : RequestField) (value : JsonText.Value)
  | sameLang (lang : Language)
  | notString (value : JsonText.Value)
  | emptyText

inductive InputError where
  | valueError (e : RequestError)
  | typeError  -- the payload cannot be searched, or not be indexed by a string
  | keyError (field : RequestField)
  | json (e : JsonText.JsonError)  -- an exception of `json.loads` that is not caught

/-- `type(value).__name__` -/
def typeName : JsonText.Value → Str
  | .null => "NoneType".toList
  | .bool _ => "bool".toList
  | .int _ => "int".toList
  | .float _ => "float".toList
  | .str _ => "str".toList
  | .arr _ => "list".toList
  | .obj _ => "dict".toList

/-- The message of an error; `repr` and the text of the `JSONDecodeError` are Python's. -/
def RequestError.message (repr : JsonText.Value → Str) (decodeError : Str) : RequestError → Str
  | contentType content_type =>
    "Unsupported content type ".toList ++ repr (.str (ofChars content_type)) ++
      "; expected 'application/json'".toList
  | notJson => "Request body is not valid JSON: ".toList ++ decodeError
  | missing field => "Missing required field: '".toList ++ field.key ++ "'".toList
  | unsupported field value =>
    "Unsupported ".toList ++ field.key ++ (" ".toList ++ repr value ++ "; expected one of ('es', 'cak')".toList)
  | sameLang lang =>
    "source_lang and target_lang must differ (both were '".toList ++ langCode lang ++
      "'); there is no same-language translation.".toList
  | notString value => "text must be a string, got ".toList ++ typeName value
  | emptyText => "text must not be empty".toList

/-- The fields that an error is about -/
def RequestError.fields : RequestError → List RequestField
  | contentType _ | notJson => []
  | missing field | unsupported field _ => [field]
  | sameLang _ => [.sourceLang, .targetLang]
  | notString _ | emptyText => [.text]

/-! ### Parsing -/

/-- `key in payload`; `none` is a `TypeError`. -/
def containsKey (payload : JsonText.Value) (field : RequestField) : Option Bool :=
  match payload with
  | .obj members => some (JsonText.lookup members (ofChars field.key)).isSome
  | .arr values =>
    some (values.any fun value => match value with | .str s => s = ofChars field.key | _ => false)
  | .str s => some (s.tails.any fun t => (ofChars field.key).isPrefixOf t)
  | _ => none

/-- `payload[key]` -/
def getKey (payload : JsonText.Value) (field : RequestField) : Except InputError JsonText.Value :=
  match payload with
  | .obj members =>
    match JsonText.lookup members (ofChars field.key) with
    | some value => .ok value
    | none => .error (.keyError field)
  | _ => .error .typeError

def requireFields (payload : JsonText.Value) : List RequestField → Except InputError Unit
  | [] => .ok ()
  | field :: fields =>
    match containsKey payload field with
    | none => .error .typeError
    | some false => .error (.valueError (.missing field))
    | some true => requireFields payload fields

def isspacePoint : CodePoint → Bool
  | .scalar c => isspace c
  | .surrogate _ => false

/-- `str.strip`, over code points -/
def stripPoints (s : List CodePoint) : List CodePoint :=
  ((s.dropWhile isspacePoint).reverse.dropWhile isspacePoint).reverse

/-- `parse_request`, after the values have been taken from the payload -/
def checkFields (source_lang target_lang text : JsonText.Value) :
    Except InputError (InferenceRequest (List CodePoint)) :=
  match supportedLang source_lang with
  | none => .error (.valueError (.unsupported .sourceLang source_lang))
  | some source =>
    match supportedLang target_lang with
    | none => .error (.valueError (.unsupported .targetLang target_lang))
    | some target =>
      if source = target then .error (.valueError (.sameLang source))
      else
        match text with
        | .str s =>
          let stripped_text := stripPoints s
          if stripped_text.isEmpty then .error (.valueError .emptyText)
          else .ok ⟨source, target, stripped_text⟩
        | value => .error (.valueError (.notString value))

def parseRequest (payload : JsonText.Value) : Except InputError (InferenceRequest (List CodePoint)) := do
  requireFields payload requiredFields
  let source_lang ← getKey payload .sourceLang
  let target_lang ← getKey payload .targetLang
  let text ← getKey payload .text
  checkFields source_lang target_lang text

def contentTypeJson : Str := "application/json".toList

/-- `input_fn`; `depth` is the number of containers that `json.loads` can enter. -/
def inputFn (depth : ℕ) (request_body : List CodePoint) (content_type : Str) :
    Except InputError (InferenceRequest (List CodePoint)) :=
  if content_type ≠ contentTypeJson then .error (.valueError (.contentType content_type))
  else
    match JsonText.loads depth request_body with
    | .error .jsonDecodeError => .error (.valueError .notJson)
    | .error e => .error (.json e)
    | .ok payload => parseRequest payload

/-! ### What is accepted -/

theorem RequestError.names_field (repr : JsonText.Value → Str) (decodeError : Str) (e : RequestError) :
    ∀ field ∈ e.fields, field.key <:+: e.message repr decodeError := by
  intro field hfield
  cases e with
  | contentType => cases hfield
  | notJson => cases hfield
  | missing field' =>
    obtain rfl := List.mem_singleton.1 hfield
    exact List.infix_append ..
  | unsupported field' value =>
    obtain rfl := List.mem_singleton.1 hfield
    exact List.infix_append ..
  | sameLang lang =>
    have hstart : "source_lang and target_lang must differ (both were '".toList =
        RequestField.sourceLang.key ++ " and ".toList ++ RequestField.targetLang.key ++
          " must differ (both were '".toList := rfl
    have hmessage : RequestError.message repr decodeError (.sameLang lang) =
        "source_lang and target_lang must differ (both were '".toList ++
          (langCode lang ++ "'); there is no same-language translation.".toList) := List.append_assoc ..
    rw [hmessage, hstart]
    rcases List.mem_cons.1 hfield with rfl | hfield
    · simp only [List.append_assoc]
      exact (List.prefix_append _ _).isInfix
    · obtain rfl := List.mem_singleton.1 hfield
      rw [List.append_assoc (_ ++ _)]
      exact List.infix_append ..
  | notString value =>
    obtain rfl := List.mem_singleton.1 hfield
    exact ⟨[], " must be a string, got ".toList ++ typeName value, rfl⟩
  | emptyText =>
    obtain rfl := List.mem_singleton.1 hfield
    exact ⟨[], " must not be empty".toList, rfl⟩

theorem supportedLang_eq_some {v : JsonText.Value} {lang : Language} :
    supportedLang v = some lang ↔ v = .str (ofChars (langCode lang)) := by
  constructor
  · intro h
    cases v with
    | str s =>
      have hs := List.find?_some h
      rw [of_decide_eq_true hs]
    | _ => cases h
  · rintro rfl
    cases lang <;> rfl

/-- Two different languages and a text -/
theorem checkFields_str {source target : Language} (hdiffer : source ≠ target) (s : List CodePoint) :
    checkFields (.str (ofChars (langCode source))) (.str (ofChars (langCode target))) (.str s) =
      if (stripPoints s).isEmpty then .error (.valueError .emptyText)
      else .ok ⟨source, target, stripPoints s⟩ := by
  unfold checkFields
  rw [supportedLang_eq_some.2 rfl, supportedLang_eq_some.2 rfl]
  dsimp only
  rw [if_neg hdiffer]

theorem checkFields_ok_iff {source_lang target_lang text : JsonText.Value}
    {r : InferenceRequest (List CodePoint)} :
    checkFields source_lang target_lang text = .ok r ↔
      source_lang = .str (ofChars (langCode r.source_lang)) ∧
        target_lang = .str (ofChars (langCode r.target_lang)) ∧ r.source_lang ≠ r.target_lang ∧
        (∃ s, text = .str s ∧ r.text = stripPoints s) ∧ r.text ≠ [] := by
  constructor
  · intro h
    unfold checkFields at h
    split at h
    · cases h
    · rename_i source hsource
      split at h
      · cases h
      · rename_i target htarget
        by_cases hsame : source = target
        · rw [if_pos hsame] at h
          cases h
        · rw [if_neg hsame] at h
          split at h
          · rename_i s
            dsimp only at h
            by_cases hempty : (stripPoints s).isEmpty
            · rw [if_pos hempty] at h
              cases h
            · rw [if_neg hempty] at h
              cases h
              have hne : stripPoints s ≠ [] := fun hnil => hempty (List.isEmpty_iff.2 hnil)
              exact ⟨supportedLang_eq_some.1 hsource, supportedLang_eq_some.1 htarget, hsame, ⟨s, rfl, rfl⟩,
                hne⟩
          · cases h
  · obtain ⟨source, target, t⟩ := r
    rintro ⟨rfl, rfl, hdiffer, ⟨s, rfl, htext⟩, hne⟩
    have hempty : (stripPoints s).isEmpty = false := by
      rw [← htext]
      exact List.isEmpty_eq_false_iff.2 hne
    rw [checkFields_str hdiffer, hempty, if_neg Bool.false_ne_true, ← htext]

/-- The values are checked without another exception. -/
theorem checkFields_error {source_lang target_lang text : JsonText.Value} {e : InputError}
    (h : checkFields source_lang target_lang text = .error e) : ∃ r, e = .valueError r := by
  unfold checkFields at h
  split at h
  · cases h
    exact ⟨_, rfl⟩
  · split at h
    · cases h
      exact ⟨_, rfl⟩
    · split at h
      · cases h
        exact ⟨_, rfl⟩
      · split at h
        · dsimp only at h
          split at h
          · cases h
            exact ⟨_, rfl⟩
          · cases h
        · cases h
          exact ⟨_, rfl⟩

section Members

variable {members : List (List CodePoint × JsonText.Value)}

/-- An object with all the fields -/
theorem parseRequest_of_lookup {source_lang target_lang text : JsonText.Value}
    (hsource : JsonText.lookup members (ofChars RequestField.sourceLang.key) = some source_lang)
    (htarget : JsonText.lookup members (ofChars RequestField.targetLang.key) = some target_lang)
    (htext : JsonText.lookup members (ofChars RequestField.text.key) = some text) :
    parseRequest (.obj members) = checkFields source_lang target_lang text := by
  have hrequire : requireFields (.obj members) requiredFields = .ok () := by
    simp only [requiredFields, requireFields, containsKey, hsource, htarget, htext, Option.isSome_some]
  rw [parseRequest, hrequire]
  simp only [getKey, hsource, htarget, htext]
  rfl

private theorem requireFields_obj (fields : List RequestField) :
    (∀ field ∈ fields, ∃ value, JsonText.lookup members (ofChars field.key) = some value) ∨
      ∃ field, requireFields (.obj members) fields = .error (.valueError (.missing field)) := by
  induction fields with
  | nil => exact Or.inl fun _ hfield => by cases hfield
  | cons field fields ih =>
    have hcontains : containsKey (.obj members) field =
        some (JsonText.lookup members (ofChars field.key)).isSome := rfl
    cases hvalue : JsonText.lookup members (ofChars field.key) with
    | none =>
      right
      refine ⟨field, ?_⟩
      rw [requireFields, hcontains, hvalue]
      rfl
    | some value =>
      rcases ih with hall | ⟨missing, hmissing⟩
      · exact Or.inl (List.forall_mem_cons.2 ⟨⟨value, hvalue⟩, hall⟩)
      · right
        refine ⟨missing, ?_⟩
        rw [requireFields, hcontains, hvalue, ← hmissing]
        rfl

/-- An object has all the fields, or is rejected because one is missing. -/
theorem parseRequest_obj_cases :
    (∃ source_lang target_lang text,
      JsonText.lookup members (ofChars RequestField.sourceLang.key) = some source_lang ∧
      JsonText.lookup members (ofChars RequestField.targetLang.key) = some target_lang ∧
      JsonText.lookup members (ofChars RequestField.text.key) = some text) ∨
      ∃ field, parseRequest (.obj members) = .error (.valueError (.missing field)) := by
  rcases @requireFields_obj members requiredFields with hall | ⟨field, hmissing⟩
  · left
    obtain ⟨source_lang, hsource⟩ := hall .sourceLang (by simp [requiredFields])
    obtain ⟨target_lang, htarget⟩ := hall .targetLang (by simp [requiredFields])
    obtain ⟨text, htext⟩ := hall .text (by simp [requiredFields])
    exact ⟨source_lang, target_lang, text, hsource, htarget, htext⟩
  · right
    refine ⟨field, ?_⟩
    rw [parseRequest, hmissing]
    rfl

/-- An object is accepted, or rejected with one of the errors of `parse_request`. -/
theorem parseRequest_obj {e : InputError} (h : parseRequest (.obj members) = .error e) :
    ∃ r, e = .valueError r := by
  rcases @parseRequest_obj_cases members with
    ⟨source_lang, target_lang, text, hsource, htarget, htext⟩ | ⟨field, hmissing⟩
  · rw [parseRequest_of_lookup hsource htarget htext] at h
    exact checkFields_error h
  · rw [hmissing] at h
    cases h
    exact ⟨_, rfl⟩

end Members

private theorem parseRequest_not_obj {payload : JsonText.Value} (h : ∀ members, payload ≠ .obj members)
    (r : InferenceRequest (List CodePoint)) : parseRequest payload ≠ .ok r := by
  have hget : getKey payload .sourceLang = .error .typeError := by
    cases payload with
    | obj members => exact absurd rfl (h members)
    | _ => rfl
  rw [parseRequest, hget]
  cases requireFields payload requiredFields <;> exact fun hok => by cases hok

/-- A payload is accepted if and only if it is an object with two different supported languages and a text
that is not blank. -/
theorem parseRequest_ok_iff {payload : JsonText.Value} {r : InferenceRequest (List CodePoint)} :
    parseRequest payload = .ok r ↔ ∃ members, payload = .obj members ∧
      JsonText.lookup members (ofChars RequestField.sourceLang.key) =
        some (.str (ofChars (langCode r.source_lang))) ∧
      JsonText.lookup members (ofChars RequestField.targetLang.key) =
        some (.str (ofChars (langCode r.target_lang))) ∧
      r.source_lang ≠ r.target_lang ∧
      (∃ s, JsonText.lookup members (ofChars RequestField.text.key) = some (.str s) ∧
        r.text = stripPoints s) ∧
      r.text ≠ [] := by
  constructor
  · intro h
    have hobj : ∃ members, payload = .obj members := by
      by_contra hnone
      exact parseRequest_not_obj (fun members hmembers => hnone ⟨members, hmembers⟩) r h
    obtain ⟨members, rfl⟩ := hobj
    rcases @parseRequest_obj_cases members with
      ⟨source_lang, target_lang, text, hsource, htarget, htext⟩ | ⟨field, hmissing⟩
    · rw [parseRequest_of_lookup hsource htarget htext] at h
      obtain ⟨rfl, rfl, hdiffer, ⟨s, rfl, hstrip⟩, hne⟩ := checkFields_ok_iff.1 h
      exact ⟨members, rfl, hsource, htarget, hdiffer, ⟨s, htext, hstrip⟩, hne⟩
    · rw [hmissing] at h
      cases h
  · rintro ⟨members, rfl, hsource, htarget, hdiffer, ⟨s, htext, hstrip⟩, hne⟩
    rw [parseRequest_of_lookup hsource htarget htext]
    exact checkFields_ok_iff.2 ⟨rfl, rfl, hdiffer, ⟨s, rfl, hstrip⟩, hne⟩

/-! ### Texts without surrogates -/

theorem stripPoints_ofChars (s : Str) : stripPoints (ofChars s) = ofChars s.strip := by
  have hdrop : ∀ t : Str, (ofChars t).dropWhile isspacePoint = ofChars (t.dropWhile isspace) :=
    fun t => List.dropWhile_map
  rw [stripPoints, hdrop, ofChars, ofChars, ← List.map_reverse]
  show ((ofChars _).dropWhile isspacePoint).reverse = _
  rw [hdrop, ofChars, ← List.map_reverse]
  rfl

end KaqTranslator
