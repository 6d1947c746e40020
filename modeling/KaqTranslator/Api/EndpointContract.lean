import KaqTranslator.Api.EndpointCall
import KaqTranslator.Deployment.InputFn

/-!
# The contract with the endpoint

`translate_via_sagemaker` (`app/translation.py`) writes the requests that `input_fn`
(`deployment/inference.py`) reads.  The API counts white space as text, and the endpoint does not: it refuses
a text that is blank, and reads every other request as it was meant.
-/

namespace KaqTranslator

open Unicode

theorem loads_dumpsPayload (depth : ℕ) (p : EndpointPayload) :
    JsonText.loads (depth + 1) (ofChars (Endpoint.dumpsPayload p)) =
      .ok (.obj [(ofChars RequestField.sourceLang.key, .str (ofChars p.source_lang)),
        (ofChars RequestField.targetLang.key, .str (ofChars p.target_lang)),
        (ofChars RequestField.text.key, .str (ofChars p.text))]) :=
  JsonText.loads_dumpsObject depth _

private theorem isEmpty_ofChars (s : Str) : (ofChars s).isEmpty = s.isEmpty := by cases s <;> rfl

/-- What the endpoint makes of a payload with two different languages -/
theorem inputFn_dumpsPayload (depth : ℕ) {source target : Language} (hdiffer : source ≠ target) (text : Str) :
    inputFn (depth + 1) (ofChars (Endpoint.dumpsPayload ⟨langCode source, langCode target, text⟩))
        Endpoint.contentTypeJson =
      if text.strip.isEmpty then .error (.valueError .emptyText)
      else .ok ⟨source, target, ofChars text.strip⟩ := by
  have hcontent : ¬ Endpoint.contentTypeJson ≠ contentTypeJson := fun h => h rfl
  rw [inputFn, if_neg hcontent, loads_dumpsPayload]
  dsimp only
  rw [parseRequest_of_lookup rfl rfl rfl, checkFields_str hdiffer, stripPoints_ofChars, isEmpty_ofChars]

/-- The contract.  The endpoint reads the request that the API sends for an admitted text as the stripped
text, with the two languages of the direction, if the text is not blank; a blank one it refuses as empty. -/
theorem endpoint_contract (depth : ℕ) (endpoint_name : Str) (request : TranslateRequest) :
    ∃ source target : Language,
      endpointLangs request.direction = (langCode source, langCode target) ∧ source ≠ target ∧
      (¬ request.text.Blank →
        inputFn (depth + 1) (ofChars (Endpoint.invokeArgs endpoint_name (Endpoint.payload request)).body)
            (Endpoint.invokeArgs endpoint_name (Endpoint.payload request)).content_type =
          .ok ⟨source, target, ofChars request.text.strip⟩) ∧
      (request.text.Blank →
        inputFn (depth + 1) (ofChars (Endpoint.invokeArgs endpoint_name (Endpoint.payload request)).body)
            (Endpoint.invokeArgs endpoint_name (Endpoint.payload request)).content_type =
          .error (.valueError .emptyText)) := by
  obtain ⟨source, target, hlangs, hdiffer⟩ : ∃ source target : Language,
      endpointLangs request.direction = (langCode source, langCode target) ∧ source ≠ target := by
    cases request.direction with
    | esToCak => exact ⟨.es, .cak, rfl, by decide⟩
    | cakToEs => exact ⟨.cak, .es, rfl, by decide⟩
  have hpayload : Endpoint.payload request = ⟨langCode source, langCode target, request.text⟩ := by
    rw [Endpoint.payload, hlangs]
  have hinput := inputFn_dumpsPayload depth hdiffer request.text
  rw [← hpayload] at hinput
  refine ⟨source, target, hlangs, hdiffer, fun hblank => ?_, fun hblank => ?_⟩
  · have hstrip : request.text.strip.isEmpty = false :=
      List.isEmpty_eq_false_iff.2 fun h => hblank (Str.strip_eq_nil_iff.1 h)
    rw [hstrip, if_neg Bool.false_ne_true] at hinput
    exact hinput
  · have hstrip : request.text.strip.isEmpty = true := List.isEmpty_iff.2 (Str.strip_eq_nil_iff.2 hblank)
    rw [hstrip, if_pos rfl] at hinput
    exact hinput

/-- A text that is one space is admitted, and refused. -/
theorem endpoint_refuses_space :
    ¬ ∃ r, inputFn 1 (ofChars (Endpoint.invokeArgs ['k'] (Endpoint.payload
      ⟨[' '], .esToCak, by decide, by decide⟩)).body) Endpoint.contentTypeJson = .ok r := by
  rintro ⟨r, h⟩
  have hrefused := inputFn_dumpsPayload 0 (by decide : Language.es ≠ .cak) [' ']
  cases h.symm.trans hrefused

end KaqTranslator
