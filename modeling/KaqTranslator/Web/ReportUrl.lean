import KaqTranslator.Library.Loops
import KaqTranslator.Library.Unicode
import KaqTranslator.Web.App
import Mathlib.Algebra.Ring.Nat

/-!
# Reporting a translation (`apps/web/src/App.tsx`)

The link that reports a translation is a URL with the input and the output in its query.  When it is too long,
`buildTranslationReportUrl` looks for a budget, the number of code units that both fields are cut to, by
bisection.

In the query every character has a length of its own, and a line feed keeps what is before it and what is
after it apart.  So the two fields count for their own lengths in the length of the URL
(`length_buildReportUrl`), and at the budget 0 the URL fits (`length_buildReportUrl_zero`).  The length is not
monotone in the budget, for a field that is cut has a note after it: all that the loop keeps is that its lower
end is 0 or has been tested.
-/

namespace KaqTranslator

open Unicode

/-! ### `URLSearchParams` -/

/-- The code units of a string. -/
def codeUnits (s : Str) : JsString :=
  s.flatMap fun c => (unitsOf c).map .ofNat

def replacementChar : Char := '\uFFFD'

/-- The code points of a string, a lone surrogate being replaced; with the high surrogate that waits for its
low one. -/
def scalarValues : Option UInt16 → JsString → List Char
  | none, [] => []
  | some _, [] => [replacementChar]
  | none, u :: rest =>
    if isHighSurrogate u.toNat then scalarValues (some u) rest
    else if isLowSurrogate u.toNat then replacementChar :: scalarValues none rest
    else Char.ofNat u.toNat :: scalarValues none rest
  | some h, u :: rest =>
    if isLowSurrogate u.toNat then Char.ofNat (joinSurrogates h.toNat u.toNat) :: scalarValues none rest
    else if isHighSurrogate u.toNat then replacementChar :: scalarValues (some u) rest
    else replacementChar :: Char.ofNat u.toNat :: scalarValues none rest

def hexDigit (n : ℕ) : UInt16 := if n < 10 then UInt16.ofNat (0x30 + n) else UInt16.ofNat (0x41 + n - 10)

/-- The bytes that `application/x-www-form-urlencoded` leaves as they are: letters, digits and `*-._`. -/
def isUnreserved (b : UInt8) : Bool :=
  (0x30 ≤ b && b ≤ 0x39) || (0x41 ≤ b && b ≤ 0x5A) || (0x61 ≤ b && b ≤ 0x7A) || b == 0x2A || b == 0x2D ||
    b == 0x2E || b == 0x5F

def serializeByte (b : UInt8) : JsString :=
  if b == 0x20 then [0x2B]
  else if isUnreserved b then [UInt16.ofNat b.toNat]
  else [0x25, hexDigit (b.toNat / 16), hexDigit (b.toNat % 16)]

def serialize (s : JsString) : JsString :=
  (scalarValues none s).flatMap fun c => (String.utf8EncodeChar c).flatMap serializeByte

example : serialize (codeUnits "k'ä b".toList) = codeUnits "k%27%C3%A4+b".toList := by decide +kernel

/-- `params.toString()` -/
def serializeParams (params : List (JsString × JsString)) : JsString :=
  (codeUnits ['&']).intercalate (params.map fun p => serialize p.1 ++ codeUnits ['='] ++ serialize p.2)

/-! ### The URL -/

def repoUrl : JsString := codeUnits "https://github.com/MynorXico/es-kaq-translator-v2".toList

def directionSection : TranslationDirection → JsString
  | .esToCak => codeUnits "- [x] Spanish -> Kaqchikel\n- [ ] Kaqchikel -> Spanish".toList
  | .cakToEs => codeUnits "- [ ] Spanish -> Kaqchikel\n- [x] Kaqchikel -> Spanish".toList

def githubNewIssueUrlLengthLimit : ℕ := 8096

def buildReportBody (direction : TranslationDirection) (sourceText translation : JsString) : JsString :=
  (codeUnits ['\n']).intercalate
    [codeUnits "## Direction".toList, [], directionSection direction, [],
      codeUnits "## Input text".toList, [], sourceText, [],
      codeUnits "## Output produced by the translator".toList, [], translation, [],
      codeUnits "## Expected / correct translation".toList, [], [],
      codeUnits "## Your background (optional, helps us weigh the report)".toList, [],
      codeUnits "- [ ] Native Kaqchikel speaker".toList, codeUnits "- [ ] Kaqchikel learner / student".toList,
      codeUnits "- [ ] Linguist / ALMG-affiliated".toList, codeUnits "- [ ] Other".toList, [],
      codeUnits "## Additional context".toList, []]

def buildReportUrl (direction : TranslationDirection) (sourceText translation : JsString) : JsString :=
  repoUrl ++ codeUnits "/issues/new?".toList ++ serializeParams
    [(codeUnits "template".toList, codeUnits "translation_quality.md".toList),
      (codeUnits "labels".toList, codeUnits "translation-quality".toList),
      (codeUnits "title".toList, codeUnits "[Translation] ".toList),
      (codeUnits "body".toList, buildReportBody direction sourceText translation)]

def truncationNote : JsString := codeUnits "\n\n[texto truncado por límite de longitud de la URL]".toList

def truncatedWithNote (text : JsString) (keepLength : ℕ) : JsString :=
  if text.length ≤ keepLength then text else text.take keepLength ++ truncationNote

def buildTranslationReportUrl (direction : TranslationDirection) (sourceText translation : JsString) :
    JsString :=
  let fullUrl := buildReportUrl direction sourceText translation
  if fullUrl.length ≤ githubNewIssueUrlLengthLimit then fullUrl
  else
    let fits (mid : ℕ) : Bool :=
      let candidateUrl :=
        buildReportUrl direction (truncatedWithNote sourceText mid) (truncatedWithNote translation mid)
      candidateUrl.length ≤ githubNewIssueUrlLengthLimit
    let low := Loops.bisect fits 0 (max sourceText.length translation.length)
    buildReportUrl direction (truncatedWithNote sourceText low) (truncatedWithNote translation low)

/-! ### The length of a serialized text -/

/-- The length of a character in a query -/
def charLength (c : Char) : ℕ := ((String.utf8EncodeChar c).flatMap serializeByte).length

def charsLength (cs : List Char) : ℕ := (cs.map charLength).sum

theorem length_serialize (s : JsString) : (serialize s).length = charsLength (scalarValues none s) := by
  rw [serialize, List.length_flatMap]
  rfl

private theorem charLength_replacementChar : charLength replacementChar = 9 := by decide

/-- A byte that is not of an ASCII character is escaped. -/
private theorem length_serializeByte {n : ℕ} (hlow : 0x80 ≤ n) (hhigh : n < 0x100) :
    (serializeByte (UInt8.ofNat n)).length = 3 := by
  have htoNat : (UInt8.ofNat n).toNat = n := UInt8.toNat_ofNat_of_lt hhigh
  have hne : ∀ k : UInt8, k.toNat < 0x80 → (UInt8.ofNat n == k) = false := by
    intro k hk
    apply beq_eq_false_iff_ne.2
    rintro rfl
    omega
  have hle : ∀ k : UInt8, k.toNat < 0x80 → decide (UInt8.ofNat n ≤ k) = false := by
    intro k hk
    rw [decide_eq_false_iff_not, UInt8.le_iff_toNat_le, htoNat]
    omega
  have hreserved : isUnreserved (UInt8.ofNat n) = false := by
    rw [isUnreserved, hle 0x39 (by decide), hle 0x5A (by decide), hle 0x7A (by decide), hne 0x2A (by decide),
      hne 0x2D (by decide), hne 0x2E (by decide), hne 0x5F (by decide)]
    simp only [Bool.and_false, Bool.or_false]
  rw [serializeByte, hne 0x20 (by decide), hreserved]
  rfl

private theorem charLength_supplementary {c : Char} (h : 0x10000 ≤ c.toNat) : charLength c = 12 := by
  have hval : ¬ c.val.toNat ≤ 0xffff := Nat.not_le_of_lt h
  have hmod : ∀ n m : ℕ, 0 < m → n % m < m := fun n m hm => Nat.mod_lt n hm
  unfold charLength String.utf8EncodeChar
  dsimp only
  rw [if_neg (by omega), if_neg (by omega), if_neg hval]
  simp only [List.flatMap_cons, List.flatMap_nil, List.length_append, List.length_nil]
  rw [length_serializeByte (by omega) (by omega), length_serializeByte (by omega) (by omega),
    length_serializeByte (by omega) (by omega), length_serializeByte (by omega) (by omega)]

/-- A surrogate pair is longer than the replacement of its first half. -/
private theorem charLength_pair {high low : ℕ} (hhigh : isHighSurrogate high = true)
    (hlow : isLowSurrogate low = true) : charLength (Char.ofNat (joinSurrogates high low)) = 12 := by
  rw [isHighSurrogate_eq_true] at hhigh
  rw [isLowSurrogate_eq_true] at hlow
  have hge : 0x10000 ≤ joinSurrogates high low := by
    unfold joinSurrogates
    omega
  have hlt : joinSurrogates high low < 0x110000 := by
    unfold joinSurrogates
    omega
  have hvalid : (joinSurrogates high low).isValidChar := Or.inr ⟨by omega, hlt⟩
  have htoNat : (Char.ofNat (joinSurrogates high low)).toNat = joinSurrogates high low := by
    rw [Char.ofNat, dif_pos hvalid]
    rfl
  apply charLength_supplementary
  rw [htoNat]
  exact hge

@[simp] theorem charsLength_cons (c : Char) (cs : List Char) :
    charsLength (c :: cs) = charLength c + charsLength cs := by
  rw [charsLength, List.map_cons, List.sum_cons]
  rfl

@[simp] theorem charsLength_append (cs ds : List Char) :
    charsLength (cs ++ ds) = charsLength cs + charsLength ds := by
  rw [charsLength, List.map_append, List.sum_append]
  rfl

/-- A high surrogate that waits counts for nine characters, whatever follows it. -/
private theorem charsLength_pending {h : UInt16} (hh : isHighSurrogate h.toNat = true) (t : JsString) :
    9 ≤ charsLength (scalarValues (some h) t) := by
  cases t with
  | nil =>
    show 9 ≤ charsLength [replacementChar]
    rw [charsLength_cons, charLength_replacementChar]
    exact Nat.le_add_right _ _
  | cons u rest =>
    rw [scalarValues]
    by_cases hlow : isLowSurrogate u.toNat = true
    · rw [if_pos hlow, charsLength_cons, charLength_pair hh hlow]
      omega
    · by_cases hhigh : isHighSurrogate u.toNat = true
      · rw [if_neg hlow, if_pos hhigh, charsLength_cons, charLength_replacementChar]
        omega
      · rw [if_neg hlow, if_neg hhigh, charsLength_cons, charLength_replacementChar]
        omega

/-- What is appended makes a text longer: a surrogate pair counts for more than its first half alone. -/
theorem charsLength_append_le {p : Option UInt16} (hp : ∀ h ∈ p, isHighSurrogate h.toNat = true)
    (s t : JsString) : charsLength (scalarValues p s) ≤ charsLength (scalarValues p (s ++ t)) := by
  have hnone : ∀ h ∈ (none : Option UInt16), isHighSurrogate h.toNat = true := fun h hh => by cases hh
  fun_induction scalarValues p s with
  | case1 => exact Nat.zero_le _
  | case2 h =>
    have hpending := charsLength_pending (hp h rfl) t
    rw [charsLength_cons, charLength_replacementChar]
    exact hpending
  | case3 u rest hhigh ih =>
    rw [List.cons_append, scalarValues, if_pos hhigh]
    apply ih
    intro h hh
    rw [← Option.some.inj hh]
    exact hhigh
  | case4 u rest hhigh hlow ih =>
    rw [List.cons_append, scalarValues, if_neg hhigh, if_pos hlow, charsLength_cons, charsLength_cons]
    exact Nat.add_le_add_left (ih hnone) _
  | case5 u rest hhigh hlow ih =>
    rw [List.cons_append, scalarValues, if_neg hhigh, if_neg hlow, charsLength_cons, charsLength_cons]
    exact Nat.add_le_add_left (ih hnone) _
  | case6 h u rest hlow ih =>
    rw [List.cons_append, scalarValues, if_pos hlow, charsLength_cons, charsLength_cons]
    exact Nat.add_le_add_left (ih hnone) _
  | case7 h u rest hlow hhigh ih =>
    rw [List.cons_append, scalarValues, if_neg hlow, if_pos hhigh, charsLength_cons, charsLength_cons]
    have hu : ∀ h ∈ some u, isHighSurrogate h.toNat = true := by
      intro h hh
      rw [← Option.some.inj hh]
      exact hhigh
    exact Nat.add_le_add_left (ih hu) _
  | case8 h u rest hlow hhigh ih =>
    rw [List.cons_append, scalarValues, if_neg hlow, if_neg hhigh]
    simp only [charsLength_cons]
    have hrest := ih hnone
    omega

/-- At a character that is no surrogate a text can be cut in two. -/
private theorem scalarValues_append_cons {u : UInt16} (hhigh : isHighSurrogate u.toNat = false)
    (hlow : isLowSurrogate u.toNat = false) (p : Option UInt16) (s t : JsString) :
    scalarValues p (s ++ u :: t) = scalarValues p s ++ Char.ofNat u.toNat :: scalarValues none t := by
  have hhigh' : ¬ isHighSurrogate u.toNat = true := by
    rw [hhigh]
    exact Bool.false_ne_true
  have hlow' : ¬ isLowSurrogate u.toNat = true := by
    rw [hlow]
    exact Bool.false_ne_true
  fun_induction scalarValues p s with
  | case1 => rw [List.nil_append, List.nil_append, scalarValues, if_neg hhigh', if_neg hlow']
  | case2 h => rw [List.nil_append, scalarValues, if_neg hlow', if_neg hhigh', List.singleton_append]
  | case3 v rest hv ih => rw [List.cons_append, scalarValues, if_pos hv, ih]
  | case4 v rest hv hv' ih => rw [List.cons_append, scalarValues, if_neg hv, if_pos hv', ih, List.cons_append]
  | case5 v rest hv hv' ih => rw [List.cons_append, scalarValues, if_neg hv, if_neg hv', ih, List.cons_append]
  | case6 h v rest hv ih => rw [List.cons_append, scalarValues, if_pos hv, ih, List.cons_append]
  | case7 h v rest hv hv' ih => rw [List.cons_append, scalarValues, if_neg hv, if_pos hv', ih, List.cons_append]
  | case8 h v rest hv hv' ih =>
    rw [List.cons_append, scalarValues, if_neg hv, if_neg hv', ih, List.cons_append, List.cons_append]

/-- The length of a text in a query -/
def queryLength (s : JsString) : ℕ := (serialize s).length

theorem queryLength_eq (s : JsString) : queryLength s = charsLength (scalarValues none s) := length_serialize s

theorem queryLength_append_le (s t : JsString) : queryLength s ≤ queryLength (s ++ t) := by
  rw [queryLength_eq, queryLength_eq]
  exact charsLength_append_le (fun h hh => by cases hh) s t

/-- The lengths of two texts add up, if the second begins with a line feed. -/
theorem queryLength_append_lineFeed (s t : JsString) :
    queryLength (s ++ 0x0A :: t) = queryLength s + queryLength (0x0A :: t) := by
  have hcut := scalarValues_append_cons (u := 0x0A) (by decide) (by decide) none
  rw [queryLength_eq, queryLength_eq, queryLength_eq, hcut s t, charsLength_append]
  rw [← List.nil_append (0x0A :: t), hcut [] t]
  rfl

theorem queryLength_lineFeed_cons (t : JsString) : queryLength (0x0A :: t) = 3 + queryLength t := by
  have hcut := scalarValues_append_cons (u := 0x0A) (by decide) (by decide) none [] t
  have hchar : charLength (Char.ofNat (0x0A : UInt16).toNat) = 3 := by decide
  rw [queryLength_eq, queryLength_eq, ← List.nil_append (0x0A :: t), hcut, charsLength_append, charsLength_cons,
    hchar]
  exact Nat.zero_add _

/-! ### The length of the URL -/

/-- The lengths of the lines of a text add up. -/
theorem queryLength_intercalate (part : JsString) (parts : List JsString) :
    queryLength ((codeUnits ['\n']).intercalate (part :: parts)) =
      queryLength part + (parts.map fun p => 3 + queryLength p).sum := by
  have hlineFeed : codeUnits ['\n'] = [0x0A] := rfl
  induction parts generalizing part with
  | nil => rw [List.intercalate_singleton, List.map_nil, List.sum_nil, Nat.add_zero]
  | cons next parts ih =>
    rw [List.intercalate_cons_cons, List.append_assoc, hlineFeed, List.singleton_append,
      queryLength_append_lineFeed,
      queryLength_lineFeed_cons, ← hlineFeed, ih, List.map_cons, List.sum_cons, ← Nat.add_assoc 3]

/-- A line counts for its own length, wherever it stands. -/
private theorem queryLength_intercalate_line (part line : JsString) (before after : List JsString) :
    queryLength ((codeUnits ['\n']).intercalate (part :: (before ++ line :: after))) =
      queryLength ((codeUnits ['\n']).intercalate (part :: (before ++ [] :: after))) + queryLength line := by
  have hnil : queryLength [] = 0 := rfl
  rw [queryLength_intercalate, queryLength_intercalate]
  simp only [List.map_append, List.map_cons, List.sum_append, List.sum_cons, hnil]
  omega

theorem queryLength_buildReportBody (direction : TranslationDirection) (s t : JsString) :
    queryLength (buildReportBody direction s t) =
      queryLength (buildReportBody direction [] []) + queryLength s + queryLength t := by
  have hs : queryLength (buildReportBody direction s t) =
      queryLength (buildReportBody direction [] t) + queryLength s :=
    queryLength_intercalate_line _ s [[], directionSection direction, [], _, []] _
  have ht : queryLength (buildReportBody direction [] t) =
      queryLength (buildReportBody direction [] []) + queryLength t :=
    queryLength_intercalate_line _ t [[], directionSection direction, [], _, [], [], [], _, []] _
  rw [hs, ht, Nat.add_right_comm]

/-- The last parameter counts for the length of its value. -/
private theorem length_serializeParams_last (a b c : JsString × JsString) (name value : JsString) :
    (serializeParams [a, b, c, (name, value)]).length =
      (serializeParams [a, b, c, (name, [])]).length + queryLength value := by
  have hnil : (serialize []).length = 0 := rfl
  unfold serializeParams
  simp only [List.map_cons, List.map_nil, List.intercalate_cons_cons, List.intercalate_singleton,
    List.length_append,
    hnil, queryLength]
  omega

/-- The length of the URL: a constant for each direction, and the lengths of the two fields. -/
theorem length_buildReportUrl (direction : TranslationDirection) (s t : JsString) :
    (buildReportUrl direction s t).length =
      (buildReportUrl direction [] []).length + queryLength s + queryLength t := by
  have hlength : ∀ s t, (buildReportUrl direction s t).length =
      (repoUrl ++ codeUnits "/issues/new?".toList).length +
      ((serializeParams [(codeUnits "template".toList, codeUnits "translation_quality.md".toList),
        (codeUnits "labels".toList, codeUnits "translation-quality".toList),
        (codeUnits "title".toList, codeUnits "[Translation] ".toList), (codeUnits "body".toList, [])]).length +
          queryLength (buildReportBody direction s t)) := by
    intro s t
    rw [← length_serializeParams_last, ← List.length_append]
    rfl
  rw [hlength, hlength, queryLength_buildReportBody]
  simp only [Nat.add_assoc]

/-! ### The budget 0 -/

private theorem truncatedWithNote_zero (text : JsString) :
    truncatedWithNote text 0 = [] ∨ truncatedWithNote text 0 = truncationNote := by
  unfold truncatedWithNote
  split
  · rename_i h
    exact Or.inl (List.length_eq_zero_iff.1 (Nat.le_zero.1 h))
  · exact Or.inr rfl

theorem length_buildReportUrl_nil (direction : TranslationDirection) :
    (buildReportUrl direction [] []).length = 615 := by
  cases direction <;> decide +kernel

theorem queryLength_truncationNote : queryLength truncationNote = 64 := by decide +kernel

/-- At the budget 0 the URL fits: the longest one has 743 characters. -/
theorem length_buildReportUrl_zero (direction : TranslationDirection) (sourceText translation : JsString) :
    (buildReportUrl direction (truncatedWithNote sourceText 0) (truncatedWithNote translation 0)).length ≤
      githubNewIssueUrlLengthLimit := by
  have hfield : ∀ text, queryLength (truncatedWithNote text 0) ≤ 64 := by
    intro text
    rcases truncatedWithNote_zero text with h | h
    · rw [h]
      exact Nat.zero_le _
    · rw [h, queryLength_truncationNote]
  have hs := hfield sourceText
  have ht := hfield translation
  have hlimit : 743 ≤ githubNewIssueUrlLengthLimit := by decide
  rw [length_buildReportUrl, length_buildReportUrl_nil]
  omega

/-! ### The URL fits -/

/-- A field of the report: the whole text, or a prefix of it with the note. -/
theorem truncatedWithNote_cases (text : JsString) (keepLength : ℕ) :
    truncatedWithNote text keepLength = text ∨
      ∃ kept, kept <+: text ∧ kept.length = keepLength ∧
        truncatedWithNote text keepLength = kept ++ truncationNote := by
  unfold truncatedWithNote
  split
  · exact Or.inl rfl
  · rename_i h
    refine Or.inr ⟨text.take keepLength, List.take_prefix .., ?_, rfl⟩
    rw [List.length_take]
    omega

/-- The report URL.  It is never longer than the limit, and it is the whole URL whenever that one fits;
otherwise both of its fields are cut at one budget, each being the whole text or a prefix of it with the
note. -/
theorem report_url_fits (direction : TranslationDirection) (sourceText translation : JsString) :
    (buildTranslationReportUrl direction sourceText translation).length ≤ githubNewIssueUrlLengthLimit ∧
      ((buildReportUrl direction sourceText translation).length ≤ githubNewIssueUrlLengthLimit →
        buildTranslationReportUrl direction sourceText translation =
          buildReportUrl direction sourceText translation) ∧
      ((buildReportUrl direction sourceText translation).length > githubNewIssueUrlLengthLimit →
        ∃ budget ≤ max sourceText.length translation.length,
          buildTranslationReportUrl direction sourceText translation =
            buildReportUrl direction (truncatedWithNote sourceText budget)
              (truncatedWithNote translation budget) ∧
          ∀ text ∈ [sourceText, translation], truncatedWithNote text budget = text ∨
            ∃ kept, kept <+: text ∧ kept.length = budget ∧
              truncatedWithNote text budget = kept ++ truncationNote) := by
  unfold buildTranslationReportUrl
  dsimp only
  by_cases hfull : (buildReportUrl direction sourceText translation).length ≤ githubNewIssueUrlLengthLimit
  · rw [if_pos hfull]
    exact ⟨hfull, fun _ => rfl, fun hlong => absurd hfull (Nat.not_le_of_lt hlong)⟩
  · rw [if_neg hfull]
    refine ⟨?_, fun h => absurd h hfull, fun _ => ⟨_, Loops.bisect_le (Nat.zero_le _), rfl, ?_⟩⟩
    · -- the lower end of the search is 0, or has been tested
      refine Loops.bisect_induction (Q := fun low => (buildReportUrl direction
        (truncatedWithNote sourceText low) (truncatedWithNote translation low)).length ≤
          githubNewIssueUrlLengthLimit) ?_ ?_
      · exact length_buildReportUrl_zero direction sourceText translation
      · exact fun mid hmid => of_decide_eq_true hmid
    · exact fun text _ => truncatedWithNote_cases text _

end KaqTranslator
