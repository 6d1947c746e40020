import KaqTranslator.Web.ReportUrl
import Mathlib.Order.Lattice.Nat

/-!
# The budget of a report (`apps/web/src/App.tsx`)

`buildTranslationReportUrl` means to cut both fields at the largest budget at which the URL fits.  As long as
a field is cut its length grows with the budget, and so the bisection is right as long as both fields are cut
(`reportFits_of_le_of_lt`) and as long as only the longer one is (`reportFits_of_le_of_le`).  In between, at
its own length, the shorter field loses its note, and the URL that was too long can fit again.  The search
then ends with the largest budget if and only if no midpoint on the way to it falls into the gap
(`settledBudget_isGreatest_iff`); for two texts with accents one does (`settledBudget_not_isGreatest`).
-/

namespace KaqTranslator

/-! ### The length of a field -/

/-- The length of a field that is cut at the budget `b` -/
def fieldLength (text : JsString) (b : ℕ) : ℕ := queryLength (truncatedWithNote text b)

theorem fieldLength_of_length_le {text : JsString} {b : ℕ} (h : text.length ≤ b) :
    fieldLength text b = queryLength text := by
  rw [fieldLength, truncatedWithNote, if_pos h]

private theorem truncationNote_eq_cons : ∃ rest, truncationNote = 0x0A :: rest := by
  have hhead : truncationNote.head? = some 0x0A := by decide +kernel
  exact List.head?_eq_some_iff.1 hhead

theorem fieldLength_of_lt {text : JsString} {b : ℕ} (h : b < text.length) :
    fieldLength text b = queryLength (text.take b) + queryLength truncationNote := by
  obtain ⟨rest, hnote⟩ := truncationNote_eq_cons
  rw [fieldLength, truncatedWithNote, if_neg (Nat.not_le_of_lt h), hnote]
  exact queryLength_append_lineFeed _ _

theorem fieldLength_mono_of_lt {text : JsString} {b c : ℕ} (hbc : b ≤ c) (hc : c < text.length) :
    fieldLength text b ≤ fieldLength text c := by
  have htake : text.take c = text.take b ++ (text.drop b).take (c - b) := by
    rw [← List.take_add, Nat.add_sub_cancel' hbc]
  rw [fieldLength_of_lt (hbc.trans_lt hc), fieldLength_of_lt hc, htake]
  exact Nat.add_le_add_right (queryLength_append_le _ _) _

/-! ### The budget -/

section Budget

variable (direction : TranslationDirection) (sourceText translation : JsString)

/-- Whether the report, with both fields cut at the budget, is within the limit -/
def reportFits (budget : ℕ) : Bool :=
  (buildReportUrl direction (truncatedWithNote sourceText budget)
    (truncatedWithNote translation budget)).length ≤ githubNewIssueUrlLengthLimit

/-- The budget that the search ends with -/
def settledBudget : ℕ :=
  Loops.bisect (reportFits direction sourceText translation) 0 (max sourceText.length translation.length)

/-- The budgets, up to the longer length, at which the report fits -/
def fittingBudgets : Set ℕ :=
  {b | b ≤ max sourceText.length translation.length ∧ reportFits direction sourceText translation b = true}

end Budget

variable {direction : TranslationDirection} {sourceText translation : JsString}

theorem buildTranslationReportUrl_of_long
    (hlong : (buildReportUrl direction sourceText translation).length > githubNewIssueUrlLengthLimit) :
    buildTranslationReportUrl direction sourceText translation =
      buildReportUrl direction (truncatedWithNote sourceText (settledBudget direction sourceText translation))
        (truncatedWithNote translation (settledBudget direction sourceText translation)) := by
  unfold buildTranslationReportUrl
  dsimp only
  rw [if_neg (Nat.not_le_of_lt hlong)]
  rfl

theorem reportFits_iff {b : ℕ} :
    reportFits direction sourceText translation b = true ↔
      (buildReportUrl direction [] []).length + fieldLength sourceText b + fieldLength translation b ≤
        githubNewIssueUrlLengthLimit := by
  rw [reportFits, decide_eq_true_iff, length_buildReportUrl]
  rfl

/-- Below the shorter length both fields are cut, and a larger budget makes the URL longer. -/
theorem reportFits_of_le_of_lt {b c : ℕ} (hbc : b ≤ c) (hc : c < min sourceText.length translation.length)
    (hfits : reportFits direction sourceText translation c = true) :
    reportFits direction sourceText translation b = true := by
  have hs := @fieldLength_mono_of_lt sourceText _ _ hbc (by omega)
  have ht := @fieldLength_mono_of_lt translation _ _ hbc (by omega)
  rw [reportFits_iff] at hfits ⊢
  omega

/-- From the shorter length on one field is whole, and the other one is cut. -/
theorem reportFits_of_le_of_le {b c : ℕ} (hb : min sourceText.length translation.length ≤ b) (hbc : b ≤ c)
    (hc : c < max sourceText.length translation.length)
    (hfits : reportFits direction sourceText translation c = true) :
    reportFits direction sourceText translation b = true := by
  rw [reportFits_iff] at hfits ⊢
  rcases Nat.le_total sourceText.length translation.length with hle | hle
  · rw [Nat.min_eq_left hle] at hb
    rw [Nat.max_eq_right hle] at hc
    have ht := fieldLength_mono_of_lt hbc hc
    rw [fieldLength_of_length_le hb]
    rw [fieldLength_of_length_le (hb.trans hbc)] at hfits
    omega
  · rw [Nat.min_eq_right hle] at hb
    rw [Nat.max_eq_left hle] at hc
    have hs := fieldLength_mono_of_lt hbc hc
    rw [fieldLength_of_length_le hb]
    rw [fieldLength_of_length_le (hb.trans hbc)] at hfits
    omega

/-- At the longer length nothing is cut. -/
theorem reportFits_max
    (hlong : (buildReportUrl direction sourceText translation).length > githubNewIssueUrlLengthLimit) :
    reportFits direction sourceText translation (max sourceText.length translation.length) = false := by
  have hwhole : ∀ text : JsString, text.length ≤ max sourceText.length translation.length →
      truncatedWithNote text (max sourceText.length translation.length) = text := by
    intro text h
    rw [truncatedWithNote, if_pos h]
  rw [reportFits, hwhole _ (Nat.le_max_left ..), hwhole _ (Nat.le_max_right ..), decide_eq_false_iff_not]
  exact Nat.not_le_of_lt hlong

theorem exists_isGreatest_fittingBudgets :
    ∃ g, IsGreatest (fittingBudgets direction sourceText translation) g := by
  have hzero : 0 ∈ fittingBudgets direction sourceText translation :=
    ⟨Nat.zero_le _, decide_eq_true (length_buildReportUrl_zero direction sourceText translation)⟩
  have hbdd : BddAbove (fittingBudgets direction sourceText translation) := ⟨_, fun b hb => hb.1⟩
  exact ⟨sSup _, Nat.sSup_mem ⟨0, hzero⟩ hbdd, fun b hb => le_csSup hbdd hb⟩

/-- The budget of a report that is too long.  The budgets at which it fits reach from 0 up to some point, but
they can begin again at the length of the shorter field, where that field loses its note.  So the search ends
with the largest one unless there is such a gap below that length and one of its midpoints falls into it. -/
theorem settledBudget_isGreatest_iff
    (hlong : (buildReportUrl direction sourceText translation).length > githubNewIssueUrlLengthLimit) :
    buildTranslationReportUrl direction sourceText translation =
        buildReportUrl direction (truncatedWithNote sourceText (settledBudget direction sourceText translation))
          (truncatedWithNote translation (settledBudget direction sourceText translation)) ∧
      (IsGreatest (fittingBudgets direction sourceText translation)
          (settledBudget direction sourceText translation) ↔
        (reportFits direction sourceText translation (min sourceText.length translation.length) = true →
          reportFits direction sourceText translation (min sourceText.length translation.length - 1) = false →
          ∀ g, IsGreatest (fittingBudgets direction sourceText translation) g →
            ∀ mid ∈ Loops.probes g 0 (max sourceText.length translation.length),
              mid < min sourceText.length translation.length →
                reportFits direction sourceText translation mid = true)) := by
  refine ⟨buildTranslationReportUrl_of_long hlong, ?_⟩
  obtain ⟨g, hg⟩ := @exists_isGreatest_fittingBudgets direction sourceText translation
  have hgreatest : ∀ b, IsGreatest (fittingBudgets direction sourceText translation) b ↔ b = g :=
    fun b => ⟨fun h => h.unique hg, fun h => h ▸ hg⟩
  have hgmax : g < max sourceText.length translation.length := by
    rcases Nat.lt_or_eq_of_le hg.1.1 with h | h
    · exact h
    · have hfits := hg.1.2
      rw [h, reportFits_max hlong] at hfits
      cases hfits
  have habove : ∀ n, g < n → n ≤ max sourceText.length translation.length →
      reportFits direction sourceText translation n = false := by
    intro n hgn hn
    by_contra h
    exact absurd (hg.2 ⟨hn, Bool.eq_true_of_not_eq_false h⟩) (Nat.not_le_of_lt hgn)
  have hsearch := Loops.bisect_eq_iff (Nat.zero_le g) hgmax.le habove
  rw [hgreatest, settledBudget, hsearch]
  constructor
  · intro hprobes hshorter _ g' hg' mid hmid hlt
    rw [(hgreatest g').1 hg'] at hmid
    have hle : min sourceText.length translation.length ≤ g :=
      hg.2 ⟨(Nat.min_le_left _ _).trans (Nat.le_max_left _ _), hshorter⟩
    exact hprobes mid hmid (hlt.le.trans hle)
  · intro hgap mid hmid hle
    by_cases hlt : mid < min sourceText.length translation.length
    · by_cases hg' : g < min sourceText.length translation.length
      · exact reportFits_of_le_of_lt hle hg' hg.1.2
      · -- the shorter field is whole at the largest budget
        have hshorter : reportFits direction sourceText translation (min sourceText.length translation.length) =
            true := reportFits_of_le_of_le le_rfl (Nat.le_of_not_lt hg') hgmax hg.1.2
        cases hbelow : reportFits direction sourceText translation
            (min sourceText.length translation.length - 1) with
        | true => exact reportFits_of_le_of_lt (by omega) (by omega) hbelow
        | false => exact hgap hshorter hbelow g hg mid hmid hlt
    · exact reportFits_of_le_of_le (Nat.le_of_not_lt hlt) hle hgmax hg.1.2

/-! ### A text of one letter -/

section Accents

private theorem queryLength_accents (n : ℕ) : queryLength (List.replicate n 0xE1) = 6 * n := by
  have hchar : charLength (Char.ofNat (0xE1 : UInt16).toNat) = 6 := by decide
  rw [queryLength_eq]
  induction n with
  | zero => rfl
  | succ n ih =>
    rw [List.replicate_succ, scalarValues, if_neg (by decide), if_neg (by decide), charsLength_cons, ih, hchar]
    omega

private theorem fieldLength_accents {n b : ℕ} (h : b < n) :
    fieldLength (List.replicate n 0xE1) b = 6 * b + 64 := by
  have hb : b < (List.replicate n (0xE1 : UInt16)).length := by rwa [List.length_replicate]
  rw [fieldLength_of_lt hb, List.take_replicate, Nat.min_eq_left h.le, queryLength_accents,
    queryLength_truncationNote]

private theorem fieldLength_accents_whole {n b : ℕ} (h : n ≤ b) :
    fieldLength (List.replicate n 0xE1) b = 6 * n := by
  have hb : (List.replicate n (0xE1 : UInt16)).length ≤ b := by rwa [List.length_replicate]
  rw [fieldLength_of_length_le hb, queryLength_accents]

private theorem length_report_accents (m n : ℕ) :
    (buildReportUrl .esToCak (List.replicate m 0xE1) (List.replicate n 0xE1)).length = 615 + 6 * m + 6 * n := by
  rw [length_buildReportUrl, length_buildReportUrl_nil, queryLength_accents, queryLength_accents]

private theorem limit_eq : githubNewIssueUrlLengthLimit = 8096 := rfl

/-- Two texts of one length: no budget but the whole length can be without a note. -/
theorem settledBudget_accents :
    (buildReportUrl .esToCak (List.replicate 700 0xE1) (List.replicate 700 0xE1)).length >
        githubNewIssueUrlLengthLimit ∧
      IsGreatest (fittingBudgets .esToCak (List.replicate 700 0xE1) (List.replicate 700 0xE1))
        (settledBudget .esToCak (List.replicate 700 0xE1) (List.replicate 700 0xE1)) := by
  have hlong : (buildReportUrl .esToCak (List.replicate 700 0xE1) (List.replicate 700 0xE1)).length >
      githubNewIssueUrlLengthLimit := by
    rw [length_report_accents, limit_eq]
    omega
  refine ⟨hlong, (settledBudget_isGreatest_iff hlong).2.2 fun hwhole => ?_⟩
  -- at their length the texts are whole
  rw [List.length_replicate, Nat.min_self, reportFits_iff, length_buildReportUrl_nil,
    fieldLength_accents_whole le_rfl, limit_eq] at hwhole
  omega

/-- A text of 614 letters and one of 1226, all with an accent.  The search begins at 613, where both are cut
and the URL is too long, and never comes to 614, where the shorter one has no note and the URL fits. -/
theorem settledBudget_not_isGreatest :
    (buildReportUrl .esToCak (List.replicate 614 0xE1) (List.replicate 1226 0xE1)).length >
        githubNewIssueUrlLengthLimit ∧
      ¬ IsGreatest (fittingBudgets .esToCak (List.replicate 614 0xE1) (List.replicate 1226 0xE1))
        (settledBudget .esToCak (List.replicate 614 0xE1) (List.replicate 1226 0xE1)) := by
  have hlong : (buildReportUrl .esToCak (List.replicate 614 0xE1) (List.replicate 1226 0xE1)).length >
      githubNewIssueUrlLengthLimit := by
    rw [length_report_accents, limit_eq]
    omega
  have hmax : max (List.replicate 614 (0xE1 : UInt16)).length (List.replicate 1226 (0xE1 : UInt16)).length =
      1226 := by
    rw [List.length_replicate, List.length_replicate]
    rfl
  have hfirst : reportFits .esToCak (List.replicate 614 0xE1) (List.replicate 1226 0xE1) 613 = false := by
    apply Bool.eq_false_iff.2
    rw [Ne, reportFits_iff, length_buildReportUrl_nil, fieldLength_accents (by omega),
      fieldLength_accents (by omega),
      limit_eq]
    omega
  have hfits : reportFits .esToCak (List.replicate 614 0xE1) (List.replicate 1226 0xE1) 614 = true := by
    rw [reportFits_iff, length_buildReportUrl_nil, fieldLength_accents_whole le_rfl,
      fieldLength_accents (by omega),
      limit_eq]
    omega
  have hsettled : settledBudget .esToCak (List.replicate 614 0xE1) (List.replicate 1226 0xE1) ≤ 612 := by
    rw [settledBudget, hmax, Loops.bisect, if_pos (by omega)]
    dsimp only
    rw [show (0 + 1226 + 1) / 2 = 613 from rfl, hfirst, if_neg Bool.false_ne_true]
    exact Loops.bisect_le (Nat.zero_le _)
  refine ⟨hlong, fun hgreatest => ?_⟩
  have hle := hgreatest.2 ⟨by rw [hmax]; omega, hfits⟩
  omega

end Accents

end KaqTranslator
