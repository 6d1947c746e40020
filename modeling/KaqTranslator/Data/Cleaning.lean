import KaqTranslator.Data.Corpus
import KaqTranslator.Library.FirstOccurrences
import Mathlib.Data.List.Chain

/-!
# Cleaning is exact (`data/normalize.py`, `data/dedup.py`, `data/pipeline.py`)

A normalised text has no runs of white space and none at its ends (`Collapsed`), and normalising it again does
nothing (`normalizeText_normalizeText`).  So what cleaning leaves is known without its loops, as the first
occurrences of the normalised pairs that are valid (`firstOccurrences_cleanPairs`), and it is a fixed point
(`cleanPairs_cleanPairs`).

Of NFC only `NfcLaws` is used.  The law of `strip` is that a part of a text in NFC is in NFC.
-/

namespace KaqTranslator

/-! ### What is known of NFC -/

/-- What `unicodedata.normalize("NFC", …)` is known to do: it is idempotent, and a text that it does not
change is one that it does not change after the two replacements, or without the white space at its ends. -/
structure NfcLaws (nfc : Str → Str) : Prop where
  idempotent : ∀ s, nfc (nfc s) = nfc s
  replaced : ∀ s, nfc s = s →
    nfc (subWhitespace (normalizeGlottalMarks s)) = subWhitespace (normalizeGlottalMarks s)
  stripped : ∀ s, nfc s = s → nfc s.strip = s.strip

/-! ### Texts without runs of white space -/

private theorem Str.strip_strip (s : Str) : s.strip.strip = s.strip := by
  obtain ⟨r, -, hlstrip⟩ := s.lstrip.rstrip_eq
  apply Str.strip_of_not_space
  · intro c hc
    have hhead : s.lstrip.head? = some c := by
      calc s.lstrip.head? = (s.strip ++ r).head? := congrArg List.head? hlstrip
        _ = some c := by rw [List.head?_append, hc, Option.some_or]
    have hnot := List.head?_dropWhile_not isspace s
    rw [← Str.lstrip, hhead] at hnot
    exact hnot
  · intro c hc
    have hhead : (s.lstrip.reverse.dropWhile isspace).head? = some c := by
      rw [← hc, Str.strip, Str.rstrip, List.getLast?_reverse]
    have hnot := List.head?_dropWhile_not isspace s.lstrip.reverse
    rw [hhead] at hnot
    exact hnot

/-- The only white space is a space, and no two stand next to each other. -/
structure Collapsed (s : Str) : Prop where
  spaces : ∀ c ∈ s, isspace c = true → c = ' '
  apart : s.IsChain fun c d => ¬ (isspace c = true ∧ isspace d = true)

theorem subWhitespace_of_collapsed {s : Str} (h : Collapsed s) : subWhitespace s = s := by
  induction s with
  | nil => rfl
  | cons c s ih =>
    have hs : Collapsed s := ⟨fun d hd => h.spaces d (List.mem_cons_of_mem _ hd), h.apart.of_cons⟩
    rw [subWhitespace, ih hs]
    split
    · rename_i hc
      have hnext : ((s.head?.map isspace).getD false) = false := by
        cases s with
        | nil => rfl
        | cons d s => exact Bool.eq_false_iff.2 fun hd => (List.isChain_cons_cons.1 h.apart).1 ⟨hc, hd⟩
      rw [hnext, if_neg Bool.false_ne_true, h.spaces c List.mem_cons_self hc]
    · rfl

private theorem mem_of_mem_subWhitespace {s : Str} {c : Char} (h : c ∈ subWhitespace s) : c = ' ' ∨ c ∈ s := by
  induction s with
  | nil => cases h
  | cons d s ih =>
    have hrest : c ∈ subWhitespace s → c = ' ' ∨ c ∈ d :: s :=
      fun hc => (ih hc).imp_right (List.mem_cons_of_mem d)
    rw [subWhitespace] at h
    split at h
    · split at h
      · exact hrest h
      · exact (List.mem_cons.1 h).elim Or.inl hrest
    · rcases List.mem_cons.1 h with rfl | h
      · exact Or.inr List.mem_cons_self
      · exact hrest h

/-- A replaced run ends where its text begins with another character. -/
private theorem head?_subWhitespace {s : Str} (h : ∀ c, s.head? = some c → isspace c = false) :
    (subWhitespace s).head? = s.head? := by
  cases s with
  | nil => rfl
  | cons c s =>
    have hc : ¬ isspace c = true := by
      rw [h c rfl]
      exact Bool.false_ne_true
    rw [subWhitespace, if_neg hc]
    rfl

theorem collapsed_subWhitespace (s : Str) : Collapsed (subWhitespace s) := by
  constructor
  case spaces =>
    intro c hc hspace
    rcases mem_subWhitespace hc with h | h
    · exact h
    · rw [h] at hspace
      cases hspace
  case apart =>
    induction s with
    | nil => exact List.isChain_nil
    | cons c s ih =>
      rw [subWhitespace]
      split
      · split
        · exact ih
        · rename_i hlast
          have hnext : ∀ d, s.head? = some d → isspace d = false := by
            intro d hd
            rw [hd] at hlast
            exact Bool.eq_false_iff.2 hlast
          refine List.isChain_cons.2 ⟨fun d hd hboth => ?_, ih⟩
          rw [head?_subWhitespace hnext] at hd
          rw [hnext d hd] at hboth
          cases hboth.2
      · rename_i hc
        exact List.isChain_cons.2 ⟨fun d _ hboth => hc hboth.1, ih⟩

theorem Collapsed.strip {s : Str} (h : Collapsed s) : Collapsed s.strip := by
  obtain ⟨l, r, -, -, hs⟩ := s.strip_eq
  have hpart : s.strip <:+: s := ⟨l, r, hs.symm⟩
  exact ⟨fun c hc => h.spaces c (hpart.subset hc), h.apart.infix hpart⟩

/-! ### A normalised text -/

theorem normalizeGlottalMarks_of_not_mem {s : Str} (h : 'ˈ' ∉ s) : normalizeGlottalMarks s = s := by
  have hid : ∀ c ∈ s, (if c = 'ˈ' then '\'' else c) = c := by
    intro c hc
    rw [if_neg]
    rintro rfl
    exact h hc
  rw [normalizeGlottalMarks, List.map_congr_left hid, List.map_id']

private theorem not_mem_normalizeText (nfc : Str → Str) (text : Str) : 'ˈ' ∉ normalizeText nfc text := by
  intro hmem
  rcases mem_of_mem_subWhitespace (Str.mem_strip hmem) with h | h
  · cases h
  · obtain ⟨c, -, hc⟩ := List.mem_map.1 h
    split at hc
    · cases hc
    · rename_i hne
      exact hne hc

theorem normalizeText_normalizeText {nfc : Str → Str} (h : NfcLaws nfc) (text : Str) :
    normalizeText nfc (normalizeText nfc text) = normalizeText nfc text := by
  have hcollapsed : Collapsed (normalizeText nfc text) := (collapsed_subWhitespace _).strip
  have hnfc : nfc (normalizeText nfc text) = normalizeText nfc text :=
    h.stripped _ (h.replaced _ (h.idempotent text))
  have hglottal : normalizeGlottalMarks (normalizeText nfc text) = normalizeText nfc text :=
    normalizeGlottalMarks_of_not_mem (not_mem_normalizeText nfc text)
  have hstrip : (normalizeText nfc text).strip = normalizeText nfc text := Str.strip_strip _
  calc normalizeText nfc (normalizeText nfc text)
      = (subWhitespace (normalizeGlottalMarks (nfc (normalizeText nfc text)))).strip := rfl
    _ = normalizeText nfc text := by rw [hnfc, hglottal, subWhitespace_of_collapsed hcollapsed, hstrip]

theorem normalizePair_normalizePair {nfc : Str → Str} (h : NfcLaws nfc) (p : SentencePair) :
    normalizePair nfc (normalizePair nfc p) = normalizePair nfc p :=
  Prod.ext (normalizeText_normalizeText h p.1) (normalizeText_normalizeText h p.2)

/-! ### Cleaning -/

theorem deduplicateFrom_eq (seen ps : List SentencePair) :
    deduplicateFrom seen ps = keepFirst (fun _ => True) seen ps := by
  induction ps generalizing seen with
  | nil => rfl
  | cons p ps ih =>
    rw [deduplicateFrom, keepFirst, ih, ih]
    by_cases hp : p ∈ seen
    · rw [if_pos hp, if_neg fun h => h.2 hp]
    · rw [if_neg hp, if_pos ⟨trivial, hp⟩]

theorem firstOccurrences_deduplicatePairs (ps : List SentencePair) :
    FirstOccurrences (fun _ => True) ps (deduplicatePairs ps) := by
  rw [deduplicatePairs, deduplicateFrom_eq]
  exact firstOccurrences_keepFirst _ ps

theorem firstOccurrences_cleanPairs (nfc : Str → Str) (config : LengthFilterConfig) (raw : List SentencePair) :
    FirstOccurrences (fun p => isValidLength config p = true) (raw.map (normalizePair nfc))
      (cleanPairs nfc config raw) := by
  have h := (firstOccurrences_deduplicatePairs (raw.map (normalizePair nfc))).filter (isValidLength config)
  simp only [true_and] at h
  exact h

/-- What is clean is not changed: its pairs are normalised, and they are different and valid. -/
theorem cleanPairs_cleanPairs {nfc : Str → Str} (h : NfcLaws nfc) (config : LengthFilterConfig)
    (raw : List SentencePair) :
    cleanPairs nfc config (cleanPairs nfc config raw) = cleanPairs nfc config raw := by
  have hclean := firstOccurrences_cleanPairs nfc config raw
  have hagain := firstOccurrences_cleanPairs nfc config (cleanPairs nfc config raw)
  have hnormal : ∀ p ∈ cleanPairs nfc config raw, normalizePair nfc p = p := by
    intro p hp
    obtain ⟨q, -, rfl⟩ := List.mem_map.1 ((hclean.mem_iff p).1 hp).1
    exact normalizePair_normalizePair h q
  rw [List.map_congr_left hnormal, List.map_id'] at hagain
  exact hagain.unique (.self hclean.nodup fun p hp => ((hclean.mem_iff p).1 hp).2)

/-- `longer` is `raw` with pairs inserted, each after one with the same normal form. -/
inductive Repeats (nfc : Str → Str) (raw : List SentencePair) : List SentencePair → Prop
  | refl : Repeats nfc raw raw
  | insert {before after : List SentencePair} {p q : SentencePair} (h : Repeats nfc raw (before ++ after))
      (hp : p ∈ before) (hq : normalizePair nfc q = normalizePair nfc p) :
      Repeats nfc raw (before ++ q :: after)

theorem cleanPairs_of_repeats {nfc : Str → Str} {raw longer : List SentencePair} (h : Repeats nfc raw longer)
    (config : LengthFilterConfig) : cleanPairs nfc config longer = cleanPairs nfc config raw := by
  induction h with
  | refl => rfl
  | @insert before after p q _ hp hq ih =>
    have hseen : normalizePair nfc q ∈ before.map (normalizePair nfc) := by
      rw [hq]
      exact List.mem_map_of_mem hp
    have hdedup : deduplicatePairs ((before ++ q :: after).map (normalizePair nfc)) =
        deduplicatePairs ((before ++ after).map (normalizePair nfc)) := by
      rw [deduplicatePairs, deduplicatePairs, deduplicateFrom_eq, deduplicateFrom_eq, List.map_append,
        List.map_append, List.map_cons]
      exact keepFirst_insert fun _ => Or.inl hseen
    rw [← ih, cleanPairs, cleanPairs, hdedup]

/-- Cleaning.  What is left is the normalised pairs that are valid, each once, in the order in which they
first occur; it is not changed when it is cleaned again, nor when the raw pairs are repeated, in any
spelling. -/
theorem cleaning_exact {nfc : Str → Str} (h : NfcLaws nfc) (config : LengthFilterConfig)
    (raw : List SentencePair) :
    FirstOccurrences (fun p => isValidLength config p = true) (raw.map (normalizePair nfc))
        (cleanPairs nfc config raw) ∧
      cleanPairs nfc config (cleanPairs nfc config raw) = cleanPairs nfc config raw ∧
      ∀ longer, Repeats nfc raw longer → cleanPairs nfc config longer = cleanPairs nfc config raw :=
  ⟨firstOccurrences_cleanPairs nfc config raw, cleanPairs_cleanPairs h config raw,
    fun _ hlonger => cleanPairs_of_repeats hlonger config⟩

/-- Two spellings of one pair, of which the first is kept -/
theorem cleaning_exact_spellings :
    cleanPairs id ⟨1, 400, fun m n => m > 4 * n⟩
        [([' ', 'a', '\t', ' ', 'b'], ['k', 'ˈ', 'o']), (['a', ' ', 'b'], ['k', '\'', 'o', '\n'])] =
      [(['a', ' ', 'b'], ['k', '\'', 'o'])] := by
  have hlaws : NfcLaws id := ⟨fun _ => rfl, fun _ _ => rfl, fun _ _ => rfl⟩
  have hrepeats : Repeats id [([' ', 'a', '\t', ' ', 'b'], ['k', 'ˈ', 'o'])]
      ([([' ', 'a', '\t', ' ', 'b'], ['k', 'ˈ', 'o'])] ++ [(['a', ' ', 'b'], ['k', '\'', 'o', '\n'])]) :=
    .insert .refl List.mem_cons_self rfl
  exact ((cleaning_exact hlaws ⟨1, 400, fun m n => m > 4 * n⟩ _).2.2 _ hrepeats).trans rfl

end KaqTranslator
