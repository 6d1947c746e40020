import KaqTranslator.Evaluation.ModelCard
import KaqTranslator.TextFiles

/-!
# What is read back from a model card

The line of a field is read back as it was written if its value can be captured as a whole and no value before
it mentions the field.  A mention is a match that begins in a value (`firstMention`): no match begins in what
the renderer itself puts into a line (`searchIn_lead`), so a text is searched value by value
(`search_cardText_cons`) until the line of the field, where the pattern matches (`search_cardText_own`).
-/

namespace KaqTranslator

open FirstMatch Lines

/-! ### The lines of a card -/

namespace CardLine

/-- The key of a field -/
def key? : CardLine → Option Str
  | text _ _ => none
  | field key _ => some key

/-- What stands before the value. -/
def lead : CardLine → Str
  | text fixed _ => fixed
  | field key _ => '-' :: ' ' :: '*' :: '*' :: (key ++ ['*', '*', ':', ' '])

private theorem str_eq (l : CardLine) : l.str = l.lead ++ l.value := by
  cases l <;> simp [str, lead, value]

def isPlain (s : Str) : Bool := s.all fun c => c != '*' && c != '-'

private theorem ne_of_isPlain {s : Str} (h : isPlain s = true) : ∀ c ∈ s, c ≠ '*' ∧ c ≠ '-' := by
  intro c hc
  simpa using List.all_eq_true.1 h c hc

/-- The renderer puts no `*` and no `-` into a fixed text or a key. -/
def Plain : CardLine → Prop
  | text fixed _ => isPlain fixed = true
  | field key _ => key ≠ [] ∧ isPlain key = true

end CardLine

def cardText (ls : List CardLine) : Str := unlines '\n' (ls.map CardLine.str)

private theorem cardText_cons (l : CardLine) (ls : List CardLine) :
    cardText (l :: ls) = l.str ++ '\n' :: cardText ls :=
  unlines_cons l.str (ls.map CardLine.str)

theorem renderModelCard_eq (data : ModelCardData) : renderModelCard data = cardText (cardLines data) :=
  join_append_newline (by simp [cardLines, headLines])

/-! ### Labels -/

namespace FieldPattern

variable (f : FieldPattern)

private theorem name_ne_nil : f.name ≠ [] := by
  have h := f.name_ok
  rintro hnil
  rw [hnil] at h
  cases h

private theorem ne_of_mem_name {c : Char} (hc : c ∈ f.name) : c ≠ '*' ∧ c ≠ '-' ∧ c ≠ ':' := by
  have h := f.name_ok
  rw [isLabel, Bool.and_eq_true, List.all_eq_true] at h
  simpa [and_assoc] using h.2 c hc

/-- The character with which a match begins. -/
def head : Char := if f.dash then '-' else '*'

private theorem dropPrefix?_label {s t : Str} : s.dropPrefix? f.label = some t ↔ s = f.label ++ t := by
  rw [List.dropPrefix?_eq_some_iff]
  refine ⟨?_, fun h => ⟨f.label, h, beq_self_eq_true _⟩⟩
  rintro ⟨p, rfl, hp⟩
  rw [eq_of_beq hp]

private theorem capture?_of_ne_head {c : Char} (h : c ≠ f.head) (s : Str) : f.capture? (c :: s) = none := by
  unfold head at h
  by_cases hdash : f.dash = true
  · rw [if_pos hdash] at h
    have hskip : skipDash (c :: s) = none := by
      unfold skipDash
      split
      · rename_i heq
        exact absurd (List.cons.inj heq).1 h
      · rfl
    simp [capture?, hdash, hskip]
  · rw [if_neg hdash] at h
    have hlabel : (c :: s).dropPrefix? f.label = none := by
      rw [Option.eq_none_iff_forall_ne_some]
      intro t ht
      exact h (List.cons.inj (f.dropPrefix?_label.1 ht)).1
    simp [capture?, hdash, hlabel]

private theorem capture?_star {c : Char} (h : c ≠ '*') (s : Str) : f.capture? ('*' :: c :: s) = none := by
  by_cases hdash : f.dash = true
  · exact f.capture?_of_ne_head (by simp [head, hdash]) _
  · have hlabel : ('*' :: c :: s).dropPrefix? f.label = none := by
      rw [Option.eq_none_iff_forall_ne_some]
      intro t ht
      have heq := List.cons.inj (f.dropPrefix?_label.1 ht)
      exact h (List.cons.inj heq.2).1
    simp [capture?, hdash, hlabel]

private theorem capture?_stars {c : Char} (h : c ∉ f.name) (s : Str) :
    f.capture? ('*' :: '*' :: c :: s) = none := by
  by_cases hdash : f.dash = true
  · exact f.capture?_of_ne_head (by simp [head, hdash]) _
  · have hlabel : ('*' :: '*' :: c :: s).dropPrefix? f.label = none := by
      rw [Option.eq_none_iff_forall_ne_some]
      intro t ht
      have heq := (List.cons.inj (List.cons.inj (f.dropPrefix?_label.1 ht)).2).2
      obtain ⟨n, ns, hname⟩ := List.exists_cons_of_ne_nil f.name_ne_nil
      rw [hname] at heq h
      exact h ((List.cons.inj heq).1 ▸ List.mem_cons_self ..)
    simp [capture?, hdash, hlabel]

/-- The label of another key is not the label of the pattern. -/
private theorem dropPrefix?_field {key : Str} (hkey : CardLine.isPlain key = true) (t : Str) :
    ('*' :: '*' :: (key ++ '*' :: '*' :: ':' :: t)).dropPrefix? f.label =
      if key = f.name then some t else none := by
  have hstar : ∀ {s : Str} (r : Str), (∀ c ∈ s, c ≠ '*') → (s ++ '*' :: r).takeWhile (· != '*') = s := by
    intro s r hs
    rw [List.takeWhile_append_of_pos (by simpa using hs), List.takeWhile_cons_of_neg (by simp),
      List.append_nil]
  split
  · rename_i heq
    rw [dropPrefix?_label, heq]
    simp [label]
  · rename_i hne
    rw [Option.eq_none_iff_forall_ne_some]
    intro u hu
    have heq : key ++ '*' :: '*' :: ':' :: t = f.name ++ '*' :: '*' :: ':' :: u := by
      simpa [label] using f.dropPrefix?_label.1 hu
    -- both names end at the first star
    have htake := congrArg (List.takeWhile (· != '*')) heq
    rw [hstar _ fun c hc => (CardLine.ne_of_isPlain hkey c hc).1,
      hstar _ fun c hc => (f.ne_of_mem_name hc).1] at htake
    exact hne htake

/-- What is captured at the beginning of the line of a field. -/
private theorem capture?_line (hdash : f.dash = true) {key : Str} (hkey : CardLine.isPlain key = true)
    (t : Str) :
    f.capture? ('-' :: ' ' :: '*' :: '*' :: (key ++ '*' :: '*' :: ':' :: t)) =
      if key = f.name then capture isspace f.cls t else none := by
  have hspace : isspace ' ' = true := by decide
  have hstar : isspace '*' = false := by decide
  have hskip : ∀ s, skipDash ('-' :: ' ' :: '*' :: s) = some ('*' :: s) := by
    intro s
    simp [skipDash, hspace, hstar]
  rw [capture?, if_pos hdash, hskip, Option.bind_some, dropPrefix?_field f hkey]
  split <;> rfl

/-- What is captured behind its `- `. -/
private theorem capture?_key (hdash : ¬ f.dash = true) {key : Str} (hkey : CardLine.isPlain key = true)
    (t : Str) :
    f.capture? ('*' :: '*' :: (key ++ '*' :: '*' :: ':' :: t)) =
      if key = f.name then capture isspace f.cls t else none := by
  rw [capture?, if_neg hdash, Option.bind_some, dropPrefix?_field f hkey]
  split <;> rfl

/-! ### The search of a card -/

/-- No match begins in what the renderer puts before the value of another field. -/
theorem searchIn_lead {l : CardLine} (hl : l.Plain) (hne : l.key? ≠ some f.name) (y : Str) :
    searchIn f.capture? l.lead y = none := by
  have hplain : ∀ {s : Str} (y : Str), CardLine.isPlain s = true → searchIn f.capture? s y = none := by
    intro s y hs
    refine searchIn_eq_none_of_head (fun c hc u => f.capture?_of_ne_head ?_ u) y
    unfold head
    split
    · exact (CardLine.ne_of_isPlain hs c hc).2
    · exact (CardLine.ne_of_isPlain hs c hc).1
  cases l with
  | text fixed value => exact hplain y hl
  | field key value =>
    obtain ⟨hnil, hkey⟩ := hl
    have hother : key ≠ f.name := fun heq => hne (congrArg some heq)
    -- the places of `- **key**: ` where a match could begin, from the left
    have hline : f.capture? ('-' :: ' ' :: '*' :: '*' :: (key ++ '*' :: '*' :: ':' :: ' ' :: y)) = none := by
      by_cases hdash : f.dash = true
      · rw [f.capture?_line hdash hkey, if_neg hother]
      · exact f.capture?_of_ne_head (by simp [head, hdash]) _
    have hlabel : f.capture? ('*' :: '*' :: (key ++ '*' :: '*' :: ':' :: ' ' :: y)) = none := by
      by_cases hdash : f.dash = true
      · exact f.capture?_of_ne_head (by simp [head, hdash]) _
      · rw [f.capture?_key hdash hkey, if_neg hother]
    have hkeyStar : f.capture? ('*' :: (key ++ '*' :: '*' :: ':' :: ' ' :: y)) = none := by
      obtain ⟨c, cs, rfl⟩ := List.exists_cons_of_ne_nil hnil
      exact f.capture?_star (CardLine.ne_of_isPlain hkey c (List.mem_cons_self ..)).1 _
    have hcolon : ':' ∉ f.name := fun hc => (f.ne_of_mem_name hc).2.2 rfl
    have hspace : f.capture? (' ' :: '*' :: '*' :: (key ++ '*' :: '*' :: ':' :: ' ' :: y)) = none := by
      refine f.capture?_of_ne_head ?_ _
      unfold head
      split <;> decide
    have hend : searchIn f.capture? ['*', '*', ':', ' '] y = none := by
      rw [searchIn_cons_of_none (f.capture?_stars hcolon _),
        searchIn_cons_of_none (f.capture?_star (by decide) _)]
      exact hplain y (by decide)
    have hlead : CardLine.lead (.field key value) =
        '-' :: ' ' :: '*' :: '*' :: (key ++ ['*', '*', ':', ' ']) := rfl
    rw [hlead, searchIn_cons_of_none (by simpa using hline), searchIn_cons_of_none (by simpa using hspace),
      searchIn_cons_of_none (by simpa using hlabel), searchIn_cons_of_none (by simpa using hkeyStar),
      searchIn_append, hplain _ hkey, hend]
    rfl

/-- The text of the other lines is searched in the value, and then behind it. -/
theorem search_cardText_cons {l : CardLine} (hl : l.Plain) (hne : l.key? ≠ some f.name) (ls : List CardLine) :
    f.search (cardText (l :: ls)) =
      (searchIn f.capture? l.value ('\n' :: cardText ls)).or (f.search (cardText ls)) := by
  have hbreak : FirstMatch.search f.capture? ('\n' :: cardText ls) = f.search (cardText ls) := by
    have hhead : '\n' ≠ f.head := by
      unfold head
      split <;> decide
    rw [FirstMatch.search, f.capture?_of_ne_head hhead, Option.none_or, search]
  rw [search, cardText_cons, l.str_eq, List.append_assoc, search_append, f.searchIn_lead hl hne,
    Option.none_or, search_append, hbreak]

/-- `v` is captured as a whole. -/
def Captures (v : Str) : Prop := v ≠ [] ∧ ∀ c ∈ v, f.cls c = true

private theorem captures_of_search {text w : Str} (h : f.search text = some w) : f.Captures w := by
  obtain ⟨u, hu⟩ := search_eq_some h
  obtain ⟨t, -, ht⟩ := Option.bind_eq_some_iff.1 hu
  exact capture_eq_some ht

theorem search_cardText_own {v : Str} (hv : f.Captures v) (hname : CardLine.isPlain f.name = true)
    (ls : List CardLine) : f.search (cardText (.field f.name v :: ls)) = some v := by
  have hspace : isspace ' ' = true := by decide
  have hbreak : f.cls '\n' = false := by
    rw [Bool.eq_false_iff]
    intro h
    exact absurd (f.cls_ok _ h) (by decide)
  have hcapture : capture isspace f.cls (' ' :: (v ++ '\n' :: cardText ls)) = some v :=
    capture_run hspace hv.1 hv.2 f.cls_ok hbreak
  have htext : cardText (.field f.name v :: ls) =
      '-' :: ' ' :: '*' :: '*' :: (f.name ++ '*' :: '*' :: ':' :: ' ' :: (v ++ '\n' :: cardText ls)) := by
    simp [cardText_cons, CardLine.str]
  rw [search, htext, FirstMatch.search]
  by_cases hdash : f.dash = true
  · rw [f.capture?_line hdash hname, if_pos rfl, hcapture, Option.some_or]
  · have hhead : f.head = '*' := by simp [head, hdash]
    -- a pattern without the dash matches two characters further on
    rw [f.capture?_of_ne_head (by rw [hhead]; decide), Option.none_or, FirstMatch.search,
      f.capture?_of_ne_head (by rw [hhead]; decide), Option.none_or, FirstMatch.search,
      f.capture?_key hdash hname, if_pos rfl, hcapture, Option.some_or]

/-- The first match that begins in a value, up to the line of the field. -/
def firstMention : List CardLine → Option Str
  | [] => none
  | l :: ls =>
    if l.key? = some f.name then none
    else (searchIn f.capture? l.value ('\n' :: cardText ls)).or (firstMention ls)

end FieldPattern

/-- The value of the first field of that name. -/
def fieldValue (name : Str) : List CardLine → Option Str
  | [] => none
  | l :: ls => if l.key? = some name then some l.value else fieldValue name ls

namespace FieldPattern

variable (f : FieldPattern)

theorem search_cardText {ls : List CardLine} (hplain : ∀ l ∈ ls, l.Plain)
    (hv : ∀ v, fieldValue f.name ls = some v → f.Captures v) :
    f.search (cardText ls) = (f.firstMention ls).or (fieldValue f.name ls) := by
  induction ls with
  | nil =>
    have hdrop : [].dropPrefix? f.label = none := by
      rw [Option.eq_none_iff_forall_ne_some]
      intro t ht
      cases f.dropPrefix?_label.1 ht
    show f.capture? [] = none
    unfold capture?
    split
    · rfl
    · rw [Option.bind_some, hdrop, Option.bind_none]
  | cons l ls ih =>
    obtain ⟨hl, hls⟩ := List.forall_mem_cons.1 hplain
    by_cases hkey : l.key? = some f.name
    · rw [fieldValue, if_pos hkey] at hv ⊢
      rw [firstMention, if_pos hkey, Option.none_or]
      cases l with
      | text fixed value => cases hkey
      | field key value =>
        obtain rfl := Option.some.inj hkey
        exact f.search_cardText_own (hv value rfl) hl.2 ls
    · rw [fieldValue, if_neg hkey] at hv ⊢
      rw [firstMention, if_neg hkey, f.search_cardText_cons hl hkey, ih hls hv, Option.or_assoc]

/-- A field is read back exactly if its value can be captured as a whole and the first mention, if there is
one, is followed by that value. -/
theorem search_eq_fieldValue_iff {ls : List CardLine} (hplain : ∀ l ∈ ls, l.Plain) :
    f.search (cardText ls) = fieldValue f.name ls ↔
      (∀ v, fieldValue f.name ls = some v → f.Captures v) ∧
        ∀ w, f.firstMention ls = some w → fieldValue f.name ls = some w := by
  constructor
  · intro h
    have hv : ∀ v, fieldValue f.name ls = some v → f.Captures v := fun v hv =>
      f.captures_of_search (h.trans hv)
    refine ⟨hv, fun w hw => ?_⟩
    rw [← h, f.search_cardText hplain hv, hw, Option.some_or]
  · rintro ⟨hv, hw⟩
    rw [f.search_cardText hplain hv]
    cases hm : f.firstMention ls with
    | none => rfl
    | some w => exact (hw w hm).symm

end FieldPattern

/-! ### The fields of a card -/

private theorem fieldValue_append (name : Str) (xs ys : List CardLine) :
    fieldValue name (xs ++ ys) = (fieldValue name xs).or (fieldValue name ys) := by
  induction xs with
  | nil => rfl
  | cons l xs ih =>
    rw [List.cons_append, fieldValue, fieldValue, ih]
    split <;> rfl

private theorem fieldValue_eq_none {name : Str} {ls : List CardLine} (h : ∀ l ∈ ls, l.key? ≠ some name) :
    fieldValue name ls = none := by
  induction ls with
  | nil => rfl
  | cons l ls ih =>
    obtain ⟨hl, hls⟩ := List.forall_mem_cons.1 h
    rw [fieldValue, if_neg hl, ih hls]

private theorem fieldValue_hyperparameters (name : Str) (ps : List (Str × HyperValue)) :
    fieldValue name (ps.map fun p => .field p.1 p.2.str) = (ps.lookup name).map HyperValue.str := by
  induction ps with
  | nil => rfl
  | cons p ps ih =>
    obtain ⟨k, v⟩ := p
    rw [List.map_cons, fieldValue, ih, List.lookup_cons]
    by_cases hk : k = name
    · simp [CardLine.key?, CardLine.value, hk]
    · have hne : (name == k) = false := beq_eq_false_iff_ne.2 (Ne.symm hk)
      simp [CardLine.key?, hk, hne]

variable {data : ModelCardData}

private theorem mem_directionLines {table : Option (List (Str × MetricsResult ℕ))} {l : CardLine}
    (h : l ∈ directionLines table) :
    (∃ m, l ∈ metricsLines m) ∨ ∃ fixed value, l = .text fixed value ∧ CardLine.isPlain fixed = true := by
  match table with
  | none => cases h
  | some [] => cases h
  | some (d :: table) =>
    rcases List.mem_append.1 ((List.dropLast_sublist _).subset h) with h | h
    · simp only [List.mem_cons, List.not_mem_nil, or_false] at h
      rcases h with rfl | rfl | rfl
      · exact .inr ⟨_, _, rfl, by decide⟩
      · exact .inr ⟨_, _, rfl, by decide⟩
      · exact .inr ⟨_, _, rfl, by decide⟩
    · obtain ⟨e, -, h⟩ := List.mem_flatMap.1 h
      simp only [List.mem_append, List.mem_cons, List.not_mem_nil, or_false] at h
      rcases h with ((rfl | rfl) | h) | rfl
      · exact .inr ⟨_, _, rfl, by decide⟩
      · exact .inr ⟨_, _, rfl, by decide⟩
      · exact .inl ⟨_, h⟩
      · exact .inr ⟨_, _, rfl, by decide⟩

private theorem mem_notesLines {notes : Option Str} {l : CardLine} (h : l ∈ notesLines notes) :
    ∃ fixed value, l = .text fixed value ∧ CardLine.isPlain fixed = true := by
  match notes with
  | none => cases h
  | some [] => cases h
  | some (c :: notes) =>
    simp only [notesLines, List.mem_cons, List.not_mem_nil, or_false] at h
    rcases h with rfl | rfl | rfl | rfl
    · exact ⟨_, _, rfl, by decide⟩
    · exact ⟨_, _, rfl, by decide⟩
    · exact ⟨_, _, rfl, by decide⟩
    · exact ⟨_, _, rfl, by decide⟩

private theorem isPlain_of_isKey {key : Str} (h : isKey key = true) :
    key ≠ [] ∧ CardLine.isPlain key = true := by
  rw [isKey, Bool.and_eq_true, List.all_eq_true] at h
  refine ⟨by simpa using h.1, List.all_eq_true.2 fun c hc => ?_⟩
  have hc := h.2 c hc
  have hstar : c ≠ '*' := by
    rintro rfl
    exact absurd hc (by decide)
  have hdash : c ≠ '-' := by
    rintro rfl
    exact absurd hc (by decide)
  simp [hstar, hdash]

theorem plain_of_mem_cardLines : ∀ l ∈ cardLines data, l.Plain := by
  have hmetrics : ∀ m, ∀ l ∈ metricsLines m, l.Plain := by
    intro m
    simp only [metricsLines, List.forall_mem_cons, CardLine.Plain, List.not_mem_nil,
      IsEmpty.forall_iff, implies_true, and_true]
    decide
  intro l hl
  simp only [cardLines, List.mem_append] at hl
  rcases hl with ((((hl | hl) | hl) | hl) | hl) | hl
  · revert l
    simp only [headLines, blankLine, heading, List.forall_mem_cons, CardLine.Plain, List.not_mem_nil,
      IsEmpty.forall_iff, implies_true, and_true]
    decide
  · obtain ⟨p, hp, rfl⟩ := List.mem_map.1 hl
    exact isPlain_of_isKey (data.keys p hp)
  · revert l
    simp only [blankLine, heading, List.forall_mem_cons, CardLine.Plain, List.not_mem_nil,
      IsEmpty.forall_iff, implies_true, and_true]
    decide
  · exact hmetrics _ l hl
  · rcases mem_directionLines hl with ⟨m, hl⟩ | ⟨fixed, value, rfl, hfixed⟩
    · exact hmetrics m l hl
    · exact hfixed
  · obtain ⟨fixed, value, rfl, hfixed⟩ := mem_notesLines hl
    exact hfixed

/-- The value of a hyperparameter -/
theorem fieldValue_of_isKey {name : Str} (h : isKey name = true) :
    fieldValue name (cardLines data) = (data.hyperparameters.lookup name).map HyperValue.str := by
  have hne : ∀ {k : Str}, isKey k = false → some k ≠ some name := by
    rintro k hk heq
    rw [Option.some.inj heq, h] at hk
    cases hk
  have hmetrics : ∀ m, ∀ l ∈ metricsLines m, l.key? ≠ some name := by
    intro m
    simp only [metricsLines, List.forall_mem_cons, CardLine.key?]
    exact ⟨hne (by decide), hne (by decide), hne (by decide), by simp⟩
  have hhead : fieldValue name (headLines data) = none := by
    refine fieldValue_eq_none ?_
    simp only [headLines, blankLine, heading, List.forall_mem_cons, CardLine.key?]
    exact ⟨by simp, by simp, hne (by decide), hne (by decide), hne (by decide), hne (by decide),
      hne (by decide), hne (by decide), by simp⟩
  have hdirections : fieldValue name (directionLines data.perDirectionMetrics) = none := by
    refine fieldValue_eq_none fun l hl => ?_
    rcases mem_directionLines hl with ⟨m, hl⟩ | ⟨fixed, value, rfl, -⟩
    · exact hmetrics m l hl
    · exact nofun
  have hnotes : fieldValue name (notesLines data.notes) = none := by
    refine fieldValue_eq_none fun l hl => ?_
    obtain ⟨fixed, value, rfl, -⟩ := mem_notesLines hl
    exact nofun
  have hblank : fieldValue name [blankLine, heading "## Metrics (validation set)", blankLine] = none := rfl
  rw [cardLines, fieldValue_append, fieldValue_append, fieldValue_append, fieldValue_append,
    fieldValue_append,
    hhead, fieldValue_hyperparameters, hblank, fieldValue_eq_none (hmetrics _), hdirections, hnotes]
  simp

private theorem fieldValue_of_headLines {name v : Str} (h : fieldValue name (headLines data) = some v) :
    fieldValue name (cardLines data) = some v := by
  simp [cardLines, fieldValue_append, h]

private theorem fieldValue_of_metricsLines {name v : Str} (hkey : isKey name = false)
    (hhead : fieldValue name (headLines data) = none)
    (h : fieldValue name (metricsLines data.metrics) = some v) :
    fieldValue name (cardLines data) = some v := by
  -- no hyperparameter has that name
  have hlookup : data.hyperparameters.lookup name = none := by
    rw [List.lookup_eq_none_iff]
    intro p hp
    rw [bne_iff_ne]
    rintro rfl
    rw [data.keys p hp] at hkey
    cases hkey
  simp [cardLines, fieldValue_append, fieldValue_hyperparameters, hlookup, hhead, h, fieldValue, blankLine,
    heading, CardLine.key?]

/-! ### The round trip -/

/-- Not empty, and without white space -/
def IsWord (s : Str) : Prop := s ≠ [] ∧ ∀ c ∈ s, isspace c = false

/-- The fields that are read as texts, with what the card records for them. -/
def recordedFields (data : ModelCardData) : List (FieldPattern × Option Str) :=
  [(bleuPattern, some (tenthsStr data.metrics.bleu)), (chrfPattern, some (tenthsStr data.metrics.chrf)),
    (baseModelPattern, some data.baseModel), (directionPattern, some data.direction),
    (corpusVersionPattern, some data.corpusVersion),
    (vocabExtensionScopingPattern, data.vocabExtensionScoping)]

/-- The readers give back what the card records. -/
structure ReadsBack (data : ModelCardData) : Prop where
  metrics : parseModelCardMetrics (renderModelCard data) =
    [("bleu".toList, tenthsStr data.metrics.bleu), ("chrf".toList, tenthsStr data.metrics.chrf)]
  run : parseModelCardRunMetadata (renderModelCard data) =
    [("run_id".toList, data.runId), ("base_model".toList, data.baseModel),
      ("direction".toList, data.direction), ("corpus_version".toList, data.corpusVersion)]
  newTokensAdded : extractNewTokensAdded (some (renderModelCard data)) = data.newTokensAdded
  vocabExtensionScoping :
    extractVocabExtensionScoping (some (renderModelCard data)) = data.vocabExtensionScoping

/-- The identifiers are words, and where a value before the line of a field mentions the field, the first
mention is followed by the value recorded for it. -/
structure Unambiguous (data : ModelCardData) : Prop where
  words : ∀ s ∈ [data.runId, data.baseModel, data.direction, data.corpusVersion], IsWord s
  scoping : ∀ s, data.vocabExtensionScoping = some s → IsWord s
  mentions : ∀ p ∈ recordedFields data, ∀ w, p.1.firstMention (cardLines data) = some w → p.2 = some w
  newTokens : ∀ w, newTokensAddedPattern.firstMention (cardLines data) = some w →
    data.newTokensAdded = some (intOf w)

private theorem matched_eq_iff {fields : List (Str × Option Str)} {recorded : List (Str × Str)}
    (h : fields.length = recorded.length) :
    matched fields = recorded ↔ fields = recorded.map fun p => (p.1, some p.2) := by
  induction fields generalizing recorded with
  | nil =>
    cases recorded with
    | nil => simp [matched]
    | cons q recorded => cases h
  | cons p fields ih =>
    obtain ⟨name, o⟩ := p
    cases recorded with
    | nil => cases h
    | cons q recorded =>
      have hlen : fields.length = recorded.length := Nat.succ.inj h
      cases o with
      | none =>
        have hle : (matched fields).length ≤ fields.length := List.length_filterMap_le _ _
        have hnone : matched ((name, none) :: fields) = matched fields := rfl
        rw [hnone]
        constructor
        · intro heq
          rw [heq, List.length_cons] at hle
          omega
        · intro heq
          cases (List.cons.inj heq).1
      | some v =>
        have hsome : matched ((name, some v) :: fields) = (name, v) :: matched fields := rfl
        rw [hsome, List.map_cons, List.cons.injEq, List.cons.injEq, ih hlen]
        simp [Prod.ext_iff]

private theorem isWord_iff {s : Str} : IsWord s ↔ s ≠ [] ∧ ∀ c ∈ s, notSpace c = true := by
  simp [IsWord, notSpace]

private theorem searchLines_title_iff :
    searchLines '\n' captureTitle (renderModelCard data) = some data.runId ↔ IsWord data.runId := by
  rw [isWord_iff]
  constructor
  · intro h
    obtain ⟨u, hu⟩ := searchLines_eq_some h
    obtain ⟨t, -, ht⟩ := Option.bind_eq_some_iff.1 hu
    exact capture_eq_some ht
  · rintro ⟨hne, hspace⟩
    obtain ⟨rest, hrest⟩ : ∃ rest, renderModelCard data =
        "# Model card:".toList ++ ' ' :: (data.runId ++ '\n' :: rest) := by
      rw [renderModelCard_eq, cardLines, headLines]
      simp only [List.cons_append, cardText_cons, CardLine.str, List.append_assoc]
      exact ⟨_, rfl⟩
    have hdrop : (renderModelCard data).dropPrefix? "# Model card:".toList =
        some (' ' :: (data.runId ++ '\n' :: rest)) :=
      List.dropPrefix?_eq_some_iff.2 ⟨_, hrest, beq_self_eq_true _⟩
    have htitle : captureTitle (renderModelCard data) = some data.runId := by
      rw [captureTitle, hdrop, Option.bind_some]
      exact capture_run (by decide) hne hspace (fun _ => isspace_of_notSpace) (by decide)
    rw [searchLines, htitle, Option.some_or]

/-! ### Numbers -/

private theorem captures_natStr (n : ℕ) : newTokensAddedPattern.Captures (natStr n) := by
  exact ⟨natStr_ne_nil n, fun c hc => isDecimal_of_mem_natStr hc⟩

private theorem isScoreChar_of_mem_tenthsStr {t : ℕ} {c : Char} (h : c ∈ tenthsStr t) :
    isScoreChar c = true := by
  rw [tenthsStr, List.mem_append, List.mem_cons] at h
  rw [isScoreChar, Bool.or_eq_true, beq_iff_eq]
  rcases h with h | h | h
  · exact .inl (isDigit_of_mem_natStr h)
  · exact .inr h
  · exact .inl (isDigit_of_mem_natStr h)

private theorem tenthsStr_ne_nil (t : ℕ) : tenthsStr t ≠ [] := by simp [tenthsStr]

/-! ### When a card is read back -/

private theorem fieldValue_recordedFields :
    ∀ p ∈ recordedFields data, fieldValue p.1.name (cardLines data) = p.2 := by
  simp only [recordedFields, List.forall_mem_cons, List.not_mem_nil, IsEmpty.forall_iff, implies_true,
    and_true]
  exact ⟨fieldValue_of_metricsLines (by decide) rfl rfl, fieldValue_of_metricsLines (by decide) rfl rfl,
    fieldValue_of_headLines rfl, fieldValue_of_headLines rfl, fieldValue_of_headLines rfl,
    fieldValue_of_isKey (by decide)⟩

private theorem fieldValue_newTokensAdded :
    fieldValue newTokensAddedPattern.name (cardLines data) = data.newTokensAdded.map natStr := by
  have hkey : isKey newTokensAddedPattern.name = true := by decide
  rw [fieldValue_of_isKey hkey, ModelCardData.newTokensAdded]
  cases hlookup : data.hyperparameters.lookup newTokensAddedKey with
  | none =>
    rw [show data.hyperparameters.lookup newTokensAddedPattern.name = none from hlookup]
    rfl
  | some v =>
    obtain ⟨n, rfl⟩ := data.newTokens v hlookup
    rw [show data.hyperparameters.lookup newTokensAddedPattern.name = some (.number n) from hlookup]
    rfl

/-- The recorded texts that are not words of their own are scores. -/
private theorem captures_iff :
    (∀ p ∈ recordedFields data, ∀ v, p.2 = some v → p.1.Captures v) ↔
      (∀ s ∈ [data.baseModel, data.direction, data.corpusVersion], IsWord s) ∧
        ∀ s, data.vocabExtensionScoping = some s → IsWord s := by
  have hbleu : bleuPattern.Captures (tenthsStr data.metrics.bleu) :=
    ⟨tenthsStr_ne_nil _, fun c hc => isScoreChar_of_mem_tenthsStr hc⟩
  have hchrf : chrfPattern.Captures (tenthsStr data.metrics.chrf) :=
    ⟨tenthsStr_ne_nil _, fun c hc => isScoreChar_of_mem_tenthsStr hc⟩
  have hword : ∀ {f : FieldPattern} {s : Str}, f.cls = notSpace → (f.Captures s ↔ IsWord s) := by
    intro f s hcls
    rw [isWord_iff, FieldPattern.Captures, hcls]
  simp only [recordedFields, List.forall_mem_cons, List.not_mem_nil, IsEmpty.forall_iff, implies_true,
    and_true, Option.some.injEq, forall_eq', hbleu, hchrf, true_and, hword (f := baseModelPattern) rfl,
    hword (f := directionPattern) rfl, hword (f := corpusVersionPattern) rfl,
    hword (f := vocabExtensionScopingPattern) rfl, and_assoc]

private theorem search_recordedFields_iff :
    (∀ p ∈ recordedFields data, p.1.search (renderModelCard data) = p.2) ↔
      (∀ p ∈ recordedFields data, ∀ v, p.2 = some v → p.1.Captures v) ∧
        ∀ p ∈ recordedFields data, ∀ w, p.1.firstMention (cardLines data) = some w → p.2 = some w := by
  have hiff : ∀ p ∈ recordedFields data, p.1.search (renderModelCard data) = p.2 ↔
      (∀ v, p.2 = some v → p.1.Captures v) ∧
        ∀ w, p.1.firstMention (cardLines data) = some w → p.2 = some w := by
    intro p hp
    rw [renderModelCard_eq, ← fieldValue_recordedFields p hp]
    exact p.1.search_eq_fieldValue_iff plain_of_mem_cardLines
  rw [← forall₂_and]
  exact forall₂_congr hiff

private theorem extractNewTokensAdded_iff :
    extractNewTokensAdded (some (renderModelCard data)) = data.newTokensAdded ↔
      ∀ w, newTokensAddedPattern.firstMention (cardLines data) = some w →
        data.newTokensAdded = some (intOf w) := by
  have hv : ∀ v, fieldValue newTokensAddedPattern.name (cardLines data) = some v →
      newTokensAddedPattern.Captures v := by
    intro v hv
    rw [fieldValue_newTokensAdded, Option.map_eq_some_iff] at hv
    obtain ⟨n, -, rfl⟩ := hv
    exact captures_natStr n
  have hsearch := newTokensAddedPattern.search_cardText plain_of_mem_cardLines hv
  rw [extractNewTokensAdded, Option.bind_some, renderModelCard_eq, hsearch, fieldValue_newTokensAdded]
  cases newTokensAddedPattern.firstMention (cardLines data) with
  | none =>
    have hint : intOf ∘ natStr = id := funext intOf_natStr
    simp [hint]
  | some w => simp [eq_comm]

private theorem parseModelCardMetrics_eq_iff {text bleu chrf : Str} :
    parseModelCardMetrics text = [("bleu".toList, bleu), ("chrf".toList, chrf)] ↔
      bleuPattern.search text = some bleu ∧ chrfPattern.search text = some chrf := by
  rw [parseModelCardMetrics, matched_eq_iff (by rfl)]
  simp only [List.map_cons, List.map_nil, List.cons.injEq, Prod.mk.injEq, true_and, and_true]

private theorem parseModelCardRunMetadata_eq_iff {text runId baseModel direction corpusVersion : Str} :
    parseModelCardRunMetadata text =
        [("run_id".toList, runId), ("base_model".toList, baseModel), ("direction".toList, direction),
          ("corpus_version".toList, corpusVersion)] ↔
      searchLines '\n' captureTitle text = some runId ∧ baseModelPattern.search text = some baseModel ∧
        directionPattern.search text = some direction ∧
        corpusVersionPattern.search text = some corpusVersion := by
  rw [parseModelCardRunMetadata, matched_eq_iff (by rfl)]
  simp only [List.map_cons, List.map_nil, List.cons.injEq, Prod.mk.injEq, true_and, and_true]

private theorem readsBack_iff :
    ReadsBack data ↔ searchLines '\n' captureTitle (renderModelCard data) = some data.runId ∧
      (∀ p ∈ recordedFields data, p.1.search (renderModelCard data) = p.2) ∧
      extractNewTokensAdded (some (renderModelCard data)) = data.newTokensAdded := by
  simp only [recordedFields, List.forall_mem_cons, List.not_mem_nil, IsEmpty.forall_iff, implies_true,
    and_true]
  constructor
  · rintro ⟨hmetrics, hrun, htokens, hscoping⟩
    obtain ⟨hbleu, hchrf⟩ := parseModelCardMetrics_eq_iff.1 hmetrics
    obtain ⟨htitle, hbase, hdirection, hcorpus⟩ := parseModelCardRunMetadata_eq_iff.1 hrun
    exact ⟨htitle, ⟨hbleu, hchrf, hbase, hdirection, hcorpus, hscoping⟩, htokens⟩
  · rintro ⟨htitle, ⟨hbleu, hchrf, hbase, hdirection, hcorpus, hscoping⟩, htokens⟩
    exact ⟨parseModelCardMetrics_eq_iff.2 ⟨hbleu, hchrf⟩,
      parseModelCardRunMetadata_eq_iff.2 ⟨htitle, hbase, hdirection, hcorpus⟩, htokens, hscoping⟩

/-- A card whose corpus version is two words -/
def twoWordCard : ModelCardData where
  runId := "run-1".toList
  timestamp := "2026-01-01T00:00:00+00:00".toList
  baseModel := "facebook/m2m100_418M".toList
  direction := "both".toList
  corpusVersion := "almg v1".toList
  trainSentenceCount := 2
  validationSentenceCount := 1
  hyperparameters := [(newTokensAddedKey, .number 2)]
  metrics := ⟨123, 345, 1⟩
  notes := none
  perDirectionMetrics := none
  keys := by simp only [List.forall_mem_cons]; decide
  nodup := by decide
  newTokens := by
    rintro v hv
    exact ⟨2, (Option.some.inj hv).symm⟩

end KaqTranslator
