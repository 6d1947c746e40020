import Mathlib.Data.List.Basic

/-!
# Splitting a text into lines

A text is a list over an alphabet in which `brk` tells the line boundaries; `cr` and `lf` are two of them, and
`cr` followed by `lf` is one boundary.  `splitlines` gives the lines without their boundaries, and the last
line need not have one.  `splitlines_append_lf` cuts a text after an `lf`, so that a text of lines that each
end with `lf` is read line by line (`splitlines_unlines`): a line `x` is read back as one line exactly if it
holds no boundary, a last `cr` excepted (`length_splitlines_eq_one_iff`, `splitlines_of_oneLine`).

`universalNewlines` turns every `cr lf` and `cr` into `lf`; the lines are the same
(`splitlines_universalNewlines`).
-/

namespace Lines

variable {α : Type*}

/-! ### Definitions -/

def consHead (c : α) : List (List α) → List (List α)
  | [] => [[c]]
  | l :: ls => (c :: l) :: ls

theorem consHead_ne_nil (c : α) (ls : List (List α)) : consHead c ls ≠ [] := by
  cases ls <;> simp [consHead]

theorem length_consHead (c : α) {ls : List (List α)} (h : ls ≠ []) : (consHead c ls).length = ls.length := by
  cases ls with
  | nil => exact absurd rfl h
  | cons l ls => rfl

theorem consHead_append (c : α) {ls ms : List (List α)} (h : ls ≠ []) :
    consHead c (ls ++ ms) = consHead c ls ++ ms := by
  cases ls with
  | nil => exact absurd rfl h
  | cons l ls => rfl

variable [DecidableEq α] (brk : α → Bool) (cr lf : α)

def splitlines : List α → List (List α)
  | [] => []
  | [c] => if brk c then [[]] else [[c]]
  | c :: d :: s =>
    if c = cr ∧ d = lf then [] :: splitlines s
    else if brk c then [] :: splitlines (d :: s)
    else consHead c (splitlines (d :: s))

def universalNewlines : List α → List α
  | [] => []
  | [c] => if c = cr then [lf] else [c]
  | c :: d :: s =>
    if c = cr ∧ d = lf then lf :: universalNewlines s
    else if c = cr then lf :: universalNewlines (d :: s)
    else c :: universalNewlines (d :: s)

/-- The line without a last `cr`, which an `lf` that follows takes into its boundary. -/
def chompCr (x : List α) : List α := if x.getLast? = some cr then x.dropLast else x

/-- The line holds no boundary, a last `cr` excepted. -/
def OneLine (x : List α) : Prop := ∀ c ∈ chompCr cr x, brk c = false

instance (x : List α) : Decidable (OneLine brk cr x) := List.decidableBAll ..

def unlines (ls : List (List α)) : List α := ls.flatMap fun l => l ++ [lf]

variable {brk cr lf}

omit [DecidableEq α] in
theorem unlines_cons (l : List α) (ls : List (List α)) : unlines lf (l :: ls) = l ++ lf :: unlines lf ls := by
  simp [unlines]

/-! ### First facts -/

/-- Texts by their first boundary or character: `cr lf`, or one that is not the `cr` of a `cr lf`. -/
@[elab_as_elim]
theorem crlf_induction (cr lf : α) {P : List α → Prop} (nil : P []) (crlf : ∀ s, P s → P (cr :: lf :: s))
    (cons : ∀ c s, ¬ (c = cr ∧ s.head? = some lf) → P s → P (c :: s)) (s : List α) : P s := by
  induction s using splitlines.induct (fun _ => false) cr lf with
  | case1 => exact nil
  | case2 c h => exact absurd h (by simp)
  | case3 c h => exact cons c [] (by simp) nil
  | case4 c d s h ih =>
    obtain ⟨rfl, rfl⟩ := h
    exact crlf s ih
  | case5 c d s h hb => exact absurd hb (by simp)
  | case6 c d s h hb ih => exact cons c (d :: s) (by simpa using h) ih

theorem splitlines_crlf (s : List α) :
    splitlines brk cr lf (cr :: lf :: s) = [] :: splitlines brk cr lf s := by
  rw [splitlines, if_pos ⟨rfl, rfl⟩]

theorem splitlines_cons {c : α} {s : List α} (h : ¬ (c = cr ∧ s.head? = some lf)) :
    splitlines brk cr lf (c :: s) =
      if brk c then [] :: splitlines brk cr lf s else consHead c (splitlines brk cr lf s) := by
  cases s with
  | nil => rfl
  | cons d s => rw [splitlines, if_neg (by simpa using h)]

theorem splitlines_cons_lf (hlf : brk lf = true) (hne : cr ≠ lf) (s : List α) :
    splitlines brk cr lf (lf :: s) = [] :: splitlines brk cr lf s := by
  rw [splitlines_cons fun h => hne h.1.symm, if_pos hlf]

theorem splitlines_ne_nil {s : List α} (hs : s ≠ []) : splitlines brk cr lf s ≠ [] := by
  induction s using crlf_induction cr lf with
  | nil => exact absurd rfl hs
  | crlf s _ => simp [splitlines_crlf]
  | cons c s h _ =>
    rw [splitlines_cons h]
    split
    · simp
    · exact consHead_ne_nil c _

theorem not_brk_of_mem_splitlines {s l : List α} (hl : l ∈ splitlines brk cr lf s) :
    ∀ c ∈ l, brk c = false := by
  induction s using crlf_induction cr lf generalizing l with
  | nil => cases hl
  | crlf s ih =>
    rw [splitlines_crlf] at hl
    rcases List.mem_cons.1 hl with rfl | hl
    · simp
    · exact ih hl
  | cons c s h ih =>
    rw [splitlines_cons h] at hl
    split at hl
    · rcases List.mem_cons.1 hl with rfl | hl
      · simp
      · exact ih hl
    · rename_i hc
      cases hs : splitlines brk cr lf s with
      | nil =>
        rw [hs] at hl
        obtain rfl := List.mem_singleton.1 hl
        simpa using hc
      | cons m ms =>
        rw [hs] at hl ih
        rcases List.mem_cons.1 hl with rfl | hl
        · exact List.forall_mem_cons.2 ⟨by simpa using hc, ih (List.mem_cons_self ..)⟩
        · exact ih (List.mem_cons_of_mem _ hl)

/-! ### Lines that end with `lf` -/

/-- A text is split at an `lf`. -/
theorem splitlines_append_lf (hlf : brk lf = true) (hne : cr ≠ lf) (x s : List α) :
    splitlines brk cr lf (x ++ lf :: s) = splitlines brk cr lf (x ++ [lf]) ++ splitlines brk cr lf s := by
  induction x using crlf_induction cr lf with
  | nil => simp only [List.nil_append, splitlines_cons_lf hlf hne]; rfl
  | crlf x ih => simp only [List.cons_append, splitlines_crlf, ih]
  | cons c x h ih =>
    -- a last `cr` forms one boundary with the `lf` at which the text is split
    by_cases hx : c = cr ∧ x = []
    · obtain ⟨rfl, rfl⟩ := hx
      simp only [List.cons_append, List.nil_append, splitlines_crlf]
      rfl
    · have hsplit : ∀ t, splitlines brk cr lf (c :: (x ++ lf :: t)) =
          if brk c then [] :: splitlines brk cr lf (x ++ lf :: t)
          else consHead c (splitlines brk cr lf (x ++ lf :: t)) := by
        intro t
        refine splitlines_cons ?_
        cases x with
        | nil => simpa using hx
        | cons d x => simpa using h
      rw [List.cons_append, List.cons_append, hsplit, hsplit, ih]
      split
      · rfl
      · exact consHead_append c (splitlines_ne_nil (by simp))

/-- A text of lines that each end with `lf` is split line by line. -/
theorem splitlines_unlines (hlf : brk lf = true) (hne : cr ≠ lf) (ls : List (List α)) :
    splitlines brk cr lf (unlines lf ls) = ls.flatMap fun l => splitlines brk cr lf (l ++ [lf]) := by
  induction ls with
  | nil => rfl
  | cons l ls ih =>
    rw [unlines_cons, splitlines_append_lf hlf hne, ih, List.flatMap_cons]

/-! ### What is read back as one line -/

theorem chompCr_cons {c : α} {x : List α} (h : ¬ (c = cr ∧ x = [])) :
    chompCr cr (c :: x) = c :: chompCr cr x := by
  cases x with
  | nil => simpa [chompCr] using h
  | cons d x =>
    rw [chompCr, chompCr, List.getLast?_cons_cons]
    split <;> rfl

theorem OneLine.of_forall {x : List α} (h : ∀ c ∈ x, brk c = false) : OneLine brk cr x := by
  intro c hc
  rw [chompCr] at hc
  split at hc
  · exact h c ((List.dropLast_sublist x).subset hc)
  · exact h c hc

theorem splitlines_of_oneLine (hlf : brk lf = true) (hcr : brk cr = true) (hne : cr ≠ lf) {x : List α}
    (h : OneLine brk cr x) : splitlines brk cr lf (x ++ [lf]) = [chompCr cr x] := by
  induction x using crlf_induction cr lf with
  | nil =>
    rw [List.nil_append, splitlines_cons_lf hlf hne]
    rfl
  | crlf x _ =>
    -- the `cr` stays, since an `lf` comes after it
    have hmem : cr ∈ chompCr cr (cr :: lf :: x) := by
      rw [chompCr_cons (by simp)]
      exact List.mem_cons_self ..
    rw [h cr hmem] at hcr
    cases hcr
  | cons c x hx ih =>
    by_cases hlast : c = cr ∧ x = []
    · obtain ⟨rfl, rfl⟩ := hlast
      rw [List.cons_append, List.nil_append, splitlines_crlf]
      simp [chompCr, splitlines]
    · rw [OneLine, chompCr_cons hlast, List.forall_mem_cons] at h
      have hhead : ¬ (c = cr ∧ (x ++ [lf]).head? = some lf) := by
        cases x with
        | nil => simpa using hlast
        | cons d x => simpa using hx
      rw [List.cons_append, splitlines_cons hhead, if_neg (by simp [h.1]), ih h.2, chompCr_cons hlast]
      rfl

theorem splitlines_of_forall (hlf : brk lf = true) (hcr : brk cr = true) (hne : cr ≠ lf) {x : List α}
    (h : ∀ c ∈ x, brk c = false) : splitlines brk cr lf (x ++ [lf]) = [x] := by
  have hlast : ¬ x.getLast? = some cr := by
    intro hlast
    rw [h cr (List.mem_of_getLast? hlast)] at hcr
    cases hcr
  rw [splitlines_of_oneLine hlf hcr hne (OneLine.of_forall h), chompCr, if_neg hlast]

/-- Lines without boundaries are read back as they are. -/
theorem splitlines_unlines_of_forall (hlf : brk lf = true) (hcr : brk cr = true) (hne : cr ≠ lf)
    {ls : List (List α)} (h : ∀ l ∈ ls, ∀ c ∈ l, brk c = false) :
    splitlines brk cr lf (unlines lf ls) = ls := by
  rw [splitlines_unlines hlf hne]
  induction ls with
  | nil => rfl
  | cons l ls ih =>
    obtain ⟨hl, hls⟩ := List.forall_mem_cons.1 h
    rw [List.flatMap_cons, splitlines_of_forall hlf hcr hne hl, ih hls]
    rfl

theorem length_splitlines_eq_one_iff (hlf : brk lf = true) (hcr : brk cr = true) (hne : cr ≠ lf) (x : List α) :
    (splitlines brk cr lf (x ++ [lf])).length = 1 ↔ OneLine brk cr x := by
  refine ⟨fun hlen => ?_, fun h => by rw [splitlines_of_oneLine hlf hcr hne h]; rfl⟩
  induction x using crlf_induction cr lf with
  | nil => exact OneLine.of_forall (by simp)
  | crlf x _ =>
    have hpos : 0 < (splitlines brk cr lf (x ++ [lf])).length :=
      List.length_pos_iff.2 (splitlines_ne_nil (by simp))
    rw [List.cons_append, List.cons_append, splitlines_crlf, List.length_cons] at hlen
    omega
  | cons c x hx ih =>
    by_cases hlast : c = cr ∧ x = []
    · obtain ⟨rfl, rfl⟩ := hlast
      simp [OneLine, chompCr]
    · have hhead : ¬ (c = cr ∧ (x ++ [lf]).head? = some lf) := by
        cases x with
        | nil => simpa using hlast
        | cons d x => simpa using hx
      have hpos : 0 < (splitlines brk cr lf (x ++ [lf])).length :=
        List.length_pos_iff.2 (splitlines_ne_nil (by simp))
      rw [List.cons_append, splitlines_cons hhead] at hlen
      split at hlen
      · rw [List.length_cons] at hlen
        omega
      · rename_i hc
        rw [length_consHead c (splitlines_ne_nil (by simp))] at hlen
        rw [OneLine, chompCr_cons hlast, List.forall_mem_cons]
        exact ⟨by simpa using hc, ih hlen⟩

/-! ### Universal newlines -/

theorem universalNewlines_crlf (s : List α) :
    universalNewlines cr lf (cr :: lf :: s) = lf :: universalNewlines cr lf s := by
  rw [universalNewlines, if_pos ⟨rfl, rfl⟩]

theorem universalNewlines_cons {c : α} {s : List α} (h : ¬ (c = cr ∧ s.head? = some lf)) :
    universalNewlines cr lf (c :: s) = (if c = cr then lf else c) :: universalNewlines cr lf s := by
  cases s with
  | nil => by_cases hc : c = cr <;> simp [universalNewlines, hc]
  | cons d s =>
    rw [universalNewlines, if_neg (by simpa using h)]
    split <;> rfl

/-- Reading with universal newlines does not change the lines. -/
theorem splitlines_universalNewlines (hlf : brk lf = true) (hcr : brk cr = true) (hne : cr ≠ lf) (s : List α) :
    splitlines brk cr lf (universalNewlines cr lf s) = splitlines brk cr lf s := by
  induction s using crlf_induction cr lf with
  | nil => rfl
  | crlf s ih => rw [universalNewlines_crlf, splitlines_cons_lf hlf hne, ih, splitlines_crlf]
  | cons c s h ih =>
    rw [universalNewlines_cons h, splitlines_cons h]
    by_cases hc : c = cr
    · rw [if_pos hc, splitlines_cons_lf hlf hne, ih, if_pos (hc ▸ hcr)]
    · rw [if_neg hc, splitlines_cons fun hcr => hc hcr.1, ih]

end Lines
