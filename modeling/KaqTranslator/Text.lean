import Mathlib.Data.Char
import Mathlib.Data.List.Lex
import Mathlib.Data.List.TakeWhile
import Mathlib.Data.List.Dedup
import Mathlib.Data.List.Sort

/-!
# Strings

A Python `str` is the list of its code points, a JavaScript string the list of its UTF-16 code units.  The
methods of `str` that the repository uses are defined here under their own names.
-/

namespace KaqTranslator

abbrev Str := List Char

abbrev JsString := List UInt16

instance instDecidableMemStr (s : Str) (strs : List Str) : Decidable (s ∈ strs) := inferInstance

/-! ### Methods of `str` -/

/-- `str.isspace`, for one character -/
def isspace (c : Char) : Bool :=
  (9 ≤ c.val && c.val ≤ 13) || (0x1C ≤ c.val && c.val ≤ 0x20) || c.val == 0x85 || c.val == 0xA0 ||
    c.val == 0x1680 || (0x2000 ≤ c.val && c.val ≤ 0x200A) || c.val == 0x2028 || c.val == 0x2029 ||
    c.val == 0x202F || c.val == 0x205F || c.val == 0x3000

namespace Str

/-- `str.isspace()` -/
def allSpace (s : Str) : Bool := !s.isEmpty && s.all isspace

def split (s : Str) : List Str := (s.splitOnP isspace).filter fun w => !w.isEmpty

def lstrip (s : Str) : Str := s.dropWhile isspace

def rstrip (s : Str) : Str := (s.reverse.dropWhile isspace).reverse

def strip (s : Str) : Str := s.lstrip.rstrip

def startsWith (s pre : Str) : Bool := pre.isPrefixOf s

def removePrefix (s pre : Str) : Str := if s.startsWith pre then s.drop pre.length else s

def join (sep : Str) (parts : List Str) : Str := sep.intercalate parts

/-- `sorted(set(…))`, by code points -/
def sortedSet (xs : List Str) : List Str := xs.dedup.insertionSort (· ≤ ·)

def Blank (s : Str) : Prop := ∀ c ∈ s, isspace c = true

end Str

/-- `str(n)` -/
def natStr (n : ℕ) : Str := Nat.toDigits 10 n

/-- The code points of the decimal digits zero -/
def decimalZeros : List ℕ :=
  [0x30, 0x660, 0x6F0, 0x7C0, 0x966, 0x9E6, 0xA66, 0xAE6, 0xB66, 0xBE6, 0xC66, 0xCE6, 0xD66, 0xDE6, 0xE50,
    0xED0, 0xF20, 0x1040, 0x1090, 0x17E0, 0x1810, 0x1946, 0x19D0, 0x1A80, 0x1A90, 0x1B50, 0x1BB0, 0x1C40,
    0x1C50, 0xA620, 0xA8D0, 0xA900, 0xA9D0, 0xA9F0, 0xAA50, 0xABF0, 0xFF10, 0x104A0, 0x10D30, 0x11066,
    0x110F0, 0x11136, 0x111D0, 0x112F0, 0x11450, 0x114D0, 0x11650, 0x116C0, 0x11730, 0x118E0, 0x11950,
    0x11C50, 0x11D50, 0x11DA0, 0x11F50, 0x16A60, 0x16AC0, 0x16B50, 0x1D7CE, 0x1D7D8, 0x1D7E2, 0x1D7EC,
    0x1D7F6, 0x1E140, 0x1E2F0, 0x1E4F0, 0x1E950, 0x1FBF0]

def decimalValue (c : Char) : Option ℕ :=
  (decimalZeros.find? fun z => z ≤ c.toNat && c.toNat ≤ z + 9).map fun z => c.toNat - z

/-- `int(s)`, for a string of decimal digits -/
def intOf (s : Str) : ℕ := s.foldl (fun n c => 10 * n + (decimalValue c).getD 0) 0

/-- `str.isdecimal`, for one character, which is what `\d` matches -/
def isDecimal (c : Char) : Bool := (decimalValue c).isSome

/-- A `ValueError`, with its message. -/
structure ValueError where
  message : Str
  deriving DecidableEq

/-! ### White space -/

/-- What lies between two separators is made of other characters of the string. -/
theorem mem_of_mem_splitOnP {p : Char → Bool} {s w : Str} (h : w ∈ s.splitOnP p) :
    ∀ c ∈ w, c ∈ s ∧ p c = false := by
  induction s generalizing w with
  | nil =>
    rw [List.splitOnP_nil, List.mem_singleton] at h
    subst h
    exact fun c hc => (List.not_mem_nil hc).elim
  | cons c s ih =>
    have htail : ∀ w ∈ s.splitOnP p, ∀ d ∈ w, d ∈ c :: s ∧ p d = false := fun w hw d hd =>
      ⟨List.mem_cons_of_mem _ (ih hw d hd).1, (ih hw d hd).2⟩
    rw [List.splitOnP_cons_eq_if_modifyHead] at h
    split at h
    · rcases List.mem_cons.1 h with rfl | h
      · exact fun c hc => (List.not_mem_nil hc).elim
      · exact htail w h
    · rename_i hc
      cases hs : s.splitOnP p with
      | nil => exact absurd hs (List.splitOnP_ne_nil _ _)
      | cons v vs =>
        rw [hs, List.modifyHead_cons] at h
        rcases List.mem_cons.1 h with rfl | h
        · intro d hd
          rcases List.mem_cons.1 hd with rfl | hd
          · exact ⟨List.mem_cons_self, Bool.eq_false_iff.2 hc⟩
          · exact htail v (hs ▸ List.mem_cons_self ..) d hd
        · exact htail w (hs ▸ List.mem_cons_of_mem _ h)

theorem not_sep_of_mem_splitOnP {p : Char → Bool} {s w : Str} (h : w ∈ s.splitOnP p) : ∀ c ∈ w, p c = false :=
  fun c hc => (mem_of_mem_splitOnP h c hc).2

/-- A word of `split` is not empty and holds no white space. -/
theorem Str.mem_split {s w : Str} (h : w ∈ s.split) : w ≠ [] ∧ ∀ c ∈ w, isspace c = false := by
  obtain ⟨hmem, hne⟩ := List.mem_filter.1 h
  exact ⟨by simpa using hne, not_sep_of_mem_splitOnP hmem⟩

theorem Str.subset_of_mem_split {s w : Str} (h : w ∈ s.split) : w ⊆ s :=
  fun c hc => (mem_of_mem_splitOnP (List.mem_filter.1 h).1 c hc).1

theorem Str.lstrip_eq (s : Str) : ∃ l : Str, l.Blank ∧ s = l ++ s.lstrip :=
  ⟨s.takeWhile isspace, fun _ hc => List.mem_takeWhile_imp hc, (List.takeWhile_append_dropWhile ..).symm⟩

theorem Str.rstrip_eq (s : Str) : ∃ r : Str, r.Blank ∧ s = s.rstrip ++ r := by
  obtain ⟨l, hl, hs⟩ := Str.lstrip_eq s.reverse
  refine ⟨l.reverse, fun c hc => hl c (List.mem_reverse.1 hc), ?_⟩
  rw [rstrip, ← List.reverse_append]
  exact (congrArg List.reverse hs) ▸ (List.reverse_reverse s).symm

theorem Str.strip_eq (s : Str) : ∃ l r : Str, l.Blank ∧ r.Blank ∧ s = l ++ s.strip ++ r := by
  obtain ⟨l, hl, hs⟩ := s.lstrip_eq
  obtain ⟨r, hr, hs'⟩ := s.lstrip.rstrip_eq
  refine ⟨l, r, hl, hr, ?_⟩
  rw [List.append_assoc, strip, ← hs', ← hs]

theorem Str.strip_eq_nil_iff {s : Str} : s.strip = [] ↔ s.Blank := by
  constructor
  · intro h
    obtain ⟨l, r, hl, hr, hs⟩ := s.strip_eq
    rw [hs, h, List.append_nil]
    intro c hc
    exact (List.mem_append.1 hc).elim (hl c) (hr c)
  · intro h
    have hnil : s.lstrip = [] := List.dropWhile_eq_nil_iff.2 h
    rw [strip, hnil]
    rfl

theorem Str.lstrip_of_not_space {s : Str} (hhead : ∀ c, s.head? = some c → isspace c = false) :
    s.lstrip = s := by
  cases s with
  | nil => rfl
  | cons c s => exact List.dropWhile_cons_of_neg (by simp [hhead c rfl])

/-- A string that neither begins nor ends with white space is not changed. -/
theorem Str.strip_of_not_space {s : Str} (hhead : ∀ c, s.head? = some c → isspace c = false)
    (hlast : ∀ c, s.getLast? = some c → isspace c = false) : s.strip = s := by
  rw [strip, lstrip_of_not_space hhead, rstrip]
  cases hr : s.reverse with
  | nil => rw [List.dropWhile_nil, ← hr, List.reverse_reverse]
  | cons c t =>
    have hc : s.getLast? = some c := by rw [← List.head?_reverse, hr]; rfl
    rw [List.dropWhile_cons_of_neg (by simp [hlast c hc]), ← hr, List.reverse_reverse]

theorem Str.mem_sortedSet {xs : List Str} {x : Str} : x ∈ sortedSet xs ↔ x ∈ xs := by
  rw [sortedSet, List.mem_insertionSort, List.mem_dedup]

theorem Str.nodup_sortedSet (xs : List Str) : (sortedSet xs).Nodup :=
  (List.perm_insertionSort _ _).nodup_iff.2 (List.nodup_dedup xs)

theorem Str.sortedSet_congr {xs ys : List Str} (h : ∀ x, x ∈ xs ↔ x ∈ ys) : sortedSet xs = sortedSet ys := by
  have hperm : (sortedSet xs).Perm (sortedSet ys) :=
    (List.perm_ext_iff_of_nodup (nodup_sortedSet xs) (nodup_sortedSet ys)).2 fun x => by
      rw [mem_sortedSet, mem_sortedSet, h]
  exact hperm.eq_of_pairwise' (List.pairwise_insertionSort _ _) (List.pairwise_insertionSort _ _)

/-! ### Numbers -/

theorem isspace_of_isDigit {c : Char} (h : c.isDigit = true) : isspace c = false := by
  have h0 : '0'.val.toNat = 48 := rfl
  have h9 : '9'.val.toNat = 57 := rfl
  simp only [Char.isDigit, isspace, Bool.and_eq_true, decide_eq_true_eq, Bool.or_eq_false_iff,
    Bool.and_eq_false_iff, decide_eq_false_iff_not, beq_eq_false_iff_ne, UInt32.le_iff_toNat_le, ge_iff_le,
    ne_eq, ← UInt32.toNat_inj, UInt32.reduceToNat, h0, h9] at h ⊢
  omega

theorem isspace_of_isDecimal {c : Char} (h : isDecimal c = true) : isspace c = false := by
  have hzeros : (decimalZeros.all fun z => z = 0x30 ∨ 0x660 ≤ z ∧ z + 9 < 0x1680 ∨ 0x1680 < z ∧ z + 9 < 0x2000 ∨
      0x3000 < z) = true := by decide
  rw [isDecimal, decimalValue, Option.isSome_map, List.find?_isSome] at h
  obtain ⟨z, hz, hc⟩ := h
  have hz := of_decide_eq_true (List.all_eq_true.1 hzeros z hz)
  simp only [Char.toNat, Bool.and_eq_true, decide_eq_true_eq] at hc
  simp only [isspace, Bool.or_eq_false_iff, Bool.and_eq_false_iff, decide_eq_false_iff_not, beq_eq_false_iff_ne,
    UInt32.le_iff_toNat_le, ne_eq, ← UInt32.toNat_inj, UInt32.reduceToNat]
  omega

theorem natStr_ne_nil (n : ℕ) : natStr n ≠ [] := Nat.toDigits_ne_nil

theorem natStr_injective : Function.Injective natStr := by
  intro m n h
  have hdigits : Nat.ofDigitChars 10 (Nat.toDigits 10 m) 0 = Nat.ofDigitChars 10 (Nat.toDigits 10 n) 0 :=
    congrArg (Nat.ofDigitChars 10 · 0) h
  rwa [Nat.ofDigitChars_ten_toDigits, Nat.ofDigitChars_ten_toDigits] at hdigits

theorem isDigit_of_mem_natStr {n : ℕ} {c : Char} (h : c ∈ natStr n) : c.isDigit = true :=
  Nat.isDigit_of_mem_toDigits (by decide) (by decide) h

theorem decimalValue_of_isDigit {c : Char} (h : c.isDigit = true) :
    decimalValue c = some (c.toNat - 48) := by
  have h0 : '0'.val.toNat = 48 := rfl
  have h9 : '9'.val.toNat = 57 := rfl
  simp only [Char.isDigit, Bool.and_eq_true, decide_eq_true_eq, UInt32.le_iff_toNat_le, ge_iff_le, h0, h9] at h
  have hfirst : ((48 : ℕ) ≤ c.toNat && c.toNat ≤ 48 + 9) = true := by
    simp only [Char.toNat, Bool.and_eq_true, decide_eq_true_eq]
    omega
  have hzeros : decimalZeros = 48 :: decimalZeros.tail := rfl
  have hfind : (decimalZeros.find? fun z => z ≤ c.toNat && c.toNat ≤ z + 9) = some 48 := by
    rw [hzeros]
    exact List.find?_cons_of_pos hfirst
  rw [decimalValue, hfind, Option.map_some]

/-- `int(str(n)) = n` -/
theorem intOf_natStr (n : ℕ) : intOf (natStr n) = n := by
  have hfold : ∀ (s : Str) (k : ℕ), (∀ c ∈ s, c.isDigit = true) →
      s.foldl (fun n c => 10 * n + (decimalValue c).getD 0) k = Nat.ofDigitChars 10 s k := by
    intro s
    induction s with
    | nil => exact fun _ _ => rfl
    | cons c s ih =>
      intro k h
      obtain ⟨hc, hs⟩ := List.forall_mem_cons.1 h
      rw [List.foldl_cons, decimalValue_of_isDigit hc, Option.getD_some, ih _ hs]
      rfl
  rw [intOf, hfold _ 0 fun c hc => isDigit_of_mem_natStr hc]
  exact Nat.ofDigitChars_ten_toDigits

theorem isDecimal_of_mem_natStr {n : ℕ} {c : Char} (h : c ∈ natStr n) : isDecimal c = true := by
  rw [isDecimal, decimalValue_of_isDigit (isDigit_of_mem_natStr h)]
  rfl

end KaqTranslator
