import KaqTranslator.Text
import KaqTranslator.Library.Lines

/-!
# Text files

The lines of a `str` and the translation of newlines by `open`: a file is the text that was written to it,
since writing leaves `\n` as it is.  A line that `join` has put into a file comes back as one line exactly if
it holds no line boundary, a last carriage return excepted (`Lines.length_splitlines_eq_one_iff`).
-/

namespace KaqTranslator

open Lines

/-- The line boundaries of `str.splitlines` -/
def isLineBoundary (c : Char) : Bool :=
  (0xA ≤ c.val && c.val ≤ 0xD) || (0x1C ≤ c.val && c.val ≤ 0x1E) || c.val == 0x85 || c.val == 0x2028 ||
    c.val == 0x2029

def Str.splitlines (s : Str) : List Str := Lines.splitlines isLineBoundary '\r' '\n' s

/-- What `read()` returns of a file opened as text, with universal newlines. -/
def readText (file : Str) : Str := universalNewlines '\r' '\n' file

theorem isspace_of_isLineBoundary {c : Char} (h : isLineBoundary c = true) : isspace c = true := by
  simp only [isLineBoundary, isspace, Bool.or_eq_true, Bool.and_eq_true, decide_eq_true_eq, beq_iff_eq,
    UInt32.le_iff_toNat_le, ← UInt32.toNat_inj, UInt32.reduceToNat] at h ⊢
  omega

theorem splitlines_readText (file : Str) : (readText file).splitlines = file.splitlines :=
  splitlines_universalNewlines rfl rfl (by decide) file

theorem not_isLineBoundary_of_mem_splitlines {s l : Str} (h : l ∈ s.splitlines) :
    ∀ c ∈ l, isLineBoundary c = false :=
  not_brk_of_mem_splitlines h

theorem join_append_newline {ls : List Str} (h : ls ≠ []) : Str.join ['\n'] ls ++ ['\n'] = unlines '\n' ls := by
  induction ls with
  | nil => exact absurd rfl h
  | cons l ls ih =>
    cases ls with
    | nil => simp [Str.join, unlines]
    | cons m ls =>
      have hrest := ih (by simp)
      rw [unlines, List.flatMap_cons, ← unlines, ← hrest, Str.join, Str.join, List.intercalate_cons_cons]
      simp

/-! ### White space at the end -/

private theorem Str.rstrip_append_space {s : Str} {c : Char} (hc : isspace c = true) :
    Str.rstrip (s ++ [c]) = s.rstrip := by
  rw [rstrip, List.reverse_append, List.reverse_singleton, List.singleton_append,
    List.dropWhile_cons_of_pos hc, rstrip]

private theorem Str.strip_append_space {s : Str} {c : Char} (hc : isspace c = true) :
    Str.strip (s ++ [c]) = s.strip := by
  rw [strip, strip, lstrip, lstrip, List.dropWhile_append]
  cases hs : s.dropWhile isspace with
  | nil => rw [if_pos (by rfl), List.dropWhile_cons_of_pos hc, List.dropWhile_nil]
  | cons d t =>
    rw [if_neg (by simp)]
    exact rstrip_append_space hc

theorem strip_chompCr (s : Str) : Str.strip (chompCr '\r' s) = s.strip := by
  unfold chompCr
  split
  · rename_i h
    have hs : s.dropLast ++ ['\r'] = s := List.dropLast_append_getLast? '\r' h
    have hcr : isspace '\r' = true := by decide
    calc Str.strip s.dropLast = Str.strip (s.dropLast ++ ['\r']) := (Str.strip_append_space hcr).symm
      _ = s.strip := by rw [hs]
  · rfl

end KaqTranslator
