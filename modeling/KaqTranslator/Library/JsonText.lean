import Mathlib.Data.Int.Notation
import KaqTranslator.Library.Unicode

/-!
# JSON texts

`json.loads` and `json.dumps` of Python, over code points.  The scanner goes from left to right and raises the
first error that it meets: a syntax error (`jsonDecodeError`), a container nested deeper than the interpreter
allows (`recursionError`), or an integer with too many digits (`valueError`).  The number of containers that
can be entered is a parameter.

The loops over the members of an object and the elements of an array take the length of the text as fuel,
which is always enough (`fuel_suffices`).  What `dumpsObject` writes is read back, as a text
(`loads_dumpsObject`) and as bytes (`loadsBytes_dumpsObject`).
-/

namespace JsonText

open Unicode

inductive JsonError where
  | jsonDecodeError
  | unicodeDecodeError
  | recursionError
  | valueError
  deriving DecidableEq

inductive Value where
  | null
  | bool (b : Bool)
  | int (n : ℤ)
  | float (literal : List CodePoint)
  | str (s : List CodePoint)
  | arr (values : List Value)
  | obj (members : List (List CodePoint × Value))

/-- A scanner gives what it has read, and the rest of the text. -/
abbrev Scan (α : Type) := List CodePoint → Except JsonError (α × List CodePoint)

def isJsonSpace (c : CodePoint) : Bool :=
  c == .scalar ' ' || c == .scalar '\t' || c == .scalar '\n' || c == .scalar '\r'

def skipSpace (s : List CodePoint) : List CodePoint := s.dropWhile isJsonSpace

/-! ### Strings -/

def hexValue : CodePoint → Option ℕ
  | .scalar c =>
    if c.isDigit then some (c.toNat - '0'.toNat)
    else if 'a' ≤ c ∧ c ≤ 'f' then some (c.toNat - 'a'.toNat + 10)
    else if 'A' ≤ c ∧ c ≤ 'F' then some (c.toNat - 'A'.toNat + 10)
    else none
  | .surrogate _ => none

def hexUnit (a b c d : CodePoint) : Option ℕ := do
  return (((← hexValue a) * 16 + (← hexValue b)) * 16 + (← hexValue c)) * 16 + (← hexValue d)

/-- The characters that are written as a backslash and one character, with that character -/
def shortEscapes : List (Char × Char) :=
  [('"', '"'), ('\\', '\\'), ('\n', 'n'), ('\r', 'r'), ('\t', 't'), ('\x0C', 'f'), ('\x08', 'b')]

/-- What a backslash and one character stand for -/
def unescape (c : CodePoint) : Option Char :=
  ((('/', '/') :: shortEscapes).find? fun p => CodePoint.scalar p.2 = c).map Prod.fst

def isControl : CodePoint → Bool
  | .scalar c => c.toNat < 0x20
  | .surrogate _ => false

/-- A string after its opening quote -/
def scanPieces : Scan (List Piece)
  | [] => .error .jsonDecodeError
  | .scalar '"' :: s => .ok ([], s)
  | .scalar '\\' :: .scalar 'u' :: a :: b :: c :: d :: s =>
    match hexUnit a b c d with
    | some n => (scanPieces s).map fun r => (.unit n :: r.1, r.2)
    | none => .error .jsonDecodeError
  | .scalar '\\' :: c :: s =>
    match unescape c with
    | some c => (scanPieces s).map fun r => (.point (.scalar c) :: r.1, r.2)
    | none => .error .jsonDecodeError
  | c :: s =>
    if isControl c then .error .jsonDecodeError
    else (scanPieces s).map fun r => (.point c :: r.1, r.2)

def scanString : Scan (List CodePoint) := fun s => (scanPieces s).map fun r => (joinPieces r.1, r.2)

/-! ### Numbers -/

def isDigit : CodePoint → Bool
  | .scalar c => c.isDigit
  | .surrogate _ => false

def skipDigits (s : List CodePoint) : List CodePoint := s.dropWhile isDigit

/-- `sys.int_info.default_max_str_digits` -/
def maxStrDigits : ℕ := 4300

def skipSign : List CodePoint → List CodePoint
  | .scalar '-' :: s => s
  | s => s

/-- After the integer part; `none` if it is missing -/
def skipInteger : List CodePoint → Option (List CodePoint)
  | .scalar '0' :: s => some s
  | c :: s => if isDigit c then some (skipDigits s) else none
  | [] => none

/-- After the fraction, if there is one -/
def skipFraction : List CodePoint → List CodePoint
  | .scalar '.' :: d :: s => if isDigit d then skipDigits s else .scalar '.' :: d :: s
  | s => s

/-- After the exponent, if there is one -/
def skipExponent (s : List CodePoint) : List CodePoint :=
  match s with
  | .scalar 'e' :: t | .scalar 'E' :: t =>
    let unsigned := match t with
      | .scalar '+' :: u | .scalar '-' :: u => u
      | u => u
    match unsigned with
    | d :: u => if isDigit d then skipDigits u else s
    | [] => s
  | _ => s

def naturalOf (digits : List CodePoint) : ℕ :=
  digits.foldl (fun n c => 10 * n + (hexValue c).getD 0) 0

def scanNumber : Scan Value := fun s =>
  match skipInteger (skipSign s) with
  | none => .error .jsonDecodeError
  | some afterInteger =>
    let rest := skipExponent (skipFraction afterInteger)
    if rest.length < afterInteger.length then .ok (.float (s.take (s.length - rest.length)), rest)
    else
      let digits := (skipSign s).take ((skipSign s).length - rest.length)
      if maxStrDigits < digits.length then .error .valueError
      else
        let n : ℤ := naturalOf digits
        .ok (.int (if s.head? = some (.scalar '-') then -n else n), rest)

/-! ### Values -/

def constants : List (List CodePoint × Value) :=
  [("null", Value.null), ("true", .bool true), ("false", .bool false), ("NaN", .float (ofChars "NaN".toList)),
    ("Infinity", .float (ofChars "Infinity".toList)),
    ("-Infinity", .float (ofChars "-Infinity".toList))].map fun p => (ofChars p.1.toList, p.2)

def scanConstant (s : List CodePoint) : Option (Value × List CodePoint) :=
  constants.findSome? fun p => (s.dropPrefix? p.1).map fun rest => (p.2, rest)

section Containers

variable (scan : Scan Value)

/-- An array after the white space that follows its bracket, if it is not empty -/
def scanElements : ℕ → Scan (List Value)
  | 0, _ => .error .jsonDecodeError
  | fuel + 1, s => do
    let (v, s) ← scan s
    match skipSpace s with
    | .scalar ']' :: s => return ([v], s)
    | .scalar ',' :: s => do
      let (vs, s) ← scanElements fuel (skipSpace s)
      return (v :: vs, s)
    | _ => throw .jsonDecodeError

/-- An object after the white space that follows its brace, if it is not empty -/
def scanMembers : ℕ → Scan (List (List CodePoint × Value))
  | 0, _ => .error .jsonDecodeError
  | fuel + 1, s => do
    let .scalar '"' :: s := s | throw .jsonDecodeError
    let (key, s) ← scanString s
    let .scalar ':' :: s := skipSpace s | throw .jsonDecodeError
    let (v, s) ← scan (skipSpace s)
    match skipSpace s with
    | .scalar '}' :: s => return ([(key, v)], s)
    | .scalar ',' :: s => do
      let (members, s) ← scanMembers fuel (skipSpace s)
      return ((key, v) :: members, s)
    | _ => throw .jsonDecodeError

def scanArray : Scan Value := fun s =>
  match skipSpace s with
  | .scalar ']' :: s => .ok (.arr [], s)
  | s => (scanElements scan s.length s).map fun r => (.arr r.1, r.2)

def scanObject : Scan Value := fun s =>
  match skipSpace s with
  | .scalar '}' :: s => .ok (.obj [], s)
  | s => (scanMembers scan s.length s).map fun r => (.obj r.1, r.2)

end Containers

/-- `scan_once`, with the scanner for what a container holds, if one can be entered -/
def scanValue (inner : Option (Scan Value)) : Scan Value
  | .scalar '"' :: s => (scanString s).map fun r => (.str r.1, r.2)
  | .scalar '{' :: s =>
    match inner with
    | some scan => scanObject scan s
    | none => .error .recursionError
  | .scalar '[' :: s =>
    match inner with
    | some scan => scanArray scan s
    | none => .error .recursionError
  | s =>
    match scanConstant s with
    | some r => .ok r
    | none => scanNumber s

/-- `scan_once`, where `depth` containers can be entered one in the other -/
def scanOnce : ℕ → Scan Value
  | 0 => scanValue none
  | depth + 1 => scanValue (some (scanOnce depth))

/-! ### Texts -/

/-- `JSONDecoder.decode` -/
def decode (depth : ℕ) (s : List CodePoint) : Except JsonError Value := do
  let (v, s) ← scanOnce depth (skipSpace s)
  if (skipSpace s).isEmpty then return v else throw .jsonDecodeError

/-- `json.loads`, of a `str` -/
def loads (depth : ℕ) (s : List CodePoint) : Except JsonError Value :=
  if s.head? = some (.scalar '\uFEFF') then .error .jsonDecodeError else decode depth s

/-- `json.detect_encoding`, with the length of the byte order mark that the codec strips -/
def detectEncoding (bytes : List UInt8) : Encoding × ℕ :=
  match bytes with
  | 0x00 :: 0x00 :: 0xFE :: 0xFF :: _ => (.utf32 true, 4)
  | 0xFF :: 0xFE :: 0x00 :: 0x00 :: _ => (.utf32 false, 4)
  | 0xFE :: 0xFF :: _ => (.utf16 true, 2)
  | 0xFF :: 0xFE :: _ => (.utf16 false, 2)
  | 0xEF :: 0xBB :: 0xBF :: _ => (.utf8, 3)
  | a :: b :: c :: d :: _ =>
    if a = 0 then (if b ≠ 0 then .utf16 true else .utf32 true, 0)
    else if b = 0 then (if c ≠ 0 ∨ d ≠ 0 then .utf16 false else .utf32 false, 0)
    else (.utf8, 0)
  | [a, b] =>
    if a = 0 then (.utf16 true, 0)
    else if b = 0 then (.utf16 false, 0)
    else (.utf8, 0)
  | _ => (.utf8, 0)

/-- `json.loads`, of `bytes` -/
def loadsBytes (depth : ℕ) (bytes : List UInt8) : Except JsonError Value :=
  let (encoding, mark) := detectEncoding bytes
  match Unicode.decode encoding (bytes.drop mark) with
  | some s => decode depth s
  | none => .error .unicodeDecodeError

/-- `body[key]`; a repeated key keeps its last value. -/
def lookup (members : List (List CodePoint × Value)) (key : List CodePoint) : Option Value :=
  members.reverse.lookup key

/-! ### Writing -/

def hex4 (n : ℕ) : List Char :=
  [n / 0x1000 % 16, n / 0x100 % 16, n / 0x10 % 16, n % 16].map Nat.digitChar

/-- A character as `json.dumps` escapes it -/
def escapeChar (c : Char) : List Char :=
  match shortEscapes.find? fun p => p.1 = c with
  | some p => ['\\', p.2]
  | none =>
    if 0x20 ≤ c.toNat ∧ c.toNat ≤ 0x7E then [c] else (unitsOf c).flatMap fun n => '\\' :: 'u' :: hex4 n

def dumpsString (s : List Char) : List Char := '"' :: (s.flatMap escapeChar ++ ['"'])

def dumpsMember (p : List Char × List Char) : List Char :=
  dumpsString p.1 ++ ':' :: ' ' :: dumpsString p.2

/-- `json.dumps`, of a `dict` of strings -/
def dumpsObject (members : List (List Char × List Char)) : List Char :=
  '{' :: ([',', ' '].intercalate (members.map dumpsMember) ++ ['}'])

/-! ### The fuel suffices -/

/-- What is left is shorter than what there was. -/
def Shrinks {α : Type} (scan : Scan α) : Prop := ∀ s r, scan s = .ok r → r.2.length < s.length

private theorem map_eq_ok {α β : Type} {x : Except JsonError α} {f : α → β} {b : β} :
    x.map f = .ok b ↔ ∃ a, x = .ok a ∧ f a = b := by
  cases x <;> simp [Except.map]

private theorem bind_eq_ok {α β : Type} {x : Except JsonError α} {f : α → Except JsonError β} {b : β} :
    x.bind f = .ok b ↔ ∃ a, x = .ok a ∧ f a = .ok b := by
  cases x <;> simp [Except.bind]

private theorem length_skipSpace_le (s : List CodePoint) : (skipSpace s).length ≤ s.length :=
  (List.dropWhile_suffix _).length_le

private theorem length_skipDigits_le (s : List CodePoint) : (skipDigits s).length ≤ s.length :=
  (List.dropWhile_suffix _).length_le

private theorem shrinks_scanPieces : Shrinks scanPieces := by
  intro s
  fun_induction scanPieces s with
  | case1 =>
    intro r h
    cases h
  | case2 s =>
    intro r h
    cases h
    exact Nat.lt_succ_self _
  | case3 a b c d s n _ ih =>
    intro r h
    obtain ⟨r', hr', rfl⟩ := map_eq_ok.1 h
    have hlt := ih _ hr'
    simp only [List.length_cons]
    omega
  | case4 =>
    intro r h
    cases h
  | case5 c s _ c' _ ih =>
    intro r h
    obtain ⟨r', hr', rfl⟩ := map_eq_ok.1 h
    have hlt := ih _ hr'
    simp only [List.length_cons]
    omega
  | case6 =>
    intro r h
    cases h
  | case7 =>
    intro r h
    cases h
  | case8 c s _ _ _ _ ih =>
    intro r h
    obtain ⟨r', hr', rfl⟩ := map_eq_ok.1 h
    have hlt := ih _ hr'
    simp only [List.length_cons]
    omega

private theorem shrinks_map {α β : Type} {scan : Scan α} (h : Shrinks scan) (f : α → β) :
    Shrinks fun s => (scan s).map fun r => (f r.1, r.2) := by
  intro s r hr
  obtain ⟨r', hr', rfl⟩ := map_eq_ok.1 hr
  exact h s r' hr'

private theorem shrinks_scanString : Shrinks scanString := shrinks_map shrinks_scanPieces joinPieces

private theorem length_skipInteger_lt {s t : List CodePoint} (h : skipInteger s = some t) :
    t.length < s.length := by
  unfold skipInteger at h
  split at h
  · cases h
    exact Nat.lt_succ_self _
  · split at h
    · rename_i c s' _ _
      cases h
      exact Nat.lt_succ_of_le (length_skipDigits_le s')
    · cases h
  · cases h

private theorem length_skipFraction_le (s : List CodePoint) : (skipFraction s).length ≤ s.length := by
  unfold skipFraction
  split
  · rename_i d t
    split
    · have hle := length_skipDigits_le t
      simp only [List.length_cons]
      omega
    · exact Nat.le_refl _
  · exact Nat.le_refl _

private theorem length_skipExponent_le (s : List CodePoint) : (skipExponent s).length ≤ s.length := by
  have hdigits : ∀ t u : List CodePoint, u.length < t.length →
      (match u with
        | d :: v => if isDigit d then skipDigits v else t
        | [] => t).length ≤ t.length := by
    intro t u hu
    match u with
    | [] => exact Nat.le_refl _
    | d :: v =>
      have hle := length_skipDigits_le v
      rw [List.length_cons] at hu
      dsimp only
      split
      · omega
      · exact Nat.le_refl _
  unfold skipExponent
  split
  · rename_i t
    apply hdigits
    split <;> simp only [List.length_cons] <;> omega
  · rename_i t
    apply hdigits
    split <;> simp only [List.length_cons] <;> omega
  · exact Nat.le_refl _

private theorem length_skipSign_le (s : List CodePoint) : (skipSign s).length ≤ s.length := by
  unfold skipSign
  split
  · exact Nat.le_succ _
  · exact Nat.le_refl _

private theorem shrinks_scanNumber : Shrinks scanNumber := by
  intro s r h
  unfold scanNumber at h
  split at h
  · cases h
  · rename_i t ht
    have hrest : r.2 = skipExponent (skipFraction t) := by
      dsimp only at h
      split at h
      · cases h
        rfl
      · split at h
        · cases h
        · cases h
          rfl
    have hsign := length_skipSign_le s
    have hinteger := length_skipInteger_lt ht
    have hfraction := length_skipFraction_le t
    have hexponent := length_skipExponent_le (skipFraction t)
    rw [hrest]
    omega

private theorem shrinks_scanConstant {s : List CodePoint} {r : Value × List CodePoint}
    (h : scanConstant s = some r) : r.2.length < s.length := by
  obtain ⟨p, hp, hr⟩ := List.exists_of_findSome?_eq_some h
  obtain ⟨rest, hrest, rfl⟩ := Option.map_eq_some_iff.1 hr
  have hpos : ∀ q ∈ constants, 0 < q.1.length := by
    simp only [constants, List.map_cons, List.map_nil, List.forall_mem_cons]
    decide
  have hlt := hpos p hp
  obtain ⟨p', rfl, hp'⟩ := List.dropPrefix?_eq_some_iff.1 hrest
  obtain rfl : p' = p.1 := beq_iff_eq.1 hp'
  simp only [List.length_append]
  omega

section Containers

variable {scan : Scan Value} (hscan : Shrinks scan)

include hscan

private theorem shrinks_scanElements (fuel : ℕ) : Shrinks (scanElements scan fuel) := by
  intro s r h
  induction fuel generalizing s r with
  | zero => cases h
  | succ fuel ih =>
    obtain ⟨r₁, hr₁, h⟩ := bind_eq_ok.1 h
    have hlt := hscan s r₁ hr₁
    have hspace := length_skipSpace_le r₁.2
    dsimp only at h
    split at h
    · rename_i t ht
      cases h
      rw [ht, List.length_cons] at hspace
      dsimp only
      omega
    · rename_i t ht
      obtain ⟨r₂, hr₂, h⟩ := bind_eq_ok.1 h
      have hlt₂ := ih _ r₂ hr₂
      have hspace₂ := length_skipSpace_le t
      cases h
      rw [ht, List.length_cons] at hspace
      dsimp only
      omega
    · cases h

private theorem shrinks_scanMembers (fuel : ℕ) : Shrinks (scanMembers scan fuel) := by
  intro s r h
  induction fuel generalizing s r with
  | zero => cases h
  | succ fuel ih =>
    unfold scanMembers at h
    split at h
    · rename_i t
      obtain ⟨⟨key, afterKey⟩, hkey, h⟩ := bind_eq_ok.1 h
      have hlt : afterKey.length < t.length := shrinks_scanString t _ hkey
      have hspace := length_skipSpace_le afterKey
      dsimp only at h
      split at h
      · rename_i u hu
        obtain ⟨⟨v, afterValue⟩, hv, h⟩ := bind_eq_ok.1 h
        have hlt₁ : afterValue.length < (skipSpace u).length := hscan _ _ hv
        have hspace₁ := length_skipSpace_le u
        have hspace₂ := length_skipSpace_le afterValue
        rw [hu, List.length_cons] at hspace
        dsimp only at h
        split at h
        · rename_i w hw
          cases h
          rw [hw, List.length_cons] at hspace₂
          simp only [List.length_cons]
          omega
        · rename_i w hw
          obtain ⟨⟨members, rest⟩, hrest, h⟩ := bind_eq_ok.1 h
          have hlt₂ : rest.length < (skipSpace w).length := ih _ _ hrest
          have hspace₃ := length_skipSpace_le w
          cases h
          rw [hw, List.length_cons] at hspace₂
          simp only [List.length_cons]
          omega
        · cases h
      · cases h
    · cases h

private theorem shrinks_scanArray : Shrinks (scanArray scan) := by
  intro s r h
  have hspace := length_skipSpace_le s
  unfold scanArray at h
  split at h
  · rename_i t ht
    cases h
    rw [ht, List.length_cons] at hspace
    exact hspace
  · obtain ⟨r', hr', rfl⟩ := map_eq_ok.1 h
    have hlt := shrinks_scanElements hscan _ _ r' hr'
    exact Nat.lt_of_lt_of_le hlt hspace

private theorem shrinks_scanObject : Shrinks (scanObject scan) := by
  intro s r h
  have hspace := length_skipSpace_le s
  unfold scanObject at h
  split at h
  · rename_i t ht
    cases h
    rw [ht, List.length_cons] at hspace
    exact hspace
  · obtain ⟨r', hr', rfl⟩ := map_eq_ok.1 h
    have hlt := shrinks_scanMembers hscan _ _ r' hr'
    exact Nat.lt_of_lt_of_le hlt hspace

/-- More fuel than there are characters does not change what is read. -/
private theorem scanElements_fuel (hempty : scan [] = .error .jsonDecodeError) {fuel fuel' : ℕ}
    {s : List CodePoint} (h : s.length ≤ fuel) (h' : s.length ≤ fuel') :
    scanElements scan fuel s = scanElements scan fuel' s := by
  have hnil : ∀ k, scanElements scan k [] = .error .jsonDecodeError := by
    intro k
    cases k with
    | zero => rfl
    | succ k =>
      rw [scanElements, hempty]
      rfl
  induction fuel generalizing fuel' s with
  | zero =>
    obtain rfl : s = [] := List.length_eq_zero_iff.1 (Nat.le_zero.1 h)
    rw [hnil, hnil]
  | succ fuel ih =>
    cases fuel' with
    | zero =>
      obtain rfl : s = [] := List.length_eq_zero_iff.1 (Nat.le_zero.1 h')
      rw [hnil, hnil]
    | succ fuel' =>
      rw [scanElements, scanElements]
      cases hs : scan s with
      | error e => rfl
      | ok r =>
        have hlt := hscan s r hs
        have hspace := length_skipSpace_le r.2
        simp only [bind, Except.bind]
        split
        · rfl
        · rename_i t ht
          have hspace' := length_skipSpace_le t
          rw [ht, List.length_cons] at hspace
          have hrest : scanElements scan fuel (skipSpace t) = scanElements scan fuel' (skipSpace t) :=
            ih (by omega) (by omega)
          rw [hrest]
        · rfl

private theorem scanMembers_fuel {fuel fuel' : ℕ} {s : List CodePoint} (h : s.length ≤ fuel)
    (h' : s.length ≤ fuel') : scanMembers scan fuel s = scanMembers scan fuel' s := by
  have hnil : ∀ k, scanMembers scan k [] = .error .jsonDecodeError := by
    intro k
    cases k <;> rfl
  induction fuel generalizing fuel' s with
  | zero =>
    obtain rfl : s = [] := List.length_eq_zero_iff.1 (Nat.le_zero.1 h)
    rw [hnil, hnil]
  | succ fuel ih =>
    cases fuel' with
    | zero =>
      obtain rfl : s = [] := List.length_eq_zero_iff.1 (Nat.le_zero.1 h')
      rw [hnil, hnil]
    | succ fuel' =>
      have hrest : ∀ t : List CodePoint, t.length < s.length →
          scanMembers scan fuel (skipSpace t) = scanMembers scan fuel' (skipSpace t) := by
        intro t ht
        have hspace := length_skipSpace_le t
        exact ih (by omega) (by omega)
      unfold scanMembers
      split
      · rename_i t
        cases hkey : scanString t with
        | error e => rfl
        | ok key =>
          have hlt := shrinks_scanString t key hkey
          have hspace := length_skipSpace_le key.2
          simp only [bind, Except.bind]
          split
          · rename_i u hu
            cases hv : scan (skipSpace u) with
            | error e => rfl
            | ok v =>
              have hlt₁ := hscan _ v hv
              have hspace₁ := length_skipSpace_le u
              have hspace₂ := length_skipSpace_le v.2
              rw [hu, List.length_cons] at hspace
              dsimp only
              split
              · rfl
              · rename_i w hw
                rw [hw, List.length_cons] at hspace₂
                rw [List.length_cons] at hrest
                rw [hrest w (by omega)]
              · rfl
          · rfl
      · rfl

end Containers

private theorem shrinks_scanValue {inner : Option (Scan Value)} (h : ∀ scan ∈ inner, Shrinks scan) :
    Shrinks (scanValue inner) := by
  intro s r hr
  unfold scanValue at hr
  split at hr
  · exact Nat.lt_trans (shrinks_map shrinks_scanString Value.str _ r hr) (Nat.lt_succ_self _)
  · split at hr
    · rename_i scan
      exact Nat.lt_trans (shrinks_scanObject (h scan rfl) _ r hr) (Nat.lt_succ_self _)
    · cases hr
  · split at hr
    · rename_i scan
      exact Nat.lt_trans (shrinks_scanArray (h scan rfl) _ r hr) (Nat.lt_succ_self _)
    · cases hr
  · split at hr
    · rename_i r' hr'
      cases hr
      exact shrinks_scanConstant hr'
    · exact shrinks_scanNumber s r hr

private theorem shrinks_scanOnce (depth : ℕ) : Shrinks (scanOnce depth) := by
  induction depth with
  | zero => exact shrinks_scanValue (fun _ h => by cases h)
  | succ depth ih =>
    refine shrinks_scanValue fun scan hscan => ?_
    obtain rfl := Option.some.inj hscan
    exact ih

/-- The fuel of an array and of an object, the length of the text, is enough. -/
theorem fuel_suffices (depth : ℕ) {fuel : ℕ} {s : List CodePoint} (h : s.length ≤ fuel) :
    scanElements (scanOnce depth) fuel s = scanElements (scanOnce depth) s.length s ∧
      scanMembers (scanOnce depth) fuel s = scanMembers (scanOnce depth) s.length s := by
  have hempty : scanOnce depth [] = .error .jsonDecodeError := by cases depth <;> rfl
  have hscan := shrinks_scanOnce depth
  exact ⟨scanElements_fuel hscan hempty h (Nat.le_refl _), scanMembers_fuel hscan h (Nat.le_refl _)⟩

/-! ### What is written is read back -/

private theorem hexValue_digitChar {d : ℕ} (hd : d < 16) : hexValue (.scalar (Nat.digitChar d)) = some d := by
  have hall : ∀ e : Fin 16, hexValue (.scalar (Nat.digitChar e)) = some e.val := by decide
  exact hall ⟨d, hd⟩

private theorem scanPieces_hex4 {n : ℕ} (hn : n < 0x10000) (rest : List CodePoint) :
    scanPieces (ofChars ('\\' :: 'u' :: hex4 n) ++ rest) =
      (scanPieces rest).map fun r => (.unit n :: r.1, r.2) := by
  have hunit : hexUnit (.scalar (Nat.digitChar (n / 0x1000 % 16))) (.scalar (Nat.digitChar (n / 0x100 % 16)))
      (.scalar (Nat.digitChar (n / 0x10 % 16))) (.scalar (Nat.digitChar (n % 16))) = some n := by
    have hlt : ∀ k, k % 16 < 16 := fun k => Nat.mod_lt k (by decide)
    unfold hexUnit
    rw [hexValue_digitChar (hlt _), hexValue_digitChar (hlt _), hexValue_digitChar (hlt _),
      hexValue_digitChar (hlt _)]
    show some _ = some n
    congr 1
    omega
  simp only [hex4, List.map_cons, List.map_nil, ofChars_cons, ofChars_nil, List.cons_append, List.nil_append,
    scanPieces, hunit]

private theorem scanPieces_units {ns : List ℕ} (hns : ∀ n ∈ ns, n < 0x10000) (rest : List CodePoint) :
    scanPieces (ofChars (ns.flatMap fun n => '\\' :: 'u' :: hex4 n) ++ rest) =
      (scanPieces rest).map fun r => (ns.map .unit ++ r.1, r.2) := by
  induction ns with
  | nil =>
    show scanPieces rest = (scanPieces rest).map id
    cases scanPieces rest <;> rfl
  | cons n ns ih =>
    have hn : n < 0x10000 := hns n (List.mem_cons_self ..)
    have hns' := ih fun m hm => hns m (List.mem_cons_of_mem _ hm)
    rw [List.flatMap_cons, ofChars_append, List.append_assoc, scanPieces_hex4 hn, hns']
    cases scanPieces rest <;> rfl

private theorem scanPieces_short {p : Char × Char} (hp : p ∈ shortEscapes) (rest : List CodePoint) :
    scanPieces (.scalar '\\' :: .scalar p.2 :: rest) =
      (scanPieces rest).map fun r => (.point (.scalar p.1) :: r.1, r.2) := by
  simp only [shortEscapes, List.mem_cons, List.not_mem_nil, or_false] at hp
  rcases hp with rfl | rfl | rfl | rfl | rfl | rfl | rfl <;> rfl

private theorem scanPieces_plain {c : Char} (hquote : c ≠ '"') (hbackslash : c ≠ '\\')
    (hc : 0x20 ≤ c.toNat) (rest : List CodePoint) :
    scanPieces (.scalar c :: rest) = (scanPieces rest).map fun r => (.point (.scalar c) :: r.1, r.2) := by
  have hcontrol : isControl (.scalar c) = false := by
    simp only [isControl, decide_eq_false_iff_not]
    omega
  rw [scanPieces]
  · rw [hcontrol, if_neg (by simp)]
  · exact fun h => hquote (CodePoint.scalar.inj h)
  · exact fun _ _ _ _ _ h => absurd (CodePoint.scalar.inj h) hbackslash
  · exact fun _ _ h => absurd (CodePoint.scalar.inj h) hbackslash

/-- What an escaped character is scanned as, and that it is joined to the character again -/
private theorem scanPieces_escapeChar (c : Char) :
    ∃ pieces, (∀ rest, scanPieces (ofChars (escapeChar c) ++ rest) =
        (scanPieces rest).map fun r => (pieces ++ r.1, r.2)) ∧
      ∀ others, joinPieces (pieces ++ others) = .scalar c :: joinPieces others := by
  unfold escapeChar
  cases hshort : shortEscapes.find? fun p => p.1 = c with
  | some p =>
    obtain rfl : p.1 = c := by simpa using List.find?_some hshort
    exact ⟨[.point (.scalar p.1)], scanPieces_short (List.mem_of_find?_eq_some hshort), fun _ => rfl⟩
  | none =>
    have hnone := List.find?_eq_none.1 hshort
    dsimp only
    by_cases hc : 0x20 ≤ c.toNat ∧ c.toNat ≤ 0x7E
    · rw [if_pos hc]
      have hquote : c ≠ '"' := fun h => hnone ('"', '"') (by simp [shortEscapes]) (by simp [h])
      have hbackslash : c ≠ '\\' := fun h => hnone ('\\', '\\') (by simp [shortEscapes]) (by simp [h])
      exact ⟨[.point (.scalar c)], scanPieces_plain hquote hbackslash hc.1, fun _ => rfl⟩
    · rw [if_neg hc]
      exact ⟨_, scanPieces_units (unitsOf_lt c), joinPieces_unitsOf c⟩

private theorem scanString_flatMap (s : List Char) (rest : List CodePoint) :
    scanString (ofChars (s.flatMap escapeChar) ++ .scalar '"' :: rest) = .ok (ofChars s, rest) := by
  have h : ∃ pieces, scanPieces (ofChars (s.flatMap escapeChar) ++ .scalar '"' :: rest) = .ok (pieces, rest) ∧
      joinPieces pieces = ofChars s := by
    induction s with
    | nil => exact ⟨[], rfl, rfl⟩
    | cons c s ih =>
      obtain ⟨others, hothers, hjoin⟩ := ih
      obtain ⟨pieces, hpieces, hjoinPieces⟩ := scanPieces_escapeChar c
      refine ⟨pieces ++ others, ?_, ?_⟩
      · rw [List.flatMap_cons, ofChars_append, List.append_assoc, hpieces, hothers]
        rfl
      · rw [hjoinPieces, hjoin, ofChars_cons]
  obtain ⟨pieces, hpieces, hjoin⟩ := h
  rw [scanString, hpieces, ← hjoin]
  rfl

theorem scanString_dumpsString (s : List Char) (rest : List CodePoint) :
    ∃ t, ofChars (dumpsString s) ++ rest = .scalar '"' :: t ∧ scanString t = .ok (ofChars s, rest) := by
  refine ⟨ofChars (s.flatMap escapeChar) ++ .scalar '"' :: rest, ?_, scanString_flatMap s rest⟩
  simp [dumpsString]

/-- A string as a value -/
theorem scanOnce_dumpsString (depth : ℕ) (s : List Char) (rest : List CodePoint) :
    scanOnce depth (ofChars (dumpsString s) ++ rest) = .ok (.str (ofChars s), rest) := by
  obtain ⟨t, ht, hscan⟩ := scanString_dumpsString s rest
  cases depth <;> simp only [scanOnce, scanValue, ht, hscan] <;> rfl

/-- The member that an object of strings begins with -/
private theorem scanMembers_dumpsMember (depth fuel : ℕ) (p : List Char × List Char) (rest : List CodePoint) :
    scanMembers (scanOnce depth) (fuel + 1) (ofChars (dumpsMember p) ++ rest) =
      match skipSpace rest with
      | .scalar '}' :: s => .ok ([(ofChars p.1, .str (ofChars p.2))], s)
      | .scalar ',' :: s =>
        (scanMembers (scanOnce depth) fuel (skipSpace s)).bind fun r =>
          .ok ((ofChars p.1, .str (ofChars p.2)) :: r.1, r.2)
      | _ => .error .jsonDecodeError := by
  obtain ⟨t, ht, hkey⟩ := scanString_dumpsString p.1 (ofChars (':' :: ' ' :: dumpsString p.2) ++ rest)
  have hvalue : scanOnce depth (ofChars (dumpsString p.2) ++ rest) = .ok (.str (ofChars p.2), rest) :=
    scanOnce_dumpsString depth p.2 rest
  have htext : ofChars (dumpsMember p) ++ rest = .scalar '"' :: t := by
    rw [← ht, dumpsMember, ofChars_append, List.append_assoc]
  have hcolon : skipSpace (ofChars (':' :: ' ' :: dumpsString p.2) ++ rest) =
      .scalar ':' :: (ofChars (' ' :: dumpsString p.2) ++ rest) := rfl
  have hspace : skipSpace (ofChars (' ' :: dumpsString p.2) ++ rest) = ofChars (dumpsString p.2) ++ rest := by
    obtain ⟨u, hu, -⟩ := scanString_dumpsString p.2 rest
    rw [ofChars_cons, List.cons_append, hu]
    rfl
  rw [htext, scanMembers]
  simp only [hkey, hcolon, hspace, hvalue, bind, Except.bind]
  rfl

private theorem intercalate_dumpsMember (p : List Char × List Char) (members : List (List Char × List Char)) :
    ∃ t, [',', ' '].intercalate ((p :: members).map dumpsMember) = '"' :: t := by
  cases members with
  | nil => exact ⟨_, List.intercalate_singleton⟩
  | cons q members => exact ⟨_, List.intercalate_cons_cons⟩

private theorem scanMembers_dumps (depth : ℕ) (p : List Char × List Char)
    (members : List (List Char × List Char)) {fuel : ℕ} (hfuel : members.length < fuel)
    (rest : List CodePoint) :
    scanMembers (scanOnce depth) fuel
        (ofChars ([',', ' '].intercalate ((p :: members).map dumpsMember)) ++ .scalar '}' :: rest) =
      .ok ((p :: members).map fun q => (ofChars q.1, .str (ofChars q.2)), rest) := by
  induction members generalizing p fuel with
  | nil =>
    obtain ⟨fuel, rfl⟩ : ∃ k, fuel = k + 1 := ⟨fuel - 1, by omega⟩
    rw [List.map_singleton, List.intercalate_singleton, scanMembers_dumpsMember]
    rfl
  | cons q members ih =>
    obtain ⟨fuel, rfl⟩ : ∃ k, fuel = k + 1 := ⟨fuel - 1, by omega⟩
    have hfuel' : members.length < fuel := Nat.lt_of_succ_lt_succ hfuel
    have hrest := ih q hfuel'
    obtain ⟨t, ht⟩ := intercalate_dumpsMember q members
    rw [ht] at hrest
    rw [List.map_cons, List.map_cons, List.intercalate_cons_cons, ← List.map_cons, ht, List.append_assoc,
      ofChars_append, List.append_assoc, scanMembers_dumpsMember]
    show (scanMembers (scanOnce depth) fuel (ofChars ('"' :: t) ++ .scalar '}' :: rest)).bind _ = _
    rw [hrest]
    rfl

private theorem length_le_intercalate (members : List (List Char × List Char)) :
    members.length ≤ ([',', ' '].intercalate (members.map dumpsMember)).length := by
  induction members with
  | nil => exact Nat.zero_le _
  | cons p members ih =>
    cases members with
    | nil =>
      rw [List.map_singleton, List.intercalate_singleton]
      simp only [dumpsMember, List.length_append, List.length_cons, List.length_nil]
      omega
    | cons q members =>
      rw [List.map_cons, List.map_cons, List.intercalate_cons_cons, ← List.map_cons]
      simp only [List.length_append, List.length_cons] at ih ⊢
      omega

/-- A `dict` of strings that is written is read as the object with its members. -/
theorem loads_dumpsObject (depth : ℕ) (members : List (List Char × List Char)) :
    loads (depth + 1) (ofChars (dumpsObject members)) =
      .ok (.obj (members.map fun p => (ofChars p.1, .str (ofChars p.2)))) := by
  have hscan : scanObject (scanOnce depth)
      (ofChars ([',', ' '].intercalate (members.map dumpsMember) ++ ['}'])) =
      .ok (.obj (members.map fun p => (ofChars p.1, .str (ofChars p.2))), []) := by
    cases members with
    | nil => rfl
    | cons p members =>
      obtain ⟨t, ht⟩ := intercalate_dumpsMember p members
      have hlength := length_le_intercalate (p :: members)
      have hfuel : members.length < ('"' :: t ++ ['}']).length := by
        rw [ht] at hlength
        simp only [List.length_append, List.length_cons] at hlength ⊢
        omega
      have hmembers := scanMembers_dumps depth p members hfuel []
      rw [ht] at hmembers ⊢
      rw [ofChars_append]
      show (scanMembers (scanOnce depth) (ofChars ('"' :: t) ++ ofChars ['}']).length
        (ofChars ('"' :: t) ++ ofChars ['}'])).map _ = _
      rw [← ofChars_append, length_ofChars, ofChars_append, ofChars_cons '}', ofChars_nil, hmembers]
      rfl
  have honce : scanOnce (depth + 1) (ofChars (dumpsObject members)) =
      scanObject (scanOnce depth) (ofChars ([',', ' '].intercalate (members.map dumpsMember) ++ ['}'])) := rfl
  have hspace : skipSpace (ofChars (dumpsObject members)) = ofChars (dumpsObject members) := rfl
  have hmark : (ofChars (dumpsObject members)).head? ≠ some (.scalar '\uFEFF') := by
    show some (CodePoint.scalar '{') ≠ _
    decide
  rw [loads, if_neg hmark, decode, hspace, honce, hscan]
  rfl

private theorem detectEncoding_brace {b : UInt8} (hb : b ≠ 0) (bytes : List UInt8) :
    detectEncoding (0x7B :: b :: bytes) = (.utf8, 0) := by
  match bytes with
  | [] => exact if_neg hb
  | [c] => rfl
  | c :: d :: bytes => exact if_neg hb

/-- A `dict` of strings that is written and encoded is read as the object with its members. -/
theorem loadsBytes_dumpsObject (depth : ℕ) (members : List (List Char × List Char)) :
    loadsBytes (depth + 1) (encodeUtf8 (dumpsObject members)) =
      .ok (.obj (members.map fun p => (ofChars p.1, .str (ofChars p.2)))) := by
  have hencoding : detectEncoding (encodeUtf8 (dumpsObject members)) = (.utf8, 0) := by
    cases members with
    | nil => rfl
    | cons p members =>
      obtain ⟨t, ht⟩ := intercalate_dumpsMember p members
      rw [dumpsObject, ht]
      exact detectEncoding_brace (by decide) _
  have hloads := loads_dumpsObject depth members
  have hmark : (ofChars (dumpsObject members)).head? ≠ some (.scalar '\uFEFF') := by
    show some (CodePoint.scalar '{') ≠ _
    decide
  rw [loads, if_neg hmark] at hloads
  unfold loadsBytes
  rw [hencoding]
  dsimp only
  rw [List.drop_zero, Unicode.decode, decodeUtf8_encodeUtf8]
  exact hloads

end JsonText
