import Mathlib.Data.List.Basic

/-!
# Code points and their encodings

A string of Python is a list of code points, those that are reserved for surrogates included.  UTF-8, UTF-16
and UTF-32 are decoded as with the error handler `surrogatepass`: an encoded surrogate is a code point like
any other, but in UTF-16 a high surrogate that a low one follows is joined with it.  A text without surrogates
that is encoded as UTF-8 is read back (`decodeUtf8_encodeUtf8`).
-/

namespace Unicode

/-! ### Code points -/

inductive CodePoint where
  | scalar (c : Char)
  | surrogate (u : Fin 0x800)
  deriving DecidableEq

/-- The code point `n`, at most 0x10FFFF -/
def CodePoint.ofNat (n : ℕ) : CodePoint :=
  if 0xD800 ≤ n ∧ n < 0xE000 then .surrogate (Fin.ofNat 0x800 (n - 0xD800)) else .scalar (Char.ofNat n)

/-- The code points of a text without surrogates -/
def ofChars (s : List Char) : List CodePoint := s.map .scalar

@[simp] theorem ofChars_nil : ofChars [] = [] := rfl

@[simp] theorem ofChars_cons (c : Char) (s : List Char) : ofChars (c :: s) = .scalar c :: ofChars s := rfl

@[simp] theorem ofChars_append (s t : List Char) : ofChars (s ++ t) = ofChars s ++ ofChars t :=
  List.map_append

@[simp] theorem length_ofChars (s : List Char) : (ofChars s).length = s.length := List.length_map _

/-- The characters of a text; `none` if it holds a surrogate -/
def toChars : List CodePoint → Option (List Char)
  | [] => some []
  | .scalar c :: s => (toChars s).map (c :: ·)
  | .surrogate _ :: _ => none

theorem toChars_eq_some {s : List CodePoint} {t : List Char} : toChars s = some t ↔ s = ofChars t := by
  induction s generalizing t with
  | nil => simp [toChars, ofChars, eq_comm]
  | cons p s ih =>
    cases p with
    | surrogate u => cases t <;> simp [toChars]
    | scalar c =>
      cases t with
      | nil => simp [toChars]
      | cons d t => simp [toChars, ih, and_comm]

@[simp] theorem toChars_ofChars (s : List Char) : toChars (ofChars s) = some s := toChars_eq_some.2 rfl

theorem ofChars_injective : Function.Injective ofChars := by
  intro s t h
  have htoChars : some s = some t := by rw [← toChars_ofChars s, h, toChars_ofChars]
  exact Option.some.inj htoChars

/-! ### UTF-16 units -/

def isHighSurrogate (n : ℕ) : Bool := 0xD800 ≤ n && n < 0xDC00

def isLowSurrogate (n : ℕ) : Bool := 0xDC00 ≤ n && n < 0xE000

def joinSurrogates (high low : ℕ) : ℕ := 0x10000 + (high - 0xD800) * 0x400 + (low - 0xDC00)

theorem isHighSurrogate_eq_true {n : ℕ} : isHighSurrogate n = true ↔ 0xD800 ≤ n ∧ n < 0xDC00 := by
  rw [isHighSurrogate, Bool.and_eq_true, decide_eq_true_iff, decide_eq_true_iff]

theorem isLowSurrogate_eq_true {n : ℕ} : isLowSurrogate n = true ↔ 0xDC00 ≤ n ∧ n < 0xE000 := by
  rw [isLowSurrogate, Bool.and_eq_true, decide_eq_true_iff, decide_eq_true_iff]

/-- A part of a string: a code point, or a UTF-16 unit. -/
inductive Piece where
  | point (c : CodePoint)
  | unit (n : ℕ)
  deriving DecidableEq

/-- Two units that stand next to each other and are a surrogate pair become one code point. -/
def joinPieces : List Piece → List CodePoint
  | .unit high :: .unit low :: pieces =>
    if isHighSurrogate high && isLowSurrogate low then
      .ofNat (joinSurrogates high low) :: joinPieces pieces
    else .ofNat high :: joinPieces (.unit low :: pieces)
  | .unit n :: pieces => .ofNat n :: joinPieces pieces
  | .point c :: pieces => c :: joinPieces pieces
  | [] => []

/-- The units of a character -/
def unitsOf (c : Char) : List ℕ :=
  if c.toNat < 0x10000 then [c.toNat]
  else [0xD800 + (c.toNat - 0x10000) / 0x400, 0xDC00 + (c.toNat - 0x10000) % 0x400]

theorem CodePoint.ofNat_toNat (c : Char) : CodePoint.ofNat c.toNat = .scalar c := by
  have hvalid : c.toNat < 0xD800 ∨ 0xDFFF < c.toNat ∧ c.toNat < 0x110000 := c.valid
  unfold CodePoint.ofNat
  rw [if_neg (by omega), Char.ofNat_toNat]

private theorem joinPieces_unit {n : ℕ} (hn : isHighSurrogate n = false) (pieces : List Piece) :
    joinPieces (.unit n :: pieces) = .ofNat n :: joinPieces pieces := by
  match pieces with
  | [] => rfl
  | .point c :: pieces => rfl
  | .unit low :: pieces =>
    rw [joinPieces, hn, Bool.false_and, if_neg (by simp)]

/-- The unit of a character that has only one is no surrogate. -/
theorem not_surrogate_of_lt {c : Char} (hc : c.toNat < 0x10000) :
    ¬ isHighSurrogate c.toNat = true ∧ ¬ isLowSurrogate c.toNat = true := by
  have hvalid : c.toNat < 0xD800 ∨ 0xDFFF < c.toNat ∧ c.toNat < 0x110000 := c.valid
  rw [isHighSurrogate_eq_true, isLowSurrogate_eq_true]
  omega

/-- The two units of any other character are a surrogate pair that is joined to it. -/
theorem surrogates_of_not_lt {c : Char} (hc : ¬ c.toNat < 0x10000) :
    isHighSurrogate (0xD800 + (c.toNat - 0x10000) / 0x400) = true ∧
      isLowSurrogate (0xDC00 + (c.toNat - 0x10000) % 0x400) = true ∧
      joinSurrogates (0xD800 + (c.toNat - 0x10000) / 0x400) (0xDC00 + (c.toNat - 0x10000) % 0x400) =
        c.toNat := by
  have hvalid : c.toNat < 0xD800 ∨ 0xDFFF < c.toNat ∧ c.toNat < 0x110000 := c.valid
  refine ⟨isHighSurrogate_eq_true.2 ?_, isLowSurrogate_eq_true.2 ?_, ?_⟩
  · omega
  · omega
  · unfold joinSurrogates
    omega

theorem unitsOf_lt (c : Char) : ∀ n ∈ unitsOf c, n < 0x10000 := by
  have hvalid : c.toNat < 0xD800 ∨ 0xDFFF < c.toNat ∧ c.toNat < 0x110000 := c.valid
  unfold unitsOf
  split
  · simpa
  · simp only [List.forall_mem_cons, List.not_mem_nil, false_implies, implies_true, and_true]
    omega

/-- The units of a character are joined to it, whatever follows. -/
theorem joinPieces_unitsOf (c : Char) (pieces : List Piece) :
    joinPieces ((unitsOf c).map .unit ++ pieces) = .scalar c :: joinPieces pieces := by
  unfold unitsOf
  by_cases hc : c.toNat < 0x10000
  · have hhigh : isHighSurrogate c.toNat = false := Bool.eq_false_iff.2 (not_surrogate_of_lt hc).1
    rw [if_pos hc, List.map_singleton, List.singleton_append, joinPieces_unit hhigh, CodePoint.ofNat_toNat]
  · obtain ⟨hhigh, hlow, hjoin⟩ := surrogates_of_not_lt hc
    rw [if_neg hc]
    simp only [List.map_cons, List.map_nil, List.cons_append, List.nil_append, joinPieces, hhigh, hlow,
      hjoin, Bool.and_self, if_true, CodePoint.ofNat_toNat]

/-! ### Encodings -/

inductive Encoding where
  | utf8
  | utf16 (bigEndian : Bool)
  | utf32 (bigEndian : Bool)
  deriving DecidableEq

def isContinuation (b : UInt8) : Bool := 0x80 ≤ b && b < 0xC0

/-- The low six bits of a continuation byte -/
def tail (b : UInt8) : ℕ := b.toNat - 0x80

/-- `none` is a `UnicodeDecodeError`. -/
def decodeUtf8 : List UInt8 → Option (List CodePoint)
  | [] => some []
  | a :: bytes =>
    if a < 0x80 then (decodeUtf8 bytes).map (.ofNat a.toNat :: ·)
    else if 0xC2 ≤ a && a < 0xE0 then
      match bytes with
      | b :: bytes =>
        if isContinuation b then (decodeUtf8 bytes).map (.ofNat ((a.toNat - 0xC0) * 0x40 + tail b) :: ·)
        else none
      | [] => none
    else if 0xE0 ≤ a && a < 0xF0 then
      match bytes with
      | b :: c :: bytes =>
        let n := (a.toNat - 0xE0) * 0x1000 + tail b * 0x40 + tail c
        if isContinuation b && isContinuation c && 0x800 ≤ n then (decodeUtf8 bytes).map (.ofNat n :: ·)
        else none
      | _ => none
    else if 0xF0 ≤ a && a < 0xF5 then
      match bytes with
      | b :: c :: d :: bytes =>
        let n := (a.toNat - 0xF0) * 0x40000 + tail b * 0x1000 + tail c * 0x40 + tail d
        if isContinuation b && isContinuation c && isContinuation d && 0x10000 ≤ n && n < 0x110000 then
          (decodeUtf8 bytes).map (.ofNat n :: ·)
        else none
      | _ => none
    else none

/-- The number of bytes, in the order of the encoding -/
def ofBytes (bigEndian : Bool) (bytes : List UInt8) : ℕ :=
  (if bigEndian then bytes else bytes.reverse).foldl (fun n b => n * 0x100 + b.toNat) 0

def decodeUtf16 (bigEndian : Bool) (bytes : List UInt8) : Option (List CodePoint) :=
  (units bytes).map fun ns => joinPieces (ns.map .unit)
where
  units : List UInt8 → Option (List ℕ)
    | [] => some []
    | [_] => none
    | a :: b :: bytes => (units bytes).map (ofBytes bigEndian [a, b] :: ·)

def decodeUtf32 (bigEndian : Bool) : List UInt8 → Option (List CodePoint)
  | [] => some []
  | a :: b :: c :: d :: bytes =>
    let n := ofBytes bigEndian [a, b, c, d]
    if n < 0x110000 then (decodeUtf32 bigEndian bytes).map (.ofNat n :: ·) else none
  | _ => none

def decode : Encoding → List UInt8 → Option (List CodePoint)
  | .utf8, bytes => decodeUtf8 bytes
  | .utf16 bigEndian, bytes => decodeUtf16 bigEndian bytes
  | .utf32 bigEndian, bytes => decodeUtf32 bigEndian bytes

example : decode .utf8 [0x6B, 0xC3, 0xA4, 0xED, 0xA0, 0x80] =
    some [.scalar 'k', .scalar 'ä', .surrogate 0] := by decide

example : decode (.utf16 false) [0x3D, 0xD8, 0x00, 0xDE, 0x00, 0xD8] =
    some [.scalar '😀', .surrogate 0] := by decide

/-! ### Encoding -/

/-- The bytes of the code point `n`, which is no surrogate -/
def utf8Bytes (n : ℕ) : List UInt8 :=
  if n < 0x80 then [.ofNat n]
  else if n < 0x800 then [.ofNat (0xC0 + n / 0x40), .ofNat (0x80 + n % 0x40)]
  else if n < 0x10000 then
    [.ofNat (0xE0 + n / 0x1000), .ofNat (0x80 + n / 0x40 % 0x40), .ofNat (0x80 + n % 0x40)]
  else [.ofNat (0xF0 + n / 0x40000), .ofNat (0x80 + n / 0x1000 % 0x40), .ofNat (0x80 + n / 0x40 % 0x40),
    .ofNat (0x80 + n % 0x40)]

/-- `str.encode("utf-8")` -/
def encodeUtf8 (s : List Char) : List UInt8 := s.flatMap fun c => utf8Bytes c.toNat

private theorem toNat_byte {n : ℕ} (hn : n < 0x100) : (UInt8.ofNat n).toNat = n := UInt8.toNat_ofNat_of_lt' hn

/-- A byte between two bounds, as the decoder asks for it -/
private theorem byte_between {n l h : ℕ} {low high : UInt8} (hlow : low.toNat = l) (hhigh : high.toNat = h)
    (hl : l ≤ n) (hh : n < h) : (low ≤ .ofNat n && .ofNat n < high) = true := by
  have hn : n < 0x100 := Nat.lt_trans hh (hhigh ▸ high.toNat_lt)
  rw [Bool.and_eq_true, decide_eq_true_eq, decide_eq_true_eq, UInt8.le_iff_toNat_le, UInt8.lt_iff_toNat_lt,
    toNat_byte hn, hlow, hhigh]
  exact ⟨hl, hh⟩

private theorem byte_not_between {n h : ℕ} {low high : UInt8} (hn : n < 0x100) (hhigh : high.toNat = h)
    (hh : h ≤ n) : (low ≤ .ofNat n && .ofNat n < high) = false := by
  rw [Bool.and_eq_false_iff, decide_eq_false_iff_not, decide_eq_false_iff_not, UInt8.lt_iff_toNat_lt,
    toNat_byte hn, hhigh]
  exact Or.inr (Nat.not_lt.2 hh)

private theorem byte_not_lt {n h : ℕ} {high : UInt8} (hn : n < 0x100) (hhigh : high.toNat = h) (hh : h ≤ n) :
    ¬ UInt8.ofNat n < high := by
  rw [UInt8.lt_iff_toNat_lt, toNat_byte hn, hhigh]
  exact Nat.not_lt.2 hh

/-- A continuation byte and its low bits -/
private theorem continuation_byte {n : ℕ} (hn : n < 0x40) :
    isContinuation (.ofNat (0x80 + n)) = true ∧ tail (.ofNat (0x80 + n)) = n := by
  have hbetween : (0x80 ≤ UInt8.ofNat (0x80 + n) && UInt8.ofNat (0x80 + n) < 0xC0) = true :=
    byte_between (l := 0x80) (h := 0xC0) rfl rfl (by omega) (by omega)
  have htail : (UInt8.ofNat (0x80 + n)).toNat - 0x80 = n := by
    rw [toNat_byte (by omega), Nat.add_sub_cancel_left]
  exact ⟨hbetween, htail⟩

/-- The bytes of a character are read as this character, whatever follows. -/
private theorem decodeUtf8_utf8Bytes (c : Char) (bytes : List UInt8) :
    decodeUtf8 (utf8Bytes c.toNat ++ bytes) = (decodeUtf8 bytes).map (.scalar c :: ·) := by
  have hvalid : c.toNat < 0xD800 ∨ 0xDFFF < c.toNat ∧ c.toNat < 0x110000 := c.valid
  have hpoint := CodePoint.ofNat_toNat c
  generalize c.toNat = n at hvalid hpoint
  obtain ⟨hlast, htail⟩ := continuation_byte (Nat.mod_lt n (by decide : 0 < 0x40))
  obtain ⟨hmid, hmidtail⟩ := continuation_byte (Nat.mod_lt (n / 0x40) (by decide : 0 < 0x40))
  obtain ⟨hfirst, hfirsttail⟩ := continuation_byte (Nat.mod_lt (n / 0x1000) (by decide : 0 < 0x40))
  unfold utf8Bytes
  by_cases hone : n < 0x80
  · have hlt : UInt8.ofNat n < 0x80 := by
      rw [UInt8.lt_iff_toNat_lt, toNat_byte (by omega)]
      exact hone
    rw [if_pos hone, List.singleton_append, decodeUtf8.eq_def]
    dsimp only
    rw [if_pos hlt, toNat_byte (by omega), hpoint]
  by_cases htwo : n < 0x800
  · have hbyte : 0xC0 + n / 0x40 < 0x100 := by omega
    have hsum : (0xC0 + n / 0x40 - 0xC0) * 0x40 + n % 0x40 = n := by omega
    rw [if_neg hone, if_pos htwo, List.cons_append, List.singleton_append, decodeUtf8.eq_def]
    dsimp only
    rw [if_neg (byte_not_lt (h := 0x80) hbyte rfl (by omega)),
      if_pos (byte_between (l := 0xC2) (h := 0xE0) rfl rfl (by omega) (by omega)), if_pos hlast, toNat_byte hbyte, htail, hsum, hpoint]
  by_cases hthree : n < 0x10000
  · have hbyte : 0xE0 + n / 0x1000 < 0x100 := by omega
    have hsum : (0xE0 + n / 0x1000 - 0xE0) * 0x1000 + n / 0x40 % 0x40 * 0x40 + n % 0x40 = n := by omega
    have hrange : decide (0x800 ≤ n) = true := decide_eq_true (by omega)
    rw [if_neg hone, if_neg htwo, if_pos hthree, List.cons_append, List.cons_append, List.singleton_append,
      decodeUtf8.eq_def]
    dsimp only
    rw [if_neg (byte_not_lt (h := 0x80) hbyte rfl (by omega)),
      byte_not_between (h := 0xE0) hbyte rfl (by omega), if_neg Bool.false_ne_true,
      if_pos (byte_between (l := 0xE0) (h := 0xF0) rfl rfl (by omega) (by omega)), hmid, hlast, toNat_byte hbyte, hmidtail, htail, hsum, hrange, if_pos (by rfl), hpoint]
  · have hbyte : 0xF0 + n / 0x40000 < 0x100 := by omega
    have hsum : (0xF0 + n / 0x40000 - 0xF0) * 0x40000 + n / 0x1000 % 0x40 * 0x1000 + n / 0x40 % 0x40 * 0x40 +
        n % 0x40 = n := by omega
    have hrange : decide (0x10000 ≤ n) = true := decide_eq_true (by omega)
    have hrange' : decide (n < 0x110000) = true := decide_eq_true (by omega)
    rw [if_neg hone, if_neg htwo, if_neg hthree, List.cons_append, List.cons_append, List.cons_append,
      List.singleton_append, decodeUtf8.eq_def]
    dsimp only
    rw [if_neg (byte_not_lt (h := 0x80) hbyte rfl (by omega)),
      byte_not_between (h := 0xE0) hbyte rfl (by omega), if_neg Bool.false_ne_true,
      byte_not_between (h := 0xF0) hbyte rfl (by omega), if_neg Bool.false_ne_true,
      if_pos (byte_between (l := 0xF0) (h := 0xF5) rfl rfl (by omega) (by omega)), hfirst, hmid, hlast,
      toNat_byte hbyte, hfirsttail, hmidtail, htail, hsum, hrange, hrange', if_pos (by rfl), hpoint]

/-- What is encoded is decoded. -/
theorem decodeUtf8_encodeUtf8 (s : List Char) : decodeUtf8 (encodeUtf8 s) = some (ofChars s) := by
  induction s with
  | nil => rfl
  | cons c s ih =>
    rw [encodeUtf8, List.flatMap_cons, decodeUtf8_utf8Bytes, ← encodeUtf8, ih]
    rfl

end Unicode
