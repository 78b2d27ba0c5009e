/-
Text as it comes in: Unicode scalars, with every byte that belongs to no well-formed UTF-8 sequence kept as it is. A
pattern is read through `Text.chars`, where such a byte is one replacement character, and is shown again through
`Text.bytes`, where it is itself; so nothing is lost between reading and showing.
-/

namespace MatcherGen

/-- one unit of text: a scalar, or a byte outside every well-formed sequence -/
inductive Glyph where
  | scalar (c : Char)
  | stray (b : UInt8)
deriving DecidableEq, Repr

/-- text that may hold stray bytes -/
abbrev Text := List Glyph

/-- U+FFFD, what a stray byte reads as -/
def replacementChar : Char := '�'

/-- the character a glyph reads as -/
def Glyph.char : Glyph → Char
  | .scalar c => c
  | .stray _ => replacementChar

/-- the bytes of a scalar in UTF-8 -/
def utf8Bytes (c : Char) : List UInt8 :=
  let n := c.toNat
  let tail (k : Nat) : UInt8 := (0x80 + n / Nat.pow 64 k % 64).toUInt8
  if n < 0x80 then [n.toUInt8]
  else if n < 0x800 then [(0xc0 + n / 64).toUInt8, tail 0]
  else if n < 0x10000 then [(0xe0 + n / 4096).toUInt8, tail 1, tail 0]
  else [(0xf0 + n / 262144).toUInt8, tail 2, tail 1, tail 0]

/-- the bytes of a glyph -/
def Glyph.bytes : Glyph → List UInt8
  | .scalar c => utf8Bytes c
  | .stray b => [b]

/-- a byte that continues a sequence -/
def isTailByte (b : UInt8) : Bool := 0x80 ≤ b && b ≤ 0xbf

/-- the scalar spelled by two bytes -/
def twoByteScalar (a b : UInt8) : Option Char :=
  if 0xc2 ≤ a && a ≤ 0xdf && isTailByte b then some (Char.ofNat ((a.toNat - 0xc0) * 64 + (b.toNat - 0x80))) else none

/-- the scalar spelled by three bytes: neither overlong nor a surrogate -/
def threeByteScalar (a b c : UInt8) : Option Char :=
  let n := (a.toNat - 0xe0) * 4096 + (b.toNat - 0x80) * 64 + (c.toNat - 0x80)
  if 0xe0 ≤ a && a ≤ 0xef && isTailByte b && isTailByte c && 0x800 ≤ n && !(0xd800 ≤ n && n ≤ 0xdfff) then
    some (Char.ofNat n)
  else none

/-- the scalar spelled by four bytes: neither overlong nor above U+10FFFF -/
def fourByteScalar (a b c d : UInt8) : Option Char :=
  let n := (a.toNat - 0xf0) * 262144 + (b.toNat - 0x80) * 4096 + (c.toNat - 0x80) * 64 + (d.toNat - 0x80)
  if 0xf0 ≤ a && a ≤ 0xf4 && isTailByte b && isTailByte c && isTailByte d && 0x10000 ≤ n && n ≤ 0x10ffff then
    some (Char.ofNat n)
  else none

/-- the scalar at the front of `a :: rest`, with the number of bytes of `rest` it takes -/
def scalarAt (a : UInt8) (rest : List UInt8) : Option (Char × Nat) :=
  if a < 0x80 then some (Char.ofNat a.toNat, 0)
  else
    match rest with
    | b :: c :: d :: _ =>
      ((twoByteScalar a b).map (·, 1)).orElse fun _ =>
        ((threeByteScalar a b c).map (·, 2)).orElse fun _ => (fourByteScalar a b c d).map (·, 3)
    | [b, c] => ((twoByteScalar a b).map (·, 1)).orElse fun _ => (threeByteScalar a b c).map (·, 2)
    | [b] => (twoByteScalar a b).map (·, 1)
    | [] => none

namespace Text

/-- text without stray bytes -/
def ofChars (s : List Char) : Text := s.map .scalar

/-- text without stray bytes, from a string -/
def ofString (s : String) : Text := ofChars s.toList

/-- decode bytes, skipping those that the last scalar took -/
def ofBytesSkipping : Nat → List UInt8 → Text
  | _, [] => []
  | skip + 1, _ :: r => ofBytesSkipping skip r
  | 0, a :: r =>
    match scalarAt a r with
    | some (c, n) => .scalar c :: ofBytesSkipping n r
    | none => .stray a :: ofBytesSkipping 0 r

/-- decode bytes as UTF-8; a byte that starts no well-formed sequence is stray -/
def ofBytes (bs : List UInt8) : Text := ofBytesSkipping 0 bs

/-- the characters a reader sees: a stray byte reads as U+FFFD -/
def chars (t : Text) : List Char := t.map Glyph.char

/-- the bytes of the text -/
def bytes (t : Text) : List UInt8 := t.flatMap Glyph.bytes

/-- the text as characters, if it has no stray byte -/
def chars? : Text → Option (List Char)
  | [] => some []
  | .scalar c :: r => (chars? r).map (c :: ·)
  | .stray _ :: _ => none

@[simp] theorem chars_ofChars (s : List Char) : (ofChars s).chars = s := by
  simp [chars, ofChars, Glyph.char, Function.comp_def]

@[simp] theorem chars?_ofChars (s : List Char) : (ofChars s).chars? = some s := by
  induction s with
  | nil => rfl
  | cons c r ih => simpa [ofChars, chars?] using ih

@[simp] theorem chars_append (s t : Text) : (s ++ t : Text).chars = s.chars ++ t.chars := List.map_append

theorem ofChars_append (s t : List Char) : ofChars (s ++ t) = ofChars s ++ ofChars t := List.map_append

theorem length_chars (t : Text) : t.chars.length = t.length := by simp [chars]

end Text

end MatcherGen
