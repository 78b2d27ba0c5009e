/-
Quoted text: characters, strings and numbers as they are written in generated code, in messages and in dumps. Printable
characters stand for themselves; the quote and the backslash take a backslash; the rest is escaped by name or by number.
-/
import MatcherGen.Text.Glyph
import MatcherGen.Text.Printable

namespace MatcherGen

/-- one hexadecimal digit, lower case -/
def hexDigit (n : Nat) : Char :=
  if n < 10 then Char.ofNat (0x30 + n) else Char.ofNat (0x57 + n)

/-- the last `width` hexadecimal digits of `n` -/
def hexDigits : Nat → Nat → List Char
  | 0, _ => []
  | width + 1, n => hexDigits width (n / 16) ++ [hexDigit (n % 16)]

/-- the letter that names a control character after a backslash -/
def controlName : Char → Option Char
  | '\x07' => some 'a'
  | '\x08' => some 'b'
  | '\x0c' => some 'f'
  | '\n' => some 'n'
  | '\r' => some 'r'
  | '\t' => some 't'
  | '\x0b' => some 'v'
  | _ => none

/-- `c` inside text delimited by `quote` -/
def escapeChar (quote c : Char) : List Char :=
  if c == quote || c == '\\' then ['\\', c]
  else if isPrintable c then [c]
  else
    match controlName c with
    | some name => ['\\', name]
    | none =>
      if c.toNat < 0x20 || c.toNat == 0x7f then '\\' :: 'x' :: hexDigits 2 c.toNat
      else if c.toNat < 0x10000 then '\\' :: 'u' :: hexDigits 4 c.toNat
      else '\\' :: 'U' :: hexDigits 8 c.toNat

/-- `s` in double quotes -/
def quoted (s : List Char) : List Char :=
  '"' :: (s.flatMap (escapeChar '"') ++ ['"'])

/-- the character with code point `n`, or U+FFFD when there is none -/
def charOfCode (n : Int) : Char :=
  if 0 ≤ n && n.toNat.isValidChar then Char.ofNat n.toNat else replacementChar

/-- the character with code point `n` in single quotes -/
def quotedCode (n : Int) : List Char :=
  '\'' :: (escapeChar '\'' (charOfCode n) ++ ['\''])

/-- `n` in decimal -/
def decimal : Int → List Char
  | .ofNat n => Nat.toDigits 10 n
  | .negSucc n => '-' :: Nat.toDigits 10 (n + 1)

/-- a truth value in words -/
def truth (b : Bool) : List Char :=
  if b then "true".toList else "false".toList

/-- join texts with a separator between them -/
def joinWith (sep : List Char) : List (List Char) → List Char
  | [] => []
  | [s] => s
  | s :: r => s ++ sep ++ joinWith sep r

/-- a string in double quotes -/
def quotedString (s : String) : String := String.ofList (quoted s.toList)

/-- a number in decimal -/
def decimalString (n : Int) : String := String.ofList (decimal n)

end MatcherGen
