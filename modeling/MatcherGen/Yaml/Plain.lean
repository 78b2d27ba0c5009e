/-
What an unquoted text means: nothing, a truth value, a whole number, a number with a fraction, a moment in time, or just
text. Only the kind matters here, and the value of a truth value; numbers stay as they are written.
-/

namespace MatcherGen.Yaml

/-- what a text means -/
inductive PlainKind where
  | null
  | truth (b : Bool)
  | whole
  | fraction
  | moment
  | text
deriving DecidableEq, Repr

/-- the tag of a kind -/
def PlainKind.tag : PlainKind → String
  | .null => "!!null"
  | .truth _ => "!!bool"
  | .whole => "!!int"
  | .fraction => "!!float"
  | .moment => "!!timestamp"
  | .text => "!!str"

/-! ## Numbers -/

/-- the value of a digit in a base of at most 16 -/
def digitIn (base : Nat) (c : Char) : Option Nat :=
  let n := c.toNat
  let v := if 0x30 ≤ n && n ≤ 0x39 then n - 0x30
    else if 0x41 ≤ n && n ≤ 0x46 then n - 0x37
    else if 0x61 ≤ n && n ≤ 0x66 then n - 0x57
    else 16
  if v < base then some v else none

/-- the number that digits spell; none for no digits -/
def numberIn (base : Nat) : List Char → Option Nat
  | [] => none
  | s => s.foldl (fun acc c => acc.bind fun n => (digitIn base c).map fun d => base * n + d) (some 0)

/-- a number with the base that its front asks for -/
def basedNumber : List Char → Option Nat
  | '0' :: 'x' :: r => numberIn 16 r
  | '0' :: 'X' :: r => numberIn 16 r
  | '0' :: 'b' :: r => numberIn 2 r
  | '0' :: 'B' :: r => numberIn 2 r
  | '0' :: 'o' :: r => numberIn 8 r
  | '0' :: 'O' :: r => numberIn 8 r
  | ['0'] => some 0
  | '0' :: r => numberIn 8 r
  | s => numberIn 10 s

/-- a whole number of 64 bits, with or without a sign -/
def isWhole (s : List Char) : Bool :=
  match s with
  | '-' :: r => (basedNumber r).any (· ≤ Nat.pow 2 63)
  | '+' :: r => (basedNumber r).any (· < Nat.pow 2 63)
  | r => (basedNumber r).any (· < Nat.pow 2 64)

/-- the text without a sign in front -/
def unsigned : List Char → List Char
  | '+' :: r => r
  | '-' :: r => r
  | s => s

/-- a decimal number taken apart: digits before and after the point, and an exponent -/
structure Decimal where
  whole : List Char
  part : List Char
  exponent : Int

/-- the digits of an exponent -/
def exponentOf (s : List Char) : Option Int :=
  match s with
  | [] => some 0
  | e :: r =>
    if e == 'e' || e == 'E' then
      match r with
      | '-' :: d => (numberIn 10 d).map fun n => -(n : Int)
      | '+' :: d => (numberIn 10 d).map fun n => (n : Int)
      | d => (numberIn 10 d).map fun n => (n : Int)
    else none

/-- take a decimal number apart: digits, a point and digits, an exponent; a number needs a digit -/
def decimalOf (s : List Char) : Option Decimal :=
  let s := unsigned s
  let whole := s.takeWhile Char.isDigit
  let r := s.drop whole.length
  let (part, r) := match r with
    | '.' :: r => (r.takeWhile Char.isDigit, r.dropWhile Char.isDigit)
    | r => ([], r)
  if whole.isEmpty && part.isEmpty then none else (exponentOf r).map fun e => ⟨whole, part, e⟩

/-- does the number stay below what rounds to infinity in 64 bits? -/
def Decimal.isFinite (d : Decimal) : Bool :=
  let digits := (d.whole ++ d.part).dropWhile (· == '0')
  let size : Int := digits.length
  let exponent := d.exponent - d.part.length
  if digits.isEmpty || size + exponent < 309 then true
  else if 309 < size + exponent then false
  else
    let n := (numberIn 10 digits).getD 0
    let limit := Nat.pow 2 1024 - Nat.pow 2 970
    if 0 ≤ exponent then n * Nat.pow 10 exponent.toNat < limit else n < limit * Nat.pow 10 (-exponent).toNat

/-- a number with a fraction or an exponent -/
def isFraction (s : List Char) : Bool := (decimalOf s).any Decimal.isFinite

/-- does every underscore stand between two digits? -/
def underscoresJoin : Char → List Char → Bool
  | _, [] => true
  | before, '_' :: r => before.isDigit && r.head?.any Char.isDigit && underscoresJoin '_' r
  | _, c :: r => underscoresJoin c r

/-! ## Moments -/

/-- one or two digits, with what follows them -/
def shortNumber : List Char → Option (Nat × List Char)
  | a :: b :: r =>
    if a.isDigit && b.isDigit then some (10 * (a.toNat - 0x30) + (b.toNat - 0x30), r)
    else if a.isDigit then some (a.toNat - 0x30, b :: r)
    else none
  | [a] => if a.isDigit then some (a.toNat - 0x30, []) else none
  | [] => none

/-- the given character, with what follows it -/
def expectChar (c : Char) : List Char → Option (List Char)
  | x :: r => if x == c then some r else none
  | [] => none

/-- the number of days of a month -/
def daysIn (year month : Nat) : Nat :=
  if month == 2 then if year % 4 == 0 && (year % 100 != 0 || year % 400 == 0) then 29 else 28
  else if month == 4 || month == 6 || month == 9 || month == 11 then 30
  else 31

/-- year, month and day with dashes between, with what follows -/
def dateOf (s : List Char) : Option (List Char) := do
  let year ← if (s.take 4).length = 4 then numberIn 10 (s.take 4) else none
  let r ← expectChar '-' (s.drop 4)
  let (month, r) ← shortNumber r
  let r ← expectChar '-' r
  let (day, r) ← shortNumber r
  if 1 ≤ month && month ≤ 12 && 1 ≤ day && day ≤ daysIn year month then some r else none

/-- hours, minutes and seconds with colons between, and a fraction of a second, with what follows -/
def timeOf (s : List Char) : Option (List Char) := do
  let (hour, r) ← shortNumber s
  let r ← expectChar ':' r
  let (minute, r) ← shortNumber r
  let r ← expectChar ':' r
  let (second, r) ← shortNumber r
  if !(hour < 24 && minute < 60 && second < 60) then none
  else
    match r with
    | p :: d :: more => if (p == '.' || p == ',') && d.isDigit then some (more.dropWhile Char.isDigit) else some r
    | _ => some r

/-- a distance from the zero meridian: the letter Z, or a sign with hours and minutes -/
def isZone : List Char → Bool
  | ['Z'] => true
  | [sign, a, b, ':', c, d] =>
    (sign == '+' || sign == '-') && (numberIn 10 [a, b]).any (· ≤ 24) && (numberIn 10 [c, d]).any (· ≤ 60)
  | _ => false

/-- a date, or a date and a time of day -/
def isMoment (s : List Char) : Bool :=
  if (s.takeWhile Char.isDigit).length != 4 then false
  else
    match dateOf s with
    | none => false
    | some [] => true
    | some (t :: r) =>
      if t == 'T' || t == 't' then (timeOf r).any isZone
      else t == ' ' && (timeOf (r.dropWhile (· == ' '))).any (·.isEmpty)

/-! ## Kinds -/

/-- the kind of a number or a moment -/
def numberKind (moments : Bool) (s : List Char) : PlainKind :=
  if moments && isMoment s then .moment
  else
    let digits := s.filter (· != '_')
    if isWhole digits then .whole else if isFraction digits then .fraction else .text

/-- the words that are numbers -/
def numberWords : List String :=
  [".nan", ".NaN", ".NAN", ".inf", ".Inf", ".INF", "+.inf", "+.Inf", "+.INF", "-.inf", "-.Inf", "-.INF"]

/-- what an unquoted text means; `moments` asks for moments in time too -/
def plainKind (moments : Bool) (s : List Char) : PlainKind :=
  let word := String.ofList s
  if ["", "~", "null", "Null", "NULL"].contains word then .null
  else if ["true", "True", "TRUE"].contains word then .truth true
  else if ["false", "False", "FALSE"].contains word then .truth false
  else if numberWords.contains word then .fraction
  else
    match s with
    | '.' :: _ => if underscoresJoin '.' s && isFraction (s.filter (· != '_')) then .fraction else .text
    | c :: _ => if c.isDigit || c == '+' || c == '-' then numberKind moments s else .text
    | [] => .null

end MatcherGen.Yaml
