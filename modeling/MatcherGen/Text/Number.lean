/-
Whole numbers of 64 bits as they are written on a command line: a sign, a base by its usual front, and underscores between
digits.
-/

namespace MatcherGen

/-- why a text is no number -/
inductive NumberProblem where
  | malformed
  | outOfRange
deriving DecidableEq, Repr

/-- the value of a digit, up to base 36 -/
def digitValue (c : Char) : Option Nat :=
  let n := c.toNat
  if 0x30 ≤ n && n ≤ 0x39 then some (n - 0x30)
  else if 0x41 ≤ n && n ≤ 0x5a then some (n - 0x37)
  else if 0x61 ≤ n && n ≤ 0x7a then some (n - 0x57)
  else none

/-- the base that the front of a number asks for, with the digits after it -/
def numberBase : List Char → Nat × List Char
  | '0' :: x :: d :: r =>
    if x == 'x' || x == 'X' then (16, d :: r)
    else if x == 'b' || x == 'B' then (2, d :: r)
    else if x == 'o' || x == 'O' then (8, d :: r)
    else (8, x :: d :: r)
  | '0' :: r => (8, r)
  | s => (10, s)

/-- the value of digits after those worth `n`; it has to stay below 2^64 at every digit -/
def valueInBase (base : Nat) : Nat → List Char → Except NumberProblem Nat
  | n, [] => .ok n
  | n, '_' :: r => valueInBase base n r
  | n, c :: r =>
    match digitValue c with
    | none => .error .malformed
    | some d =>
      if base ≤ d then .error .malformed
      else if Nat.pow 2 64 ≤ base * n + d then .error .outOfRange
      else valueInBase base (base * n + d) r

/-- does every underscore stand between digits, where the front of a number counts as one? `after` is whether a digit comes
before -/
def underscoresFit : Bool → List Char → Bool
  | _, [] => true
  | after, '_' :: r =>
    after && (match r with
      | [] => false
      | c :: _ => (digitValue c).isSome) && underscoresFit false r
  | _, _ :: r => underscoresFit true r

/-- a whole number between -2^63 and 2^63 - 1 -/
def readInt64 (s : List Char) : Except NumberProblem Int :=
  let (negative, body) := match s with
    | '-' :: r => (true, r)
    | '+' :: r => (false, r)
    | r => (false, r)
  if body.isEmpty then .error .malformed
  else
    let (base, digits) := numberBase body
    match valueInBase base 0 digits with
    | .error p => .error p
    | .ok n =>
      if !underscoresFit (base != 10) digits then .error .malformed
      else if negative then if Nat.pow 2 63 < n then .error .outOfRange else .ok (-(n : Int))
      else if Nat.pow 2 63 ≤ n then .error .outOfRange
      else .ok n

end MatcherGen
