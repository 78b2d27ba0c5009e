/-
Comparing two texts line by line. The longest block of lines that both share is kept, and the lines before and after it are
compared in the same way; what is left over was deleted or inserted. The outcome is written as a unified diff with two
lines of context. In a long text, lines that occur very often do not start a block; they only extend one. What follows the
last line feed of a text is compared as a line too, so that texts with and without an end to their last line differ.
-/
import MatcherGen.Text.Lines
import MatcherGen.Text.Quoted

namespace MatcherGen

/-- a line without its end -/
abbrev Line := Text

/-- `size` equal lines: from `left` in the first text and from `right` in the second -/
structure SharedBlock where
  left : Nat
  right : Nat
  size : Nat
deriving DecidableEq, Repr

/-- how many lines two lists share at their front -/
def sharedFront : List Line → List Line → Nat
  | a :: r, b :: s => if a == b then sharedFront r s + 1 else 0
  | _, _ => 0

/-- lines too frequent to start a block: in a text of 200 lines and more, those that make up more than a hundredth -/
def isFrequent (text : List Line) (l : Line) : Bool :=
  200 ≤ text.length && text.length / 100 + 1 < text.count l

/-- for one line of the first text: where it stands in the second, with the length of the run of equal lines that ends
there, given the runs that end one line before -/
def extendRuns (frequent : Line → Bool) (others : List Line) (runs : List (Nat × Nat)) (l : Line) : List (Nat × Nat) :=
  others.zipIdx.filterMap fun (other, j) =>
    if other == l && !frequent other then
      some (j, ((runs.find? fun r => r.1 + 1 == j).map Prod.snd).getD 0 + 1)
    else none

/-- the longer of the best block so far and the runs that end at line `i` -/
def improve (i : Nat) (best : SharedBlock) (runs : List (Nat × Nat)) : SharedBlock :=
  runs.foldl (fun b (j, k) => if b.size < k then ⟨i + 1 - k, j + 1 - k, k⟩ else b) best

/-- the best block found by going through the lines of the first text -/
def scanLines (frequent : Line → Bool) (others : List Line) : Nat → List (Nat × Nat) → SharedBlock → List Line →
    SharedBlock
  | _, _, best, [] => best
  | i, runs, best, l :: r =>
    let runs := extendRuns frequent others runs l
    scanLines frequent others (i + 1) runs (improve i best runs) r

/-- the first of the longest shared blocks, extended over equal lines at both ends -/
def longestShared (frequent : Line → Bool) (a b : List Line) : SharedBlock :=
  let found := scanLines frequent b 0 [] ⟨0, 0, 0⟩ a
  let back := sharedFront (a.take found.left).reverse (b.take found.right).reverse
  let ahead := sharedFront (a.drop (found.left + found.size)) (b.drop (found.right + found.size))
  ⟨found.left - back, found.right - back, back + found.size + ahead⟩

/-- the shared blocks in order, for texts that start at lines `i` and `j`; `depth` bounds the nesting -/
def sharedBlocks (frequent : Line → Bool) : Nat → Nat → Nat → List Line → List Line → List SharedBlock
  | 0, _, _, _, _ => []
  | depth + 1, i, j, a, b =>
    let m := longestShared frequent a b
    if m.size == 0 then []
    else
      let left := m.left + m.size
      let right := m.right + m.size
      (if 0 < m.left && 0 < m.right then
        sharedBlocks frequent depth i j (a.take m.left) (b.take m.right) else []) ++
      ⟨i + m.left, j + m.right, m.size⟩ ::
      (if left < a.length && right < b.length then
        sharedBlocks frequent depth (i + left) (j + right) (a.drop left) (b.drop right) else [])

/-- blocks that touch are one -/
def mergeBlocks (current : SharedBlock) : List SharedBlock → List SharedBlock
  | [] => if current.size == 0 then [] else [current]
  | b :: r =>
    if current.left + current.size == b.left && current.right + current.size == b.right then
      mergeBlocks { current with size := current.size + b.size } r
    else if current.size == 0 then mergeBlocks b r
    else current :: mergeBlocks b r

/-- a stretch of both texts: lines `left` to `leftEnd` stand against lines `right` to `rightEnd` -/
structure Stretch where
  equal : Bool
  left : Nat
  leftEnd : Nat
  right : Nat
  rightEnd : Nat
deriving DecidableEq, Repr

/-- cut both texts, of `n` and `m` lines, into equal and changed stretches -/
def stretches (n m : Nat) : Nat → Nat → List SharedBlock → List Stretch
  | i, j, [] => if i < n || j < m then [⟨false, i, n, j, m⟩] else []
  | i, j, b :: r =>
    (if i < b.left || j < b.right then [⟨false, i, b.left, j, b.right⟩] else []) ++
      ⟨true, b.left, b.left + b.size, b.right, b.right + b.size⟩ ::
        stretches n m (b.left + b.size) (b.right + b.size) r

/-- the last `n` lines of an equal stretch -/
def Stretch.lastLines (s : Stretch) (n : Nat) : Stretch :=
  { s with left := max s.left (s.leftEnd - n), right := max s.right (s.rightEnd - n) }

/-- the first `n` lines of an equal stretch -/
def Stretch.firstLines (s : Stretch) (n : Nat) : Stretch :=
  { s with leftEnd := min s.leftEnd (s.left + n), rightEnd := min s.rightEnd (s.right + n) }

/-- keep only the context of an equal stretch at the front -/
def trimFirst (context : Nat) : List Stretch → List Stretch
  | s :: r => (if s.equal then s.lastLines context else s) :: r
  | [] => []

/-- keep only the context of an equal stretch at the end -/
def trimLast (context : Nat) : List Stretch → List Stretch
  | [] => []
  | [s] => [if s.equal then s.firstLines context else s]
  | s :: r => s :: trimLast context r

/-- cut a list of stretches into hunks wherever equal lines leave room for the context of both -/
def hunks (context : Nat) (hunk : List Stretch) : List Stretch → List (List Stretch)
  | [] =>
    match hunk with
    | [] => []
    | [s] => if s.equal then [] else [[s]]
    | _ => [hunk]
  | s :: r =>
    if s.equal && 2 * context < s.leftEnd - s.left then
      (hunk ++ [s.firstLines context]) :: hunks context [s.lastLines context] r
    else hunks context (hunk ++ [s]) r

/-- a range of lines in the head of a hunk: a single line goes by its number, an empty range by the line before it -/
def lineRange (first last : Nat) : List Char :=
  let size := last - first
  if size == 1 then decimal (first + 1)
  else if size == 0 then decimal first ++ ",0".toList
  else decimal (first + 1) ++ ',' :: decimal size

/-- lines with a mark in front -/
def markedLines (mark : Char) (lines : List Line) : Text := Text.ofLines (lines.map (.scalar mark :: ·))

/-- one stretch in a hunk -/
def Stretch.text (a b : List Line) (s : Stretch) : Text :=
  let left := (a.drop s.left).take (s.leftEnd - s.left)
  let right := (b.drop s.right).take (s.rightEnd - s.right)
  if s.equal then markedLines ' ' left else markedLines '-' left ++ markedLines '+' right

/-- a hunk -/
def hunkText (a b : List Line) (hunk : List Stretch) : Text :=
  match hunk.head?, hunk.getLast? with
  | some first, some last =>
    Text.ofChars ("@@ -".toList ++ lineRange first.left last.leftEnd ++ " +".toList ++
      lineRange first.right last.rightEnd ++ " @@\n".toList) ++ hunk.flatMap (Stretch.text a b)
  | _, _ => []

/-- the lines of context around a change -/
def diffContext : Nat := 2

/-- the stretches of two texts -/
def diffStretches (a b : List Line) : List Stretch :=
  let blocks := sharedBlocks (isFrequent b) (a.length + 1) 0 0 a b
  stretches a.length b.length 0 0 (mergeBlocks ⟨0, 0, 0⟩ blocks)

/-- the lines of a text as they are compared -/
def diffLines (t : Text) : List Line := (t ++ [lineFeed]).lines

/-- the hunks of two texts -/
def diffHunks (a b : List Line) : List (List Stretch) :=
  hunks diffContext [] (trimLast diffContext (trimFirst diffContext (diffStretches a b)))

/-- the unified diff that turns `want` into `got`; nothing when they are the same -/
def unifiedDiff (want got : Text) : Text :=
  if got == want then []
  else
    let a := diffLines want
    let b := diffLines got
    let groups := diffHunks a b
    (if groups.isEmpty then [] else Text.ofString "--- want\n+++ got\n") ++ groups.flatMap (hunkText a b)

end MatcherGen
