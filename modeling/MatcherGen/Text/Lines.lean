/-
The lines of a text. A line ends at a line feed, which is no part of it; what follows the last line feed is a line unless it
is empty.
-/
import MatcherGen.Text.Glyph

namespace MatcherGen

/-- the end of a line -/
def lineFeed : Glyph := .scalar '\n'

namespace Text

/-- the lines of a text, without their ends -/
def lines : Text → List Text
  | [] => []
  | g :: r =>
    if g == lineFeed then [] :: lines r
    else
      match lines r with
      | [] => [[g]]
      | first :: others => (g :: first) :: others

/-- lines with their ends -/
def ofLines (lines : List Text) : Text := lines.flatMap (· ++ [lineFeed])

end Text

end MatcherGen
