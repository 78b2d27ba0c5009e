/-
The verbose log. Every entry is one write, tagged with the name of the matcher it is about, so that the logs of several
matchers can be told apart.
-/
import MatcherGen.Text.Glyph

namespace MatcherGen

/-- the title of a section as a message -/
def sectionTitle (title : Text) : Text := Text.ofString "=== " ++ title ++ Text.ofString " ==="

/-- who writes to the log, and whether anything is written at all -/
structure Logger where
  enabled : Bool
  name : String

namespace Logger

/-- what every entry starts with -/
def tag (l : Logger) : Text := Text.ofString "[regcps] " ++ Text.ofString l.name ++ Text.ofString ": "

/-- an entry -/
def entry (l : Logger) (message : Text) : Text :=
  if l.enabled then l.tag ++ message ++ Text.ofString "\n" else []

/-- the head of a section -/
def sectionHead (l : Logger) (title : Text) : Text := l.entry (sectionTitle title)

end Logger

end MatcherGen
