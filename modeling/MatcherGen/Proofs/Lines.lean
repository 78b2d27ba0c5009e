/-
The lines of a text and the text of its lines. Text that ends with a line feed is cut into lines and put together again without
loss, and text that follows it adds its own lines.

Main statements:
- `Text.ofLines_lines`, `Text.lines_ofLines`: cutting and putting together undo each other;
- `Text.lines_append`: lines of two texts in a row;
- `Text.lines_after`: words in front of a text belong to its first line.
-/
import Mathlib.Tactic
import MatcherGen.Text.Lines

namespace MatcherGen

namespace Text

/-- a line feed that is read is one that is written -/
theorem newline_not_mem_chars {t : Text} (h : lineFeed ∉ t) : '\n' ∉ t.chars := by
  intro hmem
  obtain ⟨g, hg, hchar⟩ := List.mem_map.1 hmem
  cases g with
  | scalar c =>
    obtain rfl : c = '\n' := hchar
    exact h hg
  | stray b => exact absurd hchar (show replacementChar ≠ '\n' by decide)

theorem ofLines_cons (l : Text) (ls : List Text) : ofLines (l :: ls) = l ++ lineFeed :: ofLines ls := by
  simp [ofLines]

theorem ofLines_append (ls ms : List Text) : ofLines (ls ++ ms) = ofLines ls ++ ofLines ms := List.flatMap_append

/-- **Lines give back the text they were taken from**, if its last line has an end. -/
theorem ofLines_lines (t : Text) : ofLines (t ++ [lineFeed]).lines = t ++ [lineFeed] := by
  induction t with
  | nil => rfl
  | cons g r ih =>
    rw [List.cons_append, lines]
    split_ifs with hfeed
    · rw [ofLines_cons, ih, beq_iff_eq.1 hfeed, List.nil_append]
    · cases hlines : Text.lines (r ++ [lineFeed]) with
      | nil =>
        rw [hlines] at ih
        exact absurd ih.symm (by simp [ofLines])
      | cons first others =>
        rw [hlines, ofLines_cons] at ih
        rw [← ih]
        exact ofLines_cons _ _

/-- words in front of a text belong to its first line -/
theorem lines_after {w : Text} (hw : lineFeed ∉ w) {t first : Text} {others : List Text} (ht : lines t = first :: others) :
    lines (w ++ t) = (w ++ first) :: others := by
  induction w with
  | nil => exact ht
  | cons g w ih =>
    rw [List.mem_cons, not_or] at hw
    rw [List.cons_append, lines, if_neg (by simpa using Ne.symm hw.1), ih hw.2]
    rfl

theorem lines_feed (r : Text) : lines (lineFeed :: r) = [] :: lines r := by
  rw [lines, if_pos (beq_self_eq_true _)]

/-- no line has a line feed in it -/
theorem lineFeed_not_mem {t l : Text} (h : l ∈ lines t) : lineFeed ∉ l := by
  induction t generalizing l with
  | nil => exact absurd h List.not_mem_nil
  | cons g r ih =>
    rw [lines] at h
    split_ifs at h with hfeed
    · rcases List.mem_cons.1 h with rfl | h
      · exact List.not_mem_nil
      · exact ih h
    · have hg : lineFeed ≠ g := fun heq => hfeed (beq_iff_eq.2 heq.symm)
      cases hlines : lines r with
      | nil =>
        rw [hlines] at h
        rw [List.mem_singleton.1 h]
        simpa using hg
      | cons first others =>
        rw [hlines] at h ih
        rcases List.mem_cons.1 h with rfl | h
        · exact List.not_mem_cons_of_ne_of_not_mem hg (ih List.mem_cons_self)
        · exact ih (List.mem_cons_of_mem first h)

theorem lines_ofLines_append {ls : List Text} (h : ∀ l ∈ ls, lineFeed ∉ l) (r : Text) :
    lines (ofLines ls ++ r) = ls ++ lines r := by
  induction ls with
  | nil => rfl
  | cons l ls ih =>
    have hrest := ih fun m hm => h m (List.mem_cons_of_mem l hm)
    calc lines (ofLines (l :: ls) ++ r) = lines (l ++ lineFeed :: (ofLines ls ++ r)) := by
          rw [ofLines_cons, List.append_assoc, List.cons_append]
      _ = (l ++ []) :: lines (ofLines ls ++ r) := lines_after (h l List.mem_cons_self) (lines_feed _)
      _ = l :: ls ++ lines r := by rw [hrest, List.append_nil, List.cons_append]

/-- **A text gives back the lines it was put together from.** -/
theorem lines_ofLines {ls : List Text} (h : ∀ l ∈ ls, lineFeed ∉ l) : (ofLines ls).lines = ls := by
  have hlines := lines_ofLines_append h []
  rwa [List.append_nil, show lines [] = [] from rfl, List.append_nil] at hlines

/-- **What follows the end of a line adds its own lines.** -/
theorem lines_append (s r : Text) : lines (s ++ [lineFeed] ++ r) = lines (s ++ [lineFeed]) ++ lines r := by
  have hfree : ∀ l ∈ lines (s ++ [lineFeed]), lineFeed ∉ l := fun l hl => lineFeed_not_mem hl
  have hlines := lines_ofLines_append hfree r
  rwa [ofLines_lines] at hlines

/-! ## Messages -/

/-- the lines of a message after its first -/
def furtherLines (t : Text) : List Text := (lines (t ++ [lineFeed])).tail

/-- a message has a first line -/
theorem exists_firstLine (t : Text) : ∃ first, lines (t ++ [lineFeed]) = first :: t.furtherLines := by
  cases hlines : lines (t ++ [lineFeed]) with
  | nil =>
    have htext := ofLines_lines t
    rw [hlines] at htext
    exact absurd htext.symm (by simp [ofLines])
  | cons first others => exact ⟨first, by rw [furtherLines, hlines, List.tail_cons]⟩

theorem furtherLines_append {w : Text} (hw : lineFeed ∉ w) (t : Text) : furtherLines (w ++ t) = t.furtherLines := by
  obtain ⟨first, hfirst⟩ := exists_firstLine t
  rw [furtherLines, List.append_assoc, lines_after hw hfirst, List.tail_cons]

theorem furtherLines_eq_nil {t : Text} (h : lineFeed ∉ t) : t.furtherLines = [] := by
  rw [furtherLines, lines_after h (lines_feed [])]
  rfl

end Text

end MatcherGen
