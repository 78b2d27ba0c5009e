/-
Whose line is it? Every write to the verbose log starts with the tag of its matcher, and tags of different names never start
the same line. So the lines of several logs that come to one place can be told apart, if every line of a write starts with
the tag. A write has further lines where it quotes a pattern with line feeds, in the entry for the pattern and in those for
remarks, and these start with whatever stands in the pattern.

Main statements:
- `Session.message_cases`: a message is one line, or it quotes the pattern or a remark;
- `Session.tagged_iff`: all lines of a log are tagged if and only if the further lines of what it quotes are;
- `Interleaved.select`: lines with a tag are the lines of its log, however the writes of several logs interleave;
- `logs_told_apart_iff`: both together.

That every line is tagged is what the log promises; `brokenPattern_line_untagged` is one that is not.
-/
import MatcherGen.Proofs.Lines
import MatcherGen.Proofs.Translation

namespace MatcherGen

/-! ## Entries -/

/-- a write whose lines all have an end and start with a tag -/
structure TaggedWrite (tag w : Text) : Prop where
  ended : ∃ s, w = s ++ [lineFeed]
  tagged : ∀ line ∈ w.lines, tag <+: line

namespace Logger

variable {l : Logger} (hon : l.enabled = true)

include hon

theorem entry_eq (message : Text) : l.entry message = l.tag ++ message ++ [lineFeed] := by
  rw [entry, if_pos hon]
  rfl

theorem lines_entry (htag : lineFeed ∉ l.tag) (message : Text) :
    ∃ first, (l.entry message).lines = (l.tag ++ first) :: message.furtherLines := by
  obtain ⟨first, hfirst⟩ := Text.exists_firstLine message
  refine ⟨first, ?_⟩
  rw [entry_eq hon, List.append_assoc, Text.lines_after htag hfirst]

/-- **The lines of an entry start with its tag if and only if the further lines of its message do.** -/
theorem entry_tagged_iff (htag : lineFeed ∉ l.tag) (message : Text) :
    TaggedWrite l.tag (l.entry message) ↔ ∀ line ∈ message.furtherLines, l.tag <+: line := by
  obtain ⟨first, hlines⟩ := lines_entry hon htag message
  constructor
  · intro h line hline
    apply h.tagged line
    rw [hlines]
    exact List.mem_cons_of_mem _ hline
  · intro h
    refine ⟨⟨_, entry_eq hon message⟩, fun line hline => ?_⟩
    rw [hlines] at hline
    rcases List.mem_cons.1 hline with rfl | hline
    · exact List.prefix_append l.tag first
    · exact h line hline

end Logger

/-! ## Tags -/

theorem isGoIdentifier_not_mem {name : String} (h : isGoIdentifier name = true) {c : Char} (hc : isNameChar c = false) :
    .scalar c ∉ Text.ofString name := by
  intro hmem
  obtain ⟨x, hx, hxc⟩ := List.mem_map.1 hmem
  have hname := isGoIdentifier_isNameChar h x hx
  rw [Glyph.scalar.inj hxc, hc] at hname
  exact absurd hname (by simp)

theorem Logger.lineFeed_not_mem_tag {l : Logger} (h : isGoIdentifier l.name = true) : lineFeed ∉ l.tag := by
  have hname : lineFeed ∉ Text.ofString l.name := isGoIdentifier_not_mem h (by decide)
  have hfront : lineFeed ∉ Text.ofString "[regcps] " := by decide
  have hback : lineFeed ∉ Text.ofString ": " := by decide
  simp [Logger.tag, hname, hfront, hback]

/-- what stands before the first colon -/
theorem eq_of_append_colon {s t r u : Text} (hs : .scalar ':' ∉ s) (ht : .scalar ':' ∉ t)
    (h : s ++ .scalar ':' :: r = t ++ .scalar ':' :: u) : s = t := by
  have hfront : ∀ {s : Text} (r : Text), .scalar ':' ∉ s →
      (s ++ .scalar ':' :: r).takeWhile (fun g => g != .scalar ':') = s := by
    intro s r hs
    have hall : ∀ g ∈ s, (g != .scalar ':') = true := fun g hg => bne_iff_ne.2 (ne_of_mem_of_not_mem hg hs)
    simp [List.takeWhile_append_of_pos hall]
  rw [← hfront r hs, h, hfront u ht]

theorem ofString_injective : Function.Injective Text.ofString := by
  intro s t h
  have hchars : s.toList = t.toList := by
    rw [← Text.chars_ofChars s.toList, ← Text.chars_ofChars t.toList]
    exact congrArg Text.chars h
  exact String.toList_inj.1 hchars

/-- **Tags of different names do not start the same line.** -/
theorem Logger.name_eq_of_tags {l m : Logger} (hl : isGoIdentifier l.name = true) (hm : isGoIdentifier m.name = true)
    {line : Text} (hleft : l.tag <+: line) (hright : m.tag <+: line) : l.name = m.name := by
  obtain ⟨r, rfl⟩ := hleft
  obtain ⟨u, hu⟩ := hright
  have hnames : Text.ofString l.name ++ .scalar ':' :: (.scalar ' ' :: r) =
      Text.ofString m.name ++ .scalar ':' :: (.scalar ' ' :: u) := by
    rw [Logger.tag, Logger.tag, List.append_assoc, List.append_assoc, List.append_assoc, List.append_assoc] at hu
    exact (List.append_cancel_left hu).symm
  apply ofString_injective
  exact eq_of_append_colon (isGoIdentifier_not_mem hl (by decide)) (isGoIdentifier_not_mem hm (by decide)) hnames

/-! ## What a session says -/

theorem MadeOf.concat {q : List Char} {v w : String} (hv : MadeOf q v.toList) (hw : MadeOf q w.toList) :
    MadeOf q (v ++ w).toList := by
  rw [String.toList_append]
  exact hv.append hw

theorem MadeOf.intercalate {q sep : List Char} (hsep : MadeOf q sep) {ls : List (List Char)} (h : ∀ l ∈ ls, MadeOf q l) :
    MadeOf q (sep.intercalate ls) := by
  induction ls with
  | nil => exact fun c hc => absurd hc List.not_mem_nil
  | cons l r ih =>
    have hl := h l List.mem_cons_self
    have hr := ih fun m hm => h m (List.mem_cons_of_mem l hm)
    cases r with
    | nil => rwa [List.intercalate_singleton]
    | cons m r =>
      rw [List.intercalate_cons_cons]
      exact (hl.append hsep).append hr

theorem decimalString_madeOf (q : List Char) (n : Int) : MadeOf q (decimalString n).toList := by
  rw [decimalString, String.toList_ofList]
  exact decimal_madeOf q n

theorem FlagScope.label_madeOf (q : List Char) (scope : FlagScope) : MadeOf q scope.label.toList := by
  cases scope with
  | pattern => exact .wording (by decide)
  | positional => exact .wording (by decide)
  | other n => exact ((MadeOf.wording (by decide)).concat (decimalString_madeOf q n)).concat (.wording (by decide))

theorem featureLabels_madeOf (q : List Char) (features : List Feature) :
    MadeOf q (", ".intercalate (features.map Feature.label)).toList := by
  rw [String.toList_intercalate]
  refine MadeOf.intercalate (.wording (by decide)) fun l hl => ?_
  obtain ⟨w, hw, rfl⟩ := List.mem_map.1 hl
  obtain ⟨f, -, rfl⟩ := List.mem_map.1 hw
  cases f <;> exact .wording (by decide)

/-- a remark as one line is its message after its offset -/
theorem Diagnostic.exists_line (d : Diagnostic) : ∃ w, MadeOf [] w ∧ d.line = w ++ d.message :=
  ⟨_, ((MadeOf.wording (by decide)).append (decimal_madeOf [] d.offset)).append (.wording (by decide)), rfl⟩

namespace Session

/-- a message of an opening session is one line, or it quotes the pattern or a remark -/
theorem message_cases {s : Session} {m : Text} (h : m ∈ s.openingMessages) :
    lineFeed ∉ m ∨ m = Text.ofString "Pattern: " ++ s.options.pattern ∨
      ∃ d ∈ s.reading.diagnostics, m = Text.ofString "Diagnostic: " ++ Text.ofChars d.line := by
  have hsaid : ∀ {w : String}, MadeOf [] w.toList → lineFeed ∉ Text.ofString w := fun hw => (Text.Unbroken.printable hw).feed
  have hbool : ∀ b : Bool, MadeOf [] (if b = true then "true" else "false").toList := by
    intro b
    cases b <;> exact .wording (by decide)
  have hnumber : ∀ n : Int, MadeOf [] (decimalString n).toList := decimalString_madeOf []
  have hword : ∀ {w : String}, w.toList.all isPrintable = true → MadeOf [] w.toList := MadeOf.wording
  simp only [openingMessages, List.mem_append, List.mem_cons, List.mem_map, List.not_mem_nil, or_false] at h
  rcases h with (hreading | ⟨d, hd, rfl⟩) | hcode
  · rcases hreading with rfl | rfl | rfl | rfl
    · exact Or.inl (by decide)
    · exact Or.inr (Or.inl rfl)
    · refine Or.inl (hsaid ?_)
      exact ((((hword (by decide)).concat (hnumber _)).concat (hword (by decide))).concat (hnumber _)).concat (hword (by decide))
    · exact Or.inl (hsaid ((((hword (by decide)).concat (hbool _)).concat (hword (by decide))).concat (hbool _)))
  · exact Or.inr (Or.inr ⟨d, hd, rfl⟩)
  · apply Or.inl
    rcases hcode with rfl | rfl | rfl | rfl | rfl | rfl | rfl | rfl | rfl
    · decide
    · exact hsaid ((hword (by decide)).concat (featureLabels_madeOf [] _))
    · exact hsaid ((hword (by decide)).concat (hbool _))
    · exact hsaid ((hword (by decide)).concat (hnumber _))
    · exact hsaid ((hword (by decide)).concat (hnumber _))
    · decide
    · exact hsaid ((hword (by decide)).concat (FlagScope.label_madeOf [] _))
    · split_ifs <;> decide
    · split_ifs <;> decide

theorem pattern_mem_openingMessages (s : Session) :
    Text.ofString "Pattern: " ++ s.options.pattern ∈ s.openingMessages := by
  simp [openingMessages]

theorem remark_mem_openingMessages {s : Session} {d : Diagnostic} (h : d ∈ s.reading.diagnostics) :
    Text.ofString "Diagnostic: " ++ Text.ofChars d.line ∈ s.openingMessages := by
  refine List.mem_append_left _ (List.mem_append_right _ ?_)
  exact List.mem_map_of_mem h

/-- every further line of what the log quotes, the pattern and the remarks, starts with the tag -/
def QuotesTagged (s : Session) : Prop :=
  (∀ line ∈ s.options.pattern.furtherLines, s.logger.tag <+: line) ∧
  ∀ d ∈ s.reading.diagnostics, ∀ line ∈ (Text.ofChars d.message).furtherLines, s.logger.tag <+: line

theorem furtherLines_pattern (s : Session) :
    Text.furtherLines (Text.ofString "Pattern: " ++ s.options.pattern) = s.options.pattern.furtherLines :=
  Text.furtherLines_append (by decide) _

theorem furtherLines_remark (d : Diagnostic) :
    Text.furtherLines (Text.ofString "Diagnostic: " ++ Text.ofChars d.line) = (Text.ofChars d.message).furtherLines := by
  obtain ⟨w, hw, hline⟩ := d.exists_line
  calc Text.furtherLines (Text.ofString "Diagnostic: " ++ Text.ofChars d.line) = (Text.ofChars d.line).furtherLines :=
        Text.furtherLines_append (by decide) _
    _ = Text.furtherLines (Text.ofChars w ++ Text.ofChars d.message) := by rw [hline, Text.ofChars_append]
    _ = (Text.ofChars d.message).furtherLines := Text.furtherLines_append (Text.Unbroken.printable hw).feed _

section Writes

variable {s : Session} (hon : s.options.verbose = true)

include hon

/-- **All lines that a session writes are tagged if and only if the further lines of what it quotes are.** -/
theorem writes_tagged_iff (htag : lineFeed ∉ s.logger.tag) :
    (∀ w ∈ s.openingWrites, TaggedWrite s.logger.tag w) ↔ s.QuotesTagged := by
  have hentry := Logger.entry_tagged_iff (l := s.logger) hon htag
  constructor
  · intro h
    constructor
    · have hpattern := (hentry _).1 (h _ (List.mem_map_of_mem s.pattern_mem_openingMessages))
      rwa [furtherLines_pattern] at hpattern
    · intro d hd
      have hremark := (hentry _).1 (h _ (List.mem_map_of_mem (remark_mem_openingMessages hd)))
      rwa [furtherLines_remark] at hremark
  · intro h w hw
    obtain ⟨m, hm, rfl⟩ := List.mem_map.1 hw
    apply (hentry m).2
    rcases message_cases hm with hfree | rfl | ⟨d, hd, rfl⟩
    · rw [Text.furtherLines_eq_nil hfree]
      exact fun line hline => absurd hline List.not_mem_nil
    · rw [furtherLines_pattern]
      exact h.1
    · rw [furtherLines_remark]
      exact h.2 d hd

theorem writes_ended : ∀ w ∈ s.openingWrites, ∃ t, w = t ++ [lineFeed] := by
  intro w hw
  obtain ⟨m, -, rfl⟩ := List.mem_map.1 hw
  exact ⟨_, Logger.entry_eq hon m⟩

end Writes

/-- a pattern without line feeds leaves no further lines to what quotes it -/
theorem quotesTagged_of_not_mem {o : Options} (h : lineFeed ∉ o.pattern) :
    (Session.start o (Reading.ofPattern o.pattern)).QuotesTagged := by
  constructor
  · rw [show (Session.start o (Reading.ofPattern o.pattern)).options.pattern = o.pattern from rfl,
      Text.furtherLines_eq_nil h]
    exact fun line hline => absurd hline List.not_mem_nil
  · intro d hd
    have hfree : lineFeed ∉ Text.ofChars d.message := by
      intro hmem
      obtain ⟨c, hc, hfeed⟩ := List.mem_map.1 hmem
      obtain rfl := Glyph.scalar.inj hfeed
      rcases (Reading.diagnostics_quote o.pattern d hd).message_madeOf _ hc with hprintable | hquoted
      · exact isPrintable_ne_newline hprintable rfl
      · exact Text.newline_not_mem_chars h hquoted
    rw [Text.furtherLines_eq_nil hfree]
    exact fun line hline => absurd hline List.not_mem_nil

end Session

/-! ## Writes in a row -/

theorem lines_flatten {ws : List Text} (h : ∀ w ∈ ws, ∃ t, w = t ++ [lineFeed]) :
    Text.lines ws.flatten = ws.flatMap Text.lines := by
  induction ws with
  | nil => rfl
  | cons w ws ih =>
    obtain ⟨t, rfl⟩ := h w List.mem_cons_self
    rw [List.flatten_cons, Text.lines_append, ih fun v hv => h v (List.mem_cons_of_mem _ hv), List.flatMap_cons]

theorem ofLines_lines_flatten {ws : List Text} (h : ∀ w ∈ ws, ∃ t, w = t ++ [lineFeed]) :
    Text.ofLines (Text.lines ws.flatten) = ws.flatten := by
  rw [lines_flatten h]
  induction ws with
  | nil => rfl
  | cons w ws ih =>
    obtain ⟨t, rfl⟩ := h w List.mem_cons_self
    rw [List.flatMap_cons, Text.ofLines_append, Text.ofLines_lines, ih fun v hv => h v (List.mem_cons_of_mem _ hv),
      List.flatten_cons]

/-- the text of the lines that start with a tag -/
def selectTagged (tag log : Text) : Text := Text.ofLines (log.lines.filter (List.isPrefixOf tag))

/-- the writes of several logs as they come to one place: in any order, but those of each log in its own -/
inductive Interleaved {ι : Type} [DecidableEq ι] : (ι → List Text) → List Text → Prop
  | done {logs : ι → List Text} (h : ∀ i, logs i = []) : Interleaved logs []
  | write {logs : ι → List Text} {i : ι} {w : Text} {rest merged : List Text} (hi : logs i = w :: rest)
      (h : Interleaved (Function.update logs i rest) merged) : Interleaved logs (w :: merged)

namespace Interleaved

variable {ι : Type} [DecidableEq ι] {logs : ι → List Text} {merged : List Text}

/-- one log may write several times in a row -/
theorem writes {i : ι} {ws rest : List Text} (hi : logs i = ws ++ rest)
    (h : Interleaved (Function.update logs i rest) merged) : Interleaved logs (ws ++ merged) := by
  induction ws generalizing logs with
  | nil =>
    rw [List.nil_append] at hi
    rwa [← hi, Function.update_eq_self] at h
  | cons w ws ih =>
    refine .write hi (ih (Function.update_self i _ logs) ?_)
    rwa [Function.update_idem]

/-- one log may write when all others are done -/
theorem last {i : ι} (h : ∀ j, j ≠ i → logs j = []) : Interleaved logs (logs i) := by
  have hdone : ∀ j, Function.update logs i [] j = [] := by
    intro j
    by_cases hj : j = i
    · rw [hj, Function.update_self]
    · rw [Function.update_of_ne hj, h j hj]
  have hwrites := writes (List.append_nil (logs i)).symm (.done hdone)
  rwa [List.append_nil] at hwrites

variable {tags : ι → Text}

/-- **Lines with a tag are the lines of its log**, however the writes of several logs interleave, if no line starts with the
tags of two logs. -/
theorem select (h : Interleaved logs merged) (hapart : ∀ i j line, tags i <+: line → tags j <+: line → i = j)
    (hlogs : ∀ i, ∀ w ∈ logs i, TaggedWrite (tags i) w) (j : ι) :
    (Text.lines merged.flatten).filter (List.isPrefixOf (tags j)) = Text.lines (logs j).flatten := by
  induction h with
  | done h =>
    rw [h j]
    rfl
  | @write logs i w rest merged hi _ ih =>
    have hw : TaggedWrite (tags i) w := hlogs i w (by simp [hi])
    have hrest : ∀ k, ∀ v ∈ Function.update logs i rest k, TaggedWrite (tags k) v := by
      intro k v hv
      by_cases hk : k = i
      · subst hk
        rw [Function.update_self] at hv
        exact hlogs k v (by simp [hi, hv])
      · rw [Function.update_of_ne hk] at hv
        exact hlogs k v hv
    have hlater := ih hrest
    obtain ⟨t, rfl⟩ := hw.ended
    rw [List.flatten_cons, Text.lines_append, List.filter_append, hlater]
    by_cases hj : j = i
    · -- all lines of the write are kept
      subst hj
      have hkept : (Text.lines (t ++ [lineFeed])).filter (List.isPrefixOf (tags j)) = Text.lines (t ++ [lineFeed]) :=
        List.filter_eq_self.2 fun line hline => List.isPrefixOf_iff_prefix.2 (hw.tagged line hline)
      rw [hkept, Function.update_self, hi, List.flatten_cons, Text.lines_append]
    · -- none of them is
      have hnone : (Text.lines (t ++ [lineFeed])).filter (List.isPrefixOf (tags j)) = [] := by
        rw [List.filter_eq_nil_iff]
        intro line hline htag
        exact hj (hapart j i line (List.isPrefixOf_iff_prefix.1 htag) (hw.tagged line hline))
      rw [hnone, List.nil_append, Function.update_of_ne hj]

end Interleaved

/-! ## Logs told apart -/

/-- text that is selected by a tag has no other lines -/
theorem tagged_of_select {tag merged log : Text} (h : selectTagged tag merged = log) : ∀ line ∈ log.lines, tag <+: line := by
  have hfree : ∀ line ∈ merged.lines.filter (List.isPrefixOf tag), lineFeed ∉ line :=
    fun line hline => Text.lineFeed_not_mem (List.mem_of_mem_filter hline)
  intro line hline
  rw [← h, selectTagged, Text.lines_ofLines hfree] at hline
  exact List.isPrefixOf_iff_prefix.1 (List.mem_filter.1 hline).2

namespace Session

variable {s : Session} (hon : s.options.verbose = true)

include hon

theorem lines_openingLog : s.openingLog.lines = s.openingWrites.flatMap Text.lines := lines_flatten (writes_ended hon)

/-- **All lines of a log are tagged if and only if the further lines of what it quotes are.** -/
theorem tagged_iff (htag : lineFeed ∉ s.logger.tag) :
    (∀ line ∈ s.openingLog.lines, s.logger.tag <+: line) ↔ s.QuotesTagged := by
  rw [← writes_tagged_iff hon htag, lines_openingLog hon]
  constructor
  · intro h w hw
    exact ⟨writes_ended hon w hw, fun line hline => h line (List.mem_flatMap.2 ⟨w, hw, hline⟩)⟩
  · intro h line hline
    obtain ⟨w, hw, hmem⟩ := List.mem_flatMap.1 hline
    exact (h w hw).tagged line hmem

end Session

/-- **Logs can be told apart if and only if what they quote is tagged.** For accepted requests with different names that log,
and any order in which their writes come to one place: the lines with the tag of each request are its log if and only if the
further lines of the patterns and remarks that are quoted start with the tag, which is when all lines of each log do. They do
for every pattern without line feeds. -/
theorem logs_told_apart_iff {n : Nat} {requests : Fin n → Options} (hvalid : ∀ i, (requests i).validate = .ok ())
    (hverbose : ∀ i, (requests i).verbose = true)
    (hnames : ∀ i j, (requests i).name = (requests j).name → i = j) :
    let session i := Session.start (requests i) (Reading.ofPattern (requests i).pattern)
    (∀ i, (∀ line ∈ (session i).openingLog.lines, (session i).logger.tag <+: line) ↔ (session i).QuotesTagged) ∧
    (∀ i, lineFeed ∉ (requests i).pattern → (session i).QuotesTagged) ∧
    ∀ merged, Interleaved (fun i => (session i).openingWrites) merged →
      ((∀ i, selectTagged (session i).logger.tag merged.flatten = (session i).openingLog) ↔
        ∀ i, (session i).QuotesTagged) := by
  intro session
  have hname : ∀ i, isGoIdentifier (session i).logger.name = true := fun i => (Options.validate_names (hvalid i)).1
  have htag : ∀ i, lineFeed ∉ (session i).logger.tag := fun i => Logger.lineFeed_not_mem_tag (hname i)
  have hlines : ∀ i, (∀ line ∈ (session i).openingLog.lines, (session i).logger.tag <+: line) ↔ (session i).QuotesTagged :=
    fun i => Session.tagged_iff (hverbose i) (htag i)
  refine ⟨hlines, fun i => Session.quotesTagged_of_not_mem, fun merged hmerged => ⟨fun h i => ?_, fun h i => ?_⟩⟩
  · exact (hlines i).1 (tagged_of_select (h i))
  · have hapart : ∀ i j line, (session i).logger.tag <+: line → (session j).logger.tag <+: line → i = j :=
      fun i j line hi hj => hnames i j (Logger.name_eq_of_tags (hname i) (hname j) hi hj)
    have hwrites : ∀ i, ∀ w ∈ (session i).openingWrites, TaggedWrite (session i).logger.tag w :=
      fun i => (Session.writes_tagged_iff (hverbose i) (htag i)).2 (h i)
    rw [selectTagged, hmerged.select hapart hwrites i]
    exact ofLines_lines_flatten (Session.writes_ended (hverbose i))

/-- requests that log: `a\b`, with a remark on the boundary, and `c` -/
def loggedRequests (i : Fin 2) : Options :=
  { pattern := if i = 0 then .ofString "a\\b" else .ofString "c", name := if i = 0 then "A" else "AB", output := "",
    package := "p", runtime := "", scope := .pattern, legacy := false, strict := false, verbose := true }

/-- the second log comes in between the first entry of the first log and the rest of it -/
theorem loggedRequests_told_apart :
    let session i := Session.start (loggedRequests i) (Reading.ofPattern (loggedRequests i).pattern)
    let merged := (session 0).openingWrites.take 1 ++ ((session 1).openingWrites ++ (session 0).openingWrites.drop 1)
    (∀ i, (loggedRequests i).validate = .ok ()) ∧
    (∀ i j, (loggedRequests i).name = (loggedRequests j).name → i = j) ∧
    Interleaved (fun i => (session i).openingWrites) merged ∧
    ∀ i, selectTagged (session i).logger.tag merged.flatten = (session i).openingLog := by
  intro session merged
  have hvalid : ∀ i, (loggedRequests i).validate = .ok () := by decide +kernel
  have hnames : ∀ i j, (loggedRequests i).name = (loggedRequests j).name → i = j := by decide
  have hmerged : Interleaved (fun i => (session i).openingWrites) merged := by
    let writing : Fin 2 → List Text := Function.update (fun i => (session i).openingWrites) 0 ((session 0).openingWrites.drop 1)
    have hsecond : writing 1 = (session 1).openingWrites ++ [] := (List.append_nil _).symm
    have hlast : Interleaved (Function.update writing 1 []) ((session 0).openingWrites.drop 1) := by
      apply Interleaved.last (i := 0)
      intro j hj
      obtain rfl : j = 1 := by omega
      exact Function.update_self _ _ writing
    exact .writes (List.take_append_drop 1 _).symm (.writes hsecond hlast)
  have hfree : ∀ i, lineFeed ∉ (loggedRequests i).pattern := by decide
  obtain ⟨-, hplain, hapart⟩ := logs_told_apart_iff hvalid (fun i => rfl) hnames
  exact ⟨hvalid, hnames, hmerged, (hapart merged hmerged).2 fun i => hplain i (hfree i)⟩

/-- a request for `a`, a line feed and `b` -/
def brokenPattern : Options :=
  { pattern := .ofString "a\nb", name := "A", output := "", package := "p", runtime := "", scope := .pattern,
    legacy := false, strict := false, verbose := true }

/-- the pattern is quoted as it is, and the line that starts with `b` has no tag -/
theorem brokenPattern_line_untagged :
    let s := Session.start brokenPattern (Reading.ofPattern brokenPattern.pattern)
    brokenPattern.validate = .ok () ∧ (¬ ∀ line ∈ s.openingLog.lines, s.logger.tag <+: line) ∧
      selectTagged s.logger.tag s.openingLog ≠ s.openingLog := by
  intro s
  have huntagged : ¬ ∀ line ∈ s.openingLog.lines, s.logger.tag <+: line := by
    intro h
    have hquotes := (Session.tagged_iff rfl (by decide)).1 h
    exact absurd (hquotes.1 (.ofString "b") (by decide)) (by decide)
  exact ⟨by decide +kernel, huntagged, fun h => huntagged (tagged_of_select h)⟩

end MatcherGen
