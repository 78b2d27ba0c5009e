/-
When a request comes to code. The options of an accepted request are names, so they cannot spoil the code; the pattern
reaches it as literals, which are quoted, and as comments, which are not. So code comes out exactly if no glyph of the
pattern is one that no source file may hold: a NUL, a byte order mark or a stray byte. All other text of the file is scanned
to its end.

Main statements:
- `SourceFile.text_skips`: a file with proper names and comment lines is scanned to its end;
- `firstIllegal_firstLine`: a file is refused for the first illegal glyph of its pattern;
- `translation_fails_only_on_illegal_glyphs`: both together.

That a translation may fail at all is not what its description says; `nul_pattern_is_refused` is one that does.
-/
import MatcherGen.Proofs.Lexing

namespace MatcherGen

/-! ## Names -/

theorem isLegal_of_table {table : RangeTable} (h : table.holds 0xfeff = false) {c : Char} (hwide : 0x80 ≤ c.toNat)
    (hc : table.holds c.toNat = true) : isLegal c = true := by
  have hmark : c.toNat ≠ 0xfeff := by
    intro heq
    rw [heq, h] at hc
    exact absurd hc (by simp)
  have hzero : c.toNat ≠ 0 := by omega
  simp [isLegal, Glyph.illegal?, hmark, hzero]

theorem isCode_of_wide {c : Char} (hlegal : isLegal c = true) (hwide : 0x80 ≤ c.toNat) : IsCode c :=
  ⟨hlegal, by simp [isCodeChar, hwide]⟩

theorem isLetter_isCode {c : Char} (h : isLetter c = true) : IsCode c := by
  unfold isLetter at h
  split_ifs at h with hascii
  · exact asciiLetter_isCode h
  · exact isCode_of_wide (isLegal_of_table (by decide +kernel) (not_lt.1 hascii) h) (not_lt.1 hascii)

theorem isNameChar_isCode {c : Char} (h : isNameChar c = true) : IsCode c := by
  simp only [isNameChar, Bool.or_eq_true, beq_iff_eq] at h
  rcases h with (rfl | hletter) | hdigit
  · decide
  · exact isLetter_isCode hletter
  · unfold isDigit at hdigit
    split_ifs at hdigit with hascii
    · exact asciiDigit_isCode hdigit
    · exact isCode_of_wide (isLegal_of_table (by decide +kernel) (not_lt.1 hascii) hdigit) (not_lt.1 hascii)

/-- a name has letters, digits and underscores only -/
theorem isGoIdentifier_isNameChar {name : String} (h : isGoIdentifier name = true) :
    ∀ c ∈ name.toList, isNameChar c = true := by
  unfold isGoIdentifier at h
  split at h
  · exact absurd h (by simp)
  · rename_i c r hname
    simp only [Bool.and_eq_true, Bool.or_eq_true, beq_iff_eq, List.all_eq_true] at h
    obtain ⟨⟨hfirst, hrest⟩, -⟩ := h
    rw [hname]
    intro x hx
    rcases List.mem_cons.1 hx with rfl | hx
    · simpa [isNameChar] using Or.inl hfirst
    · exact hrest x hx

theorem isGoIdentifier_isCode {name : String} (h : isGoIdentifier name = true) : ∀ c ∈ name.toList, IsCode c :=
  fun c hc => isNameChar_isCode (isGoIdentifier_isNameChar h c hc)

/-- where a run of case pairs leads: to letters of ASCII, or to scalars beyond it that may stand in a file -/
def CaseRun.leadsToCode (r : CaseRun) : Bool :=
  let lo := r.first + r.shift
  let hi := r.last + r.shift
  (r.first == r.last && isAsciiLetter (Char.ofNat lo.toNat)) ||
    (0x80 ≤ lo && (hi < 0xd800 || (0xdfff < lo && hi < 0xfeff) || (0xfeff < lo && hi < 0x110000)))

theorem upperRuns_leadToCode : ∀ r ∈ upperRuns, r.leadsToCode = true := by decide +kernel

theorem CaseRun.isCode_of_leadsToCode {r : CaseRun} (h : r.leadsToCode = true) {n : Nat} (hlo : r.first ≤ n)
    (hhi : n ≤ r.last) : IsCode (Char.ofNat (n + r.shift).toNat) := by
  simp only [CaseRun.leadsToCode, Bool.or_eq_true, Bool.and_eq_true, beq_iff_eq, decide_eq_true_eq] at h
  rcases h with ⟨hsingle, hletter⟩ | ⟨hwide, hscalar⟩
  · obtain rfl : n = r.first := by omega
    exact asciiLetter_isCode hletter
  · have hvalid : (n + r.shift).toNat.isValidChar := by
      unfold Nat.isValidChar
      omega
    have hnat : (Char.ofNat (n + r.shift).toNat).toNat = (n + r.shift).toNat := by
      rw [Char.ofNat, dif_pos hvalid]
      rfl
    have hmark : (Char.ofNat (n + r.shift).toNat).toNat ≠ 0xfeff := by omega
    have hzero : (Char.ofNat (n + r.shift).toNat).toNat ≠ 0 := by omega
    refine isCode_of_wide ?_ (by omega)
    simp [isLegal, Glyph.illegal?, hmark, hzero]

theorem upperChar_isCode {c : Char} (h : IsCode c) : IsCode (upperChar c) := by
  unfold upperChar
  split_ifs with hascii
  · have hall : ∀ n : Fin 128, IsCode (Char.ofNat n) → IsCode (Char.ofNat n).toUpper := by decide +kernel
    have hc := hall ⟨c.toNat, hascii⟩
    rw [Char.ofNat_toNat] at hc
    exact hc h
  · unfold mapCase
    split
    · rename_i r hr
      have hcovers := List.find?_some hr
      simp only [Bool.and_eq_true, decide_eq_true_eq] at hcovers
      exact CaseRun.isCode_of_leadsToCode (upperRuns_leadToCode r (List.mem_of_find?_eq_some hr)) hcovers.1.1 hcovers.1.2
    · rwa [Char.ofNat_toNat]

theorem upperFirst_isCode {name : List Char} (h : ∀ c ∈ name, IsCode c) : ∀ c ∈ upperFirst name, IsCode c := by
  cases name with
  | nil => exact h
  | cons c r =>
    intro x hx
    rcases List.mem_cons.1 hx with rfl | hx
    · exact upperChar_isCode (h c List.mem_cons_self)
    · exact h x (List.mem_cons_of_mem c hx)

theorem Options.validate_names {o : Options} (h : o.validate = .ok ()) :
    isGoIdentifier o.name = true ∧ isGoIdentifier o.package = true := by
  unfold Options.validate at h
  split_ifs at h with h1 h2 h3 h4
  simp only [Bool.or_eq_true, not_or, Bool.not_eq_true', Bool.not_eq_false] at h2 h4
  exact ⟨h2.1, h4⟩

/-! ## Files -/

theorem gapUnder_skips (lines : List (List Char)) : Skips (SourceFile.gapUnder lines) := by
  unfold SourceFile.gapUnder
  split
  · split_ifs
    · exact fun _ _ => rfl
    · exact .of_run run_newline
  · exact fun _ _ => rfl

/-- a part of a file whose name is a name and whose texts fit on comment lines -/
structure FilePart.Proper (s : List Char) (p : FilePart) : Prop where
  header : ∀ c ∈ p.header.chars, InComment c
  notes : ∀ t ∈ p.notes, ∀ c ∈ t.chars, InComment c
  typeName : ∀ c ∈ p.typeName, IsCode c
  doc : ∀ c ∈ p.doc.chars, InComment c
  body : Stmt.AllSayOnly s p.body

section Parts

variable {s : List Char} (hs : ∀ c ∈ s, isLegal c = true)

include hs

theorem block_skips {names : PackageNames} (hnames : names.Skip) (indent : Nat) {b : Block} (hb : Stmt.AllSayOnly s b) :
    Skips (Block.text names indent b) := by
  apply Skips.of_run
  intro base rest
  exact Scanner.run_append (Stmt.layoutBlock_skips hnames hs indent (by simp) b hb base []) rest

/-- **A part of a file is scanned to its end.** -/
theorem partText_skips {names : PackageNames} (hnames : names.Skip) {p : FilePart} (hp : p.Proper s) :
    Skips (SourceFile.partText names p) := by
  have hword : ∀ {w : String}, Scanner.run ⟨.code, []⟩ w.toList = some ⟨.code, []⟩ → Skips w.toList := Leads.fixed
  have hnotes : ∀ l ∈ p.notes.map (fun t => commentLine t.chars), IsCommentLine l := by
    intro l hl
    obtain ⟨t, ht, rfl⟩ := List.mem_map.1 hl
    exact commentLine_isCommentLine (hp.notes t ht)
  have hdoc : ∀ l ∈ docLines [commentLine p.doc.chars], IsCommentLine l := by
    refine docLines_isCommentLine fun l hl => ?_
    rw [List.mem_singleton.1 hl]
    exact commentLine_isCommentLine hp.doc
  have hname : Skips p.typeName := .code hp.typeName
  have hcreate : Stmt.AllSayOnly s [.define [.matcher] (.newMatcher (.name .input))] := ⟨trivial, trivial⟩
  have hcall : Stmt.AllSayOnly s [.ret (.method .runMatch [.thunk p.body])] := ⟨⟨hp.body, trivial⟩, trivial⟩
  -- the declarations close their brackets
  have htype := ((((commentLines_skips 0 hnotes).append (gapUnder_skips (p.notes.map fun t => commentLine t.chars))).append
    (hword (w := "type ") (by decide))).append hname).append
    (hword (w := " struct\x7b\x7d\n\n") (by decide))
  have hvalue := ((((htype.append (hword (w := "var Compiled") (by decide))).append hname).append
    (hword (w := " = ") (by decide))).append hname).append
    (hword (w := "\x7b\x7d\n\n") (by decide))
  -- the method leaves its brace open until its end
  have hreceiver : Leads [] [')'] "func (".toList := .fixed (by decide)
  have hsignature : Leads [')'] ['}'] ") MatchString(input string) bool \x7b\n".toList := .fixed (by decide)
  have hend : Leads ['}'] [] "\x7d\n".toList := .fixed (by decide)
  have hmethod := (((hvalue.append (commentLines_skips 0 hdoc)).append hreceiver).append hname.leads).append hsignature
  have hblank : Skips ['\n'] := .of_run run_newline
  have hwhole := (((hmethod.append (block_skips hs hnames 1 hcreate).leads).append hblank.leads).append
    (block_skips hs hnames 1 hcall).leads).append hend
  exact hwhole

end Parts

theorem SourceFile.text_ne_nil (f : SourceFile) : f.text ≠ [] := by
  intro h
  simp only [SourceFile.text, List.append_eq_nil_iff] at h
  exact absurd h.1.1.1.1.2 (by decide)

/-! ### The default runtime -/

section DefaultRuntime

variable {f : SourceFile} (hf : f.runtime = defaultRuntime.toList)

include hf

theorem packageNames_default : f.packageNames = ⟨runtimeAlias, testsPath⟩ := by
  have hforeign : (defaultRuntime.toList == foreignPath) = false := by decide
  have htests : (defaultRuntime.toList == testsPath) = false := by decide
  simp only [SourceFile.packageNames, hf, hforeign, htests, Bool.false_eq_true, if_false]

theorem imports_skips : Skips f.imports := by
  have hforeign : (defaultRuntime.toList == foreignPath) = false := by decide
  have horder : defaultRuntime.toList < testsPath := by decide
  have himport : f.runtimeImport = runtimeAlias ++ [' '] ++ quoted defaultRuntime.toList := by
    simp only [SourceFile.runtimeImport, hf, hforeign, Bool.false_eq_true, if_false]
  unfold SourceFile.imports
  dsimp only
  rw [himport, hf, if_pos horder]
  split_ifs
  · exact .fixed (by decide)
  · exact .fixed (by decide)

/-- **A file with proper names and comment lines is scanned to its end.** -/
theorem SourceFile.text_skips {s : List Char} (hs : ∀ c ∈ s, isLegal c = true) (hpackage : ∀ c ∈ f.package, IsCode c)
    (hparts : ∀ p ∈ f.parts, p.Proper s) : Skips f.text := by
  have hword : ∀ {w : String}, Scanner.run ⟨.code, []⟩ w.toList = some ⟨.code, []⟩ → Skips w.toList := Leads.fixed
  have hnames : f.packageNames.Skip := by
    rw [packageNames_default hf]
    exact ⟨.fixed (by decide), .fixed (by decide)⟩
  have hheaders : ∀ l ∈ f.parts.map (fun p => commentLine p.header.chars), IsCommentLine l := by
    intro l hl
    obtain ⟨p, hp, rfl⟩ := List.mem_map.1 hl
    exact commentLine_isCommentLine (hparts p hp).header
  have hbodies : Skips (f.parts.flatMap fun p => '\n' :: SourceFile.partText f.packageNames p) := by
    refine .flatMap fun p hp => .of_run fun base rest => ?_
    rw [List.cons_append, run_newline]
    exact (partText_skips hs hnames (hparts p hp)).run base rest
  exact ((((((commentLines_skips 0 hheaders).append (gapUnder_skips _)).append (hword (by decide))).append
    (Skips.code hpackage)).append (hword (by decide))).append (imports_skips hf)).append hbodies

end DefaultRuntime

/-! ## Matchers -/

theorem inComment_append {a b : Text} (ha : ∀ c ∈ a.chars, InComment c) (hb : ∀ c ∈ b.chars, InComment c) :
    ∀ c ∈ (a ++ b).chars, InComment c := by
  intro c hc
  rw [Text.chars, List.map_append] at hc
  rcases List.mem_append.1 hc with hc | hc
  · exact ha c hc
  · exact hb c hc

theorem ofString_inComment {w : String} (h : w.toList.all isPrintable = true) :
    ∀ c ∈ (Text.ofString w).chars, InComment c := by
  intro c hc
  rw [Text.ofString, Text.chars_ofChars] at hc
  exact .printable (List.all_eq_true.1 h c hc)

theorem decimal_madeOf (q : List Char) (n : Int) : MadeOf q (decimal n) := by
  intro c hc
  have hnumber := decimal_isNumberChar n c hc
  simp only [isNumberChar, Bool.or_eq_true, beq_iff_eq] at hnumber
  rcases hnumber with rfl | hdigit
  · exact Or.inl (by decide)
  · have hdigit' : isAsciiDigit c = true := hdigit
    simp only [isAsciiDigit, Bool.and_eq_true, decide_eq_true_eq] at hdigit'
    have hlo : '0'.toNat ≤ c.toNat := hdigit'.1
    have hhi : c.toNat ≤ '9'.toNat := hdigit'.2
    have hrange : 0x30 ≤ c.toNat ∧ c.toNat ≤ 0x39 := ⟨hlo, hhi⟩
    refine Or.inl ?_
    rw [isPrintable, if_pos (by omega)]
    simp only [Bool.and_eq_true, decide_eq_true_eq]
    omega

/-- a remark as one line quotes what its message quotes -/
theorem Diagnostic.Quotes.line_madeOf {s : List Char} {d : Diagnostic} (h : d.Quotes s) : MadeOf s d.line :=
  (((MadeOf.wording (by decide)).append (decimal_madeOf s d.offset)).append
    (.wording (by decide))).append h.message_madeOf

/-- **The notes of a reading fit on comment lines**, if all characters of the pattern may stand in a file. -/
theorem Reading.notes_inComment {pattern : Text} (h : ∀ c ∈ pattern.chars, isLegal c = true) (nested : Bool) :
    ∀ t ∈ (Reading.ofPattern pattern).notes nested, ∀ c ∈ t.chars, InComment c := by
  intro t ht
  simp only [Reading.notes, List.mem_append] at ht
  rcases ht with (hleft | hremark) | hwarning
  · -- input left over is quoted
    split_ifs at hleft
    · exact absurd hleft (by simp)
    · rw [List.mem_singleton.1 hleft, Text.chars_ofChars]
      have hquoted : MadeOf [] (quoted (Reading.ofPattern pattern).leftover) :=
        fun c hc => Or.inl (quoted_printable _ c hc)
      have hmade : MadeOf [] ("unconsumed input at offset ".toList ++ decimal (Reading.ofPattern pattern).offset ++
          ": ".toList ++ quoted (Reading.ofPattern pattern).leftover) :=
        (((MadeOf.wording (by decide)).append (decimal_madeOf [] _)).append
          (.wording (by decide))).append hquoted
      exact fun c hc => (hmade c hc).elim .printable fun hmem => absurd hmem (by simp)
  · obtain ⟨d, hd, rfl⟩ := List.mem_map.1 hremark
    apply commentText_inComment
    rw [Text.chars_ofChars]
    intro c hc
    have hline := (Reading.diagnostics_quote pattern d (List.mem_of_mem_filter hd)).line_madeOf c hc
    exact hline.elim isPrintable_legal (h c)
  · split_ifs at hwarning
    · rw [List.mem_singleton.1 hwarning]
      exact ofString_inComment (by decide)
    · exact absurd hwarning (by simp)

/-- a matcher for a pattern without illegal glyphs is a proper part of a file -/
theorem Session.part_proper {o : Options} (hvalid : o.validate = .ok ())
    (h : ∀ c ∈ o.pattern.chars, isLegal c = true) :
    (Session.start o (Reading.ofPattern o.pattern)).part.Proper o.pattern.chars where
  header := inComment_append (inComment_append (ofString_inComment (by decide)) (commentText_inComment h))
    (ofString_inComment (by decide))
  notes := Reading.notes_inComment h _
  typeName := upperFirst_isCode (isGoIdentifier_isCode (Options.validate_names hvalid).1)
  doc := inComment_append (inComment_append (ofString_inComment (by decide)) (commentText_inComment h))
    (ofString_inComment (by decide))
  body := Session.body_comments o

/-! ## Refusal -/

theorem map_snd_firstIllegal (column : Nat) (t : Text) :
    (firstIllegal column t).map Prod.snd = t.findSome? Glyph.illegal? := by
  induction t generalizing column with
  | nil => rfl
  | cons g r ih =>
    rw [firstIllegal, List.findSome?_cons]
    cases hg : g.illegal? with
    | none => exact ih _
    | some why => rfl

theorem findSome?_illegal_commentText (t : Text) :
    (commentText t).findSome? Glyph.illegal? = t.findSome? Glyph.illegal? := by
  fun_induction commentText t with
  | case1 => rfl
  | case2 r ih | case3 r ih => exact ih
  | case4 r ih => exact ih
  | case5 g r _ _ _ ih => rw [List.findSome?_cons, List.findSome?_cons, ih]

theorem findSome?_illegal_ofString {w : String} (h : w.toList.all isPrintable = true) :
    (Text.ofString w).findSome? Glyph.illegal? = none := by
  rw [List.findSome?_eq_none_iff]
  intro g hg
  obtain ⟨c, hc, rfl⟩ := List.mem_map.1 hg
  have hlegal := isPrintable_legal (List.all_eq_true.1 h c hc)
  exact Option.isNone_iff_eq_none.1 hlegal

/-- **A file is refused for the first illegal glyph of its pattern.** -/
theorem firstIllegal_firstLine (s : Session) :
    (firstIllegal 1 (s.file 1).firstLine).map Prod.snd = s.options.pattern.findSome? Glyph.illegal? := by
  have hline : (s.file 1).firstLine = Text.ofString "// " ++ (Text.ofString "Code generated by regcps for pattern: " ++
      commentText s.options.pattern ++ Text.ofString ". DO NOT EDIT.") := rfl
  rw [map_snd_firstIllegal, hline, List.findSome?_append, List.findSome?_append, List.findSome?_append,
    findSome?_illegal_commentText, findSome?_illegal_ofString (by decide),
    findSome?_illegal_ofString (by decide), findSome?_illegal_ofString (by decide)]
  simp

theorem isLegal_of_findSome? {t : Text} (h : t.findSome? Glyph.illegal? = none) : ∀ c ∈ t.chars, isLegal c = true := by
  intro c hc
  obtain ⟨g, hg, rfl⟩ := List.mem_map.1 hc
  have hnone := List.findSome?_eq_none_iff.1 h g hg
  cases g with
  | scalar c => exact Option.isNone_iff_eq_none.2 hnone
  | stray b => exact absurd hnone (by simp [Glyph.illegal?])

/-! ## Translation -/

/-- a new session without an output file gives the text of its file, unless that is refused -/
theorem Session.generate_text {s : Session} (hnew : s.generated = 0) (hout : s.options.output = "") (d : Disk) :
    (s.generate d).2 =
      match (s.file 1).render with
      | .error e => .error (.render e)
      | .ok code => .ok (code, d) := by
  simp only [Session.generate, Session.render, hnew]
  cases (s.file 1).render with
  | error e => simp [hout]
  | ok code => simp [Session.deliver, hout]

/-- an accepted request as text: the file, unless it is refused -/
theorem Options.compileText_outcome {o : Options} (hvalid : o.validate = .ok ()) (d : Disk) :
    (o.compileText d).outcome =
      match ((Session.start o (Reading.ofPattern o.pattern)).file 1).render with
      | .error e => .error (.generate (.render e))
      | .ok code => .ok (code, d) := by
  have hvalid' : ({ o with output := "" } : Options).validate = .ok () := hvalid
  simp only [Options.compileText, Options.compile, hvalid']
  -- the output file is no part of the text
  have hsame : (Session.start { o with output := "" } (Reading.ofPattern o.pattern)).file 1 =
      (Session.start o (Reading.ofPattern o.pattern)).file 1 := rfl
  rw [Session.generate_text rfl rfl, hsame]
  cases ((Session.start o (Reading.ofPattern o.pattern)).file 1).render with
  | error e => rfl
  | ok code => rfl

/-- **A translation fails only on a glyph that no source file may hold.** For an accepted request with the default
runtime, whatever its switches: if the pattern has no such glyph, text comes out, and the text is not empty and is scanned to
its end; otherwise the file is refused for the first of them. -/
theorem translation_fails_only_on_illegal_glyphs (o : Options) (hvalid : o.validate = .ok ()) (hruntime : o.runtime = "")
    (d : Disk) :
    match o.pattern.findSome? Glyph.illegal? with
    | none => ∃ code, (o.compileText d).outcome = .ok (code, d) ∧ code ≠ [] ∧ scans code = true
    | some cause => ∃ column, (o.compileText d).outcome = .error (.generate (.render ⟨column, cause⟩)) := by
  let file := (Session.start o (Reading.ofPattern o.pattern)).file 1
  have hline : (firstIllegal 1 file.firstLine).map Prod.snd = o.pattern.findSome? Glyph.illegal? :=
    firstIllegal_firstLine (Session.start o (Reading.ofPattern o.pattern))
  rw [Options.compileText_outcome hvalid d]
  cases hglyph : o.pattern.findSome? Glyph.illegal? with
  | some cause =>
    rw [hglyph] at hline
    obtain ⟨⟨column, cause'⟩, hfirst, rfl⟩ := Option.map_eq_some_iff.1 hline
    have hrender : file.render = .error ⟨column, cause'⟩ := by rw [SourceFile.render, hfirst]
    exact ⟨column, by rw [hrender]⟩
  | none =>
    rw [hglyph] at hline
    have hlegal := isLegal_of_findSome? hglyph
    have hrender : file.render = .ok file.text := by rw [SourceFile.render, Option.map_eq_none_iff.1 hline]
    have hdefault : file.runtime = defaultRuntime.toList := by
      simp [file, Session.file, Session.start, hruntime]
    have hscans : Skips file.text := by
      refine SourceFile.text_skips hdefault hlegal (isGoIdentifier_isCode (Options.validate_names hvalid).2) ?_
      intro p hp
      rw [List.mem_singleton.1 hp]
      exact Session.part_proper hvalid hlegal
    exact ⟨file.text, by rw [hrender], SourceFile.text_ne_nil file, hscans.scans⟩

/-- a request for a pattern with a line break, quotes, a look-ahead and input left over -/
def awkwardRequest : Options :=
  { pattern := Text.ofString "(?=\n)\"é*/)", name := "größe", output := "", package := "p", runtime := ""
    scope := .positional, legacy := true, strict := false, verbose := false }

/-- the text of the awkward request is scanned to its end -/
theorem awkwardRequest_scans :
    awkwardRequest.validate = .ok () ∧ awkwardRequest.runtime = "" ∧
      ∃ code, (awkwardRequest.compileText (.empty [])).outcome = .ok (code, .empty []) ∧ code ≠ [] ∧ scans code = true := by
  have hvalid : awkwardRequest.validate = .ok () := by decide +kernel
  have hlegal : awkwardRequest.pattern.findSome? Glyph.illegal? = none := by decide +kernel
  have htranslation := translation_fails_only_on_illegal_glyphs awkwardRequest hvalid rfl (.empty [])
  rw [hlegal] at htranslation
  exact ⟨hvalid, rfl, htranslation⟩

/-- **Not every accepted request comes to code**: a NUL in the pattern is refused in the first line of the file. -/
theorem nul_pattern_is_refused :
    let o : Options := { awkwardRequest with pattern := [.scalar 'a', .scalar (Char.ofNat 0)], name := "A" }
    o.validate = .ok () ∧ o.runtime = "" ∧
      (o.compileText (.empty [])).outcome = .error (.generate (.render ⟨43, .nul⟩)) := by
  intro o
  have hvalid : o.validate = .ok () := by decide +kernel
  have hfirst : firstIllegal 1 ((Session.start o (Reading.ofPattern o.pattern)).file 1).firstLine = some (43, .nul) := by
    decide +kernel
  refine ⟨hvalid, rfl, ?_⟩
  rw [Options.compileText_outcome hvalid, SourceFile.render, hfirst]

end MatcherGen
