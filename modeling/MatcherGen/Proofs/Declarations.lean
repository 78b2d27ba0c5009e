/-
The names that the files of one manifest declare in their package. Every file declares a type and a value of it, both named
after its entry. The entries of a manifest are told apart by their output files, not by their names, so two of them can
declare the same name. As long as the files are named after the entries, only few names can meet.

Main statements:
- `Options.file_text_declares`: the declarations in the text of a file;
- `nodup_declared_iff`: when the names declared for some types are different;
- `Manifest.typeNames_apart`: when two entries have types of the same name;
- `declared_names_distinct_iff`: the names that the files of a manifest declare.
-/
import Mathlib.Tactic
import MatcherGen.Proofs.Expansion
import MatcherGen.Session

namespace MatcherGen

/-! ## Declarations -/

/-- the name of the value of a type -/
def valueName (typeName : List Char) : List Char := "Compiled".toList ++ typeName

/-- the names that a part of a file declares in its package: a type, and a value of it -/
def FilePart.declared (p : FilePart) : List (List Char) := [p.typeName, valueName p.typeName]

/-- the names that a file declares in its package -/
def SourceFile.declared (f : SourceFile) : List (List Char) := f.parts.flatMap FilePart.declared

/-- the file that a request makes -/
def Options.file (o : Options) : SourceFile := (Session.start o (Reading.ofPattern o.pattern)).file 1

/-- the declarations of a type and of a value of it, as they are written -/
def declarations (typeName valueName : List Char) : List Char :=
  "type ".toList ++ typeName ++ " struct\x7b\x7d\n\n".toList ++ ("var ".toList ++ valueName) ++ " = ".toList ++ typeName

theorem SourceFile.partText_declares (names : PackageNames) (p : FilePart) :
    declarations p.typeName (valueName p.typeName) <:+: SourceFile.partText names p := by
  have hvar : "var ".toList ++ valueName p.typeName = "var Compiled".toList ++ p.typeName := rfl
  unfold declarations SourceFile.partText
  simp only [hvar, List.append_assoc]
  -- behind the notes, the text starts with them
  refine List.IsInfix.trans (List.IsPrefix.isInfix ?_)
    ((List.suffix_append (gapUnder _) _).trans (List.suffix_append (commentLines 0 _) _)).isInfix
  simp only [List.prefix_append_right_inj]
  exact List.prefix_append _ _

/-- the names that a request declares -/
theorem Options.file_declared (o : Options) :
    o.file.declared = [upperFirst o.name.toList, valueName (upperFirst o.name.toList)] := by
  simp only [Options.file, SourceFile.declared, Session.file, List.replicate_one, List.flatMap_singleton,
    FilePart.declared, Session.part, Session.start]

/-- the declarations stand in the text of the file -/
theorem Options.file_text_declares (o : Options) :
    declarations (upperFirst o.name.toList) (valueName (upperFirst o.name.toList)) <:+: o.file.text := by
  let part := (Session.start o (Reading.ofPattern o.pattern)).part
  have hparts : o.file.parts = [part] := rfl
  refine (SourceFile.partText_declares o.file.packageNames part).trans (List.IsSuffix.isInfix ?_)
  unfold SourceFile.text
  rw [hparts, List.flatMap_singleton]
  exact (List.suffix_cons '\n' _).trans (List.suffix_append _ _)

/-- the type of an entry -/
def Entry.typeName (e : Entry) : List Char := upperFirst e.name.toList

/-! ## Names that meet -/

/-- **Types and values are apart** exactly if no type has the name of another type or of a value. -/
theorem nodup_declared_iff {names : List (List Char)} :
    (names.flatMap fun n => [n, valueName n]).Nodup ↔ names.Nodup ∧ ∀ a ∈ names, ∀ b ∈ names, a ≠ valueName b := by
  have hperm : (names ++ names.map valueName).Perm (names.flatMap fun n => [n, valueName n]) := by
    have := List.flatMap_append_perm names (fun n => [n]) (fun n => [valueName n])
    rwa [← List.map_eq_flatMap, ← List.map_eq_flatMap, List.map_id'] at this
  have hinj : Function.Injective valueName := fun a b hab => List.append_cancel_left hab
  rw [← hperm.nodup_iff, List.nodup_append, List.nodup_map_iff hinj]
  constructor
  · rintro ⟨hnodup, -, hdisjoint⟩
    exact ⟨hnodup, fun a ha b hb => hdisjoint a ha _ (List.mem_map_of_mem hb)⟩
  · rintro ⟨hnodup, hapart⟩
    refine ⟨hnodup, hnodup, fun a ha v hv => ?_⟩
    obtain ⟨b, hb, rfl⟩ := List.mem_map.1 hv
    exact hapart a ha b hb

/-- two texts that are the same once their first characters are in upper case -/
theorem upperFirst_eq_cases {a b : List Char} (h : upperFirst a = upperFirst b) :
    a = b ∨ ∃ c d r, a = c :: r ∧ b = d :: r ∧ upperChar c = upperChar d := by
  cases a with
  | nil =>
    cases b with
    | nil => exact .inl rfl
    | cons d s => exact absurd h (by simp [upperFirst])
  | cons c r =>
    cases b with
    | nil => exact absurd h (by simp [upperFirst])
    | cons d s =>
      obtain ⟨hupper, rfl⟩ := List.cons.inj h
      exact .inr ⟨c, d, r, rfl, rfl, hupper⟩

/-- names that differ in their first letters only, which have one upper case and two lower cases -/
def CaseTwins (a b : List Char) : Prop :=
  ∃ c d r, a = c :: r ∧ b = d :: r ∧ upperChar c = upperChar d ∧ lowerChar c ≠ lowerChar d

theorem Manifest.outputOf_default {m : Manifest} {e : Entry} (h : e.output = "") :
    m.outputOf e = joinPaths [m.dir, m.outputDir, lowerString e.name ++ ".go"] := by simp [Manifest.outputOf, h]

/-- **Two entries have types of the same name** only if one of them has a file of its own choice, or their first letters are
twins. Otherwise they would have the same file. -/
theorem Manifest.typeNames_apart {m : Manifest} (h : (m.entries.map m.outputOf).Nodup) :
    m.entries.Pairwise fun e e' => e.typeName = e'.typeName →
      e.output ≠ "" ∨ e'.output ≠ "" ∨ CaseTwins e.name.toList e'.name.toList := by
  refine (List.pairwise_map.1 h).imp ?_
  intro e e' houtputs htypes
  by_contra hnone
  simp only [not_or, not_not] at hnone
  obtain ⟨he, he', htwins⟩ := hnone
  have hlower : lowerString e.name = lowerString e'.name := by
    unfold lowerString
    rcases upperFirst_eq_cases htypes with heq | ⟨c, d, r, hc, hd, hupper⟩
    · rw [heq]
    · have hcd : lowerChar c = lowerChar d := by
        by_contra hne
        exact htwins ⟨c, d, r, hc, hd, hupper, hne⟩
      rw [hc, hd, List.map_cons, List.map_cons, hcd]
  apply houtputs
  rw [Manifest.outputOf_default he, Manifest.outputOf_default he', hlower]

/-- the character and its upper case have the same lower case -/
def CasesMeet (c : Char) : Prop := lowerChar (upperChar c) = lowerChar c

theorem casesMeet_of_ascii {c : Char} (h : c.toNat < 0x80) : CasesMeet c := by
  have hall : ∀ n : Fin 0x80, lowerChar (upperChar (Char.ofNat n)) = lowerChar (Char.ofNat n) := by decide
  have hc := hall ⟨c.toNat, h⟩
  rwa [Char.ofNat_toNat] at hc

/-- an entry whose file is named after it, with a name that can meet no other -/
structure Entry.Plain (e : Entry) : Prop where
  output : e.output = ""
  letter : ∀ c ∈ e.name.toList.head?, CasesMeet c
  front : ¬ "Compiled".toList <+: e.typeName

theorem Entry.Plain.not_twins {e e' : Entry} (h : e.Plain) (h' : e'.Plain) :
    ¬ CaseTwins e.name.toList e'.name.toList := by
  rintro ⟨c, d, r, hc, hd, hupper, hlower⟩
  have hmeet : CasesMeet c := h.letter c (by simp [hc])
  have hmeet' : CasesMeet d := h'.letter d (by simp [hd])
  apply hlower
  calc lowerChar c = lowerChar (upperChar c) := hmeet.symm
    _ = lowerChar (upperChar d) := by rw [hupper]
    _ = lowerChar d := hmeet'

/-- the names that the files of some requests declare in their package -/
def declaredNames (requests : List Options) : List (List Char) := requests.flatMap fun o => o.file.declared

theorem Manifest.declaredNames_eq (m : Manifest) (scope : FlagScope) :
    declaredNames (m.entries.map (m.request scope)) =
      (m.entries.map Entry.typeName).flatMap fun n => [n, valueName n] := by
  simp only [declaredNames, List.flatMap_map, Options.file_declared]
  rfl

/-- **The names that the files of a manifest declare.** For every manifest that becomes requests: the files declare the type
and the value of every entry, and the declarations stand in their texts. These names are different if and only if no two
entries have types of the same name and no type has the name of a value. Two entries have types of the same name only if
one of them chooses its own file, or their first letters have one upper case and two lower cases. So the names are
different if every entry leaves the file to its name, starts with a letter whose cases meet, as all of ASCII do, and has
no name that starts like that of a value. -/
theorem declared_names_distinct_iff {m : Manifest} {requests : List Options} (h : m.options = .ok requests) :
    declaredNames requests = (m.entries.flatMap fun e => [e.typeName, valueName e.typeName]) ∧
    (∀ o ∈ requests, declarations (upperFirst o.name.toList) (valueName (upperFirst o.name.toList)) <:+: o.file.text) ∧
    ((declaredNames requests).Nodup ↔
      (m.entries.map Entry.typeName).Nodup ∧
        ∀ e ∈ m.entries, ∀ e' ∈ m.entries, e.typeName ≠ valueName e'.typeName) ∧
    (m.entries.Pairwise fun e e' => e.typeName = e'.typeName →
      e.output ≠ "" ∨ e'.output ≠ "" ∨ CaseTwins e.name.toList e'.name.toList) ∧
    ((∀ e ∈ m.entries, e.Plain) → (declaredNames requests).Nodup) := by
  obtain ⟨scope, -, rfl, -, houtputs⟩ := Manifest.options_ok_iff.1 h
  have happart := Manifest.typeNames_apart houtputs
  have hiff : (declaredNames (m.entries.map (m.request scope))).Nodup ↔
      (m.entries.map Entry.typeName).Nodup ∧
        ∀ e ∈ m.entries, ∀ e' ∈ m.entries, e.typeName ≠ valueName e'.typeName := by
    rw [Manifest.declaredNames_eq, nodup_declared_iff]
    simp
  refine ⟨?_, ?_, hiff, happart, ?_⟩
  · rw [Manifest.declaredNames_eq, List.flatMap_map]
  · intro o _
    exact o.file_text_declares
  · intro hplain
    refine hiff.2 ⟨?_, ?_⟩
    · rw [List.Nodup, List.pairwise_map]
      refine happart.imp_of_mem ?_
      intro e e' he he' hmeet heq
      rcases hmeet heq with hown | hown | htwins
      · exact hown (hplain e he).output
      · exact hown (hplain e' he').output
      · exact (hplain e he).not_twins (hplain e' he') htwins
    · intro e he e' _ heq
      exact (hplain e he).front (heq ▸ List.prefix_append _ _)

/-- a manifest of entries with names and files -/
def namedManifest (entries : List (String × String)) : Manifest :=
  { Manifest.empty with entries := entries.map fun e => ⟨e.1, Text.ofString "x", e.2, none⟩ }

theorem plainNames_distinct :
    (∀ e ∈ (namedManifest [("email", ""), ("Date", "")]).entries, e.Plain) ∧
    ∃ requests, (namedManifest [("email", ""), ("Date", "")]).options = .ok requests ∧ (declaredNames requests).Nodup := by
  have hoptions : (namedManifest [("email", ""), ("Date", "")]).options = .ok
      [⟨Text.ofString "x", "email", "email.go", "main", "", .pattern, false, false, false⟩,
        ⟨Text.ofString "x", "Date", "date.go", "main", "", .pattern, false, false, false⟩] := by decide +kernel
  have hplain : ∀ e ∈ (namedManifest [("email", ""), ("Date", "")]).entries, e.Plain := by
    have hascii : ∀ c : Char, c = 'e' ∨ c = 'D' → CasesMeet c := by
      rintro c (rfl | rfl) <;> exact casesMeet_of_ascii (by decide)
    intro e he
    simp only [namedManifest, List.map_cons, List.map_nil, List.mem_cons, List.not_mem_nil, or_false] at he
    rcases he with rfl | rfl
    · exact ⟨rfl, fun c hc => hascii c (.inl (Option.some.inj hc).symm), by decide⟩
    · exact ⟨rfl, fun c hc => hascii c (.inr (Option.some.inj hc).symm), by decide⟩
  exact ⟨hplain, _, hoptions, (declared_names_distinct_iff hoptions).2.2.2.2 hplain⟩

/-- the manifest becomes requests whose files declare a name twice -/
def Manifest.Clashes (m : Manifest) : Prop := ∃ requests, m.options = .ok requests ∧ ¬ (declaredNames requests).Nodup

theorem Manifest.clashes_of_typeNames {m : Manifest} (h : m.options.isOk = true)
    (hnames : ¬ ((m.entries.map Entry.typeName).flatMap fun n => [n, valueName n]).Nodup) : m.Clashes := by
  cases hoptions : m.options with
  | error why =>
    rw [hoptions] at h
    exact absurd h (by simp [Except.isOk, Except.toBool])
  | ok requests =>
    obtain ⟨scope, -, rfl, -⟩ := Manifest.options_ok_iff.1 hoptions
    rw [← Manifest.declaredNames_eq m scope] at hnames
    exact ⟨_, hoptions, hnames⟩

/-- **The files of one manifest can declare a name twice**: if two names differ in the case of the first letter and the
files are chosen, if one name is that of the value of another, and if two letters have one upper case. -/
theorem names_can_meet :
    (namedManifest [("A", "a.go"), ("a", "b.go")]).Clashes ∧ (namedManifest [("A", ""), ("CompiledA", "")]).Clashes ∧
      (namedManifest [("i", ""), ("ı", "")]).Clashes := by
  refine ⟨?_, ?_, ?_⟩ <;> exact Manifest.clashes_of_typeNames (by decide +kernel) (by decide +kernel)

end MatcherGen
