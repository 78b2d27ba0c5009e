/-
Modes of emission act only on the constructs they name. Legacy choices concern choices, strict stubs concern stubs, and the
flag scope concerns literals and dots whose stamps differ from the switches at the end of the pattern. Two styles that agree
on the nodes of a tree make the same code from it, names and all: the numbers that are handed out and the continuations
that are made on demand are the same.

Main statements:
- `Node.WellFormed.emit_congr`: two styles that agree on a tree make the same code for it;
- `Options.outcome_congr`: two requests that differ in such modes alone come to the same;
- `Reader.Settled.step`: while switches are turned on only before there is a stamp, every stamp is the switch as it stands;
- `modes_keep_to_their_constructs`: what the three modes leave alone.
-/
import MatcherGen.Proofs.Switches
import MatcherGen.Proofs.Translation
import MatcherGen.Proofs.WellFormed

namespace MatcherGen

/-! ## Styles that agree on a tree -/

/-- wherever a node of the tree asks the style for something, both styles answer the same -/
structure Style.AgreeOn (c c' : Style) (x : Node) : Prop where
  choice : ∀ arms, .alt arms ∈ x.nodes → c.legacy = c'.legacy
  stub : ∀ message, .stub message ∈ x.nodes → c.strict = c'.strict
  lit : ∀ text stamp, .lit text stamp ∈ x.nodes → c.fold stamp = c'.fold stamp
  dot : ∀ stamp, .dot stamp ∈ x.nodes → c.dotAll stamp = c'.dotAll stamp

variable {c c' : Style}

theorem Style.AgreeOn.of_subset {x y : Node} (h : c.AgreeOn c' x) (hsub : y.nodes ⊆ x.nodes) :
    c.AgreeOn c' y where
  choice arms hz := h.choice arms (hsub hz)
  stub message hz := h.stub message (hsub hz)
  lit text stamp hz := h.lit text stamp (hsub hz)
  dot stamp hz := h.dot stamp (hsub hz)

theorem Node.emitSeq_congr {l : List Node} (h : ∀ x ∈ l, ∀ d k, x.emit c d k = x.emit c' d k) (d : Nat) (k : Cont) :
    Node.emitSeq c d l k = Node.emitSeq c' d l k := by
  induction l with
  | nil => rfl
  | cons x r ih =>
    have hrest := ih fun y hy => h y (List.mem_cons_of_mem x hy)
    have hx := h x List.mem_cons_self d
    cases r with
    | nil => exact hx k
    | cons y r =>
      simp only [Node.emitSeq] at hrest ⊢
      rw [hx, hrest]

theorem Node.emitArms_congr {l : List Node} (h : ∀ x ∈ l, ∀ d k, x.emit c d k = x.emit c' d k) (d : Nat) (k : Cont) :
    Node.emitArms c d l k = Node.emitArms c' d l k := by
  induction l with
  | nil => rfl
  | cons x r ih =>
    have hrest := ih fun y hy => h y (List.mem_cons_of_mem x hy)
    simp only [Node.emitArms]
    rw [h x List.mem_cons_self d k, hrest]

/-- **Styles that agree on a tree make the same code for it**, whatever follows and whatever numbers are taken. -/
theorem Node.WellFormed.emit_congr {x : Node} (h : x.WellFormed) (hagree : c.AgreeOn c' x) (d : Nat) (k : Cont) :
    x.emit c d k = x.emit c' d k := by
  induction h generalizing d k with
  | seq children _ ih =>
    have hchildren : ∀ y ∈ children, ∀ d k, y.emit c d k = y.emit c' d k :=
      fun y hy => ih y hy (hagree.of_subset (Node.nodes_subset_seq hy))
    simp only [Node.emit]
    exact Node.emitSeq_congr hchildren d k
  | alt arms _ _ _ ih =>
    have harms : ∀ y ∈ arms, ∀ d k, y.emit c d k = y.emit c' d k :=
      fun y hy => ih y hy (hagree.of_subset (Node.nodes_subset_alt hy))
    have hlegacy : c.legacy = c'.legacy := hagree.choice arms (by simp)
    have htries : Node.emitArms c d arms = Node.emitArms c' d arms := funext (Node.emitArms_congr harms d)
    rw [Node.emit_alt, Node.emit_alt, htries]
    unfold emitChoice
    rw [hlegacy]
  | group inner capturing name _ _ _ _ ih =>
    simp only [Node.emit]
    exact ih (hagree.of_subset (by simp)) d k
  | lit text fold _ =>
    have hfold : c.fold fold = c'.fold fold := hagree.lit text fold (by simp [Node.nodes, Node.visit])
    simp only [Node.emit, emitLiteral, hfold]
  | dot dotAll =>
    have hdot : c.dotAll dotAll = c'.dotAll dotAll := hagree.dot dotAll (by simp [Node.nodes, Node.visit])
    simp only [Node.emit, emitDot, hdot]
  | anchor | cls | esc => simp only [Node.emit]
  | rep atom q _ _ hq ih =>
    have hatom := ih (hagree.of_subset (by simp)) (d + 1) (.named (.next (d + 1)))
    -- without a driver a repetition would be a stub, and the tree would not show that
    obtain ⟨m, bounds, hdriver⟩ := hq.driver
    simp only [Node.emit, hatom, hdriver]
  | stub message =>
    have hstrict : c.strict = c'.strict := hagree.stub message (by simp [Node.nodes, Node.visit])
    simp only [Node.emit]
    unfold emitStub
    rw [hstrict]

/-! ## Requests -/

/-- how the code of a request is emitted -/
def Options.style (o : Options) : Style := (Session.start o (Reading.ofPattern o.pattern)).style

theorem Options.compileText_refused {o : Options} {e : OptionsError} (h : o.validate = .error e) (d : Disk) :
    (o.compileText d).outcome = .error (.options e) := by
  have hrefused : ({ o with output := "" } : Options).validate = .error e := h
  simp only [Options.compileText, Options.compile, hrefused]

/-- **Modes that agree on the tree** make no difference to what a request comes to: the same code, or the same error. -/
theorem Options.outcome_congr (o : Options) (scope : FlagScope) (legacy strict : Bool)
    (hvalidate : { o with scope := scope, legacy := legacy, strict := strict }.validate = o.validate)
    (hagree : { o with scope := scope, legacy := legacy, strict := strict }.style.AgreeOn o.style
      (Reading.ofPattern o.pattern).root) (d : Disk) :
    ({ o with scope := scope, legacy := legacy, strict := strict }.compileText d).outcome =
      (o.compileText d).outcome := by
  cases hvalid : o.validate with
  | error e => rw [compileText_refused hvalid d, compileText_refused (hvalidate.trans hvalid) d]
  | ok u =>
    have hemit := (Reading.root_wellFormed o.pattern).2.emit_congr hagree 0 .accept
    have hbody : (Session.start { o with scope := scope, legacy := legacy, strict := strict }
        (Reading.ofPattern o.pattern)).body = (Session.start o (Reading.ofPattern o.pattern)).body :=
      congrArg Prod.fst (congrFun hemit 0)
    have hfile : (Session.start { o with scope := scope, legacy := legacy, strict := strict }
        (Reading.ofPattern o.pattern)).file 1 = (Session.start o (Reading.ofPattern o.pattern)).file 1 := by
      unfold Session.file Session.part
      rw [hbody]
      rfl
    rw [compileText_outcome hvalid d, compileText_outcome (hvalidate.trans hvalid) d, hfile]

/-! ## Stamps that agree with the switches -/

/-- every stamp on the tree is the switch as `flags` has it -/
structure Node.StampedBy (flags : Flags) (x : Node) : Prop where
  lit : ∀ text stamp, .lit text stamp ∈ x.nodes → stamp = flags.fold
  dot : ∀ stamp, .dot stamp ∈ x.nodes → stamp = flags.dotAll

theorem Node.StampedBy.of_stamps {flags : Flags} {x : Node} (h : ∀ w : Switch, ∀ b ∈ x.stamps w, b = w.on flags) :
    x.StampedBy flags where
  lit _ stamp hmem := h .fold stamp (List.mem_filterMap.2 ⟨_, hmem, rfl⟩)
  dot stamp hmem := h .dotAll stamp (List.mem_filterMap.2 ⟨_, hmem, rfl⟩)

/-- every group of flag letters that turns a switch on is read before any node that carries a stamp of the switch -/
def Text.FlagsFirst (pattern : Text) : Prop :=
  ∀ r letters (w : Switch), Reader.Reachable pattern.chars r → FlagGroup letters r.rest → w.letter ∈ letters →
    w.on r.flags = false → r.stamps w = []

namespace Reader

/-- every stamp in the making is the switch as it stands -/
def Settled (w : Switch) (r : Reader) : Prop := ∀ b ∈ r.stamps w, b = w.on r.flags

/-- **A step keeps the stamps settled** unless it turns the switch on and there are stamps already. -/
theorem Settled.step {w : Switch} {r r' : Reader} (hs : Step r r') (h : r.Settled w)
    (hfirst : ∀ letters, FlagGroup letters r.rest → w.letter ∈ letters → w.on r.flags = false → r.stamps w = []) :
    r'.Settled w := by
  by_cases hsame : w.on r'.flags = w.on r.flags
  · obtain ⟨new, hnew, hall⟩ := hs.stamps w
    intro b hb
    rw [hnew] at hb
    rw [hsame]
    exact (List.mem_append.1 hb).elim (h b) (hall b)
  · -- the step takes a group that turns the switch on, and such a group leaves no stamp
    have hoff : w.on r.flags = false := by
      by_contra hon
      rw [Bool.not_eq_false] at hon
      exact hsame (((hs.on_iff w).2 (.inl hon)).trans hon.symm)
    have hon : w.on r'.flags = true := by
      rwa [hoff, Bool.not_eq_false] at hsame
    obtain ⟨letters, hgroup, hmem⟩ := ((hs.on_iff w).1 hon).resolve_left (by simp [hoff])
    intro b hb
    rw [hs.stamps_of_group hgroup, hfirst letters hgroup hmem hoff] at hb
    exact absurd hb List.not_mem_nil

/-- a switch that is on stays on -/
theorem on_of_steps {w : Switch} {r r' : Reader} (h : Relation.ReflTransGen Step r r') (hon : w.on r.flags = true) :
    w.on r'.flags = true := by
  induction h with
  | refl => exact hon
  | tail _ hstep ih => exact (hstep.on_iff w).2 (.inl ih)

end Reader

/-- **Switches that are turned on first leave no other stamps** than theirs. -/
theorem Text.FlagsFirst.stampedBy {pattern : Text} (h : pattern.FlagsFirst) :
    (Reading.ofPattern pattern).root.StampedBy (Reading.ofPattern pattern).flags := by
  have hsettled : ∀ (w : Switch) (r : Reader), Reader.Reachable pattern.chars r → r.Settled w := by
    intro w r hr
    induction hr with
    | refl => exact fun b hb => absurd hb List.not_mem_nil
    | tail hreach hstep ih => exact ih.step hstep fun letters => h _ letters w hreach
  refine .of_stamps fun w b hb => ?_
  rw [Reading.root_stamps] at hb
  exact hsettled w _ (Reader.run_reachable pattern.chars pattern.chars.length) b hb

/-- switches come first if each is turned on at the very front or not at all -/
theorem Text.FlagsFirst.of_front {pattern : Text} {letters : List Char} (hfront : FlagGroup letters pattern.chars)
    (h : ∀ w : Switch, w.letter ∈ letters ∨ w.on (Reading.ofPattern pattern).flags = false) : pattern.FlagsFirst := by
  intro r letters' w hr hgroup hmem hoff
  rcases h w with hw | hw
  · rcases Relation.ReflTransGen.cases_head hr with rfl | ⟨r₁, hstep, hrest⟩
    · cases w <;> rfl
    · have hon : w.on r₁.flags = true := (hstep.on_iff w).2 (.inr ⟨letters, hfront, hw⟩)
      rw [Reader.on_of_steps hrest hon] at hoff
      exact absurd hoff (by simp)
  · exact absurd ((hr.on_of_group w hgroup hmem).symm.trans hw) (by simp)

/-! ## What the modes leave alone -/

/-- **Modes of emission keep to their constructs.** For every request, as text, and whatever its other settings, the
outcome (the code, or the error) is the same: for both kinds of choices if the tree holds no choice; for both kinds of stubs
if it holds no stub; and for both flag scopes if every stamp of a literal or a dot is the switch at the end of the pattern.
The last is so if every group that turns a switch on is read before any node that the switch stamps, and in particular if
there is no such group, or if all of them stand before every literal and dot. -/
theorem modes_keep_to_their_constructs (o : Options) (d : Disk) :
    let reading := Reading.ofPattern o.pattern
    ((∀ arms, .alt arms ∉ reading.root.nodes) →
      ∀ b, ({ o with legacy := b }.compileText d).outcome = (o.compileText d).outcome) ∧
    ((∀ message, .stub message ∉ reading.root.nodes) →
      ∀ b, ({ o with strict := b }.compileText d).outcome = (o.compileText d).outcome) ∧
    (reading.root.StampedBy reading.flags →
      ({ o with scope := .positional }.compileText d).outcome =
        ({ o with scope := .pattern }.compileText d).outcome) ∧
    (o.pattern.FlagsFirst → reading.root.StampedBy reading.flags) := by
  intro reading
  refine ⟨fun hnone b => ?_, fun hnone b => ?_, fun hstamps => ?_, Text.FlagsFirst.stampedBy⟩
  · have hagree : { o with legacy := b }.style.AgreeOn o.style reading.root :=
      ⟨fun arms hmem => absurd hmem (hnone arms), fun _ _ => rfl, fun _ _ _ => rfl, fun _ _ => rfl⟩
    exact o.outcome_congr o.scope b o.strict rfl hagree d
  · have hagree : { o with strict := b }.style.AgreeOn o.style reading.root :=
      ⟨fun _ _ => rfl, fun message hmem => absurd hmem (hnone message), fun _ _ _ => rfl, fun _ _ => rfl⟩
    exact o.outcome_congr o.scope o.legacy b rfl hagree d
  · have hagree : { o with scope := .positional }.style.AgreeOn { o with scope := .pattern }.style reading.root :=
      ⟨fun _ _ => rfl, fun _ _ => rfl, hstamps.lit, hstamps.dot⟩
    exact Options.outcome_congr { o with scope := .pattern } .positional o.legacy o.strict rfl hagree d

/-- letters in either case, from the front on -/
def foldedFront : Options :=
  { pattern := Text.ofString "(?i)ab.[c-e]*", name := "Front", output := "", package := "main", runtime := ""
    scope := .pattern, legacy := false, strict := false, verbose := false }

/-- `(?i)ab.[c-e]*` holds no choice and no stub, and its switch comes first; so no mode makes a difference. -/
theorem foldedFront_ignores_modes :
    (∀ arms, .alt arms ∉ (Reading.ofPattern foldedFront.pattern).root.nodes) ∧
    (∀ message, .stub message ∉ (Reading.ofPattern foldedFront.pattern).root.nodes) ∧
    foldedFront.pattern.FlagsFirst ∧
    (∀ b, ({ foldedFront with legacy := b }.compileText (.empty [])).outcome =
      (foldedFront.compileText (.empty [])).outcome) ∧
    (∀ b, ({ foldedFront with strict := b }.compileText (.empty [])).outcome =
      (foldedFront.compileText (.empty [])).outcome) ∧
    ({ foldedFront with scope := .positional }.compileText (.empty [])).outcome =
      (foldedFront.compileText (.empty [])).outcome := by
  have hroot : (Reading.ofPattern foldedFront.pattern).root = .seq [.seq [], .lit ['a', 'b'] true, .dot false,
      .rep (.cls ⟨false, [], [⟨99, 101⟩]⟩) ⟨.star, 0, 0, true⟩] := rfl
  have hnochoice : ∀ arms, .alt arms ∉ (Reading.ofPattern foldedFront.pattern).root.nodes := by
    intro arms
    rw [hroot]
    simp [Node.nodes, Node.visit, Node.visitAll]
  have hnostub : ∀ message, .stub message ∉ (Reading.ofPattern foldedFront.pattern).root.nodes := by
    intro message
    rw [hroot]
    simp [Node.nodes, Node.visit, Node.visitAll]
  have hgroup : FlagGroup ['i'] foldedFront.pattern.chars := ⟨by simp, by simp, _, rfl⟩
  have hfront : foldedFront.pattern.FlagsFirst := by
    refine .of_front hgroup fun w => ?_
    cases w with
    | fold => exact .inl (List.mem_singleton_self _)
    | dotAll => exact .inr rfl
  obtain ⟨hchoice, hstub, hscope, hfirst⟩ := modes_keep_to_their_constructs foldedFront (.empty [])
  exact ⟨hnochoice, hnostub, hfront, hchoice hnochoice, hstub hnostub, hscope (hfirst hfront)⟩

end MatcherGen
