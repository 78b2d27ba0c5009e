/-
A dump determines the tree. Every node is one parenthesis with a word behind it; the word says what node it is, and the
fields after it are quoted texts, numbers, names and nodes, each of which says where it ends. Only the laziness of an
exact repetition is not shown.

Main statements:
- `Node.variant_eq_of_word`: the first word of a dump says what node it is;
- `CharClass.fields_inj`, `Quantity.fields_inj`: the fields of classes and repetitions are told apart;
- `Node.WellFormed.sexp_append_inj`: so are nodes, whatever follows them;
- `dump_determines_tree`: trees that are read have the same dump exactly if they are shown alike.
-/
import MatcherGen.Pattern.Sexp
import MatcherGen.Proofs.Quoting
import MatcherGen.Proofs.WellFormed

namespace MatcherGen

/-! ## The dump of each node -/

theorem Node.sexpAll_cons (n : Node) (r : List Node) : Node.sexpAll (n :: r) = ' ' :: (n.sexp ++ Node.sexpAll r) := rfl

theorem Node.sexp_seq (l : List Node) : (Node.seq l).sexp = "(seq".toList ++ Node.sexpAll l ++ [')'] := rfl

theorem Node.sexp_alt (l : List Node) : (Node.alt l).sexp = "(alt".toList ++ Node.sexpAll l ++ [')'] := rfl

theorem Node.sexp_group (inner : Node) (capturing : Bool) (name : List Char) :
    (Node.group inner capturing name).sexp = '(' :: (groupSexp capturing name ++ ' ' :: (inner.sexp ++ [')'])) := rfl

theorem Node.sexp_rep (atom : Node) (q : Quantity) :
    (Node.rep atom q).sexp = '(' :: (q.sexp ++ ' ' :: (atom.sexp ++ [')'])) := rfl

theorem Node.sexpAll_eq_flatMap (l : List Node) : Node.sexpAll l = l.flatMap fun n => ' ' :: n.sexp := by
  induction l with
  | nil => rfl
  | cons n r ih => rw [Node.sexpAll_cons, ih, List.flatMap_cons, List.cons_append]

/-! ## What a dump shows -/

/-- a repetition as it is shown: whether an exact one is greedy does not matter -/
def Quantity.shown (q : Quantity) : Quantity := if q.op = .exact then { q with greedy := true } else q

mutual
/-- the tree as it is shown: whether an exact repetition is greedy does not matter -/
def Node.shown : Node → Node
  | .absent => .absent
  | .seq children => .seq (Node.shownAll children)
  | .alt arms => .alt (Node.shownAll arms)
  | .group inner capturing name => .group inner.shown capturing name
  | .lit text fold => .lit text fold
  | .dot dotAll => .dot dotAll
  | .anchor kind => .anchor kind
  | .cls c => .cls c
  | .esc letter => .esc letter
  | .rep atom q => .rep atom.shown q.shown
  | .stub message => .stub message

/-- nodes as they are shown -/
def Node.shownAll : List Node → List Node
  | [] => []
  | n :: r => n.shown :: Node.shownAll r
end

theorem Node.shownAll_eq_map (l : List Node) : Node.shownAll l = l.map Node.shown := by
  induction l with
  | nil => rfl
  | cons n r ih => rw [Node.shownAll, ih, List.map_cons]

theorem Quantity.sexp_shown (q : Quantity) : q.shown.sexp = q.sexp := by
  obtain ⟨op, min, max, greedy⟩ := q
  cases op <;> rfl

mutual
/-- a tree is dumped as it is shown -/
theorem Node.sexp_shown (n : Node) : n.shown.sexp = n.sexp := by
  match n with
  | .absent | .lit _ _ | .dot _ | .anchor _ | .cls _ | .esc _ | .stub _ => rfl
  | .seq children => rw [Node.shown, Node.sexp_seq, Node.sexp_seq, Node.sexpAll_shownAll children]
  | .alt arms => rw [Node.shown, Node.sexp_alt, Node.sexp_alt, Node.sexpAll_shownAll arms]
  | .group inner capturing name => rw [Node.shown, Node.sexp_group, Node.sexp_group, Node.sexp_shown inner]
  | .rep atom q => rw [Node.shown, Node.sexp_rep, Node.sexp_rep, Node.sexp_shown atom, q.sexp_shown]

theorem Node.sexpAll_shownAll (l : List Node) : Node.sexpAll (Node.shownAll l) = Node.sexpAll l := by
  match l with
  | [] => rfl
  | n :: r => rw [Node.shownAll, Node.sexpAll_cons, Node.sexpAll_cons, Node.sexp_shown n, Node.sexpAll_shownAll r]
end

/-! ## First words -/

/-- the first word of a dump -/
def Node.word : Node → List Char
  | .absent => "nil".toList
  | .seq _ => "seq".toList
  | .alt _ => "alt".toList
  | .group _ capturing _ => if capturing then "capture".toList else "group".toList
  | .lit _ fold => if fold then "lit/i".toList else "lit".toList
  | .dot dotAll => if dotAll then "dot/s".toList else "dot".toList
  | .anchor kind => kind.label.toList
  | .cls _ => "class".toList
  | .esc _ => "esc".toList
  | .rep _ q => q.op.label.toList
  | .stub _ => "stub".toList

/-- a class after its first word: the mark of a complement, the members and the ranges -/
def CharClass.fields (c : CharClass) : List Char :=
  (if c.negated then " ^".toList else []) ++ (c.singles.flatMap (fun n => ' ' :: quotedCode n) ++
    c.ranges.flatMap fun r => ' ' :: (quotedCode r.lo ++ '-' :: quotedCode r.hi))

/-- the bounds of a repetition, as far as its operator has them -/
def Quantity.bounds (q : Quantity) : List Char :=
  match q.op with
  | .exact | .atLeast => ' ' :: decimal q.min.toInt
  | .between => ' ' :: (decimal q.min.toInt ++ ' ' :: decimal q.max.toInt)
  | _ => []

/-- a repetition after its first word: the mark of a lazy one and the bounds -/
def Quantity.fields (q : Quantity) : List Char :=
  (if q.op != .exact && !q.greedy then " lazy".toList else []) ++ q.bounds

/-- the mark of a group with a name -/
def nameMark (name : List Char) : List Char := if !name.isEmpty then " name=".toList else []

/-- what stands between the first word and the parenthesis at the end -/
def Node.fields : Node → List Char
  | .absent | .dot _ | .anchor _ => []
  | .seq l | .alt l => Node.sexpAll l
  | .group inner capturing name => (if capturing then nameMark name ++ name else []) ++ ' ' :: inner.sexp
  | .lit text _ | .stub text => ' ' :: quoted text
  | .cls c => c.fields
  | .esc letter => [' ', '\\', letter]
  | .rep atom q => q.fields ++ ' ' :: atom.sexp

/-- what the first word says of a node: which node it is, and which variant of it -/
def Node.variant : Node → Nat × Nat
  | .absent => (0, 0)
  | .seq _ => (1, 0)
  | .alt _ => (2, 0)
  | .group _ capturing _ => (3, capturing.toNat)
  | .lit _ fold => (4, fold.toNat)
  | .dot dotAll => (5, dotAll.toNat)
  | .anchor kind => (6, kind.ctorIdx)
  | .cls _ => (7, 0)
  | .esc _ => (8, 0)
  | .rep _ q => (9, q.op.ctorIdx)
  | .stub _ => (10, 0)

/-- the first words there are, each with what it says -/
def wordTable : List (String × Nat × Nat) :=
  [("nil", 0, 0), ("seq", 1, 0), ("alt", 2, 0), ("group", 3, 0), ("capture", 3, 1), ("lit", 4, 0), ("lit/i", 4, 1),
    ("dot", 5, 0), ("dot/s", 5, 1), ("bol", 6, 0), ("eol", 6, 1), ("bos", 6, 2), ("eos", 6, 3), ("class", 7, 0),
    ("esc", 8, 0), ("star", 9, 0), ("plus", 9, 1), ("quest", 9, 2), ("exact", 9, 3), ("atleast", 9, 4),
    ("between", 9, 5), ("repeat?", 9, 6), ("stub", 10, 0)]

/-- every first word is in the table with what it says -/
theorem Node.word_mem (n : Node) : ∃ e ∈ wordTable, e.1.toList = n.word ∧ e.2 = n.variant := by
  have hentry : ∀ e ∈ wordTable, ∀ n : Node, e.1.toList = n.word → e.2 = n.variant →
      ∃ e ∈ wordTable, e.1.toList = n.word ∧ e.2 = n.variant := fun e he _ hword hvariant => ⟨e, he, hword, hvariant⟩
  cases n with
  | absent => exact hentry ("nil", 0, 0) (by decide +kernel) _ rfl rfl
  | seq l => exact hentry ("seq", 1, 0) (by decide +kernel) _ rfl rfl
  | alt l => exact hentry ("alt", 2, 0) (by decide +kernel) _ rfl rfl
  | group inner capturing name =>
    cases capturing with
    | false => exact hentry ("group", 3, 0) (by decide +kernel) _ rfl rfl
    | true => exact hentry ("capture", 3, 1) (by decide +kernel) _ rfl rfl
  | lit text fold =>
    cases fold with
    | false => exact hentry ("lit", 4, 0) (by decide +kernel) _ rfl rfl
    | true => exact hentry ("lit/i", 4, 1) (by decide +kernel) _ rfl rfl
  | dot dotAll =>
    cases dotAll with
    | false => exact hentry ("dot", 5, 0) (by decide +kernel) _ rfl rfl
    | true => exact hentry ("dot/s", 5, 1) (by decide +kernel) _ rfl rfl
  | anchor kind => exact hentry (kind.label, 6, kind.ctorIdx) (by cases kind <;> decide +kernel) _ rfl rfl
  | cls c => exact hentry ("class", 7, 0) (by decide +kernel) _ rfl rfl
  | esc letter => exact hentry ("esc", 8, 0) (by decide +kernel) _ rfl rfl
  | rep atom q =>
    have hop : ∀ op : RepeatOp, (op.label, 9, op.ctorIdx) ∈ wordTable := by
      intro op
      cases op <;> decide +kernel
    exact hentry (q.op.label, 9, q.op.ctorIdx) (hop q.op) _ rfl rfl
  | stub message => exact hentry ("stub", 10, 0) (by decide +kernel) _ rfl rfl

/-- the words of the table are different, and no blank or parenthesis ends them early -/
theorem wordTable_words :
    (∀ e ∈ wordTable, ∀ f ∈ wordTable, e.1.toList = f.1.toList → e.2 = f.2) ∧
      ∀ e ∈ wordTable, ∀ c ∈ e.1.toList, c ≠ ' ' ∧ c ≠ ')' := by
  refine ⟨by decide +kernel, ?_⟩
  have hchars : (wordTable.all fun e => e.1.toList.all fun c => c != ' ' && c != ')') = true := by decide +kernel
  simpa using hchars

/-- **The first word says which node it is.** -/
theorem Node.variant_eq_of_word {n m : Node} (h : n.word = m.word) : n.variant = m.variant := by
  obtain ⟨e, he, heword, hevariant⟩ := n.word_mem
  obtain ⟨f, hf, hfword, hfvariant⟩ := m.word_mem
  rw [← hevariant, ← hfvariant]
  exact wordTable_words.1 e he f hf (by rw [heword, hfword, h])

/-- the front of a capturing group with the mark of its name -/
theorem groupSexp_capture (name : List Char) : groupSexp true name = "capture".toList ++ (nameMark name ++ name) := by
  have hmark : "capture name=".toList = "capture".toList ++ " name=".toList := by decide +kernel
  cases name with
  | nil => rfl
  | cons c r =>
    change "capture name=".toList ++ (c :: r) = "capture".toList ++ (" name=".toList ++ (c :: r))
    rw [hmark, List.append_assoc]

/-- a dump is a parenthesis, the first word, the fields and a parenthesis -/
theorem Node.sexp_eq (n : Node) : n.sexp = '(' :: (n.word ++ (n.fields ++ [')'])) := by
  cases n with
  | absent | seq | alt | anchor | esc | stub => rfl
  | group inner capturing name =>
    cases capturing with
    | false => rfl
    | true =>
      change '(' :: (groupSexp true name ++ ' ' :: (inner.sexp ++ [')'])) =
        '(' :: ("capture".toList ++ (nameMark name ++ name ++ ' ' :: inner.sexp ++ [')']))
      simp only [groupSexp_capture, List.append_assoc, List.cons_append]
  | lit text fold => cases fold <;> rfl
  | dot dotAll => cases dotAll <;> rfl
  | cls c =>
    have hc : c.sexp = "class".toList ++ c.fields := (List.append_assoc _ _ _).trans (List.append_assoc _ _ _)
    change '(' :: (c.sexp ++ [')']) = '(' :: ("class".toList ++ (c.fields ++ [')']))
    rw [hc, List.append_assoc]
  | rep atom q =>
    have hq : q.sexp = q.op.label.toList ++ q.fields := List.append_assoc _ _ _
    change '(' :: (q.sexp ++ ' ' :: (atom.sexp ++ [')'])) =
      '(' :: (q.op.label.toList ++ (q.fields ++ ' ' :: atom.sexp ++ [')']))
    rw [hq, List.append_assoc, List.append_assoc, List.cons_append]

/-- no mark of a name or of a lazy repetition is the start of a node after its blank -/
theorem Node.sexp_no_mark {mark : List Char} {c : Char} (hc : c ≠ '(') (n : Node) (r : List Char) :
    ¬ ' ' :: c :: mark <+: ' ' :: (n.sexp ++ r) := by
  rintro ⟨t, ht⟩
  rw [n.sexp_eq] at ht
  exact hc (List.cons.inj (List.cons.inj ht).2).1

/-- the text starts with a blank or the parenthesis at the end: all words, names and numbers stop there -/
def StartsBreak (s : List Char) : Prop := ∃ t, s = ' ' :: t ∨ s = ')' :: t

theorem StartsBreak.blank (s : List Char) : StartsBreak (' ' :: s) := ⟨s, Or.inl rfl⟩

theorem StartsBreak.closing (s : List Char) : StartsBreak (')' :: s) := ⟨s, Or.inr rfl⟩

theorem StartsBreak.optional {word : List Char} {a : Bool} {s : List Char} (hword : StartsBreak word)
    (hs : StartsBreak s) : StartsBreak ((if a then word else []) ++ s) := by
  cases a with
  | false => exact hs
  | true =>
    obtain ⟨t, rfl | rfl⟩ := hword
    · exact .blank _
    · exact .closing _

/-- a list whose parts all start with a blank is a break, before one -/
theorem StartsBreak.flatMap {α : Type} (f : α → List Char) (l : List α) {s : List Char} (hs : StartsBreak s) :
    StartsBreak (l.flatMap (fun a => ' ' :: f a) ++ s) := by
  cases l with
  | nil => exact hs
  | cons a l => exact .blank _

theorem CharClass.startsBreak_fields (c : CharClass) (r : List Char) : StartsBreak (c.fields ++ ')' :: r) := by
  unfold CharClass.fields
  rw [List.append_assoc, List.append_assoc]
  exact .optional (.blank _) (.flatMap _ _ (.flatMap _ _ (.closing r)))

theorem Node.startsBreak_fields (n : Node) (r : List Char) : StartsBreak (n.fields ++ ')' :: r) := by
  cases n with
  | absent | dot | anchor => exact .closing r
  | seq l | alt l =>
    change StartsBreak (Node.sexpAll l ++ ')' :: r)
    rw [Node.sexpAll_eq_flatMap]
    exact .flatMap _ l (.closing r)
  | group inner capturing name =>
    change StartsBreak ((if capturing then nameMark name ++ name else []) ++ ' ' :: inner.sexp ++ ')' :: r)
    cases capturing with
    | false => exact .blank _
    | true => cases name <;> exact .blank _
  | lit | stub | esc => exact .blank _
  | cls c => exact c.startsBreak_fields r
  | rep atom q =>
    change StartsBreak (q.fields ++ ' ' :: atom.sexp ++ ')' :: r)
    obtain ⟨op, min, max, greedy⟩ := q
    cases op <;> cases greedy <;> exact .blank _

/-- **Dumps that agree have the same first word and agree after it.** -/
theorem Node.sexp_split {n m : Node} {r s : List Char} (h : n.sexp ++ r = m.sexp ++ s) :
    n.variant = m.variant ∧ n.fields ++ ')' :: r = m.fields ++ ')' :: s := by
  -- a first word goes up to the first blank or parenthesis
  have hword : ∀ k : Node, ∀ c ∈ k.word, (c != ' ' && c != ')') = true := by
    intro k c hc
    obtain ⟨e, he, heword, -⟩ := k.word_mem
    rw [← heword] at hc
    simpa using wordTable_words.2 e he c hc
  have hbreak : ∀ (k : Node) t, ∃ c u, k.fields ++ ')' :: t = c :: u ∧ (c != ' ' && c != ')') = false := by
    intro k t
    obtain ⟨u, hu | hu⟩ := k.startsBreak_fields t
    · exact ⟨' ', u, hu, by decide⟩
    · exact ⟨')', u, hu, by decide⟩
  simp only [Node.sexp_eq, List.cons_append, List.append_assoc, List.nil_append] at h
  obtain ⟨c, u, hu, hc⟩ := hbreak n r
  obtain ⟨d, v, hv, hd⟩ := hbreak m s
  rw [hu, hv] at h ⊢
  obtain ⟨hwords, rfl, rfl⟩ := append_inj_of_stop (hword n) (hword m) hc hd (List.cons.inj h).2
  exact ⟨Node.variant_eq_of_word hwords, rfl⟩

/-! ## The fields -/

/-- an item of a class: a member or a range -/
def CharClass.items (c : CharClass) : List (Int ⊕ ClassRange) := c.singles.map .inl ++ c.ranges.map .inr

/-- an item as it is shown -/
def itemText : Int ⊕ ClassRange → List Char
  | .inl n => quotedCode n
  | .inr r => quotedCode r.lo ++ '-' :: quotedCode r.hi

theorem CharClass.fields_eq (c : CharClass) :
    c.fields = (if c.negated then " ^".toList else []) ++ c.items.flatMap fun x => ' ' :: itemText x := by
  unfold CharClass.fields CharClass.items
  rw [List.flatMap_append, List.flatMap_map, List.flatMap_map]
  rfl

theorem CharClass.eq_of_items {c d : CharClass} (hneg : c.negated = d.negated) (h : c.items = d.items) : c = d := by
  have hsingles : c.singles = d.singles := by
    simpa [CharClass.items, List.filterMap_map, Function.comp_def] using congrArg (List.filterMap Sum.getLeft?) h
  have hranges : c.ranges = d.ranges := by
    simpa [CharClass.items, List.filterMap_map, Function.comp_def] using congrArg (List.filterMap Sum.getRight?) h
  cases c
  cases d
  simp_all only

/-- the item is made of characters -/
def ItemOfChars : Int ⊕ ClassRange → Prop
  | .inl n => ∃ x : Char, n = x.toNat
  | .inr r => ∃ lo hi : Char, r = ⟨lo.toNat, hi.toNat⟩

theorem CharClass.OfChars.items {c : CharClass} (h : c.OfChars) : ∀ x ∈ c.items, ItemOfChars x := by
  intro x hx
  rcases List.mem_append.1 hx with hx | hx
  · obtain ⟨n, hn, rfl⟩ := List.mem_map.1 hx
    exact h.1 n hn
  · obtain ⟨r, hr, rfl⟩ := List.mem_map.1 hx
    exact h.2 r hr

/-- **Items of classes are told apart before a blank or a parenthesis.** -/
theorem itemText_inj {x y : Int ⊕ ClassRange} (hx : ItemOfChars x) (hy : ItemOfChars y) {u v : List Char}
    (hu : StartsBreak u) (hv : StartsBreak v) (h : itemText x ++ u = itemText y ++ v) : x = y ∧ u = v := by
  have hhyphen : ∀ {t w : List Char}, StartsBreak t → t ≠ '-' :: w := by
    rintro t w ⟨z, rfl | rfl⟩ heq
    · exact absurd (List.cons.inj heq).1 (by decide)
    · exact absurd (List.cons.inj heq).1 (by decide)
  cases x with
  | inl a =>
    obtain ⟨a, rfl⟩ := hx
    cases y with
    | inl b =>
      obtain ⟨b, rfl⟩ := hy
      obtain ⟨rfl, rfl⟩ := quotedCode_inj a b u v h
      exact ⟨rfl, rfl⟩
    | inr b =>
      obtain ⟨lo, hi, rfl⟩ := hy
      simp only [itemText, List.append_assoc, List.cons_append] at h
      exact absurd (quotedCode_inj a lo u _ h).2 (hhyphen hu)
  | inr a =>
    obtain ⟨lo, hi, rfl⟩ := hx
    cases y with
    | inl b =>
      obtain ⟨b, rfl⟩ := hy
      simp only [itemText, List.append_assoc, List.cons_append] at h
      exact absurd (quotedCode_inj lo b _ v h).2.symm (hhyphen hv)
    | inr b =>
      obtain ⟨lo', hi', rfl⟩ := hy
      simp only [itemText, List.append_assoc, List.cons_append] at h
      obtain ⟨rfl, hrest⟩ := quotedCode_inj lo lo' _ _ h
      obtain ⟨rfl, rfl⟩ := quotedCode_inj hi hi' u v (List.cons.inj hrest).2
      exact ⟨rfl, rfl⟩

/-- **Lists in a dump**, a blank before each part and a parenthesis after the last, are told apart if their parts are. -/
theorem spaced_inj {α β : Type} {f : α → List Char} {g : α → β} {l m : List α}
    (hf : ∀ a ∈ l, ∀ b ∈ m, ∀ u v, StartsBreak u → StartsBreak v → f a ++ u = f b ++ v → g a = g b ∧ u = v)
    {r s : List Char}
    (h : l.flatMap (fun a => ' ' :: f a) ++ ')' :: r = m.flatMap (fun a => ' ' :: f a) ++ ')' :: s) :
    l.map g = m.map g ∧ r = s := by
  refine flatMap_append_inj StartsBreak (fun a t => .blank _) .closing (fun a => ⟨' ', f a, rfl, by decide⟩) ?_ h
  intro a ha b hb u v hu hv heq
  exact hf a ha b hb u v hu hv (List.cons.inj heq).2

/-- **Classes of characters are told apart by their fields.** -/
theorem CharClass.fields_inj {c d : CharClass} (hc : c.OfChars) (hd : d.OfChars) {r s : List Char}
    (h : c.fields ++ ')' :: r = d.fields ++ ')' :: s) : c = d ∧ r = s := by
  -- a list of items starts with a blank and a quote, or ends at once
  have hmark : ∀ (k : CharClass) (t : List Char),
      ¬ " ^".toList <+: k.items.flatMap (fun x => ' ' :: itemText x) ++ ')' :: t := by
    rintro k t ⟨u, hu⟩
    rcases hitems : k.items with _ | ⟨x | x, l⟩
    all_goals
      rw [hitems] at hu
      simp [itemText, quotedCode] at hu
  rw [c.fields_eq, d.fields_eq, List.append_assoc, List.append_assoc] at h
  obtain ⟨hneg, hitems⟩ := optional_append_inj (fun _ => hmark c r) (fun _ => hmark d s) h
  obtain ⟨hlist, rfl⟩ := spaced_inj (g := id)
    (fun x hx y hy u v hu hv heq => itemText_inj (hc.items x hx) (hd.items y hy) hu hv heq) hitems
  exact ⟨CharClass.eq_of_items hneg (by simpa using hlist), rfl⟩

theorem decimal_start (n : Int) : ∃ c t, decimal n = c :: t ∧ isNumberChar c = true := by
  have hchars := decimal_isNumberChar n
  cases hn : decimal n with
  | nil => cases n <;> simp [decimal] at hn
  | cons c t => exact ⟨c, t, rfl, hchars c (by simp [hn])⟩

/-- bounds are no mark of a lazy repetition -/
theorem Quantity.bounds_not_lazy (q : Quantity) (x : Node) (t : List Char) :
    ¬ " lazy".toList <+: q.bounds ++ ' ' :: (x.sexp ++ t) := by
  have hnumber : ∀ (n : Int) (u : List Char), ¬ " lazy".toList <+: ' ' :: (decimal n ++ u) := by
    rintro n u ⟨v, hv⟩
    obtain ⟨c, w, hn, hc⟩ := decimal_start n
    rw [hn] at hv
    obtain ⟨rfl, -⟩ : 'l' = c ∧ _ := by simpa using hv
    exact absurd hc (by decide)
  obtain ⟨op, min, max, greedy⟩ := q
  cases op with
  | star | plus | quest | unknown => exact Node.sexp_no_mark (by decide) x t
  | exact | atLeast => exact hnumber min.toInt _
  | between =>
    change ¬ " lazy".toList <+: ' ' :: (decimal min.toInt ++ ' ' :: decimal max.toInt) ++ ' ' :: (x.sexp ++ t)
    rw [List.cons_append, List.append_assoc]
    exact hnumber min.toInt _

/-- **Bounds that go with their operator are told apart.** -/
theorem Quantity.bounds_inj {p q : Quantity} (hp : p.WellFormed) (hq : q.WellFormed) (hop : p.op = q.op)
    {t u : List Char} (h : p.bounds ++ ' ' :: t = q.bounds ++ ' ' :: u) : p.min = q.min ∧ p.max = q.max ∧ t = u := by
  obtain ⟨op, min, max, greedy⟩ := p
  obtain ⟨op', min', max', greedy'⟩ := q
  obtain rfl : op = op' := hop
  cases op with
  | star | plus | quest =>
    obtain ⟨rfl, rfl⟩ : min = 0 ∧ max = 0 := hp
    obtain ⟨rfl, rfl⟩ : min' = 0 ∧ max' = 0 := hq
    exact ⟨rfl, rfl, (List.cons.inj h).2⟩
  | exact =>
    obtain ⟨-, rfl⟩ : 0 ≤ min ∧ min = max := hp
    obtain ⟨-, rfl⟩ : 0 ≤ min' ∧ min' = max' := hq
    obtain ⟨hmin, -, hrest⟩ := decimal_append_inj (by decide) (by decide) (List.cons.inj h).2
    obtain rfl := Int64.toInt_inj.1 hmin
    exact ⟨rfl, rfl, hrest⟩
  | atLeast =>
    obtain ⟨-, rfl⟩ : 0 ≤ min ∧ max = -1 := hp
    obtain ⟨-, rfl⟩ : 0 ≤ min' ∧ max' = -1 := hq
    obtain ⟨hmin, -, hrest⟩ := decimal_append_inj (by decide) (by decide) (List.cons.inj h).2
    exact ⟨Int64.toInt_inj.1 hmin, rfl, hrest⟩
  | between =>
    change ' ' :: (decimal min.toInt ++ ' ' :: decimal max.toInt) ++ ' ' :: t =
      ' ' :: (decimal min'.toInt ++ ' ' :: decimal max'.toInt) ++ ' ' :: u at h
    simp only [List.cons_append, List.append_assoc] at h
    obtain ⟨hmin, -, hrest⟩ := decimal_append_inj (by decide) (by decide) (List.cons.inj h).2
    obtain ⟨hmax, -, hnode⟩ := decimal_append_inj (by decide) (by decide) hrest
    exact ⟨Int64.toInt_inj.1 hmin, Int64.toInt_inj.1 hmax, hnode⟩
  | unknown => exact absurd hp (by simp [Quantity.WellFormed])

/-- **Repetitions are told apart by their fields**, as far as they are shown. -/
theorem Quantity.fields_inj {p q : Quantity} (hp : p.WellFormed) (hq : q.WellFormed) (hop : p.op = q.op) {x y : Node}
    {t u : List Char} (h : p.fields ++ ' ' :: (x.sexp ++ t) = q.fields ++ ' ' :: (y.sexp ++ u)) :
    p.shown = q.shown ∧ x.sexp ++ t = y.sexp ++ u := by
  unfold Quantity.fields at h
  rw [List.append_assoc, List.append_assoc] at h
  obtain ⟨hlazy, hbounds⟩ := optional_append_inj (fun _ => p.bounds_not_lazy x t) (fun _ => q.bounds_not_lazy y u) h
  obtain ⟨hmin, hmax, hnode⟩ := Quantity.bounds_inj hp hq hop hbounds
  refine ⟨?_, hnode⟩
  obtain ⟨op, min, max, greedy⟩ := p
  obtain ⟨op', min', max', greedy'⟩ := q
  obtain rfl : op = op' := hop
  obtain rfl : min = min' := hmin
  obtain rfl : max = max' := hmax
  unfold Quantity.shown
  split_ifs with hexact
  · rfl
  · have hshown : (op != RepeatOp.exact) = true := bne_iff_ne.2 hexact
    have hgreedy : greedy = greedy' := by simpa [hshown] using hlazy
    rw [hgreedy]

/-- **Names of groups are told apart from what is inside the group**, and so is having none. -/
theorem nameMark_inj {name name' : List Char} (hname : ∀ c ∈ name, c ≠ ' ') (hname' : ∀ c ∈ name', c ≠ ' ') {x y : Node}
    {t u : List Char}
    (h : nameMark name ++ (name ++ ' ' :: (x.sexp ++ t)) = nameMark name' ++ (name' ++ ' ' :: (y.sexp ++ u))) :
    name = name' ∧ x.sexp ++ t = y.sexp ++ u := by
  have hempty : ∀ {l : List Char}, (!l.isEmpty) = false →
      ∀ (z : Node) v, ¬ " name=".toList <+: l ++ ' ' :: (z.sexp ++ v) := by
    intro l hl z v
    obtain rfl : l = [] := by simpa using hl
    exact Node.sexp_no_mark (by decide) z v
  obtain ⟨-, hrest⟩ := optional_append_inj (fun hn => hempty hn x t) (fun hn => hempty hn y u) h
  obtain ⟨rfl, -, htail⟩ := append_inj_of_stop (p := fun c => c != ' ') (by simpa using hname) (by simpa using hname')
    (by decide) (by decide) hrest
  exact ⟨rfl, htail⟩

/-- **Groups are told apart by their fields**: by the name, and by what is inside. -/
theorem Node.group_fields_inj {x y : Node} {capturing : Bool} {name name' : List Char}
    (hnamed : name ≠ [] → capturing = true) (hnamed' : name' ≠ [] → capturing = true)
    (hname : ∀ c ∈ name, isLetter c = true ∨ isDigit c = true ∨ c = '_')
    (hname' : ∀ c ∈ name', isLetter c = true ∨ isDigit c = true ∨ c = '_') {r s : List Char}
    (h : (Node.group x capturing name).fields ++ ')' :: r = (Node.group y capturing name').fields ++ ')' :: s) :
    name = name' ∧ x.sexp ++ ')' :: r = y.sexp ++ ')' :: s := by
  have hblank : ∀ {l : List Char}, (∀ c ∈ l, isLetter c = true ∨ isDigit c = true ∨ c = '_') → ∀ c ∈ l, c ≠ ' ' := by
    rintro l hl c hc rfl
    exact absurd (hl ' ' hc) (by decide)
  cases capturing with
  | false =>
    have hnone : ∀ {l : List Char}, (l ≠ [] → false = true) → l = [] := by
      intro l hl
      by_contra hne
      exact absurd (hl hne) (by decide)
    rw [hnone hnamed, hnone hnamed']
    exact ⟨rfl, (List.cons.inj h).2⟩
  | true =>
    change nameMark name ++ name ++ ' ' :: x.sexp ++ ')' :: r = nameMark name' ++ name' ++ ' ' :: y.sexp ++ ')' :: s at h
    simp only [List.append_assoc, List.cons_append] at h
    exact nameMark_inj (hblank hname) (hblank hname') h

/-! ## Nodes -/

/-- every class in the tree is made of characters -/
def Node.OfChars (n : Node) : Prop := ∀ c, Node.cls c ∈ n.nodes → c.OfChars

theorem Node.OfChars.child {n x : Node} (h : n.OfChars) (hx : x.nodes ⊆ n.nodes) : x.OfChars := fun c hc => h c (hx hc)

theorem atomPiece_ofChars (flags : Flags) (pos : Nat) (c : Char) (s : List Char) :
    (atomPiece flags pos c s).node.OfChars := by
  have hother : ∀ n : Node, n.nodes = [n] → (∀ k, n ≠ .cls k) → n.OfChars := by
    intro n hn hne k hk
    rw [hn, List.mem_singleton] at hk
    exact absurd hk.symm (hne k)
  unfold atomPiece
  split_ifs
  · exact hother _ rfl (by simp [Piece.plain])
  · exact hother _ rfl (by simp [Piece.plain])
  · exact hother _ rfl (by simp [Piece.plain])
  · intro k hk
    have hbody : k.OfChars := by
      obtain rfl : k = _ := by simpa [classPiece, Node.nodes, Node.visit] using hk
      split <;> exact classBody_ofChars _ _ _ (CharClass.OfChars.empty _)
    exact hbody
  · unfold escapePiece
    split
    · exact hother _ rfl (by simp [Piece.stub])
    · dsimp only
      split_ifs <;> exact hother _ rfl (by simp [Piece.stub, Piece.plain])
  · exact hother _ rfl (by simp [Piece.stub])
  · exact hother _ rfl (by simp [Piece.plain])
  · exact hother _ rfl (by simp [Piece.plain])

theorem ofChars_kept : Node.Kept Node.OfChars where
  atom := atomPiece_ofChars
  stub := fun message c hc => absurd hc (by simp [Node.nodes, Node.visit])
  rep := fun atom q h c hc => h c (by simpa using hc)
  group := fun inner capturing name h c hc => h c (by simpa using hc)
  seq := by
    intro l h c hc
    obtain ⟨x, hx, hcx⟩ : ∃ x ∈ l, Node.cls c ∈ x.nodes := by simpa using hc
    exact h x hx c hcx
  alt := by
    intro l _ h c hc
    obtain ⟨x, hx, hcx⟩ : ∃ x ∈ l, Node.cls c ∈ x.nodes := by simpa using hc
    exact h x hx c hcx

/-- **Lists of nodes are told apart if the nodes are.** -/
theorem Node.sexpAll_inj {l l' : List Node}
    (hl : ∀ x ∈ l, ∀ y ∈ l', ∀ u v, x.sexp ++ u = y.sexp ++ v → x.shown = y.shown ∧ u = v) {r s : List Char}
    (h : Node.sexpAll l ++ ')' :: r = Node.sexpAll l' ++ ')' :: s) : Node.shownAll l = Node.shownAll l' ∧ r = s := by
  rw [Node.sexpAll_eq_flatMap, Node.sexpAll_eq_flatMap] at h
  rw [Node.shownAll_eq_map, Node.shownAll_eq_map]
  exact spaced_inj (fun x hx y hy u v _ _ heq => hl x hx y hy u v heq) h

theorem toNat_inj {a b : Bool} (h : a.toNat = b.toNat) : a = b := by
  revert h
  cases a <;> cases b <;> decide

theorem AnchorKind.ctorIdx_inj {a b : AnchorKind} (h : a.ctorIdx = b.ctorIdx) : a = b := by
  revert h
  cases a <;> cases b <;> decide

theorem RepeatOp.ctorIdx_inj {a b : RepeatOp} (h : a.ctorIdx = b.ctorIdx) : a = b := by
  revert h
  cases a <;> cases b <;> decide

/-- **Nodes are told apart by their dumps**, whatever follows, as far as they are shown. -/
theorem Node.WellFormed.sexp_append_inj {n : Node} (hn : n.WellFormed) (hnc : n.OfChars) {m : Node} (hm : m.WellFormed)
    (hmc : m.OfChars) {r s : List Char} (h : n.sexp ++ r = m.sexp ++ s) : n.shown = m.shown ∧ r = s := by
  -- the induction is on the first tree; by the first words the second one has the same constructor
  induction hn generalizing m r s with
  | seq children hwf ih =>
    obtain ⟨hvariant, hfields⟩ := Node.sexp_split h
    cases hm <;> simp [Node.variant] at hvariant
    rename_i children' hwf'
    obtain ⟨hshown, rfl⟩ := Node.sexpAll_inj (fun x hx y hy u v heq =>
      ih x hx (hnc.child (Node.nodes_subset_seq hx)) (hwf' y hy) (hmc.child (Node.nodes_subset_seq hy)) heq) hfields
    exact ⟨congrArg Node.seq hshown, rfl⟩
  | alt arms htwo hseq hwf ih =>
    obtain ⟨hvariant, hfields⟩ := Node.sexp_split h
    cases hm <;> simp [Node.variant] at hvariant
    rename_i arms' htwo' hseq' hwf'
    obtain ⟨hshown, rfl⟩ := Node.sexpAll_inj (fun x hx y hy u v heq =>
      ih x hx (hnc.child (Node.nodes_subset_alt hx)) (hwf' y hy) (hmc.child (Node.nodes_subset_alt hy)) heq) hfields
    exact ⟨congrArg Node.alt hshown, rfl⟩
  | group inner capturing name hinner hwf hnamed hname ih =>
    obtain ⟨hvariant, hfields⟩ := Node.sexp_split h
    cases hm <;> simp [Node.variant] at hvariant
    rename_i inner' capturing' name' hinner' hwf' hnamed' hname'
    obtain rfl := toNat_inj hvariant
    have hin : inner.OfChars := hnc.child (by rw [Node.nodes_group]; exact List.subset_cons_self _ _)
    have hin' : inner'.OfChars := hmc.child (by rw [Node.nodes_group]; exact List.subset_cons_self _ _)
    obtain ⟨hnames, hnode⟩ := Node.group_fields_inj hnamed hnamed' hname hname' hfields
    obtain ⟨hshown, hrest⟩ := ih hin hwf' hin' hnode
    exact ⟨by rw [Node.shown, Node.shown, hshown, hnames], (List.cons.inj hrest).2⟩
  | lit text fold hne =>
    obtain ⟨hvariant, hfields⟩ := Node.sexp_split h
    cases hm <;> simp [Node.variant] at hvariant
    obtain rfl := toNat_inj hvariant
    obtain ⟨rfl, hrest⟩ := quoted_selfDelimiting _ _ _ _ (List.cons.inj hfields).2
    exact ⟨rfl, (List.cons.inj hrest).2⟩
  | dot dotAll =>
    obtain ⟨hvariant, hfields⟩ := Node.sexp_split h
    cases hm <;> simp [Node.variant] at hvariant
    obtain rfl := toNat_inj hvariant
    exact ⟨rfl, (List.cons.inj hfields).2⟩
  | anchor kind hkind =>
    obtain ⟨hvariant, hfields⟩ := Node.sexp_split h
    cases hm <;> simp [Node.variant] at hvariant
    obtain rfl := AnchorKind.ctorIdx_inj hvariant
    exact ⟨rfl, (List.cons.inj hfields).2⟩
  | cls c hnodup =>
    obtain ⟨hvariant, hfields⟩ := Node.sexp_split h
    cases hm <;> simp [Node.variant] at hvariant
    rename_i c' hnodup'
    obtain ⟨rfl, rfl⟩ := CharClass.fields_inj (hnc c (by simp [Node.nodes, Node.visit]))
      (hmc c' (by simp [Node.nodes, Node.visit])) hfields
    exact ⟨rfl, rfl⟩
  | esc letter hletter =>
    obtain ⟨hvariant, hfields⟩ := Node.sexp_split h
    cases hm <;> simp [Node.variant] at hvariant
    rename_i letter' hletter'
    obtain ⟨rfl, rfl⟩ : letter = letter' ∧ r = s := by simpa [Node.fields] using hfields
    exact ⟨rfl, rfl⟩
  | rep atom q hatom hwf hq ih =>
    obtain ⟨hvariant, hfields⟩ := Node.sexp_split h
    cases hm <;> simp [Node.variant] at hvariant
    rename_i atom' q' hatom' hwf' hq'
    change q.fields ++ ' ' :: atom.sexp ++ ')' :: r = q'.fields ++ ' ' :: atom'.sexp ++ ')' :: s at hfields
    simp only [List.append_assoc, List.cons_append] at hfields
    obtain ⟨hq, hnode⟩ := Quantity.fields_inj hq hq' (RepeatOp.ctorIdx_inj hvariant) hfields
    have hin : atom.OfChars := hnc.child (by rw [Node.nodes_rep]; exact List.subset_cons_self _ _)
    have hin' : atom'.OfChars := hmc.child (by rw [Node.nodes_rep]; exact List.subset_cons_self _ _)
    obtain ⟨hshown, hrest⟩ := ih hin hwf' hin' hnode
    exact ⟨by rw [Node.shown, Node.shown, hshown, hq], (List.cons.inj hrest).2⟩
  | stub message =>
    obtain ⟨hvariant, hfields⟩ := Node.sexp_split h
    cases hm <;> simp [Node.variant] at hvariant
    obtain ⟨rfl, hrest⟩ := quoted_selfDelimiting _ _ _ _ (List.cons.inj hfields).2
    exact ⟨rfl, (List.cons.inj hrest).2⟩

/-- **A dump determines the tree that was read.** Two patterns have the same dump exactly if their trees are equal but
for the laziness of exact repetitions. -/
theorem dump_determines_tree (p q : Text) :
    (Reading.ofPattern p).root.sexp = (Reading.ofPattern q).root.sexp ↔
      (Reading.ofPattern p).root.shown = (Reading.ofPattern q).root.shown := by
  constructor
  · intro h
    have hp := Reading.root_keeps ofChars_kept p
    have hq := Reading.root_keeps ofChars_kept q
    have happend : (Reading.ofPattern p).root.sexp ++ [] = (Reading.ofPattern q).root.sexp ++ [] := by rw [h]
    exact ((Reading.root_wellFormed p).2.sexp_append_inj hp (Reading.root_wellFormed q).2 hq happend).1
  · intro h
    rw [← Node.sexp_shown, h, Node.sexp_shown]

end MatcherGen
