/-
Paths and the places they lead to. `follow` takes the names of a path one by one, from a place and whether or not anything
stands there; so the place of a path depends on its text and the working directory alone. Cleaning a path keeps its place,
and a clean path climbs first and descends then: it passes through no place that it does not end below.

Main statements:
- `follow_cleanNames`: cleaning keeps the place;
- `cleanPath_direct`: what cleaning leaves is a climb and a descent;
- `significant_upperPart`: the path up to its last name;
- `parentPath_place`: where the parent of a path leads to.
-/
import Mathlib.Tactic
import MatcherGen.Storage.Disk

namespace MatcherGen

/-! ## Names -/

theorem splitChars_ne_nil (sep : Char) (s : List Char) : splitChars sep s ≠ [] := by
  cases s with
  | nil => simp [splitChars]
  | cons c r =>
    unfold splitChars
    split_ifs
    · simp
    · split <;> simp

/-- a separator ends one name and starts the next -/
theorem splitChars_append (sep : Char) (a b : List Char) :
    splitChars sep (a ++ sep :: b) = splitChars sep a ++ splitChars sep b := by
  induction a with
  | nil => simp [splitChars]
  | cons c a ih =>
    obtain ⟨first, others, hsplit⟩ := List.exists_cons_of_ne_nil (splitChars_ne_nil sep a)
    simp only [List.cons_append, splitChars, ih, hsplit]
    split_ifs <;> rfl

/-- a text without separators is one name -/
theorem splitChars_plain {sep : Char} {s : List Char} (h : sep ∉ s) : splitChars sep s = [s] := by
  induction s with
  | nil => rfl
  | cons c s ih =>
    have hc : (c == sep) = false := beq_eq_false_iff_ne.2 fun heq => h (by simp [heq])
    simp [splitChars, hc, ih fun hmem => h (List.mem_cons_of_mem c hmem)]

/-- names hold no separators -/
theorem not_mem_of_mem_splitChars {sep : Char} {s name : List Char} (h : name ∈ splitChars sep s) : sep ∉ name := by
  induction s generalizing name with
  | nil =>
    rw [List.mem_singleton.1 h]
    simp
  | cons c s ih =>
    obtain ⟨first, others, hsplit⟩ := List.exists_cons_of_ne_nil (splitChars_ne_nil sep s)
    rw [hsplit] at ih
    simp only [splitChars, hsplit] at h
    split_ifs at h with hc
    · rcases List.mem_cons.1 h with rfl | h
      · simp
      · exact ih h
    · rcases List.mem_cons.1 h with rfl | h
      · intro hmem
        rcases List.mem_cons.1 hmem with heq | hmem
        · exact hc (by simp [heq])
        · exact ih List.mem_cons_self hmem
      · exact ih (List.mem_cons_of_mem first h)

/-- the names of a path that say something -/
def significant (path : String) : List String := (pathNames path).filter (· != "")

theorem pathNames_append (a b : List Char) :
    pathNames (String.ofList (a ++ '/' :: b)) = pathNames (String.ofList a) ++ pathNames (String.ofList b) := by
  simp only [pathNames, String.toList_ofList, splitChars_append, List.map_append]

theorem significant_append (a b : List Char) :
    significant (String.ofList (a ++ '/' :: b)) = significant (String.ofList a) ++ significant (String.ofList b) := by
  rw [significant, pathNames_append, List.filter_append]
  rfl

theorem significant_nil : significant (String.ofList []) = [] := by decide +kernel

theorem pathNames_plain {s : List Char} (h : '/' ∉ s) : pathNames (String.ofList s) = [String.ofList s] := by
  simp only [pathNames, String.toList_ofList, splitChars_plain h, List.map_cons, List.map_nil]

theorem slash_not_mem_name {path name : String} (h : name ∈ pathNames path) : '/' ∉ name.toList := by
  obtain ⟨s, hs, rfl⟩ := List.mem_map.1 h
  rw [String.toList_ofList]
  exact not_mem_of_mem_splitChars hs

/-- names put together with slashes are taken apart again -/
theorem pathNames_intercalate {names : List String} (hne : names ≠ []) (h : ∀ n ∈ names, '/' ∉ n.toList) :
    pathNames ("/".intercalate names) = names := by
  induction names with
  | nil => exact absurd rfl hne
  | cons n r ih =>
    have hn : '/' ∉ n.toList := h n List.mem_cons_self
    cases r with
    | nil =>
      have hsingle : "/".intercalate [n] = String.ofList n.toList := by
        rw [← String.toList_inj]
        simp
      rw [hsingle, pathNames_plain hn, String.ofList_toList]
    | cons m r =>
      have hjoin : "/".intercalate (n :: m :: r) = String.ofList (n.toList ++ '/' :: ("/".intercalate (m :: r)).toList) := by
        rw [← String.toList_inj]
        simp [String.toList_intercalate]
      rw [hjoin, pathNames_append, pathNames_plain hn, String.ofList_toList, String.ofList_toList]
      rw [ih (by simp) fun x hx => h x (List.mem_cons_of_mem n hx)]
      rfl

/-! ## Places -/

/-- one more name -/
theorem prefix_iff_dropLast {r q : Place} : r <+: q ↔ r = q ∨ r <+: q.dropLast := by
  rcases List.eq_nil_or_concat' q with rfl | ⟨init, name, rfl⟩
  · simp
  · rw [List.prefix_concat_iff, List.dropLast_concat]

/-- the place that names lead to from a place -/
def follow : Place → List String → Place
  | p, [] => p
  | p, name :: r =>
    if name == "" || name == "." then follow p r
    else if name == ".." then follow p.dropLast r
    else follow (p ++ [name]) r

/-- the places where names are looked up on the way -/
def passes : Place → List String → List Place
  | _, [] => []
  | p, name :: r =>
    if name == "" then passes p r
    else if name == "." then p :: passes p r
    else if name == ".." then p :: passes p.dropLast r
    else p :: passes (p ++ [name]) r

/-- a name that leads down -/
def IsStep (name : String) : Prop := name ≠ "" ∧ name ≠ "." ∧ name ≠ ".."

instance (name : String) : Decidable (IsStep name) := inferInstanceAs (Decidable (_ ∧ _))

theorem name_cases (name : String) : (name = "" ∨ name = ".") ∨ name = ".." ∨ IsStep name := by
  unfold IsStep
  tauto

theorem follow_cons_step {name : String} (h : IsStep name) (p : Place) (r : List String) :
    follow p (name :: r) = follow (p ++ [name]) r := by
  simp [follow, h.1, h.2.1, h.2.2]

theorem follow_append (p : Place) (a b : List String) : follow p (a ++ b) = follow (follow p a) b := by
  induction a generalizing p with
  | nil => rfl
  | cons name a ih =>
    simp only [List.cons_append, follow]
    split_ifs
    · exact ih p
    · exact ih p.dropLast
    · exact ih (p ++ [name])

/-- a name that says something is looked up where the way has come to -/
theorem passes_cons {name : String} (h : name ≠ "") (p : Place) (r : List String) :
    passes p (name :: r) = p :: passes (follow p [name]) r := by
  rcases name_cases name with (rfl | rfl) | rfl | hstep
  · exact absurd rfl h
  · rfl
  · rfl
  · rw [follow_cons_step hstep]
    simp [passes, follow, hstep.1, hstep.2.1, hstep.2.2]

theorem follow_significant (p : Place) (names : List String) : follow p (names.filter (· != "")) = follow p names := by
  induction names generalizing p with
  | nil => rfl
  | cons name r ih =>
    by_cases h : name = ""
    · simp [h, follow, ih]
    · simp only [List.filter_cons, bne_iff_ne, ne_eq, h, not_false_eq_true, if_true, follow, ih]

theorem passes_significant (p : Place) (names : List String) : passes p (names.filter (· != "")) = passes p names := by
  induction names generalizing p with
  | nil => rfl
  | cons name r ih =>
    by_cases h : name = ""
    · simp [h, passes, ih]
    · simp only [List.filter_cons, bne_iff_ne, ne_eq, h, not_false_eq_true, if_true, passes, ih]

theorem passes_append (p : Place) (a b : List String) : passes p (a ++ b) = passes p a ++ passes (follow p a) b := by
  induction a generalizing p with
  | nil => rfl
  | cons name a ih =>
    simp only [List.cons_append, passes, follow]
    split_ifs <;> simp_all

/-- names that lead down -/
theorem follow_steps {names : List String} (h : ∀ n ∈ names, IsStep n) (p : Place) : follow p names = p ++ names := by
  induction names generalizing p with
  | nil => simp [follow]
  | cons n r ih =>
    rw [follow_cons_step (h n List.mem_cons_self), ih fun m hm => h m (List.mem_cons_of_mem n hm)]
    simp

/-! ## Cleaning -/

/-- names that lead down are looked up above the place they lead to -/
theorem passes_steps {steps : List String} (hsteps : ∀ n ∈ steps, IsStep n) {p r : Place} (hr : r ∈ passes p steps) :
    r <+: p ++ steps := by
  induction steps generalizing p with
  | nil => exact absurd hr (by simp [passes])
  | cons name steps ih =>
    obtain ⟨hname, hsteps⟩ := List.forall_mem_cons.1 hsteps
    rw [passes_cons hname.1, List.mem_cons, follow_cons_step hname] at hr
    rcases hr with rfl | hr
    · exact List.prefix_append r _
    · have hbelow := ih hsteps hr
      rwa [follow, List.append_assoc] at hbelow

/-- names that climb and then descend -/
def Direct (names : List String) : Prop :=
  ∃ ups steps, names = ups ++ steps ∧ (∀ n ∈ ups, n = "." ∨ n = "..") ∧ ∀ n ∈ steps, IsStep n

theorem Direct.dropLast {names : List String} (h : Direct names) : Direct names.dropLast := by
  obtain ⟨ups, steps, rfl, hups, hsteps⟩ := h
  rcases List.eq_nil_or_concat' steps with rfl | ⟨init, name, rfl⟩
  · rw [List.append_nil]
    exact ⟨ups.dropLast, [], by simp, fun n hn => hups n (List.dropLast_subset ups hn), by simp⟩
  · rw [← List.append_assoc, List.dropLast_concat]
    exact ⟨ups, init, rfl, hups, fun n hn => hsteps n (List.mem_append_left _ hn)⟩

/-- what cleaning has so far, from its end: names that lead down, above names that climb; none climbs from the root -/
def CleanStack (rooted : Bool) (names : List String) : Prop :=
  ∃ steps ups, names = steps ++ List.replicate ups ".." ∧ (∀ n ∈ steps, IsStep n) ∧ (rooted = true → ups = 0)

section Push

variable (rooted : Bool) (names : List String)

theorem pushName_stay {name : String} (h : name = "" ∨ name = ".") : pushName rooted names name = names := by
  unfold pushName
  rw [if_pos (by simpa using h)]

theorem pushName_step {name : String} (h : IsStep name) : pushName rooted names name = name :: names := by
  unfold pushName
  rw [if_neg (by simp [h.1, h.2.1]), if_neg (by simp [h.2.2])]

theorem pushName_back {top : String} (h : IsStep top) : pushName rooted (top :: names) ".." = names := by
  have hne : (top == "..") = false := beq_eq_false_iff_ne.2 h.2.2
  simp [pushName, hne]

theorem pushName_climb : pushName rooted (".." :: names) ".." = ".." :: ".." :: names := rfl

end Push

theorem CleanStack.pushName {rooted : Bool} {names : List String} (h : CleanStack rooted names) (name : String) :
    CleanStack rooted (pushName rooted names name) := by
  rcases name_cases name with hstay | rfl | hstep
  · rwa [pushName_stay rooted names hstay]
  · obtain ⟨steps, ups, rfl, hsteps, hups⟩ := h
    cases steps with
    | cons top steps =>
      rw [List.cons_append, pushName_back rooted _ (hsteps top List.mem_cons_self)]
      exact ⟨steps, ups, rfl, fun n hn => hsteps n (List.mem_cons_of_mem top hn), hups⟩
    | nil =>
      cases ups with
      | zero =>
        cases rooted with
        | true => exact ⟨[], 0, rfl, by simp, fun _ => rfl⟩
        | false => exact ⟨[], 1, rfl, by simp, by simp⟩
      | succ ups => exact ⟨[], ups + 2, rfl, by simp, fun hroot => absurd (hups hroot) (by simp)⟩
  · rw [pushName_step rooted names hstep]
    obtain ⟨steps, ups, rfl, hsteps, hups⟩ := h
    refine ⟨name :: steps, ups, rfl, fun n hn => ?_, hups⟩
    rcases List.mem_cons.1 hn with rfl | hn
    · exact hstep
    · exact hsteps n hn

/-- one more name leads on from where the names before it led -/
theorem follow_pushName {rooted : Bool} {names : List String} (h : CleanStack rooted names) {p : Place}
    (hp : rooted = true → p = []) (name : String) :
    follow p (pushName rooted names name).reverse = follow (follow p names.reverse) [name] := by
  rcases name_cases name with hstay | rfl | hstep
  · rw [pushName_stay rooted names hstay]
    rcases hstay with rfl | rfl <;> rfl
  · obtain ⟨steps, ups, rfl, hsteps, hups⟩ := h
    cases steps with
    | cons top steps =>
      have htop := hsteps top List.mem_cons_self
      rw [List.cons_append, pushName_back rooted _ htop, List.reverse_cons, follow_append _ _ [top], follow_cons_step htop]
      simp [follow]
    | nil =>
      cases ups with
      | zero =>
        cases rooted with
        | true =>
          -- nothing is above the root
          rw [hp rfl]
          rfl
        | false => rfl
      | succ ups =>
        rw [List.nil_append, List.replicate_succ, pushName_climb, List.reverse_cons (a := ".."), follow_append]
  · rw [pushName_step rooted names hstep, List.reverse_cons, follow_append]

/-- the names of a path once it is clean -/
def cleanNames (path : String) : List String := ((pathNames path).foldl (pushName (isRooted path)) []).reverse

theorem foldl_pushName (rooted : Bool) {p : Place} (hp : rooted = true → p = []) (l : List String) {names : List String}
    (h : CleanStack rooted names) :
    CleanStack rooted (l.foldl (pushName rooted) names) ∧
      follow p (l.foldl (pushName rooted) names).reverse = follow (follow p names.reverse) l := by
  induction l generalizing names with
  | nil => exact ⟨h, rfl⟩
  | cons name l ih =>
    obtain ⟨hclean, hfollow⟩ := ih (h.pushName name)
    refine ⟨hclean, ?_⟩
    calc follow p (l.foldl (pushName rooted) (pushName rooted names name)).reverse
        = follow (follow p (pushName rooted names name).reverse) l := hfollow
      _ = follow (follow (follow p names.reverse) [name]) l := by rw [follow_pushName h hp]
      _ = follow (follow p names.reverse) (name :: l) := (follow_append _ [name] l).symm

theorem cleanStack_nil (rooted : Bool) : CleanStack rooted [] := ⟨[], 0, rfl, by simp, fun _ => rfl⟩

/-- **Cleaning keeps the place.** -/
theorem follow_cleanNames {path : String} {p : Place} (hp : isRooted path = true → p = []) :
    follow p (cleanNames path) = follow p (pathNames path) :=
  (foldl_pushName (isRooted path) hp (pathNames path) (cleanStack_nil _)).2

theorem cleanNames_eq (path : String) :
    ∃ ups steps, cleanNames path = List.replicate ups ".." ++ steps ∧ (∀ n ∈ steps, IsStep n) := by
  obtain ⟨steps, ups, hstack, hsteps, -⟩ :=
    (foldl_pushName (isRooted path) (fun _ => rfl) (pathNames path) (cleanStack_nil _)).1
  refine ⟨ups, steps.reverse, ?_, fun n hn => hsteps n (List.mem_reverse.1 hn)⟩
  rw [cleanNames, hstack, List.reverse_append, List.reverse_replicate]

theorem mem_pushName {rooted : Bool} {names : List String} {name n : String} (h : n ∈ pushName rooted names name) :
    n ∈ names ∨ n = name := by
  rcases name_cases name with hstay | rfl | hstep
  · rw [pushName_stay rooted names hstay] at h
    exact Or.inl h
  · cases names with
    | nil =>
      cases rooted with
      | true => exact absurd h (by simp [pushName])
      | false => exact Or.inr (by simpa [pushName] using h)
    | cons top below =>
      by_cases htop : top = ".."
      · subst htop
        rw [pushName_climb] at h
        exact (List.mem_cons.1 h).symm
      · have hbelow : pushName rooted (top :: below) ".." = below := by simp [pushName, htop]
        rw [hbelow] at h
        exact Or.inl (List.mem_cons_of_mem top h)
  · rw [pushName_step rooted names hstep] at h
    exact (List.mem_cons.1 h).symm

theorem slash_not_mem_cleanNames {path name : String} (h : name ∈ cleanNames path) : '/' ∉ name.toList := by
  have hpush : ∀ (l names : List String), (∀ n ∈ names, '/' ∉ n.toList) → (∀ n ∈ l, '/' ∉ n.toList) →
      ∀ n ∈ l.foldl (pushName (isRooted path)) names, '/' ∉ n.toList := by
    intro l
    induction l with
    | nil => exact fun names hnames _ => hnames
    | cons x l ih =>
      intro names hnames hl
      refine ih _ (fun n hn => ?_) fun n hn => hl n (List.mem_cons_of_mem x hn)
      rcases mem_pushName hn with hn | rfl
      · exact hnames n hn
      · exact hl n List.mem_cons_self
  exact hpush _ [] (by simp) (fun n hn => slash_not_mem_name hn) name (List.mem_reverse.1 h)

theorem cleanNames_ne_empty {path name : String} (h : name ∈ cleanNames path) : name ≠ "" := by
  obtain ⟨ups, steps, hnames, hsteps⟩ := cleanNames_eq path
  rw [hnames] at h
  rcases List.mem_append.1 h with h | h
  · rw [List.eq_of_mem_replicate h]
    decide
  · exact (hsteps name h).1

theorem significant_eq_self {names : List String} (h : ∀ n ∈ names, n ≠ "") : names.filter (· != "") = names := by
  rw [List.filter_eq_self]
  intro n hn
  simpa using h n hn

/-- the text of clean names, taken apart -/
theorem significant_intercalate_cleanNames (path : String) :
    significant ("/".intercalate (cleanNames path)) = cleanNames path := by
  by_cases hnone : cleanNames path = []
  · rw [hnone]
    rfl
  · rw [significant, pathNames_intercalate hnone fun n hn => slash_not_mem_cleanNames hn]
    exact significant_eq_self fun n hn => cleanNames_ne_empty hn

theorem cleanPath_rooted {path : String} (h : isRooted path = true) :
    cleanPath path = "/" ++ "/".intercalate (cleanNames path) := by
  simp [cleanPath, cleanNames, h]

theorem cleanPath_stay {path : String} (h : isRooted path = false) (hnone : cleanNames path = []) : cleanPath path = "." := by
  have hempty : ((pathNames path).foldl (pushName false) []).reverse = [] := by
    rw [cleanNames, h] at hnone
    exact hnone
  simp only [cleanPath, h, Bool.false_eq_true, if_false, hempty]
  rfl

theorem cleanPath_relative {path : String} (h : isRooted path = false) (hsome : cleanNames path ≠ []) :
    cleanPath path = "/".intercalate (cleanNames path) := by
  have hsome' : ((pathNames path).foldl (pushName false) []).reverse.isEmpty = false := by
    rw [List.isEmpty_eq_false_iff, ← h]
    exact hsome
  simp only [cleanPath, h, Bool.false_eq_true, if_false, hsome']
  rw [cleanNames, h]

theorem isRooted_iff {path : String} : isRooted path = true ↔ ∃ r, path.toList = '/' :: r := by
  unfold isRooted
  cases path.toList with
  | nil => simp
  | cons c r =>
    rw [List.head?_cons, beq_iff_eq, Option.some.injEq]
    exact ⟨fun hc => ⟨r, by rw [hc]⟩, fun ⟨_, hcons⟩ => (List.cons.inj hcons).1⟩

/-- names of a rooted path start with an empty one -/
theorem pathNames_rooted {path : String} (h : isRooted path = true) : ∃ r, pathNames path = "" :: r := by
  obtain ⟨r, hr⟩ := isRooted_iff.1 h
  exact ⟨_, by rw [pathNames, hr, splitChars, if_pos (by simp), List.map_cons]⟩

theorem isRooted_cleanPath (path : String) : isRooted (cleanPath path) = isRooted path := by
  cases h : isRooted path with
  | true =>
    rw [cleanPath_rooted h, isRooted_iff]
    exact ⟨("/".intercalate (cleanNames path)).toList, by simp⟩
  | false =>
    by_cases hnone : cleanNames path = []
    · rw [cleanPath_stay h hnone]
      rfl
    · rw [cleanPath_relative h hnone, Bool.eq_false_iff]
      intro hroot
      obtain ⟨r, hr⟩ := pathNames_rooted hroot
      rw [pathNames_intercalate hnone fun n hn => slash_not_mem_cleanNames hn] at hr
      exact cleanNames_ne_empty (by rw [hr]; exact List.mem_cons_self) rfl

theorem cleanPath_ne_empty (path : String) : cleanPath path ≠ "" := by
  intro hempty
  have hplain : isRooted path = false := by
    rw [← isRooted_cleanPath, hempty]
    rfl
  by_cases hnone : cleanNames path = []
  · rw [cleanPath_stay hplain hnone] at hempty
    exact absurd hempty (by decide)
  · apply hnone
    rw [cleanPath_relative hplain hnone] at hempty
    rw [← significant_intercalate_cleanNames, hempty]
    exact significant_nil

/-- **What cleaning leaves is a climb and a descent** to the same place. -/
theorem cleanPath_direct (path : String) :
    Direct (significant (cleanPath path)) ∧
      ∀ p, follow p (significant (cleanPath path)) = follow p (cleanNames path) := by
  have hclean : Direct (cleanNames path) := by
    obtain ⟨ups, steps, hnames, hsteps⟩ := cleanNames_eq path
    exact ⟨List.replicate ups "..", steps, hnames, fun n hn => Or.inr (List.eq_of_mem_replicate hn), hsteps⟩
  cases h : isRooted path with
  | true =>
    have htext : cleanPath path = String.ofList ([] ++ '/' :: ("/".intercalate (cleanNames path)).toList) := by
      rw [cleanPath_rooted h, ← String.toList_inj]
      simp
    have hnames : significant (cleanPath path) = cleanNames path := by
      rw [htext, significant_append, significant_nil, List.nil_append, String.ofList_toList]
      exact significant_intercalate_cleanNames path
    rw [hnames]
    exact ⟨hclean, fun p => rfl⟩
  | false =>
    by_cases hnone : cleanNames path = []
    · have hstay : significant "." = ["."] := by decide +kernel
      rw [cleanPath_stay h hnone, hnone, hstay]
      exact ⟨⟨["."], [], rfl, by simp, by simp⟩, fun p => rfl⟩
    · rw [cleanPath_relative h hnone, significant_intercalate_cleanNames]
      exact ⟨hclean, fun p => rfl⟩

/-! ## Places of paths -/

namespace Disk

/-- where a path starts -/
def origin (d : Disk) (path : String) : Place := if isRooted path then [] else d.cwd

/-- the place that a path leads to, whether or not anything stands there -/
def placeOf (d : Disk) (path : String) : Place := follow (d.origin path) (pathNames path)

/-- the places that a path passes through -/
def passed (d : Disk) (path : String) : List Place := passes (d.origin path) (pathNames path)

theorem origin_rooted {d : Disk} {path : String} (h : isRooted path = true) : d.origin path = [] := by
  rw [origin, if_pos h]

theorem placeOf_cleanPath (d : Disk) (path : String) : d.placeOf (cleanPath path) = d.placeOf path := by
  have horigin : d.origin (cleanPath path) = d.origin path := by rw [origin, origin, isRooted_cleanPath]
  calc d.placeOf (cleanPath path)
      = follow (d.origin path) (significant (cleanPath path)) := by
        rw [placeOf, horigin, significant, follow_significant]
    _ = follow (d.origin path) (cleanNames path) := (cleanPath_direct path).2 _
    _ = d.placeOf path := follow_cleanNames fun h => origin_rooted h

end Disk

/-! ## Parents -/

/-- a text is cut behind its last slash -/
theorem cut_at_slash (s : List Char) :
    ∃ u n, s = u ++ n ∧ '/' ∉ n ∧ (s.reverse.dropWhile (· != '/')).reverse = u ∧ (u = [] ∨ ∃ v, u = v ++ ['/']) := by
  refine ⟨(s.reverse.dropWhile (· != '/')).reverse, (s.reverse.takeWhile (· != '/')).reverse, ?_, ?_, rfl, ?_⟩
  · rw [← List.reverse_append, List.takeWhile_append_dropWhile, List.reverse_reverse]
  · intro hmem
    have htake := List.all_eq_true.1 List.all_takeWhile _ (List.mem_reverse.1 hmem)
    exact absurd htake (by simp)
  · cases hdrop : s.reverse.dropWhile (· != '/') with
    | nil => exact Or.inl rfl
    | cons c r =>
      have hc := List.head?_dropWhile_not (· != '/') s.reverse
      rw [hdrop] at hc
      have hslash : c = '/' := by simpa using hc
      exact Or.inr ⟨r.reverse, by rw [hslash, List.reverse_cons]⟩

/-- the names before a cut stay, the name behind it goes -/
theorem pathNames_cut {u n : List Char} (hn : '/' ∉ n) (hu : u = [] ∨ ∃ v, u = v ++ ['/']) :
    ∃ init, pathNames (String.ofList (u ++ n)) = init ++ [String.ofList n] ∧
      pathNames (String.ofList u) = init ++ [""] := by
  rcases hu with rfl | ⟨v, rfl⟩
  · exact ⟨[], by rw [List.nil_append, pathNames_plain hn, List.nil_append], rfl⟩
  · refine ⟨pathNames (String.ofList v), ?_, ?_⟩
    · rw [List.append_assoc, List.singleton_append, pathNames_append, pathNames_plain hn]
    · rw [pathNames_append]
      rfl

theorem isRooted_front {u n : List Char} (hn : '/' ∉ n) :
    isRooted (String.ofList u) = isRooted (String.ofList (u ++ n)) := by
  cases u with
  | cons c u => simp [isRooted]
  | nil =>
    have hfront : isRooted (String.ofList n) = false := by
      rw [Bool.eq_false_iff]
      intro hroot
      obtain ⟨r, hr⟩ := isRooted_iff.1 hroot
      rw [String.toList_ofList] at hr
      exact hn (by rw [hr]; exact List.mem_cons_self)
    rw [List.nil_append, hfront]
    rfl

theorem namesDirectory_eq {path last : String} {init : List String} (h : pathNames path = init ++ [last]) :
    Disk.namesDirectory path = true ↔ ¬ IsStep last := by
  rw [Disk.namesDirectory, h, List.getLast?_concat]
  simp only [Bool.or_eq_true, beq_iff_eq, IsStep]
  tauto

/-- **Where the parent of a path leads to**: where the path is before its last name. -/
theorem Disk.parentPath_place (d : Disk) (path : String) :
    ∃ init last, pathNames path = init ++ [last] ∧ d.placeOf (parentPath path) = follow (d.origin path) init := by
  obtain ⟨u, n, hpath, hn, hdir, hu⟩ := cut_at_slash path.toList
  obtain ⟨init, hnames, hfront⟩ := pathNames_cut hn hu
  have htext : path = String.ofList (u ++ n) := by rw [← hpath, String.ofList_toList]
  refine ⟨init, String.ofList n, by rw [htext, hnames], ?_⟩
  have horigin : d.origin (String.ofList u) = d.origin path := by
    rw [Disk.origin, Disk.origin, isRooted_front hn, ← htext]
  rw [parentPath, hdir, Disk.placeOf_cleanPath, Disk.placeOf, horigin, hfront, follow_append]
  rfl

/-! ## Upper parts -/

/-- slashes at the end say nothing -/
theorem significant_slashes (a : List Char) {slashes : List Char} (h : ∀ c ∈ slashes, c = '/') :
    significant (String.ofList (a ++ slashes)) = significant (String.ofList a) := by
  induction slashes generalizing a with
  | nil => rw [List.append_nil]
  | cons c r ih =>
    have hr := ih [] fun x hx => h x (List.mem_cons_of_mem c hx)
    rw [List.nil_append, significant_nil] at hr
    rw [h c List.mem_cons_self, significant_append, hr, List.append_nil]

/-- a path is its upper part, its last name and slashes, unless it says nothing -/
theorem upperPart_cut (path : String) :
    significant path = [] ∧ Disk.upperPart path = "" ∨
      ∃ u n slashes, path.toList = u ++ n ++ slashes ∧ n ≠ [] ∧ '/' ∉ n ∧ (∀ c ∈ slashes, c = '/') ∧
        Disk.upperPart path = String.ofList u ∧ (u = [] ∨ ∃ v, u = v ++ ['/']) := by
  let body := (path.toList.reverse.dropWhile (· == '/')).reverse
  let slashes := (path.toList.reverse.takeWhile (· == '/')).reverse
  have hpath : path.toList = body ++ slashes := by
    rw [← List.reverse_append, List.takeWhile_append_dropWhile, List.reverse_reverse]
  have hslashes : ∀ c ∈ slashes, c = '/' := by
    intro c hc
    simpa using List.all_eq_true.1 List.all_takeWhile _ (List.mem_reverse.1 hc)
  obtain ⟨u, n, hbody, hn, hupper, hu⟩ := cut_at_slash body
  have htext : Disk.upperPart path = String.ofList u := by
    rw [← hupper, List.reverse_reverse]
    rfl
  by_cases hempty : n = []
  · -- the body ends in no slash, so nothing is left of it
    left
    rw [hempty, List.append_nil] at hbody
    rcases hu with hu | ⟨v, hv⟩
    · refine ⟨?_, by rw [htext, hu]⟩
      have hall : path = String.ofList ([] ++ slashes) := by
        rw [← String.toList_inj, String.toList_ofList, hpath, hbody, hu]
      rw [hall, significant_slashes [] hslashes, significant_nil]
    · exfalso
      have hhead := List.head?_dropWhile_not (· == '/') path.toList.reverse
      have hbody' : path.toList.reverse.dropWhile (· == '/') = '/' :: v.reverse := by
        have hrev : body.reverse = '/' :: v.reverse := by rw [hbody, hv, List.reverse_concat]
        rwa [List.reverse_reverse] at hrev
      rw [hbody'] at hhead
      exact absurd hhead (by simp)
  · right
    exact ⟨u, n, slashes, by rw [hpath, hbody], hempty, hn, hslashes, htext, hu⟩

theorem significant_cut {u n slashes : List Char} (hne : n ≠ []) (hn : '/' ∉ n) (hslashes : ∀ c ∈ slashes, c = '/')
    (hu : u = [] ∨ ∃ v, u = v ++ ['/']) :
    significant (String.ofList (u ++ n ++ slashes)) = significant (String.ofList u) ++ [String.ofList n] := by
  obtain ⟨init, hnames, hfront⟩ := pathNames_cut hn hu
  have hname : String.ofList n ≠ "" := fun h => hne (by rw [← String.toList_ofList (l := n), h]; rfl)
  rw [significant_slashes _ hslashes, significant, hnames, significant, hfront]
  simp [hname]

/-- **The path up to its last name** says all but that. -/
theorem significant_upperPart (path : String) : significant (Disk.upperPart path) = (significant path).dropLast := by
  rcases upperPart_cut path with ⟨hnone, hupper⟩ | ⟨u, n, slashes, hpath, hne, hn, hslashes, hupper, hu⟩
  · rw [hnone, hupper]
    exact significant_nil
  · rw [← String.ofList_toList (s := path), hpath, significant_cut hne hn hslashes hu, ← hpath, String.ofList_toList,
      hupper, List.dropLast_concat]

theorem upperPart_prefix (path : String) : (Disk.upperPart path).toList <+: path.toList := by
  rcases upperPart_cut path with ⟨-, hupper⟩ | ⟨u, n, slashes, hpath, -, -, -, hupper, -⟩
  · rw [hupper]
    exact List.nil_prefix
  · rw [hupper, hpath, String.toList_ofList, List.append_assoc]
    exact List.prefix_append u _

theorem upperPart_lt {path : String} (h : path ≠ "") : (Disk.upperPart path).length < path.length := by
  rw [← String.length_toList, ← String.length_toList (s := path)]
  rcases upperPart_cut path with ⟨-, hupper⟩ | ⟨u, n, slashes, hpath, hne, -, -, hupper, -⟩
  · rw [hupper]
    have hpos : path.toList ≠ [] := fun hnil => h (by rw [← String.ofList_toList (s := path), hnil])
    exact List.length_pos_iff.2 hpos
  · rw [hupper, hpath, String.toList_ofList, List.length_append, List.length_append]
    have := List.length_pos_iff.2 hne
    omega

theorem isRooted_upperPart {path : String} (h : Disk.upperPart path ≠ "") :
    isRooted (Disk.upperPart path) = isRooted path := by
  obtain ⟨r, hr⟩ := upperPart_prefix path
  cases hupper : (Disk.upperPart path).toList with
  | nil => exact absurd (by rw [← String.ofList_toList (s := Disk.upperPart path), hupper]) h
  | cons c u => rw [isRooted, isRooted, ← hr, hupper, List.cons_append, List.head?_cons, List.head?_cons]

/-- a path without an upper part has one name at most, and starts at the root only if it has none -/
theorem upperPart_eq_empty {path : String} (h : Disk.upperPart path = "") :
    significant path = [] ∨ isRooted path = false ∧ ∃ n, significant path = [n] := by
  rcases upperPart_cut path with ⟨hnone, -⟩ | ⟨u, n, slashes, hpath, hne, hn, hslashes, hupper, hu⟩
  · exact Or.inl hnone
  · right
    obtain rfl : u = [] := by
      rw [hupper] at h
      rw [← String.toList_ofList (l := u), h]
      rfl
    have htext : path = String.ofList ([] ++ n ++ slashes) := by rw [← hpath, String.ofList_toList]
    constructor
    · obtain ⟨c, n, rfl⟩ := List.exists_cons_of_ne_nil hne
      rw [Bool.eq_false_iff]
      intro hroot
      obtain ⟨r, hr⟩ := isRooted_iff.1 hroot
      rw [hpath] at hr
      exact hn (by rw [(List.cons.inj hr).1]; exact List.mem_cons_self)
    · rw [htext, significant_cut hne hn hslashes hu]
      exact ⟨String.ofList n, by rw [significant_nil, List.nil_append]⟩

end MatcherGen
