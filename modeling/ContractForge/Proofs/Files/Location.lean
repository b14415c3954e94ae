import ContractForge.Files.Tree
import ContractForge.Proofs.Generation.Steps
import ContractForge.Proofs.Text.Segments

/-!
# Where paths lead

* `Path.names` : the components of a path that lead somewhere, without the empty ones and the dots.
* `Location.follow` : names followed from a location, as if all directories on the way were there.
* `FileTree.target` : the location that a path leads to in this way. What the operations of a tree
  find at the end of a path, they find at its target (`locate_eq_ok`).

The names of a joined path are those of its two parts, and the paths above an absolute path have an
initial part of its names.
-/

namespace ContractForge

/-- One name further from a location. -/
def Location.enter (l : Location) (name : String) : Location :=
  if name = "" || name = "." then l
  else if name = ".." then l.dropLast
  else l ++ [name]

/-- Names followed one after another. -/
def Location.follow (l : Location) (names : List String) : Location :=
  names.foldl Location.enter l

namespace Path

/-- The name leads to another location. -/
def leads (name : String) : Bool :=
  !(name = "" || name = ".")

/-- The components of a path that lead somewhere. -/
def names (path : String) : List String :=
  (FileTree.components path).filter leads

/-- The path starts from the root of the tree. -/
def IsAbsolute (path : String) : Prop :=
  path.toList.head? = some '/'

end Path

/-- Where a path leads, whatever stands there. -/
def FileTree.target (t : FileTree) (path : String) : Location :=
  Location.follow (t.start path) (Path.names path)

/-! ### Following names -/

theorem Location.follow_append (l : Location) (names further : List String) :
    l.follow (names ++ further) = (l.follow names).follow further :=
  List.foldl_append

theorem Location.enter_of_not_leads (l : Location) {name : String} (h : Path.leads name = false) :
    l.enter name = l := by
  have hvoid : (name = "" || name = ".") = true := by
    simpa only [Path.leads, Bool.not_eq_false'] using h
  rw [Location.enter, if_pos hvoid]

/-- Names that lead nowhere may be left out. -/
theorem Location.follow_filter (l : Location) (names : List String) :
    l.follow (names.filter Path.leads) = l.follow names := by
  induction names generalizing l with
  | nil => rfl
  | cons name rest ih =>
    cases hleads : Path.leads name with
    | true =>
      rw [List.filter_cons_of_pos hleads]
      exact ih (l.enter name)
    | false =>
      rw [List.filter_cons_of_neg (by simp [hleads]), ih]
      exact congrArg (Location.follow · rest) (l.enter_of_not_leads hleads).symm

/-- Names of which none goes up lead below. -/
theorem Location.follow_eq_append (l : Location) {names : List String}
    (h : ∀ name ∈ names, Path.leads name = true ∧ name ≠ "..") : l.follow names = l ++ names := by
  induction names generalizing l with
  | nil => exact (List.append_nil l).symm
  | cons name rest ih =>
    obtain ⟨hleads, hup⟩ := h name List.mem_cons_self
    have hvoid : ¬(name = "" || name = ".") = true := by
      simpa only [Path.leads, Bool.not_eq_true', Bool.not_eq_true] using hleads
    have henter : l.enter name = l ++ [name] := by
      rw [Location.enter, if_neg hvoid, if_neg hup]
    show (l.enter name).follow rest = _
    rw [henter, ih (l ++ [name]) fun n hn => h n (List.mem_cons_of_mem _ hn), List.append_assoc]
    rfl

/-! ### The names of a path -/

namespace Path

open Text (segments joinSegments)

theorem leads_ofList (segment : List Char) : leads (String.ofList segment) = !isVoid segment := by
  simp [leads, isVoid, ← String.toList_inj]

theorem names_eq (path : String) :
    names path = ((segments '/' path.toList).filter fun s => !isVoid s).map String.ofList := by
  rw [names, FileTree.components, List.filter_map]
  refine congrArg _ (List.filter_congr fun segment _ => ?_)
  exact leads_ofList segment

/-- A slash more or less does not matter. -/
theorem names_append_slash (a b : List Char) :
    names (String.ofList (a ++ '/' :: b)) = names (String.ofList a) ++ names (String.ofList b) := by
  simp only [names_eq, String.toList_ofList, Text.segments_append_sep, List.filter_append,
    List.map_append]

theorem names_empty : names "" = [] := by
  decide

/-- A path after another one, which leads on from where that one leads. -/
theorem names_join {a b : String} (hb : ¬IsAbsolute b) (ha : a ≠ "") :
    names (join a b) = names a ++ names b := by
  have hempty : a.isEmpty = false := by simpa using ha
  unfold IsAbsolute at hb
  unfold join
  rw [if_neg (by simp [hb, hempty])]
  split
  next hslash =>
    obtain ⟨front, hfront⟩ := List.getLast?_eq_some_iff.mp hslash
    have hab : a ++ b = String.ofList (front ++ '/' :: b.toList) := by
      rw [← String.toList_inj]
      simp [hfront]
    have ha : a = String.ofList (front ++ '/' :: []) := by
      rw [← String.toList_inj, hfront, String.toList_ofList]
    rw [hab, names_append_slash, ha, names_append_slash, String.ofList_toList]
    simp [names_empty]
  next =>
    have hab : a ++ "/" ++ b = String.ofList (a.toList ++ '/' :: b.toList) := by
      rw [← String.toList_inj]
      simp
    rw [hab, names_append_slash, String.ofList_toList, String.ofList_toList]

theorem head?_join {a b : String} (hb : ¬IsAbsolute b) (ha : a ≠ "") :
    (join a b).toList.head? = a.toList.head? := by
  have hempty : a.isEmpty = false := by simpa using ha
  have hfirst : ∀ s : List Char, (a.toList ++ s).head? = a.toList.head? := by
    intro s
    rw [List.head?_append_of_ne_nil]
    simpa using ha
  unfold IsAbsolute at hb
  unfold join
  rw [if_neg (by simp [hb, hempty])]
  split
  next => rw [String.toList_append, hfirst]
  next => rw [String.toList_append, String.toList_append, List.append_assoc, hfirst]

theorem isAbsolute_join {a b : String} (ha : IsAbsolute a) : IsAbsolute (join a b) := by
  by_cases hb : IsAbsolute b
  · have hfirst : b.toList.head? = some '/' := hb
    unfold join
    rwa [if_pos (by simp [hfirst])]
  · have hne : a ≠ "" := by
      rintro rfl
      cases ha
    rw [IsAbsolute, head?_join hb hne]
    exact ha

/-! ### The paths above a path -/

/-- Void segments at the end are not among the names. -/
theorem filter_dropVoidEnd (parts : List (List Char)) :
    (dropVoidEnd parts).filter (fun s => !isVoid s) = parts.filter fun s => !isVoid s := by
  have hdrop : ∀ l : List (List Char),
      (l.dropWhile isVoid).filter (fun s => !isVoid s) = l.filter fun s => !isVoid s := by
    intro l
    induction l with
    | nil => rfl
    | cons s rest ih =>
      rw [List.dropWhile_cons]
      split
      next hvoid => rw [ih, List.filter_cons_of_neg (by simp [hvoid])]
      next => rfl
  rw [dropVoidEnd, List.filter_reverse, hdrop, ← List.filter_reverse, List.reverse_reverse]

/-- The last segment that is kept is a name. -/
theorem isVoid_of_dropVoidEnd {parts before : List (List Char)} {last : List Char}
    (h : (dropVoidEnd parts).reverse = last :: before) : isVoid last = false := by
  rw [dropVoidEnd, List.reverse_reverse] at h
  have hhead := List.head?_dropWhile_not isVoid parts.reverse
  rw [h] at hhead
  simpa using hhead

theorem mem_of_mem_dropVoidEnd {parts : List (List Char)} {s : List Char}
    (h : s ∈ dropVoidEnd parts) : s ∈ parts := by
  have hmem := (List.dropWhile_sublist isVoid).subset (List.mem_reverse.mp h)
  exact List.mem_reverse.mp hmem

theorem names_slash_joinSegments {parts : List (List Char)} (h : ∀ s ∈ parts, '/' ∉ s) :
    names (String.ofList ('/' :: joinSegments '/' parts)) =
      (parts.filter fun s => !isVoid s).map String.ofList := by
  rw [names_eq, String.toList_ofList, segments, if_pos rfl]
  cases parts with
  | nil => rfl
  | cons part further =>
    rw [Text.segments_joinSegments (by simp) h]
    rfl

theorem exists_of_isAbsolute {path : String} (h : IsAbsolute path) :
    ∃ rest, path.toList = '/' :: rest := by
  unfold IsAbsolute at h
  cases hlist : path.toList with
  | nil => simp [hlist] at h
  | cons c rest =>
    rw [hlist] at h
    obtain rfl := Option.some.inj h
    exact ⟨rest, rfl⟩

/-- The parent of an absolute path is an absolute path with one name less. -/
theorem names_of_parent? {path dir : String} (habs : IsAbsolute path)
    (h : parent? path = some dir) : IsAbsolute dir ∧ names dir = (names path).dropLast := by
  obtain ⟨rest, hpath⟩ := exists_of_isAbsolute habs
  have hanchor : anchor path.toList = (['/'], segments '/' rest) := by
    rw [hpath]
    rfl
  rw [parent?, hanchor] at h
  dsimp only at h
  split at h
  next => simp at h
  next last before hkept =>
    -- void segments before the last one go with it, but they are no names
    have hlast := isVoid_of_dropVoidEnd hkept
    have hparts : dropVoidEnd (segments '/' rest) = before.reverse ++ [last] := by
      rw [← List.reverse_reverse (dropVoidEnd _), hkept, List.reverse_cons]
    have hunanchor : ∀ parts, unanchor ['/'] parts = '/' :: joinSegments '/' parts := by
      intro parts
      rfl
    rw [hunanchor] at h
    obtain rfl := Option.some.inj h
    have hfree : ∀ s ∈ dropVoidEnd before.reverse, '/' ∉ s := by
      intro s hs
      have hmem : s ∈ dropVoidEnd (segments '/' rest) := by
        rw [hparts]
        exact List.mem_append_left _ (mem_of_mem_dropVoidEnd hs)
      exact (Text.of_mem_segments (mem_of_mem_dropVoidEnd hmem)).1
    have hnames : names path = ((before.reverse ++ [last]).filter fun s => !isVoid s).map
        String.ofList := by
      rw [names_eq, hpath, ← hparts, filter_dropVoidEnd, segments, if_pos rfl]
      rfl
    refine ⟨by rw [IsAbsolute, String.toList_ofList]; rfl, ?_⟩
    rw [hnames, names_slash_joinSegments hfree, filter_dropVoidEnd, List.filter_append,
      List.map_append, List.filter_cons_of_pos (by simp [hlast]), List.filter_nil,
      List.map_singleton, List.dropLast_concat]

/-- The paths above an absolute path have an initial part of its names. -/
theorem names_of_mem_ancestors {path above : String} (habs : IsAbsolute path)
    (h : above ∈ ancestors path) : IsAbsolute above ∧ names above <+: names path := by
  have hgo : ∀ n p, IsAbsolute p → above ∈ ancestors.go n p →
      IsAbsolute above ∧ names above <+: names p := by
    intro n
    induction n with
    | zero =>
      intro p _ hmem
      cases hmem
    | succ n ih =>
      intro p hp hmem
      rw [ancestors.go] at hmem
      rcases List.mem_cons.mp hmem with rfl | hmem
      · exact ⟨hp, List.prefix_refl _⟩
      · split at hmem
        next dir hdir =>
          obtain ⟨hdirAbs, hdirNames⟩ := names_of_parent? hp hdir
          obtain ⟨haboveAbs, hprefix⟩ := ih dir hdirAbs hmem
          rw [hdirNames] at hprefix
          exact ⟨haboveAbs, hprefix.trans (List.dropLast_prefix _)⟩
        next => cases hmem
  exact hgo _ _ habs h

end Path

/-! ### What the operations find -/

namespace FileTree

variable {t : FileTree}

theorem start_of_isAbsolute (t : FileTree) {path : String} (h : Path.IsAbsolute path) :
    t.start path = [] := by
  unfold Path.IsAbsolute at h
  rw [start, if_pos h]

theorem target_of_isAbsolute (t : FileTree) {path : String} (h : Path.IsAbsolute path) :
    t.target path = Location.follow [] (Path.names path) := by
  rw [target, start_of_isAbsolute t h]

/-- A path after another one leads on from where that one leads. -/
theorem target_join (t : FileTree) {a b : String} (hb : ¬Path.IsAbsolute b) :
    t.target (Path.join a b) = (t.target a).follow (Path.names b) := by
  by_cases ha : a = ""
  · subst ha
    have hjoin : Path.join "" b = b := by simp [Path.join]
    have hstart : t.start b = t.workingDir := if_neg hb
    rw [hjoin, target, hstart]
    rfl
  · have hstart : t.start (Path.join a b) = t.start a := by
      rw [start, Path.head?_join hb ha, start]
    rw [target, hstart, Path.names_join hb ha, Location.follow_append]
    rfl

theorem target_eq_follow (t : FileTree) (path : String) :
    t.target path = (t.start path).follow (components path) :=
  Location.follow_filter _ _

/-- A step that succeeds starts from a directory and goes where the name leads. -/
theorem step_eq_ok {l l' : Location} {name : String} (h : t.step l name = .ok l') :
    l' = l.enter name ∧ t.find? l = some .directory := by
  unfold step at h
  split at h
  next => cases h
  next => cases h
  next hdir =>
    refine ⟨?_, hdir⟩
    unfold Location.enter
    split at h
    next hvoid =>
      rw [if_pos hvoid]
      exact (Except.ok.inj h).symm
    next hvoid =>
      rw [if_neg hvoid]
      split at h
      next hup =>
        rw [if_pos hup]
        exact (Except.ok.inj h).symm
      next hup =>
        rw [if_neg hup]
        split at h
        next => cases h
        next => exact (Except.ok.inj h).symm

theorem foldlM_step_eq_ok {l l' : Location} {names : List String}
    (h : names.foldlM t.step l = .ok l') : l' = l.follow names := by
  induction names generalizing l with
  | nil =>
    cases h
    rfl
  | cons name rest ih =>
    rw [List.foldlM_cons] at h
    obtain ⟨next, hstep, hrest⟩ := bind_eq_ok_iff.mp h
    obtain ⟨rfl, -⟩ := step_eq_ok hstep
    exact ih hrest

/-- What a way to a directory passes are directories. -/
theorem directory_of_foldlM_step {l last : Location} {names passed : List String}
    (h : names.foldlM t.step l = .ok last) (hlast : t.find? last = some .directory)
    (hpassed : passed <+: names.filter Path.leads) :
    t.find? (l.follow passed) = some .directory := by
  induction names generalizing l passed with
  | nil =>
    cases h
    rw [List.prefix_nil.mp hpassed]
    exact hlast
  | cons name rest ih =>
    rw [List.foldlM_cons] at h
    obtain ⟨next, hstep, hrest⟩ := bind_eq_ok_iff.mp h
    obtain ⟨rfl, hdir⟩ := step_eq_ok hstep
    -- a component that leads nowhere is a step, but no name
    cases hleads : Path.leads name with
    | false =>
      rw [List.filter_cons_of_neg (by simp [hleads])] at hpassed
      rw [l.enter_of_not_leads hleads] at hrest
      exact ih hrest hpassed
    | true =>
      rw [List.filter_cons_of_pos hleads] at hpassed
      cases passed with
      | nil => exact hdir
      | cons first further =>
        obtain ⟨rfl, hfurther⟩ := List.cons_prefix_cons.mp hpassed
        show t.find? ((l.enter first).follow further) = _
        exact ih hrest hfurther

/-- A path to a directory passes directories only. -/
theorem directory_of_isDirectory {path : String} {passed : List String}
    (h : t.isDirectory path = true) (hpassed : passed <+: Path.names path) :
    t.find? ((t.start path).follow passed) = some .directory := by
  unfold isDirectory at h
  split at h
  next hlookup =>
    obtain ⟨l, hlocate, hfound⟩ := bind_eq_ok_iff.mp hlookup
    obtain ⟨-, -, hfold⟩ := bind_eq_ok_iff.mp hlocate
    split at hfound
    next e hfind =>
      cases hfound
      exact directory_of_foldlM_step hfold hfind hpassed
    next => cases hfound
  next => cases h

theorem locate_eq_ok {path : String} {l : Location} (h : t.locate path = .ok l) :
    l = t.target path := by
  obtain ⟨-, -, hfold⟩ := bind_eq_ok_iff.mp h
  rw [target_eq_follow]
  exact foldlM_step_eq_ok hfold

end FileTree
end ContractForge
