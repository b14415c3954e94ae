import ContractForge.Proofs.Files.Beside
import Mathlib.Data.List.TakeWhile
import Mathlib.Tactic.ByContra
import Mathlib.Tactic.SplitIfs

/-!
# The order of a search

A locator tries the places of a path in one order: directory by directory from its root up, and three
layers at each of them.

* `Path.up?` : the path that is left after some steps up. The paths above an absolute path are given by
  it without a bound on the steps (`getElem?_ancestors`), and it ends at the slash (`up?_length_names`).
* `Locator.probe?` : the file at one place of a search, given by the steps up and the layer.
* `Locator.NothingBefore` : no place before this one has a file.
* `Locator.SearchOrder` : what is known of the answer; `searchOrder` proves it of every search from an
  absolute root.
-/

namespace ContractForge

open Text (segments joinSegments)

namespace Path

/-! ### Joining paths -/

/-- A path with a slash at its end. -/
def slashed (path : String) : String :=
  if path.toList.getLast? = some '/' then path else path ++ "/"

theorem slashed_ne_empty (path : String) : slashed path ≠ "" := by
  unfold slashed
  split_ifs with hslash
  · rintro rfl
    cases hslash
  · simp

theorem slashed_append (a : String) {b : String} (hb : b ≠ "") :
    slashed (a ++ b) = a ++ slashed b := by
  have hlast : (a ++ b).toList.getLast? = b.toList.getLast? := by
    rw [String.toList_append, List.getLast?_append_of_ne_nil _ (by simpa using hb)]
  unfold slashed
  rw [hlast]
  split_ifs
  · rfl
  · exact String.append_assoc

theorem slashed_slashed (path : String) : slashed (slashed path) = slashed path := by
  have hlast : (slashed path).toList.getLast? = some '/' := by
    unfold slashed
    split_ifs with hslash
    · exact hslash
    · simp
  rw [slashed, if_pos hlast]

theorem join_of_isAbsolute (a : String) {b : String} (hb : IsAbsolute b) : join a b = b := by
  unfold IsAbsolute at hb
  rw [join, if_pos (by simp [hb])]

theorem join_empty_left (b : String) : join "" b = b := by
  rw [join, if_pos (by simp)]

/-- A relative path comes after the other one and a slash. -/
theorem join_eq_append {a b : String} (ha : a ≠ "") (hb : ¬IsAbsolute b) :
    join a b = slashed a ++ b := by
  unfold IsAbsolute at hb
  rw [join, if_neg (by simp [hb, ha]), slashed]
  split_ifs <;> rfl

theorem not_isAbsolute_join {a b : String} (ha : ¬IsAbsolute a) (hne : a ≠ "")
    (hb : ¬IsAbsolute b) : ¬IsAbsolute (join a b) := by
  rw [IsAbsolute, head?_join hb hne]
  exact ha

theorem not_isAbsolute_empty : ¬IsAbsolute "" := by
  intro h
  cases h

/-- It does not matter which two of three paths are joined first. -/
theorem join_assoc (a b c : String) : join a (join b c) = join (join a b) c := by
  by_cases hc : IsAbsolute c
  · rw [join_of_isAbsolute b hc, join_of_isAbsolute a hc, join_of_isAbsolute _ hc]
  by_cases hb : IsAbsolute b
  · rw [join_of_isAbsolute a (isAbsolute_join hb), join_of_isAbsolute a hb]
  by_cases ha : a = ""
  · rw [ha, join_empty_left, join_empty_left]
  by_cases hnil : b = ""
  · rw [hnil, join_empty_left, join_eq_append ha hc, join_eq_append ha not_isAbsolute_empty,
      String.append_empty, join_eq_append (slashed_ne_empty a) hc, slashed_slashed]
  · have hne : slashed a ++ b ≠ "" := by simp [hnil]
    rw [join_eq_append ha (not_isAbsolute_join hb hnil hc), join_eq_append hnil hc,
      join_eq_append ha hb, join_eq_append hne hc, slashed_append _ hnil, String.append_assoc]

/-! ### Going up -/

/-- The path that is left after some steps up, unless one of them is not possible. -/
def up? : Nat → String → Option String
  | 0, path => some path
  | n + 1, path => (parent? path).bind (up? n)

theorem dropVoidEnd_eq_nil_iff {parts : List (List Char)} :
    dropVoidEnd parts = [] ↔ (parts.filter fun s => !isVoid s) = [] := by
  rw [← filter_dropVoidEnd]
  refine ⟨fun h => by rw [h]; rfl, fun h => ?_⟩
  cases hkept : (dropVoidEnd parts).reverse with
  | nil => exact List.reverse_eq_nil_iff.mp hkept
  | cons last before =>
    have hlast : last ∈ dropVoidEnd parts := by
      rw [← List.mem_reverse, hkept]
      exact List.mem_cons_self
    have hmem : last ∈ (dropVoidEnd parts).filter fun s => !isVoid s :=
      List.mem_filter.mpr ⟨hlast, by rw [isVoid_of_dropVoidEnd hkept]; rfl⟩
    rw [h] at hmem
    cases hmem

/-- The parent of a path that begins with a slash. -/
theorem parent?_of_slash {path : String} {rest : List Char} (hpath : path.toList = '/' :: rest) :
    parent? path =
      match (dropVoidEnd (segments '/' rest)).reverse with
      | [] => none
      | _ :: before => some (String.ofList ('/' :: joinSegments '/' (dropVoidEnd before.reverse))) := by
  have hanchor : anchor path.toList = (['/'], segments '/' rest) := by
    rw [hpath]
    rfl
  rw [parent?, hanchor]
  rfl

theorem names_of_slash {path : String} {rest : List Char} (hpath : path.toList = '/' :: rest) :
    names path = ((segments '/' rest).filter fun s => !isVoid s).map String.ofList := by
  rw [names_eq, hpath, segments, if_pos rfl]
  rfl

/-- It is the paths to the root that have no parent. -/
theorem parent?_eq_none_iff {path : String} (habs : IsAbsolute path) :
    parent? path = none ↔ names path = [] := by
  obtain ⟨rest, hpath⟩ := exists_of_isAbsolute habs
  rw [names_of_slash hpath, List.map_eq_nil_iff, ← dropVoidEnd_eq_nil_iff, parent?_of_slash hpath,
    ← List.reverse_eq_nil_iff]
  split
  next hnil => simp [hnil]
  next last before hkept => simp [hkept]

/-- The last step up is to the slash alone. -/
theorem eq_slash_of_parent? {path dir : String} (habs : IsAbsolute path)
    (h : parent? path = some dir) (hroot : names dir = []) : dir = "/" := by
  obtain ⟨rest, hpath⟩ := exists_of_isAbsolute habs
  rw [parent?_of_slash hpath] at h
  split at h
  next => cases h
  next last before hkept =>
    obtain rfl := Option.some.inj h
    have hmem : ∀ s ∈ dropVoidEnd before.reverse, s ∈ segments '/' rest := by
      intro s hs
      apply mem_of_mem_dropVoidEnd
      rw [← List.mem_reverse, hkept]
      exact List.mem_cons_of_mem _ (List.mem_reverse.mp (mem_of_mem_dropVoidEnd hs))
    rw [names_slash_joinSegments fun s hs => (Text.of_mem_segments (hmem s hs)).1,
      List.map_eq_nil_iff, filter_dropVoidEnd, ← dropVoidEnd_eq_nil_iff] at hroot
    rw [hroot]
    rfl

theorem length_names_le {path : String} (habs : IsAbsolute path) :
    (names path).length ≤ path.length := by
  obtain ⟨rest, hpath⟩ := exists_of_isAbsolute habs
  have hsegments : ∀ s : List Char, (segments '/' s).length ≤ s.length + 1 := by
    intro s
    induction s with
    | nil => exact Nat.le_refl 1
    | cons c cs ih =>
      obtain ⟨p, ps, hp⟩ := List.exists_cons_of_ne_nil (Text.segments_ne_nil '/' cs)
      rw [hp] at ih
      rw [segments, hp]
      split_ifs
      · simpa using ih
      · simp only [List.length_cons] at ih ⊢
        omega
  have hfilter := List.length_filter_le (fun s => !isVoid s) (segments '/' rest)
  have hrest := hsegments rest
  rw [names_of_slash hpath, List.length_map, ← String.length_toList, hpath, List.length_cons]
  omega

/-- The paths above an absolute path, without any bound on the steps. -/
theorem getElem?_ancestors {path : String} (habs : IsAbsolute path) (n : Nat) :
    (ancestors path)[n]? = up? n path := by
  have hgo : ∀ fuel p, IsAbsolute p → (names p).length < fuel → ∀ n,
      (ancestors.go fuel p)[n]? = up? n p := by
    intro fuel
    induction fuel with
    | zero =>
      intro p _ hlength
      omega
    | succ fuel ih =>
      intro p hp hlength n
      rw [ancestors.go]
      cases n with
      | zero => rfl
      | succ n =>
        rw [List.getElem?_cons_succ, up?]
        cases hdir : parent? p with
        | none => rfl
        | some dir =>
          obtain ⟨hdirAbs, hdirNames⟩ := names_of_parent? hp hdir
          have hnames : names p ≠ [] := by
            intro hnil
            rw [(parent?_eq_none_iff hp).mpr hnil] at hdir
            cases hdir
          have hpos := List.length_pos_iff.mpr hnames
          apply ih dir hdirAbs
          rw [hdirNames, List.length_dropLast]
          omega
  have hle := length_names_le habs
  exact hgo _ path habs (by omega) n

theorem isSome_up?_iff {path : String} (habs : IsAbsolute path) (n : Nat) :
    (up? n path).isSome = true ↔ n ≤ (names path).length := by
  induction n generalizing path with
  | zero => simp [up?]
  | succ n ih =>
    rw [up?]
    cases hdir : parent? path with
    | none =>
      rw [(parent?_eq_none_iff habs).mp hdir]
      simp
    | some dir =>
      obtain ⟨hdirAbs, hdirNames⟩ := names_of_parent? habs hdir
      have hne : names path ≠ [] := by
        intro hnil
        rw [(parent?_eq_none_iff habs).mpr hnil] at hdir
        cases hdir
      have hpos := List.length_pos_iff.mpr hne
      rw [Option.bind_some, ih hdirAbs, hdirNames, List.length_dropLast]
      omega

/-- The way up ends at the slash, unless it ends where it begins. -/
theorem up?_length_names {path : String} (habs : IsAbsolute path) :
    up? (names path).length path = some (if names path = [] then path else "/") := by
  induction hlength : (names path).length generalizing path with
  | zero => rw [if_pos (List.length_eq_zero_iff.mp hlength), up?]
  | succ n ih =>
    have hne : names path ≠ [] := List.ne_nil_of_length_eq_add_one hlength
    obtain ⟨dir, hdir⟩ := Option.ne_none_iff_exists'.mp (mt (parent?_eq_none_iff habs).mp hne)
    obtain ⟨hdirAbs, hdirNames⟩ := names_of_parent? habs hdir
    have hdirLength : (names dir).length = n := by
      rw [hdirNames, List.length_dropLast, hlength, Nat.add_sub_cancel]
    rw [if_neg hne, up?, hdir, Option.bind_some, ih hdirAbs hdirLength]
    split_ifs with hroot
    · rw [eq_slash_of_parent? habs hdir hroot]
    · rfl

end Path

/-! ### Places of a search -/

namespace Locator

/-- The files that are tried for a path at one directory: there, below the sources of the language, and
below the resource sources. -/
def probes (l : Locator) (dir path : String) : List String :=
  [Path.join dir path, Path.join (Path.join (Path.join dir "src/main") l.language) path,
    Path.join (Path.join dir "src/main/resources") path]

/-- The file that is tried some steps above the root, as one of the three there. -/
def probe? (l : Locator) (path : String) (step layer : Nat) : Option String :=
  (Path.up? step l.root).bind fun dir => (l.probes dir (relative path))[layer]?

/-- No file stands at any place before this one: neither nearer, nor at the same directory in an earlier
layer. -/
def NothingBefore (l : Locator) (t : FileTree) (path : String) (step layer : Nat) : Prop :=
  ∀ step' layer' other, step' < step ∨ step' = step ∧ layer' < layer →
    l.probe? path step' layer' = some other → t.isFile other = false

theorem layers_eq_probes (l : Locator) (dir path : String) :
    (l.layers.map fun layer => Path.join (Path.join dir layer) path) = l.probes dir path := by
  simp only [layers, probes, List.map_cons, List.map_nil, Path.join_assoc]
  rw [← Path.join_assoc dir "" path, Path.join_empty_left]

theorem candidates_eq (l : Locator) {path : String} (hrest : relative path ≠ "") :
    l.candidates path = (Path.ancestors l.root).flatMap fun dir => l.probes dir (relative path) := by
  unfold candidates
  rw [if_neg hrest]
  simp only [layers_eq_probes]

variable {l : Locator} {t : FileTree} {path file : String}

theorem probe?_eq_some_iff (hroot : Path.IsAbsolute l.root) {step layer : Nat} :
    l.probe? path step layer = some file ↔
      ∃ dir, (Path.ancestors l.root)[step]? = some dir ∧
        (l.probes dir (relative path))[layer]? = some file := by
  rw [probe?, Option.bind_eq_some_iff, Path.getElem?_ancestors hroot]

theorem mem_candidates_iff_probe? (hroot : Path.IsAbsolute l.root) (hrest : relative path ≠ "") :
    file ∈ l.candidates path ↔ ∃ step layer, l.probe? path step layer = some file := by
  rw [candidates_eq l hrest, List.mem_flatMap]
  simp only [List.mem_iff_getElem?, probe?_eq_some_iff hroot]
  constructor
  · rintro ⟨dir, ⟨step, hdir⟩, layer, hfile⟩
    exact ⟨step, layer, dir, hdir, hfile⟩
  · rintro ⟨step, layer, dir, hdir, hfile⟩
    exact ⟨dir, ⟨step, hdir⟩, layer, hfile⟩

theorem resolve_of_relative (t : FileTree) (hrest : relative path = "") : l.resolve t path = none := by
  rw [resolve, candidates, if_pos hrest]
  rfl

/-- Nothing is found exactly if no place has a file. -/
theorem resolve_eq_none_iff (hroot : Path.IsAbsolute l.root) :
    l.resolve t path = none ↔
      relative path = "" ∨
        ∀ step layer other, l.probe? path step layer = some other → t.isFile other = false := by
  by_cases hrest : relative path = ""
  · simp [resolve_of_relative t hrest, hrest]
  · rw [resolve, List.find?_eq_none, or_iff_right hrest]
    constructor
    · intro hnone step layer other hplace
      have hmem := (mem_candidates_iff_probe? hroot hrest).mpr ⟨step, layer, hplace⟩
      exact Bool.eq_false_iff.mpr (hnone other hmem)
    · intro hnone other hmem
      obtain ⟨step, layer, hplace⟩ := (mem_candidates_iff_probe? hroot hrest).mp hmem
      exact Bool.eq_false_iff.mp (hnone step layer other hplace)

/-- What is found stands at a place before which there is nothing. -/
theorem exists_place_of_resolve (hroot : Path.IsAbsolute l.root)
    (h : l.resolve t path = some file) :
    ∃ step layer, l.probe? path step layer = some file ∧ l.NothingBefore t path step layer := by
  have hrest : relative path ≠ "" := by
    intro hempty
    rw [resolve_of_relative t hempty] at h
    cases h
  rw [resolve, candidates_eq l hrest, List.find?_flatMap, List.findSome?_eq_some_iff] at h
  obtain ⟨nearer, dir, further, hdirs, hfind, hnearer⟩ := h
  obtain ⟨-, layer, hlayer, hfile, hearlier⟩ := List.find?_eq_some_iff_getElem.mp hfind
  have hdir : (Path.ancestors l.root)[nearer.length]? = some dir := by
    rw [hdirs]
    simp
  refine ⟨nearer.length, layer, (probe?_eq_some_iff hroot).mpr ⟨dir, hdir, ?_⟩, ?_⟩
  · rw [List.getElem?_eq_getElem hlayer, hfile]
  · intro step' layer' other hbefore hplace
    obtain ⟨dir', hdir', hother⟩ := (probe?_eq_some_iff hroot).mp hplace
    rcases hbefore with hstep | ⟨rfl, hlayer'⟩
    · -- a directory that is passed has no file at all
      have hmem : dir' ∈ nearer := by
        rw [hdirs, List.getElem?_append_left hstep] at hdir'
        exact List.mem_of_getElem? hdir'
      have hnone := List.find?_eq_none.mp (hnearer dir' hmem) other (List.mem_of_getElem? hother)
      exact Bool.eq_false_iff.mpr hnone
    · obtain rfl := Option.some.inj (hdir.symm.trans hdir')
      have hnone := hearlier layer' hlayer'
      obtain ⟨hlt, hget⟩ := List.getElem?_eq_some_iff.mp hother
      rw [hget] at hnone
      simpa using hnone

/-- The first place with a file is the only one before which there is nothing. -/
theorem resolve_eq_some_iff (hroot : Path.IsAbsolute l.root) :
    l.resolve t path = some file ↔
      relative path ≠ "" ∧ ∃ step layer, l.probe? path step layer = some file ∧
        t.isFile file = true ∧ l.NothingBefore t path step layer := by
  constructor
  · intro h
    obtain ⟨step, layer, hplace, hnothing⟩ := exists_place_of_resolve hroot h
    refine ⟨?_, step, layer, hplace, isFile_of_resolve h, hnothing⟩
    intro hempty
    rw [resolve_of_relative t hempty] at h
    cases h
  · rintro ⟨hrest, step, layer, hplace, hfile, hnothing⟩
    cases h : l.resolve t path with
    | none =>
      rcases (resolve_eq_none_iff hroot).mp h with hempty | hnone
      · exact absurd hempty hrest
      · rw [hnone step layer file hplace] at hfile
        cases hfile
    | some other =>
      obtain ⟨step', layer', hplace', hnothing'⟩ := exists_place_of_resolve hroot h
      have hother := isFile_of_resolve h
      -- neither place is before the other
      have hnotBefore : ¬(step < step' ∨ step = step' ∧ layer < layer') := by
        intro hbefore
        rw [hnothing' step layer file hbefore hplace] at hfile
        cases hfile
      have hnotAfter : ¬(step' < step ∨ step' = step ∧ layer' < layer) := by
        intro hbefore
        rw [hnothing step' layer' other hbefore hplace'] at hother
        cases hother
      obtain ⟨rfl, rfl⟩ : step = step' ∧ layer = layer' := by omega
      rw [hplace] at hplace'
      exact hplace'.symm

/-- A file at some directory is found, unless there is another one no further away. -/
theorem exists_nearer_of_isFile (hroot : Path.IsAbsolute l.root) {step layer : Nat}
    (hrest : relative path ≠ "") (hplace : l.probe? path step layer = some file)
    (hfile : t.isFile file = true) :
    ∃ step' ≤ step, ∃ layer' found, l.probe? path step' layer' = some found ∧
      l.resolve t path = some found := by
  cases h : l.resolve t path with
  | none =>
    rcases (resolve_eq_none_iff hroot).mp h with hempty | hnone
    · exact absurd hempty hrest
    · rw [hnone step layer file hplace] at hfile
      cases hfile
  | some found =>
    obtain ⟨step', layer', hplace', hnothing⟩ := exists_place_of_resolve hroot h
    refine ⟨step', ?_, layer', found, hplace', rfl⟩
    by_contra hfurther
    rw [hnothing step layer file (.inl (by omega)) hplace] at hfile
    cases hfile

/-- The answer depends on the places up to the first one with a file only. -/
theorem resolve_congr (hroot : Path.IsAbsolute l.root) {t' : FileTree}
    (hagree : ∀ step layer other, l.probe? path step layer = some other →
      l.NothingBefore t path step layer → t'.isFile other = t.isFile other) :
    l.resolve t' path = l.resolve t path := by
  cases h : l.resolve t path with
  | none =>
    rw [resolve_eq_none_iff hroot] at h ⊢
    refine h.imp_right fun hnone step layer other hplace => ?_
    rw [hagree step layer other hplace fun step' layer' other' _ => hnone step' layer' other']
    exact hnone step layer other hplace
  | some file =>
    rw [resolve_eq_some_iff hroot] at h ⊢
    obtain ⟨hrest, step, layer, hplace, hfile, hnothing⟩ := h
    refine ⟨hrest, step, layer, hplace, ?_, ?_⟩
    · rw [hagree step layer file hplace hnothing]
      exact hfile
    · intro step' layer' other hbefore hplace'
      have hbelow : l.NothingBefore t path step' layer' := by
        intro step'' layer'' other'' hbefore' hplace''
        exact hnothing step'' layer'' other'' (by omega) hplace''
      rw [hagree step' layer' other hplace' hbelow]
      exact hnothing step' layer' other hbefore hplace'

/-- What a search from a root comes to. -/
structure SearchOrder (l : Locator) (t : FileTree) (path : String) : Prop where
  /-- The slashes that a path begins with do not matter. -/
  slashes : ∃ n, path.toList = List.replicate n '/' ++ (relative path).toList ∧
    ¬Path.IsAbsolute (relative path)
  /-- The search can go up as many steps as the root has names. -/
  steps : ∀ step, (Path.up? step l.root).isSome = true ↔ step ≤ (Path.names l.root).length
  /-- The last directory that it comes to is the slash. -/
  top : Path.up? (Path.names l.root).length l.root =
    some (if Path.names l.root = [] then l.root else "/")
  /-- What is found is the file at the first place that has one. -/
  found : ∀ file, l.resolve t path = some file ↔
    relative path ≠ "" ∧ ∃ step layer, l.probe? path step layer = some file ∧
      t.isFile file = true ∧ l.NothingBefore t path step layer
  /-- Nothing is found for a path of slashes only, or where no place has a file. -/
  missed : l.resolve t path = none ↔
    relative path = "" ∨
      ∀ step layer other, l.probe? path step layer = some other → t.isFile other = false
  /-- A directory is not found. -/
  noDirectory : ∀ file, l.resolve t path = some file → t.isDirectory file = false
  /-- What is found is no further up than any file that is tried. -/
  nearer : ∀ step layer file, relative path ≠ "" → l.probe? path step layer = some file →
    t.isFile file = true →
    ∃ step' ≤ step, ∃ layer' found, l.probe? path step' layer' = some found ∧
      l.resolve t path = some found
  /-- The rest of the tree does not matter, nor what stands at the later places. -/
  unaffected : ∀ t' : FileTree,
    (∀ step layer other, l.probe? path step layer = some other →
      l.NothingBefore t path step layer → t'.isFile other = t.isFile other) →
    l.resolve t' path = l.resolve t path

theorem exists_slashes (path : String) :
    ∃ n, path.toList = List.replicate n '/' ++ (relative path).toList ∧
      ¬Path.IsAbsolute (relative path) := by
  refine ⟨(path.toList.takeWhile (· = '/')).length, ?_, not_isAbsolute_relative path⟩
  have hslashes : path.toList.takeWhile (· = '/') =
      List.replicate (path.toList.takeWhile (· = '/')).length '/' := by
    apply List.eq_replicate_of_mem
    intro c hc
    simpa using List.mem_takeWhile_imp hc
  rw [← hslashes, relative, String.toList_ofList, List.takeWhile_append_dropWhile]

/-- **Search order.** From an absolute root, a search strips the slashes from the front of a path and
tries what is left at the root, at its parent and so on up to the slash; at each directory it tries the
path itself, then below the sources of the language, then below the resource sources. It finds the first
regular file among all these places. -/
theorem searchOrder {l : Locator} (hroot : Path.IsAbsolute l.root) (t : FileTree) (path : String) :
    l.SearchOrder t path where
  slashes := exists_slashes path
  steps := Path.isSome_up?_iff hroot
  top := Path.up?_length_names hroot
  found _ := resolve_eq_some_iff hroot
  missed := resolve_eq_none_iff hroot
  noDirectory file h := by
    have hfile := isFile_of_resolve h
    unfold FileTree.isFile at hfile
    unfold FileTree.isDirectory
    split at hfile
    next hlookup => rw [hlookup]
    next => cases hfile
  nearer _ _ _ hrest hplace hfile := exists_nearer_of_isFile hroot hrest hplace hfile
  unaffected _ hagree := resolve_congr hroot hagree

/-- A directory stands at the nearest place, and files at two places further up. -/
def shadowedTree : FileTree where
  entries := [
    (["work"], .directory), (["work", "out"], .directory), (["work", "out", "a"], .directory),
    (["work", "out", "a", "b"], .directory), (["work", "src"], .directory),
    (["work", "src", "main"], .directory), (["work", "src", "main", "resources"], .directory),
    (["work", "src", "main", "resources", "a"], .directory),
    (["work", "src", "main", "resources", "a", "b"], .file "near".toUTF8),
    (["a"], .directory), (["a", "b"], .file "far".toUTF8)]

/-- A search from a directory below `/work`. -/
def shadowedSearch : Locator where
  root := "/work/out"
  language := "java"

theorem searchOrder_shadowed :
    Path.IsAbsolute shadowedSearch.root ∧
      shadowedSearch.SearchOrder shadowedTree "//a/b" ∧
      shadowedSearch.resolve shadowedTree "//a/b" = some "/work/src/main/resources/a/b" := by
  have hroot : Path.IsAbsolute shadowedSearch.root := by
    rw [Path.IsAbsolute]
    decide
  have hfound : shadowedSearch.resolve shadowedTree "//a/b" =
      some "/work/src/main/resources/a/b" := by
    decide +kernel
  exact ⟨hroot, searchOrder hroot shadowedTree "//a/b", hfound⟩

end Locator
end ContractForge
