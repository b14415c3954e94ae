import ContractForge.Declaration.Validation
import ContractForge.Generation.Selection
import ContractForge.Proofs.Generation.Placement
import Mathlib.Data.Set.Card

/-!
# What a pass leaves on disk

* `FileTree.newFiles` : the places at which there is a file that was not there before.
* `FileSink.Keeps` : every artifact is in the file for its name, and there is one file for each.
* `Dotted` : a name of which no part is empty.

`keeps_iff_places_differ` : a pass that succeeds loses nothing exactly if all its names have different
places. That two names differ is not enough, since the file system takes repeated slashes for one
(`emptyPart_overwrites`); it is enough for dotted names.
-/

namespace ContractForge

/-- The places of files where nothing was before. -/
def FileTree.newFiles (t final : FileTree) : Set Location :=
  {l | t.find? l = none ∧ ∃ content, final.find? l = some (.file content)}

/-- No part of the name between dots is empty, and none has a slash. -/
def Dotted (name : String) : Prop :=
  '/' ∉ name.toList ∧ ∀ part ∈ Text.segments '.' name.toList, part ≠ []

instance (name : String) : Decidable (Dotted name) :=
  inferInstanceAs (Decidable (_ ∧ _))

namespace FileSink

open Text (segments joinSegments)

/-- Every artifact is read back from the file for its name, and there is a new file for each. -/
structure Keeps (s : FileSink) (t final : FileTree) (artifacts : List Artifact) : Prop where
  content : ∀ a ∈ artifacts, final.read (s.pathFor a.qualifiedName) = .ok a.content.toUTF8
  count : (t.newFiles final).ncard = artifacts.length

variable {s : FileSink} {t final : FileTree} {artifacts : List Artifact}

/-! ### One write after another -/

theorem write_sink (s : FileSink) : s.sink.write = s.write := by
  dsimp only [sink]

theorem changes_of_write {name : String} {a : Artifact} {next : FileTree}
    (h : s.sink.write t name a = (.ok (), next)) :
    FileTree.Changes (fun _ => True) (· = s.place t name) t next := by
  have hchanges := s.changes_write t name a
  rw [write_sink] at h
  rw [h] at hchanges
  exact hchanges.mono (fun _ _ => trivial) fun _ hl => hl

/-- What is written is there, in the file to which the path of the name leads. -/
theorem file_of_write {name : String} {a : Artifact} {next : FileTree}
    (h : s.sink.write t name a = (.ok (), next)) :
    next.locate (s.pathFor name) = .ok (s.place t name) ∧
      next.find? (s.place t name) = some (.file a.content.toUTF8) := by
  rw [write_sink] at h
  obtain ⟨mid, hmid, hwrite⟩ := write_eq_ok h
  obtain ⟨hlocate, hdir, hput⟩ := FileTree.write_eq_ok hwrite
  have hplace : mid.target (s.pathFor name) = s.place t name := place_congr hmid.workingDir s _
  have hnext := FileTree.changes_write hwrite fun _ => False
  rw [hplace] at hlocate hdir hput
  have hne : s.place t name ≠ [] := by
    intro hroot
    rw [hroot] at hdir
    exact hdir rfl
  refine ⟨hnext.locate hlocate, ?_⟩
  rw [hput, FileTree.find?_put _ hne, if_pos rfl]

theorem changes_of_accepts (h : Accepts s.sink t artifacts final) :
    FileTree.Changes (fun _ => True) (fun l => ∃ a ∈ artifacts, l = s.place t a.qualifiedName) t
      final := by
  induction h with
  | nil state => exact .refl _ _ state
  | cons hwrite hrest ih =>
    have hfirst := changes_of_write hwrite
    refine (hfirst.mono (fun _ h => h) fun l hl => ?_).trans
      (ih.mono (fun _ h => h) fun l hl => ?_)
    · exact ⟨_, List.mem_cons_self, hl⟩
    · obtain ⟨b, hb, hl⟩ := hl
      exact ⟨b, List.mem_cons_of_mem _ hb, hl.trans (place_congr hfirst.workingDir s _)⟩

/-- An artifact is read back unless a later one has the same place. -/
theorem read_of_accepts {before after : List Artifact} {a : Artifact}
    (h : Accepts s.sink t (before ++ a :: after) final)
    (hlast : ∀ b ∈ after, s.place t b.qualifiedName ≠ s.place t a.qualifiedName) :
    final.read (s.pathFor a.qualifiedName) = .ok a.content.toUTF8 := by
  induction before generalizing t with
  | nil =>
    cases h with
    | cons hwrite hrest =>
      -- later writes leave this file alone, and its path leads there still
      obtain ⟨hlocate, hfile⟩ := file_of_write hwrite
      have hlater := changes_of_accepts hrest
      refine FileTree.read_of_find? (hlater.locate hlocate) (hlater.file ?_ hfile)
      rintro ⟨b, hb, hplace⟩
      rw [place_congr (changes_of_write hwrite).workingDir] at hplace
      exact hlast b hb hplace.symm
  | cons b rest ih =>
    cases h with
    | cons hwrite hrest =>
      have hdir := (changes_of_write hwrite).workingDir
      refine ih hrest fun c hc => ?_
      rw [place_congr hdir, place_congr hdir]
      exact hlast c hc

theorem isFile_of_accepts (h : Accepts s.sink t artifacts final) {a : Artifact}
    (ha : a ∈ artifacts) :
    ∃ content, final.find? (s.place t a.qualifiedName) = some (.file content) := by
  induction h with
  | nil => cases ha
  | cons hwrite hrest ih =>
    rcases List.mem_cons.mp ha with rfl | hmem
    · exact (changes_of_accepts hrest).isFile ⟨_, (file_of_write hwrite).2⟩
    · rw [← place_congr (changes_of_write hwrite).workingDir]
      exact ih hmem

/-- Where nothing was before, the new files are those at the places of the names. -/
theorem mem_newFiles_iff (h : Accepts s.sink t artifacts final)
    (hfresh : ∀ a ∈ artifacts, t.find? (s.place t a.qualifiedName) = none) (l : Location) :
    l ∈ t.newFiles final ↔ l ∈ artifacts.map fun a => s.place t a.qualifiedName := by
  rw [List.mem_map]
  constructor
  · rintro ⟨hnone, content, hfile⟩
    rcases (changes_of_accepts h).find? l with hsame | ⟨-, -, hdir⟩ | ⟨⟨a, ha, hl⟩, -⟩
    · rw [hsame, hnone] at hfile
      cases hfile
    · rw [hdir] at hfile
      cases hfile
    · exact ⟨a, ha, hl.symm⟩
  · rintro ⟨a, ha, rfl⟩
    exact ⟨hfresh a ha, isFile_of_accepts h ha⟩

/-- A list has as many members as entries exactly if none is repeated. -/
theorem ncard_eq_length_iff {α : Type} {members : Set α} {xs : List α}
    (h : ∀ x, x ∈ members ↔ x ∈ xs) : members.ncard = xs.length ↔ xs.Nodup := by
  classical
  have hmembers : members = (xs.toFinset : Set α) := by
    ext x
    rw [h, Finset.mem_coe, List.mem_toFinset]
  rw [hmembers, Set.ncard_coe_finset]
  -- what is left of the list without repetitions is as long only if there were none
  refine ⟨fun hlength => ?_, List.toFinset_card_of_nodup⟩
  rw [List.card_toFinset] at hlength
  rw [← (List.dedup_sublist xs).eq_of_length hlength]
  exact List.nodup_dedup xs

theorem keeps_iff (h : Accepts s.sink t artifacts final)
    (hfresh : ∀ name ∈ artifacts.map (·.qualifiedName), t.find? (s.place t name) = none) :
    s.Keeps t final artifacts ↔
      ((artifacts.map (·.qualifiedName)).map (s.place t)).Nodup := by
  have hcount := ncard_eq_length_iff
    (mem_newFiles_iff h fun a ha => hfresh _ (List.mem_map_of_mem ha))
  have hplaces : (artifacts.map (·.qualifiedName)).map (s.place t) =
      artifacts.map fun a => s.place t a.qualifiedName := by
    simp only [List.map_map, Function.comp_def]
  rw [List.length_map] at hcount
  rw [hplaces]
  refine ⟨fun hkeeps => hcount.mp hkeeps.count, fun hnodup => ⟨fun a ha => ?_, hcount.mpr hnodup⟩⟩
  obtain ⟨before, after, rfl⟩ := List.append_of_mem ha
  refine read_of_accepts h fun b hb hplace => ?_
  rw [List.map_append, List.map_cons] at hnodup
  refine (List.nodup_cons.mp (List.nodup_append.mp hnodup).2.1).1 ?_
  exact List.mem_map.mpr ⟨b, hb, hplace⟩

/-! ### Dotted names -/

theorem inward_of_dotted {name : String} (h : Dotted name) : Inward name := by
  obtain ⟨hslash, hparts⟩ := h
  rw [Inward]
  cases hname : name.toList with
  | nil => simp
  | cons c rest =>
    rw [hname] at hslash hparts
    constructor
    · intro hdot
      obtain rfl := Option.some.inj hdot
      exact hparts [] (by simp [segments]) rfl
    · intro hc
      obtain rfl := Option.some.inj hc
      exact hslash List.mem_cons_self

/-- No component of the extension goes up, other than one that continues the name. -/
def Downward (s : FileSink) : Prop :=
  ".." ∉ (FileTree.components s.extension).tail

instance (s : FileSink) : Decidable s.Downward :=
  inferInstanceAs (Decidable (¬_))

theorem Plain.downward (hplain : s.Plain) : s.Downward := by
  unfold Downward FileTree.components
  rw [Text.segments_of_not_mem hplain.1]
  simp

/-- The path to the file for a dotted name has the parts of the name, of which the last goes on with
the extension. -/
theorem parts_of_dotted (s : FileSink) {name : String} (h : Dotted name) :
    ∃ before last first rest, segments '.' name.toList = before ++ [last] ∧ last ≠ [] ∧
      (∀ part ∈ before ++ [last], '.' ∉ part) ∧ segments '/' s.extension.toList = first :: rest ∧
      s.parts name = (before ++ (last ++ '.' :: first) ::
        rest.filter fun part => !Path.isVoid part).map String.ofList := by
  have hsame : segments '/' (namespacePath name).toList = segments '.' name.toList := by
    rw [namespacePath, Text.substitute, String.toList_ofList, Text.segments_map_replace h.1]
  obtain ⟨before, last, first', rest, hname, hext, hpath⟩ :=
    @Text.segments_append '/' (namespacePath name).toList ('.' :: s.extension.toList)
  rw [hsame] at hname
  have hfree : ∀ part ∈ before ++ [last], '.' ∉ part := fun part hpart =>
    (Text.of_mem_segments (hname ▸ hpart)).1
  have hne : ∀ part ∈ before ++ [last], part ≠ [] := fun part hpart => h.2 part (hname ▸ hpart)
  -- the dot after the name belongs to the first component of the extension
  obtain ⟨first, further, hsegments⟩ :=
    List.exists_cons_of_ne_nil (Text.segments_ne_nil '/' s.extension.toList)
  rw [segments, if_neg (by decide), hsegments] at hext
  obtain ⟨rfl, rfl⟩ := List.cons.inj hext
  have hlast : last ≠ [] := hne last (by simp)
  refine ⟨before, last, first, further, hname, hlast, hfree, hsegments, ?_⟩
  have hbefore : before.filter (fun part => !Path.isVoid part) = before := by
    refine List.filter_eq_self.mpr fun part hpart => ?_
    have hmem : part ∈ before ++ [last] := List.mem_append_left _ hpart
    have hdot : part ≠ ['.'] := fun hdot => hfree part hmem (hdot ▸ List.mem_cons_self)
    simp [Path.isVoid, hne part hmem, hdot]
  have hvoid : Path.isVoid (last ++ '.' :: first) = false := by
    cases last with
    | nil => exact absurd rfl hlast
    | cons c more => simp [Path.isVoid]
  have hchars : (namespacePath name ++ "." ++ s.extension).toList =
      (namespacePath name).toList ++ '.' :: s.extension.toList := by
    simp
  rw [parts, Path.names_eq, hchars, hpath, List.filter_append, hbefore,
    List.filter_cons_of_pos (by simp [hvoid])]

/-- The file for a dotted name stands below the root. -/
theorem place_of_dotted (t : FileTree) (hdown : s.Downward) {name : String} (h : Dotted name) :
    s.place t name = t.target s.root ++ s.parts name := by
  obtain ⟨before, last, first, rest, -, hlast, hfree, hext, hparts⟩ := parts_of_dotted s h
  rw [place_eq_follow t (inward_of_dotted h)]
  refine Location.follow_eq_append _ fun part hpart => ⟨(List.mem_filter.mp hpart).2, ?_⟩
  rintro rfl
  rw [hparts] at hpart
  obtain ⟨chars, hmem, hchars⟩ := List.mem_map.mp hpart
  have hdots : chars = ['.', '.'] := by simpa [← String.toList_inj] using hchars
  rw [hdots] at hmem
  rcases List.mem_append.mp hmem with hbefore | hmem
  · exact hfree _ (List.mem_append_left _ hbefore) List.mem_cons_self
  · rcases List.mem_cons.mp hmem with heq | hrest
    · -- the last part of the name is not empty, and it has no dot to start with
      cases last with
      | nil => exact hlast rfl
      | cons c more =>
        obtain ⟨rfl, -⟩ := List.cons.inj heq
        exact hfree ('.' :: more) (by simp) List.mem_cons_self
    · refine hdown ?_
      rw [FileTree.components, hext]
      exact List.mem_map.mpr ⟨_, (List.mem_filter.mp hrest).1, rfl⟩

/-- Dotted names with one place are one name. -/
theorem eq_of_place_eq_of_downward (hdown : s.Downward) {first second : String}
    (hfirst : Dotted first) (hsecond : Dotted second) (h : s.place t first = s.place t second) :
    first = second := by
  rw [place_of_dotted t hdown hfirst, place_of_dotted t hdown hsecond] at h
  have hparts := List.append_cancel_left h
  obtain ⟨before, last, start, rest, hsegments, -, -, hext, hp⟩ := parts_of_dotted s hfirst
  obtain ⟨before', last', start', rest', hsegments', -, -, hext', hp'⟩ := parts_of_dotted s hsecond
  rw [hext] at hext'
  obtain ⟨rfl, rfl⟩ := List.cons.inj hext'
  rw [hp, hp'] at hparts
  have hinj : Function.Injective String.ofList := fun a b hab => by
    rw [← String.toList_ofList (l := a), hab, String.toList_ofList]
  obtain ⟨rfl, hlast⟩ := List.append_inj' (List.map_injective_iff.mpr hinj hparts) rfl
  obtain rfl : last = last' := List.append_cancel_right (List.cons.inj hlast).1
  rw [← String.toList_inj, ← Text.joinSegments_segments '.' first.toList, hsegments, ← hsegments',
    Text.joinSegments_segments]

-- An extension that goes up takes back the last part of the name.
example : place ⟨"/out", "x/../y"⟩ {} "a.B" = place ⟨"/out", "x/../y"⟩ {} "a.C" := by
  decide +kernel

theorem eq_of_place_eq (hplain : s.Plain) {first second : String} (hfirst : Dotted first)
    (hsecond : Dotted second) (h : s.place t first = s.place t second) : first = second :=
  eq_of_place_eq_of_downward hplain.downward hfirst hsecond h

end FileSink

/-- **What a pass that succeeds leaves on disk.** Where nothing was before, every artifact is in the
file for its name, and there are as many files as names reported, exactly if all names have different
places. Names have different places if they are different and dotted. -/
theorem keeps_iff_places_differ {context : PassContext} {generators : List Generator} {s : FileSink}
    {t final : FileTree} {names : List String}
    (hrun : runAll context generators s.sink t = (.ok names, final))
    (hfresh : ∀ name ∈ names, t.find? (s.place t name) = none) :
    ∃ artifacts, Makes context generators artifacts ∧ names = artifacts.map (·.qualifiedName) ∧
      (s.Keeps t final artifacts ↔ (names.map (s.place t)).Nodup) ∧
      (s.Plain → (∀ name ∈ names, Dotted name) → s.Keeps t final artifacts) := by
  obtain ⟨artifacts, hmakes, haccepts, rfl, hnames⟩ := complete_of_runAll hrun
  have hkeeps := FileSink.keeps_iff haccepts hfresh
  refine ⟨artifacts, hmakes, rfl, hkeeps, fun hplain hdotted => hkeeps.mpr ?_⟩
  exact hnames.map_on fun first hfirst second hsecond hplace =>
    FileSink.eq_of_place_eq hplain (hdotted first hfirst) (hdotted second hsecond) hplace

/-- Two contracts, each with an accessor for a file that there is not. -/
def twoContracts (first second : String) : PassContext where
  declarations := { contracts := [first, second].map fun name =>
    { name
      methods := [
        { name := "x", returns := .plain "String", markers := { resource := some "none" } }] } }
  locator := { root := "/", language := "java" }
  config := {}
  files := {}

theorem keeps_iff_places_differ_twoContracts :
    ∃ final artifacts,
      runAll (twoContracts "a.B" "a.C") (Selection.generators .all)
        (FileSink.sink { root := "/out" }) {} = (.ok ["a.BImpl", "a.CImpl"], final) ∧
      ["a.BImpl", "a.CImpl"] = artifacts.map (·.qualifiedName) ∧
      FileSink.Keeps { root := "/out" } {} final artifacts := by
  have hok : (runAll (twoContracts "a.B" "a.C") (Selection.generators .all)
      (FileSink.sink { root := "/out" }) {}).1.toOption = some ["a.BImpl", "a.CImpl"] := by
    decide +kernel
  have hrun := runAll_of_toOption hok
  obtain ⟨artifacts, -, hnames, -, hkeeps⟩ :=
    keeps_iff_places_differ (s := { root := "/out" }) hrun (by decide +kernel)
  exact ⟨_, artifacts, hrun, hnames, hkeeps (by decide) (by decide)⟩

/-- Of two contracts whose names differ by an empty part only, both implementations are reported, but
there is one file, and one implementation is lost. -/
theorem emptyPart_overwrites :
    (twoContracts "a.B" "a..B").declarations.validate = .ok () ∧
    ∃ final artifacts,
      runAll (twoContracts "a.B" "a..B") (Selection.generators .all)
        (FileSink.sink { root := "/out" }) {} = (.ok ["a.BImpl", "a..BImpl"], final) ∧
      Makes (twoContracts "a.B" "a..B") (Selection.generators .all) artifacts ∧
      (final.filesBelow ["out"]).map (·.1) = [["a", "BImpl.java"]] ∧
      ¬FileSink.Keeps { root := "/out" } {} final artifacts := by
  have hok : (runAll (twoContracts "a.B" "a..B") (Selection.generators .all)
      (FileSink.sink { root := "/out" }) {}).1.toOption = some ["a.BImpl", "a..BImpl"] := by
    decide +kernel
  have hrun := runAll_of_toOption hok
  obtain ⟨artifacts, hmakes, haccepts, hnames, -⟩ := complete_of_runAll hrun
  refine ⟨rfl, _, artifacts, hrun, hmakes, by decide +kernel, fun hkeeps => ?_⟩
  have hfresh : ∀ name ∈ ["a.BImpl", "a..BImpl"],
      FileTree.find? {} (FileSink.place { root := "/out" } {} name) = none := by decide +kernel
  rw [hnames] at hfresh
  have hplaces := (FileSink.keeps_iff haccepts hfresh).mp hkeeps
  rw [← hnames] at hplaces
  exact absurd hplaces (by decide +kernel)

end ContractForge
