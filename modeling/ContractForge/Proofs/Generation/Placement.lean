import ContractForge.Generation.Sinks
import ContractForge.Proofs.Files.Changes
import ContractForge.Proofs.Generation.Outcome

/-!
# Where a sink puts its files

* `FileSink.place` : the location of the file for a qualified name.
* `FileSink.parts` : the names that lead there from the root of the sink, if the name is `Inward`:
  one that begins with a dot becomes an absolute path, which does not start from the root.
* `FileSink.above` : the locations of the directories that the file needs.

A pass changes nothing but the places of the names that its generators make, and the directories
above them (`changes_runAll`).
-/

namespace ContractForge

/-- The name begins neither with a dot nor with a slash. -/
def Inward (name : String) : Prop :=
  name.toList.head? ≠ some '.' ∧ name.toList.head? ≠ some '/'

instance (name : String) : Decidable (Inward name) :=
  inferInstanceAs (Decidable (_ ∧ _))

namespace FileSink

open Text (segments)

/-- The extension stays within one name, and is more than a dot or nothing. -/
def Plain (s : FileSink) : Prop :=
  '/' ∉ s.extension.toList ∧ Path.leads s.extension = true

instance (s : FileSink) : Decidable s.Plain :=
  inferInstanceAs (Decidable (_ ∧ _))

/-- The location of the file for a name. -/
def place (s : FileSink) (t : FileTree) (name : String) : Location :=
  t.target (s.pathFor name)

/-- The names that lead to the file for a name, from the root of the sink on. -/
def parts (s : FileSink) (name : String) : List String :=
  Path.names (namespacePath name ++ "." ++ s.extension)

/-- The location is that of a directory which the path to the file passes. -/
def above (s : FileSink) (t : FileTree) (name : String) (l : Location) : Prop :=
  ∃ dir, Path.parent? (s.pathFor name) = some dir ∧ ∃ up ∈ Path.ancestors dir, l = t.target up

variable {s : FileSink} {name : String}

/-! ### The path below the root -/

theorem not_isAbsolute_of_inward (h : Inward name) :
    ¬Path.IsAbsolute (namespacePath name ++ "." ++ s.extension) := by
  obtain ⟨hdot, hslash⟩ := h
  unfold Path.IsAbsolute namespacePath Text.substitute
  cases hname : name.toList with
  | nil => simp
  | cons c rest =>
    rw [hname] at hdot hslash
    have hc : c ≠ '.' := fun h => hdot (congrArg some h)
    simpa [hc] using hslash

theorem place_eq_follow (t : FileTree) (h : Inward name) :
    s.place t name = (t.target s.root).follow (s.parts name) :=
  t.target_join (not_isAbsolute_of_inward h)

theorem names_pathFor (h : Inward name) (hroot : s.root ≠ "") :
    Path.names (s.pathFor name) = Path.names s.root ++ s.parts name :=
  Path.names_join (not_isAbsolute_of_inward h) hroot

/-- The segments of a relative path: those of the name, the last one with the extension. -/
theorem segments_pathFor (hplain : s.Plain) (name : String) :
    ∃ before last, segments '/' (namespacePath name).toList = before ++ [last] ∧
      segments '/' (namespacePath name ++ "." ++ s.extension).toList =
        before ++ [last ++ '.' :: s.extension.toList] ∧
      ∀ part ∈ before ++ [last], '.' ∉ part := by
  have htail : '/' ∉ '.' :: s.extension.toList := by
    rintro (_ | ⟨_, hmem⟩)
    exact hplain.1 hmem
  obtain ⟨before, last, hname, hpath⟩ :=
    Text.segments_append_of_not_mem htail (namespacePath name).toList
  refine ⟨before, last, hname, ?_, fun part hpart hdot => ?_⟩
  · rw [← hpath]
    simp
  · -- every dot of the name has become a slash
    rw [← hname] at hpart
    exact dot_not_mem_namespacePath name ((Text.of_mem_segments hpart).2 _ hdot)

theorem last_not_void (hplain : s.Plain) {last : List Char} (hlast : '.' ∉ last) :
    Path.isVoid (last ++ '.' :: s.extension.toList) = false ∧
      last ++ '.' :: s.extension.toList ≠ ['.', '.'] := by
  have hleads := hplain.2
  rw [← String.ofList_toList (s := s.extension), Path.leads_ofList] at hleads
  cases last with
  | nil =>
    constructor
    · simpa [Path.isVoid] using fun h => by simp [h, Path.isVoid] at hleads
    · intro h
      have hext : s.extension.toList = ['.'] := (List.cons.inj h).2
      rw [hext] at hleads
      cases hleads
  | cons c rest =>
    have hc : c ≠ '.' := by
      rintro rfl
      exact hlast List.mem_cons_self
    simp [Path.isVoid, hc]

/-- No part of the path goes up. -/
theorem of_mem_parts (hplain : s.Plain) {part : String} (h : part ∈ s.parts name) :
    Path.leads part = true ∧ part ≠ ".." := by
  refine ⟨(List.mem_filter.mp h).2, ?_⟩
  rintro rfl
  rw [parts, Path.names_eq] at h
  obtain ⟨segment, hsegment, hup⟩ := List.mem_map.mp h
  have hdots : segment = ['.', '.'] := by simpa [← String.toList_inj] using hup
  obtain ⟨before, last, -, hpath, hfree⟩ := segments_pathFor hplain name
  have hmem := (List.mem_filter.mp hsegment).1
  rw [hpath] at hmem
  rcases List.mem_append.mp hmem with hbefore | hlast
  · refine hfree segment (List.mem_append_left _ hbefore) ?_
    rw [hdots]
    exact List.mem_cons_self
  · rw [List.mem_singleton.mp hlast] at hdots
    exact (last_not_void hplain (hfree last (by simp))).2 hdots

theorem parts_ne_nil (hplain : s.Plain) (name : String) : s.parts name ≠ [] := by
  obtain ⟨before, last, -, hpath, hfree⟩ := segments_pathFor hplain name
  obtain ⟨hvoid, -⟩ := last_not_void hplain (hfree last (by simp))
  rw [parts, Path.names_eq, hpath, List.filter_append, List.map_append,
    List.filter_cons_of_pos (by simp [hvoid])]
  simp

/-- The file for an inward name stands below the root. -/
theorem place_eq_append (t : FileTree) (hplain : s.Plain) (h : Inward name) :
    s.place t name = t.target s.root ++ s.parts name := by
  rw [place_eq_follow t h]
  exact Location.follow_eq_append _ fun _ hpart => of_mem_parts hplain hpart

/-! ### What a write changes -/

theorem changes_makeParent (t : FileTree) (path : String) (written : Location → Prop) :
    FileTree.Changes
      (fun l => ∃ dir, Path.parent? path = some dir ∧ ∃ up ∈ Path.ancestors dir, l = t.target up)
      written t (makeParent t path).2 := by
  unfold makeParent
  split
  next => exact .refl _ _ t
  next dir hdir =>
    suffices hmade : FileTree.Changes (fun l => ∃ dir, Path.parent? path = some dir ∧
        ∃ up ∈ Path.ancestors dir, l = t.target up) written t (t.makeDirectories dir).2 by
      split
      next hok =>
        rw [hok] at hmade
        exact hmade
      next hfail =>
        rw [hfail] at hmade
        exact hmade
    exact (FileTree.changes_makeDirectories t dir written).mono
      (fun l hl => ⟨dir, hdir, hl⟩) fun _ hl => hl

/-- Whether or not it succeeds, a write changes the place of the file and the directories above. -/
theorem changes_write (s : FileSink) (t : FileTree) (name : String) (a : Artifact) :
    FileTree.Changes (s.above t name) (· = s.place t name) t (s.write t name a).2 := by
  have hparent := changes_makeParent t (s.pathFor name) (· = s.place t name)
  unfold write
  dsimp only
  split
  next hfail =>
    rw [hfail] at hparent
    exact hparent
  next mid hmid =>
    rw [hmid] at hparent
    split
    next hwrite =>
      refine hparent.trans ((FileTree.changes_write hwrite _).mono (fun _ hl => hl) fun l hl => ?_)
      exact hl.trans (hparent.target _)
    next => exact hparent

/-- A write that succeeds makes the directories first, and then the file. -/
theorem write_eq_ok {t t' : FileTree} {a : Artifact} (h : s.write t name a = (.ok (), t')) :
    ∃ mid, FileTree.Changes (s.above t name) (fun _ => False) t mid ∧
      mid.write (s.pathFor name) a.content.toUTF8 = .ok t' := by
  have hparent := changes_makeParent t (s.pathFor name) fun _ => False
  unfold write at h
  dsimp only at h
  split at h
  next => cases h
  next mid hmid =>
    rw [hmid] at hparent
    split at h
    next hwrite =>
      cases h
      exact ⟨mid, hparent, hwrite⟩
    next => cases h

theorem place_congr {t t' : FileTree} (h : t'.workingDir = t.workingDir) (s : FileSink)
    (name : String) : s.place t' name = s.place t name := by
  rw [place, place, FileTree.target, FileTree.target, FileTree.start, FileTree.start, h]

theorem above_congr {t t' : FileTree} {l : Location} (h : t'.workingDir = t.workingDir) :
    s.above t' name l ↔ s.above t name l := by
  have htarget : ∀ path, t'.target path = t.target path := by
    intro path
    rw [FileTree.target, FileTree.target, FileTree.start, FileTree.start, h]
  simp only [above, htarget]

/-- However a pass ends, it has changed nothing but the places of made names and the directories
above these. -/
theorem changes_runAll (s : FileSink) (context : PassContext) (generators : List Generator)
    (t : FileTree) :
    FileTree.Changes (fun l => ∃ a, Made context generators a ∧ s.above t a.qualifiedName l)
      (fun l => ∃ a, Made context generators a ∧ l = s.place t a.qualifiedName) t
      (runAll context generators s.sink t).2 := by
  refine runAll_keeps (I := FileTree.Changes _ _ t) (fun mid a ha hmid => ?_) (.refl _ _ t)
  refine hmid.trans ((changes_write s mid a.qualifiedName a).mono (fun l hl => ?_) fun l hl => ?_)
  · exact ⟨a, ha, (above_congr hmid.workingDir).mp hl⟩
  · exact ⟨a, ha, hl.trans (place_congr hmid.workingDir s _)⟩

end FileSink
end ContractForge
