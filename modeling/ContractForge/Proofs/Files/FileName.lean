import ContractForge.Files.Locator
import ContractForge.Proofs.Files.Location

/-!
# The names of files that are found

A file that is found for a logical path has the last segment of that path as its name
(`fileName_of_resolve`): the locator puts directories before the path, and no path to a regular file
ends in a slash or a dot.
-/

namespace ContractForge

open Text (lastSegment)

namespace Path

/-- A last segment that is a name is the file name. -/
theorem fileName_of_lastSegment {path : String}
    (h : isVoid (lastSegment '/' path.toList) = false) :
    fileName path = String.ofList (lastSegment '/' path.toList) := by
  obtain ⟨before, hparts⟩ : ∃ before,
      (anchor path.toList).2 = before ++ [lastSegment '/' path.toList] := by
    obtain ⟨before, hsegments⟩ := Text.segments_eq_append_lastSegment '/' path.toList
    unfold anchor
    split
    next rest hpath =>
      rw [hpath, ← List.nil_append ('/' :: rest), Text.lastSegment_append_sep]
      exact Text.segments_eq_append_lastSegment '/' rest
    next =>
      split
      next rest hdot =>
        rw [hsegments] at hdot
        cases before with
        | nil =>
          obtain ⟨hlast, -⟩ := List.cons.inj hdot
          rw [hlast] at h
          cases h
        | cons first further => exact ⟨further, (List.cons.inj hdot).2.symm⟩
      next => exact ⟨before, hsegments⟩
  have hkeep : dropVoidEnd (anchor path.toList).2 = (anchor path.toList).2 := by
    rw [dropVoidEnd, hparts, List.reverse_append, List.reverse_singleton, List.singleton_append,
      List.dropWhile_cons_of_neg (by simp [h]), List.reverse_cons, List.reverse_reverse]
  rw [fileName, hkeep, hparts, List.getLast?_concat]
  rfl

theorem lastSegment_join (a b : String) :
    lastSegment '/' (join a b).toList = lastSegment '/' b.toList := by
  unfold join
  split
  next => rfl
  next =>
    split
    next hslash =>
      obtain ⟨front, hfront⟩ := List.getLast?_eq_some_iff.mp hslash
      rw [String.toList_append, hfront, List.append_assoc]
      exact Text.lastSegment_append_sep front b.toList
    next =>
      rw [String.toList_append, String.toList_append, List.append_assoc]
      exact Text.lastSegment_append_sep a.toList b.toList

end Path

namespace FileTree

theorem exists_locate_of_isFile {t : FileTree} {path : String} (h : t.isFile path = true) :
    ∃ l content, t.locate path = .ok l ∧ t.find? l = some (.file content) := by
  unfold isFile at h
  split at h
  next content hlookup =>
    obtain ⟨l, hlocate, hfound⟩ := bind_eq_ok_iff.mp hlookup
    refine ⟨l, content, hlocate, ?_⟩
    split at hfound
    next e hfind =>
      cases hfound
      exact hfind
    next => cases hfound
  next => cases h

theorem isFile_iff {t : FileTree} {path : String} :
    t.isFile path = true ↔ ∃ l content, t.locate path = .ok l ∧ t.find? l = some (.file content) := by
  refine ⟨exists_locate_of_isFile, fun hfound => ?_⟩
  obtain ⟨l, content, hlocate, hfile⟩ := hfound
  have hlookup : t.lookup path = .ok (.file content) := by
    refine bind_eq_ok_iff.mpr ⟨l, hlocate, ?_⟩
    rw [hfile]
  rw [isFile, hlookup]

/-- The path to a regular file ends in a name. -/
theorem lastSegment_of_isFile {t : FileTree} {path : String} (h : t.isFile path = true) :
    Path.isVoid (lastSegment '/' path.toList) = false := by
  obtain ⟨l, content, hlocate, hfound⟩ := exists_locate_of_isFile h
  obtain ⟨-, -, hfold⟩ := bind_eq_ok_iff.mp hlocate
  obtain ⟨before, hsegments⟩ := Text.segments_eq_append_lastSegment '/' path.toList
  rw [components, hsegments, List.map_append, List.foldlM_append] at hfold
  obtain ⟨above, -, hlast⟩ := bind_eq_ok_iff.mp hfold
  obtain ⟨l', hstep, hpure⟩ := bind_eq_ok_iff.mp hlast
  cases hpure
  obtain ⟨hl, hdir⟩ := step_eq_ok hstep
  refine Bool.eq_false_iff.mpr fun hvoid => ?_
  -- a void segment stays in the directory, which is no file
  rw [above.enter_of_not_leads (by rw [Path.leads_ofList, hvoid]; rfl)] at hl
  rw [hl, hdir] at hfound
  cases hfound

/-- A regular file can be read. -/
theorem exists_read_of_isFile {t : FileTree} {path : String} (h : t.isFile path = true) :
    ∃ content, t.read path = .ok content := by
  unfold isFile at h
  split at h
  next content hlookup => exact ⟨content, bind_eq_ok_iff.mpr ⟨_, hlookup, rfl⟩⟩
  next => cases h

end FileTree

namespace Locator

theorem isFile_of_resolve {l : Locator} {t : FileTree} {path file : String}
    (h : l.resolve t path = some file) : t.isFile file = true :=
  List.find?_some h

theorem lastSegment_relative (path : String) :
    lastSegment '/' (relative path).toList = lastSegment '/' path.toList := by
  rw [relative, String.toList_ofList]
  generalize path.toList = s
  induction s with
  | nil => rfl
  | cons c rest ih =>
    rw [List.dropWhile_cons]
    split
    next hc =>
      obtain rfl : c = '/' := by simpa using hc
      rw [ih, ← List.nil_append ('/' :: rest), Text.lastSegment_append_sep]
    next => rfl

theorem not_isAbsolute_relative (path : String) : ¬Path.IsAbsolute (relative path) := by
  intro habs
  rw [Path.IsAbsolute, relative, String.toList_ofList] at habs
  have hhead := List.head?_dropWhile_not (· = '/') path.toList
  rw [habs] at hhead
  simp at hhead

/-- What is tried, in no order. -/
theorem mem_candidates_iff {l : Locator} {path file : String} :
    file ∈ l.candidates path ↔
      relative path ≠ "" ∧ ∃ dir ∈ Path.ancestors l.root, ∃ layer ∈ l.layers,
        file = Path.join (Path.join dir layer) (relative path) := by
  unfold candidates
  split
  next hempty => simp [hempty]
  next hne => simp [hne, List.mem_flatMap, List.mem_map, eq_comm]

/-- What is tried lies below a directory on the way to the root. -/
theorem exists_dir_of_mem_candidates {l : Locator} {path file : String}
    (h : file ∈ l.candidates path) :
    ∃ dir ∈ Path.ancestors l.root, ∃ layer,
      file = Path.join (Path.join dir layer) (relative path) := by
  obtain ⟨-, dir, hdir, layer, -, hfile⟩ := mem_candidates_iff.mp h
  exact ⟨dir, hdir, layer, hfile⟩

theorem lastSegment_of_mem_candidates {l : Locator} {path file : String}
    (h : file ∈ l.candidates path) :
    lastSegment '/' file.toList = lastSegment '/' path.toList := by
  obtain ⟨dir, -, layer, hfile⟩ := exists_dir_of_mem_candidates h
  rw [hfile, Path.lastSegment_join, lastSegment_relative]

/-- What is found lies below a directory on the way to the root. -/
theorem exists_dir_of_resolve {l : Locator} {t : FileTree} {path file : String}
    (h : l.resolve t path = some file) :
    ∃ dir ∈ Path.ancestors l.root, ∃ layer,
      file = Path.join (Path.join dir layer) (relative path) :=
  exists_dir_of_mem_candidates (List.mem_of_find?_eq_some h)

/-- The file that is found for a path has its last segment as its name. -/
theorem fileName_of_resolve {l : Locator} {t : FileTree} {path file : String}
    (h : l.resolve t path = some file) :
    Path.fileName file = String.ofList (lastSegment '/' path.toList) := by
  have hlast := lastSegment_of_mem_candidates (List.mem_of_find?_eq_some h)
  rw [Path.fileName_of_lastSegment (FileTree.lastSegment_of_isFile (isFile_of_resolve h)), hlast]

end Locator
end ContractForge
