import ContractForge.Proofs.Files.WellFormed

/-!
# Making and writing what is there

A directory that is there is not made again (`makeDirectories_of_isDirectory`), and one that was made is
there (`isDirectory_of_makeDirectories`). A file that could be written can be written in every later
tree in which no directory has its place (`Changes.write`).
-/

namespace ContractForge.FileTree

variable {t t' : FileTree} {l above : Location} {path : String}

/-! ### Directories -/

theorem isDirectory_iff :
    t.isDirectory path = true ↔ ∃ l, t.locate path = .ok l ∧ t.find? l = some .directory := by
  constructor
  · intro h
    unfold isDirectory at h
    split at h
    next hlookup =>
      obtain ⟨l, hlocate, hfound⟩ := bind_eq_ok_iff.mp hlookup
      refine ⟨l, hlocate, ?_⟩
      split at hfound
      next e he => rw [he, Except.ok.inj hfound]
      next => cases hfound
    next => cases h
  · intro hfound
    obtain ⟨l, hlocate, hdir⟩ := hfound
    have hlookup : t.lookup path = .ok .directory := by
      refine bind_eq_ok_iff.mpr ⟨l, hlocate, ?_⟩
      rw [hdir]
    rw [isDirectory, hlookup]

theorem Changes.isDirectory {made written : Location → Prop} (h : Changes made written t t')
    (hdir : t.isDirectory path = true) : t'.isDirectory path = true := by
  obtain ⟨l, hlocate, hfind⟩ := isDirectory_iff.mp hdir
  exact isDirectory_iff.mpr ⟨l, h.locate hlocate, h.directory hfind⟩

theorem step_empty (h : t.find? l = some .directory) : t.step l "" = .ok l := by
  simp [step, h]

/-- Empty components stay in a directory. -/
theorem foldlM_step_blanks {blanks : List String} (h : t.find? l = some .directory)
    (hblanks : ∀ name ∈ blanks, name = "") : blanks.foldlM t.step l = .ok l := by
  induction blanks with
  | nil => rfl
  | cons name rest ih =>
    obtain ⟨rfl, hrest⟩ := List.forall_mem_cons.mp hblanks
    rw [List.foldlM_cons]
    exact bind_eq_ok_iff.mpr ⟨l, step_empty h, ih hrest⟩

/-- The way to a directory without the empty components at its end. -/
theorem foldlM_step_properComponents {k : Location}
    (h : (components path).foldlM t.step k = .ok l) :
    (properComponents path).foldlM t.step k = .ok l := by
  obtain ⟨blanks, hblanks, hsplit⟩ := exists_components_eq path
  rw [hsplit, List.foldlM_append] at h
  obtain ⟨mid, hmid, hrest⟩ := bind_eq_ok_iff.mp h
  cases blanks with
  | nil =>
    cases hrest
    exact hmid
  | cons name rest =>
    -- an empty component is a step from a directory to itself
    obtain rfl := (List.forall_mem_cons.mp hblanks).1
    rw [List.foldlM_cons] at hrest
    obtain ⟨next, hstep, -⟩ := bind_eq_ok_iff.mp hrest
    have hmidDir := (step_eq_ok hstep).2
    have hblank := foldlM_step_blanks hmidDir hblanks
    rw [List.foldlM_cons, hrest] at hblank
    rw [hmid, ← Except.ok.inj hblank]

theorem makeDirectory_of_isDirectory (h : t.isDirectory path = true) :
    t.makeDirectory path = .error .alreadyExists := by
  obtain ⟨l, hlocate, hdir⟩ := isDirectory_iff.mp h
  obtain ⟨⟨⟩, hcheck, hfold⟩ := bind_eq_ok_iff.mp hlocate
  have hproper := foldlM_step_properComponents hfold
  -- the components but the last lead to a directory, and the last leads to what is there
  obtain ⟨above, habove, hfind, hlast⟩ : ∃ above,
      (properComponents path).dropLast.foldlM t.step (t.start path) = .ok above ∧
        t.find? above = some .directory ∧ t.step above (lastComponent path) = .ok l := by
    rcases List.eq_nil_or_concat' (properComponents path) with hnil | ⟨front, last, hsplit⟩
    · rw [hnil] at hproper
      obtain rfl := Except.ok.inj hproper
      refine ⟨_, by rw [hnil]; rfl, hdir, ?_⟩
      rw [lastComponent, hnil]
      exact step_empty hdir
    · rw [hsplit, List.foldlM_append] at hproper
      obtain ⟨above, hfront, hstep⟩ := bind_eq_ok_iff.mp hproper
      rw [List.foldlM_cons] at hstep
      obtain ⟨next, hnext, hend⟩ := bind_eq_ok_iff.mp hstep
      obtain rfl := Except.ok.inj hend
      refine ⟨above, by rw [hsplit, List.dropLast_concat, hfront], (step_eq_ok hnext).2, ?_⟩
      rw [lastComponent, hsplit, List.getLastD_eq_getLast?, List.getLast?_concat]
      exact hnext
  have hcontainer : t.container path = .ok above :=
    bind_eq_ok_iff.mpr ⟨(), hcheck, bind_eq_ok_iff.mpr ⟨above, habove, step_empty hfind⟩⟩
  have hthere : (t.find? l).isNone = false := by simp [hdir]
  simp only [makeDirectory, hcontainer, hlast, hthere, Bool.and_false, Bool.false_eq_true, if_false,
    bind, Except.bind]

theorem ensureDirectory_of_isDirectory (h : t.isDirectory path = true) :
    t.ensureDirectory path = (.ok (), t) := by
  rw [ensureDirectory, makeDirectory_of_isDirectory h]
  simp [h]

theorem exists_ancestors_eq (path : String) : ∃ further, Path.ancestors path = path :: further := by
  rw [Path.ancestors, Path.ancestors.go]
  exact ⟨_, rfl⟩

/-- A directory that is there is left alone, and so are those above it. -/
theorem makeDirectories_of_isDirectory (h : path = "" ∨ t.isDirectory path = true) :
    t.makeDirectories path = (.ok (), t) := by
  rcases h with rfl | h
  · rfl
  · have hne : path ≠ "" := by
      rintro rfl
      cases h
    obtain ⟨further, hpaths⟩ := exists_ancestors_eq path
    rw [makeDirectories, hpaths, List.filter_cons_of_pos (by simpa using hne), makeAlong,
      makeDirectory_of_isDirectory h]
    exact ensureDirectory_of_isDirectory h

theorem isDirectory_of_makeDirectory (h : t.makeDirectory path = .ok t') :
    t'.isDirectory path = true := by
  have hchanges := changes_makeDirectory h fun _ => False
  have hput := (makeDirectory_eq_ok h).2
  obtain ⟨above, hcontainer, hrest⟩ := bind_eq_ok_iff.mp h
  obtain ⟨l, hstep, hnew⟩ := bind_eq_ok_iff.mp hrest
  obtain ⟨hcheck, hfold⟩ := container_eq_ok hcontainer
  split at hnew
  next hname =>
    have hl : l = t.target path := by
      rw [(step_eq_ok hstep).1, target_of_container hcontainer]
    have hnone := Option.isNone_iff_eq_none.mp (Bool.and_eq_true_iff.mp hname).2
    have hmade : t'.find? l = some .directory := by
      rw [hput, ← hl, find?_put t (ne_nil_of_new hnone), if_pos rfl]
    refine isDirectory_iff.mpr ⟨l, bind_eq_ok_iff.mpr ⟨(), hcheck, ?_⟩, hmade⟩
    have hstart : t'.start path = t.start path := by
      rw [start, start, hchanges.workingDir]
    obtain ⟨blanks, hblanks, hsplit⟩ := exists_components_eq path
    rw [hstart, hsplit, List.foldlM_append]
    refine bind_eq_ok_iff.mpr ⟨l, ?_, foldlM_step_blanks hmade hblanks⟩
    rcases List.eq_nil_or_concat' (properComponents path) with hnil | ⟨front, last, hfront⟩
    · -- a path without components has no name to make
      have hends := (Bool.and_eq_true_iff.mp hname).1
      simp [endsInName, lastComponent, hnil] at hends
    · rw [hfront, List.dropLast_concat] at hfold
      rw [lastComponent, hfront, List.getLastD_eq_getLast?, List.getLast?_concat] at hstep
      rw [hfront, List.foldlM_append]
      refine bind_eq_ok_iff.mpr ⟨above, hchanges.foldlM_step hfold, ?_⟩
      rw [List.foldlM_cons]
      exact bind_eq_ok_iff.mpr ⟨l, hchanges.step hstep, rfl⟩
  next => cases hnew

theorem isDirectory_of_ensureDirectory (h : t.ensureDirectory path = (.ok (), t')) :
    t'.isDirectory path = true := by
  unfold ensureDirectory at h
  split at h
  next made hmade =>
    obtain rfl := (Prod.mk.inj h).2
    exact isDirectory_of_makeDirectory hmade
  next =>
    split at h
    next hdir =>
      obtain rfl := (Prod.mk.inj h).2
      exact hdir
    next => cases h

theorem isDirectory_of_makeAlong {further : List String}
    (h : t.makeAlong (path :: further) = (.ok (), t')) : t'.isDirectory path = true := by
  rw [makeAlong] at h
  split at h
  next =>
    split at h
    next => exact isDirectory_of_ensureDirectory h
    next hfailed =>
      rw [h] at hfailed
      exact absurd rfl (hfailed _)
  next => exact isDirectory_of_ensureDirectory h

/-- A directory that was made with those above it is there. -/
theorem isDirectory_of_makeDirectories (h : t.makeDirectories path = (.ok (), t')) :
    path = "" ∨ t'.isDirectory path = true := by
  by_cases hne : path = ""
  · exact .inl hne
  · obtain ⟨further, hpaths⟩ := exists_ancestors_eq path
    rw [makeDirectories, hpaths, List.filter_cons_of_pos (by simpa using hne)] at h
    exact .inr (isDirectory_of_makeAlong h)

/-! ### Files -/

/-- A file is written under the file name of its path. -/
theorem exists_target_eq {content : ByteArray} {u : FileTree} (h : t.write path content = .ok u) :
    ∃ above, t.target path = above ++ [Path.fileName path] := by
  obtain ⟨above, hcontainer, hrest⟩ := bind_eq_ok_iff.mp h
  obtain ⟨hcheck, -⟩ := container_eq_ok hcontainer
  split at hrest
  next => cases hrest
  next hnot =>
    have hslash : path.toList.getLast? ≠ some '/' := fun hlast => hnot (by simp [hlast])
    have hends : endsInName path = true := by
      by_contra hends
      simp [hends] at hnot
    have hname := isName_lastComponent hends
    obtain ⟨front, hsegments⟩ := Text.segments_eq_append_lastSegment '/' path.toList
    have hlast : lastComponent path = String.ofList (Text.lastSegment '/' path.toList) := by
      rw [lastComponent, properComponents_of_getLast? (checkPath_eq_ok hcheck) hslash, components,
        hsegments, List.map_append, List.map_singleton, List.getLastD_eq_getLast?,
        List.getLast?_concat]
      rfl
    have hvoid : Path.isVoid (Text.lastSegment '/' path.toList) = false := by
      have hleads := hname.1
      rw [hlast, Path.leads_ofList] at hleads
      simpa using hleads
    refine ⟨above, ?_⟩
    rw [target_of_container hcontainer, above.enter_of_isName hname, hlast,
      Path.fileName_of_lastSegment hvoid]

theorem Changes.container {made written : Location → Prop} (h : Changes made written t t')
    (hcontainer : t.container path = .ok above) : t'.container path = .ok above := by
  obtain ⟨hcheck, hfold⟩ := container_eq_ok hcontainer
  have hstart : t'.start path = t.start path := by
    rw [start, start, h.workingDir]
  refine bind_eq_ok_iff.mpr ⟨(), hcheck, ?_⟩
  rw [hstart]
  refine bind_eq_ok_iff.mpr ⟨above, h.foldlM_step hfold, step_empty ?_⟩
  exact h.directory (directory_of_container hcontainer)

/-- What could be written can be written again, unless a directory has taken its place. -/
theorem Changes.write {made written : Location → Prop} {content : ByteArray} {u : FileTree}
    (h : Changes made written t t') (hwrite : t.write path content = .ok u)
    (hdir : t'.find? (t.target path) ≠ some .directory) (content' : ByteArray) :
    t'.write path content' = .ok (t'.put (t.target path) (.file content')) := by
  obtain ⟨above, hcontainer, hrest⟩ := bind_eq_ok_iff.mp hwrite
  split at hrest
  next => cases hrest
  next hname =>
    obtain ⟨l, hstep, -⟩ := bind_eq_ok_iff.mp hrest
    have hl : l = t.target path := by
      rw [(step_eq_ok hstep).1, target_of_container hcontainer]
    refine bind_eq_ok_iff.mpr ⟨above, h.container hcontainer, ?_⟩
    rw [if_neg hname]
    refine bind_eq_ok_iff.mpr ⟨l, h.step hstep, ?_⟩
    rw [hl]
    split
    next hfound => exact absurd hfound hdir
    next => rfl

end ContractForge.FileTree
