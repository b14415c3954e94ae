import ContractForge.Proofs.Files.FileName

/-!
# The directory of a file

A regular file at an absolute path has a parent that can be listed. The name of the file is in that
list, and it leads from the parent to where the path leads (`list_parent_of_isFile`).

The parent is the text before the last segment without the void segments in between, so its text is
no longer than that of the path, and void segments leave the directory as it is.
-/

namespace ContractForge

open Text (segments joinSegments lastSegment)

namespace Path

theorem exists_dropVoidEnd_append (parts : List (List Char)) :
    ∃ voids, parts = dropVoidEnd parts ++ voids ∧ ∀ v ∈ voids, isVoid v = true := by
  refine ⟨(parts.reverse.takeWhile isVoid).reverse, ?_, fun v hv => ?_⟩
  · rw [dropVoidEnd, ← List.reverse_append, List.takeWhile_append_dropWhile, List.reverse_reverse]
  · exact List.all_eq_true.mp List.all_takeWhile v (List.mem_reverse.mp hv)

/-- The parent of an absolute path has the segments before the last but the void ones at their end. -/
theorem parent?_of_isAbsolute {path : String} (habs : IsAbsolute path)
    (hlast : isVoid (lastSegment '/' path.toList) = false) :
    ∃ kept voids, (∀ v ∈ voids, isVoid v = true) ∧
      path.toList = '/' :: joinSegments '/' (kept ++ voids ++ [lastSegment '/' path.toList]) ∧
      (∀ s ∈ kept ++ voids, '/' ∉ s) ∧
      parent? path = some (String.ofList ('/' :: joinSegments '/' kept)) := by
  obtain ⟨rest, hpath⟩ := exists_of_isAbsolute habs
  have hanchor : anchor path.toList = (['/'], segments '/' rest) := by
    rw [hpath]
    rfl
  have hsame : lastSegment '/' path.toList = lastSegment '/' rest := by
    rw [hpath, ← List.nil_append ('/' :: rest), Text.lastSegment_append_sep]
  rw [hsame] at hlast ⊢
  obtain ⟨before, hbefore⟩ := Text.segments_eq_append_lastSegment '/' rest
  obtain ⟨voids, hvoids, hvoid⟩ := exists_dropVoidEnd_append before
  refine ⟨dropVoidEnd before, voids, hvoid, ?_, fun s hs => ?_, ?_⟩
  · rw [← hvoids, ← hbefore, Text.joinSegments_segments, hpath]
  · rw [← hvoids] at hs
    have hmem : s ∈ segments '/' rest := hbefore ▸ List.mem_append_left _ hs
    exact (Text.of_mem_segments hmem).1
  · have hkeep : (dropVoidEnd (segments '/' rest)).reverse =
        lastSegment '/' rest :: before.reverse := by
      rw [dropVoidEnd, hbefore, List.reverse_append, List.reverse_singleton, List.singleton_append,
        List.dropWhile_cons_of_neg (by simp [hlast]), List.reverse_reverse]
    rw [parent?, hanchor]
    dsimp only
    rw [hkeep]
    dsimp only
    rw [List.reverse_reverse]
    rfl

/-- A path that is made absolute is absolute. -/
theorem isAbsolute_absolute {workingDir path : String} (hdir : IsAbsolute workingDir)
    (hne : path ≠ "") : IsAbsolute (absolute workingDir path) := by
  have hjoin : IsAbsolute (join workingDir "") := isAbsolute_join hdir
  unfold IsAbsolute absolute at *
  dsimp only
  rw [if_neg (by simpa using hne)]
  -- whatever follows, the path begins as its start does
  have hstart : ∀ (start rest : List Char) (slash : Prop) [Decidable slash],
      start.head? = some '/' →
      (if slash then String.ofList (start ++ rest ++ ['/']) else
        String.ofList (start ++ rest)).toList.head? = some '/' := by
    intro start rest slash _ hhead
    split_ifs <;> simp [hhead]
  refine hstart _ _ _ ?_
  split
  · rfl
  · rfl
  · rfl
  · split_ifs
    · exact hdir
    · exact hjoin

theorem join_ne_empty (a : String) {b : String} (hb : b ≠ "") : join a b ≠ "" := by
  unfold join
  split_ifs
  · exact hb
  · simp [hb]
  · simp [hb]

theorem join_sublist (a b : String) :
    (join a b).toList.Sublist (a.toList ++ '/' :: b.toList) := by
  unfold join
  split
  next => exact (List.sublist_cons_self _ _).trans (List.sublist_append_right _ _)
  next =>
    split
    next =>
      rw [String.toList_append]
      exact (List.sublist_cons_self _ _).append_left _
    next => simp

/-- The parent and the last segment have no other characters than the whole path. -/
theorem join_sublist_of_segments (kept voids : List (List Char)) (last : List Char) :
    (join (String.ofList ('/' :: joinSegments '/' kept)) (String.ofList last)).toList.Sublist
      ('/' :: joinSegments '/' (kept ++ voids ++ [last])) := by
  have hlast : last.Sublist (joinSegments '/' (voids ++ [last])) :=
    (Text.suffix_joinSegments voids last).sublist
  rcases eq_or_ne kept [] with rfl | hkept
  · have hjoin : join (String.ofList ['/']) (String.ofList last) = String.ofList ('/' :: last) ∨
        join (String.ofList ['/']) (String.ofList last) = String.ofList last := by
      unfold join
      split
      next => exact .inr rfl
      next => exact .inl (by rw [if_pos (by simp), ← String.ofList_append]; rfl)
    rcases hjoin with hjoin | hjoin
    · rw [show joinSegments '/' [] = [] from rfl, hjoin, String.toList_ofList]
      exact hlast.cons_cons '/'
    · rw [show joinSegments '/' [] = [] from rfl, hjoin, String.toList_ofList]
      exact hlast.cons '/'
  · refine (join_sublist _ _).trans ?_
    rw [String.toList_ofList, String.toList_ofList, List.append_assoc kept,
      Text.joinSegments_append hkept (by simp)]
    exact ((hlast.cons_cons '/').append_left _).cons_cons '/'

end Path

namespace FileTree

variable {t : FileTree}

/-! ### Paths that no operation refuses -/

theorem checkPath_eq_ok_iff {path : String} :
    checkPath path = .ok () ↔
      '\x00' ∉ path.toList ∧ path ≠ "" ∧ path.utf8ByteSize < pathLimit := by
  unfold checkPath
  split_ifs <;> simp_all

theorem utf8ByteSize_le_of_sublist {a b : List Char} (h : a.Sublist b) :
    (String.ofList a).utf8ByteSize ≤ (String.ofList b).utf8ByteSize := by
  induction h with
  | slnil => exact Nat.le_refl _
  | cons c _ ih =>
    rw [String.ofList_cons, String.utf8ByteSize_append]
    omega
  | cons_cons c _ ih =>
    rw [String.ofList_cons, String.ofList_cons, String.utf8ByteSize_append,
      String.utf8ByteSize_append]
    omega

/-- A path of which some characters are left out is not refused either. -/
theorem checkPath_of_sublist {path whole : String} (hsub : path.toList.Sublist whole.toList)
    (hne : path ≠ "") (h : checkPath whole = .ok ()) : checkPath path = .ok () := by
  obtain ⟨hnul, -, hsize⟩ := checkPath_eq_ok_iff.mp h
  have hle := utf8ByteSize_le_of_sublist hsub
  rw [String.ofList_toList, String.ofList_toList] at hle
  exact checkPath_eq_ok_iff.mpr ⟨fun hmem => hnul (hsub.subset hmem), hne, by omega⟩

/-! ### Steps -/

theorem foldlM_step_of_void {l last : Location} {voids : List (List Char)}
    (hvoid : ∀ v ∈ voids, Path.isVoid v = true)
    (h : (voids.map String.ofList).foldlM t.step l = .ok last) : last = l := by
  have hnone : (voids.map String.ofList).filter Path.leads = [] := by
    refine List.filter_eq_nil_iff.mpr fun name hname => ?_
    obtain ⟨v, hv, rfl⟩ := List.mem_map.mp hname
    simp [Path.leads_ofList, hvoid v hv]
  rw [foldlM_step_eq_ok h, ← Location.follow_filter, hnone]
  rfl

theorem components_append_slash (a b : List Char) :
    components (String.ofList (a ++ '/' :: b)) =
      components (String.ofList a) ++ components (String.ofList b) := by
  simp only [components, String.toList_ofList, Text.segments_append_sep, List.map_append]

theorem components_of_not_mem {name : String} (h : '/' ∉ name.toList) : components name = [name] := by
  rw [components, Text.segments_of_not_mem h, List.map_singleton, String.ofList_toList]

theorem components_slash_joinSegments {parts : List (List Char)} (hne : parts ≠ [])
    (hfree : ∀ s ∈ parts, '/' ∉ s) :
    components (String.ofList ('/' :: joinSegments '/' parts)) = "" :: parts.map String.ofList := by
  rw [components, String.toList_ofList, segments, if_pos rfl, Text.segments_joinSegments hne hfree]
  rfl

/-- A directory and a name lead one step further than the directory. -/
theorem locate_join {dir name : String} {l : Location} (hname : '/' ∉ name.toList)
    (hdir : t.locate dir = .ok l) (hcheck : checkPath (Path.join dir name) = .ok ()) :
    t.locate (Path.join dir name) = t.step l name := by
  obtain ⟨⟨⟩, hcheckDir, hfold⟩ := bind_eq_ok_iff.mp hdir
  have hne : dir ≠ "" := (checkPath_eq_ok_iff.mp hcheckDir).2.1
  have hrelative : ¬Path.IsAbsolute name := fun habs => by
    obtain ⟨rest, hrest⟩ := Path.exists_of_isAbsolute habs
    exact hname (hrest ▸ List.mem_cons_self)
  have hstart : t.start (Path.join dir name) = t.start dir := by
    rw [start, Path.head?_join hrelative hne, start]
  obtain ⟨front, hfront, hjoin⟩ : ∃ front, front.foldlM t.step (t.start dir) = .ok l ∧
      components (Path.join dir name) = front ++ [name] := by
    have hempty : dir.isEmpty = false := by simpa using hne
    unfold Path.IsAbsolute at hrelative
    unfold Path.join
    rw [if_neg (by simp [hrelative, hempty])]
    split
    next hslash =>
      -- the empty component after the slash stays where the others lead
      obtain ⟨front, hdirText⟩ := List.getLast?_eq_some_iff.mp hslash
      obtain rfl : dir = String.ofList (front ++ '/' :: []) := by
        rw [← String.toList_inj, hdirText, String.toList_ofList]
      rw [components_append_slash, List.foldlM_append] at hfold
      obtain ⟨mid, hmid, hlast⟩ := bind_eq_ok_iff.mp hfold
      have hvoid : ∀ v ∈ [([] : List Char)], Path.isVoid v = true := by decide
      rw [foldlM_step_of_void hvoid hlast]
      refine ⟨_, hmid, ?_⟩
      have hjoined : String.ofList (front ++ ['/']) ++ name =
          String.ofList (front ++ '/' :: name.toList) := by
        rw [← String.toList_inj]
        simp
      rw [hjoined, components_append_slash, String.ofList_toList, components_of_not_mem hname]
    next =>
      refine ⟨_, hfold, ?_⟩
      have hjoined : dir ++ "/" ++ name = String.ofList (dir.toList ++ '/' :: name.toList) := by
        rw [← String.toList_inj]
        simp
      rw [hjoined, components_append_slash, String.ofList_toList, String.ofList_toList,
        components_of_not_mem hname]
  rw [locate, hcheck, hstart, hjoin]
  show (front ++ [name]).foldlM t.step (t.start dir) = _
  rw [List.foldlM_append, hfront]
  exact bind_pure (t.step l name)

/-! ### The way to a location -/

/-- All places on the way to a location are directories. -/
def Reached (t : FileTree) (l : Location) : Prop :=
  ∀ above, above <+: l.dropLast → t.find? above = some .directory

theorem reached_root (t : FileTree) : t.Reached [] := by
  intro above habove
  rw [List.prefix_nil.mp habove]
  exact if_pos rfl

theorem prefix_dropLast_of_ne {above l : Location} (h : above <+: l) (hne : above ≠ l) :
    above <+: l.dropLast := by
  refine List.prefix_of_prefix_length_le h (List.dropLast_prefix l) ?_
  have hlength : above.length ≠ l.length := fun heq => hne (h.eq_of_length heq)
  have hle := h.length_le
  rw [List.length_dropLast]
  omega

theorem Reached.step {l next : Location} {name : String} (hl : t.Reached l)
    (h : t.step l name = .ok next) : t.Reached next := by
  obtain ⟨rfl, hdir⟩ := step_eq_ok h
  intro above habove
  unfold Location.enter at habove
  split_ifs at habove with hvoid hup
  · exact hl above habove
  · exact hl above (habove.trans (List.dropLast_prefix _))
  · rw [List.dropLast_concat] at habove
    -- the directory itself, or a place on the way to it
    rcases eq_or_ne above l with rfl | hne
    · exact hdir
    · exact hl above (prefix_dropLast_of_ne habove hne)

theorem Reached.foldlM_step {l last : Location} {names : List String} (hl : t.Reached l)
    (h : names.foldlM t.step l = .ok last) : t.Reached last := by
  induction names generalizing l with
  | nil =>
    cases h
    exact hl
  | cons name rest ih =>
    rw [List.foldlM_cons] at h
    obtain ⟨next, hstep, hrest⟩ := bind_eq_ok_iff.mp h
    exact ih (hl.step hstep) hrest

/-- A name that leads to a regular file is in the list of the directory. -/
theorem mem_namesIn {l next : Location} {name : String} {content : ByteArray} (hl : t.Reached l)
    (hstep : t.step l name = .ok next) (hfile : t.find? next = some (.file content)) :
    name ∈ t.namesIn l := by
  obtain ⟨rfl, hdir⟩ := step_eq_ok hstep
  unfold Location.enter at hfile
  split_ifs at hfile with hvoid hup
  · rw [hdir] at hfile
    cases hfile
  · rw [hl _ (List.prefix_refl _)] at hfile
    cases hfile
  · rw [find?, if_neg (by simp)] at hfile
    obtain ⟨⟨place, e⟩, hentry, -⟩ := Option.map_eq_some_iff.mp hfile
    have hplace : place = l ++ [name] := by simpa using List.find?_some hentry
    refine List.mem_filterMap.mpr ⟨_, List.mem_of_find?_eq_some hentry, ?_⟩
    simp [hplace]

theorem isFile_congr {path path' : String} (h : t.locate path = t.locate path') :
    t.isFile path = t.isFile path' := by
  rw [isFile, isFile, lookup, lookup, h]

theorem locate_slash_joinSegments {kept : List (List Char)} {l : Location}
    (hfree : ∀ s ∈ kept, '/' ∉ s)
    (hcheck : checkPath (String.ofList ('/' :: joinSegments '/' kept)) = .ok ())
    (h : ("" :: kept.map String.ofList).foldlM t.step [] = .ok l) :
    t.locate (String.ofList ('/' :: joinSegments '/' kept)) = .ok l := by
  have habs : Path.IsAbsolute (String.ofList ('/' :: joinSegments '/' kept)) := by
    rw [Path.IsAbsolute, String.toList_ofList]
    rfl
  rw [locate, hcheck, start_of_isAbsolute t habs]
  rcases eq_or_ne kept [] with rfl | hne
  · cases h
    rfl
  · rw [components_slash_joinSegments hne hfree]
    exact h

/-- The parent of a regular file is a directory, and the name of the file leads on from there. -/
theorem locate_parent_of_isFile {path : String} (habs : Path.IsAbsolute path)
    (h : t.isFile path = true) :
    ∃ dir above, Path.parent? path = some dir ∧ t.locate dir = .ok above ∧
      t.find? above = some .directory ∧ t.Reached above ∧
      t.locate path = t.step above (Path.fileName path) ∧
      checkPath (Path.join dir (Path.fileName path)) = .ok () := by
  have hlast := lastSegment_of_isFile h
  obtain ⟨kept, voids, hvoid, hpath, hfree, hparent⟩ := Path.parent?_of_isAbsolute habs hlast
  obtain ⟨l, content, hlocate, -⟩ := exists_locate_of_isFile h
  have hfreeLast := Text.not_mem_lastSegment '/' path.toList
  have hne : lastSegment '/' path.toList ≠ [] := by
    rintro hnil
    rw [hnil] at hlast
    cases hlast
  rw [Path.fileName_of_lastSegment hlast]
  generalize lastSegment '/' path.toList = last at *
  obtain ⟨⟨⟩, hcheck, hfold⟩ := bind_eq_ok_iff.mp hlocate
  -- the components of the path are those of its parent, void ones, and the last
  have hparts : ∀ s ∈ kept ++ voids ++ [last], '/' ∉ s := by
    intro s hs
    rcases List.mem_append.mp hs with hs | hs
    · exact hfree s hs
    · rwa [List.mem_singleton.mp hs]
  have hcomponents := components_slash_joinSegments (by simp) hparts
  rw [← hpath, String.ofList_toList, List.map_append, List.map_append, ← List.cons_append,
    ← List.cons_append] at hcomponents
  rw [start_of_isAbsolute t habs, hcomponents, List.foldlM_append, List.foldlM_append] at hfold
  obtain ⟨above, habove, hstep⟩ := bind_eq_ok_iff.mp hfold
  obtain ⟨mid, hkept, hvoids⟩ := bind_eq_ok_iff.mp habove
  obtain rfl := foldlM_step_of_void hvoid hvoids
  obtain ⟨next, hnext, hlocated⟩ := bind_eq_ok_iff.mp hstep
  obtain rfl := Except.ok.inj hlocated
  refine ⟨_, above, hparent, ?_, (step_eq_ok hnext).2, (reached_root t).foldlM_step hkept,
    hlocate.trans hnext.symm, ?_⟩
  · refine locate_slash_joinSegments (fun s hs => hfree s (List.mem_append_left _ hs)) ?_ hkept
    refine checkPath_of_sublist ?_ (by simp [← String.toList_inj]) hcheck
    rw [hpath, String.toList_ofList, List.append_assoc kept]
    exact (Text.joinSegments_prefix _ _).sublist.cons_cons '/'
  · refine checkPath_of_sublist ?_ ?_ hcheck
    · rw [hpath]
      exact Path.join_sublist_of_segments kept voids last
    · refine Path.join_ne_empty _ ?_
      rwa [Ne, ← String.toList_inj, String.toList_ofList]

/-- A regular file at an absolute path is in the list of its parent, under its name. -/
theorem list_parent_of_isFile {path : String} (habs : Path.IsAbsolute path)
    (h : t.isFile path = true) :
    ∃ dir names, Path.parent? path = some dir ∧ t.list dir = .ok names ∧
      Path.fileName path ∈ names ∧
      t.locate (Path.join dir (Path.fileName path)) = t.locate path := by
  obtain ⟨dir, above, hparent, hdir, hfind, hreached, hpath, hcheck⟩ :=
    locate_parent_of_isFile habs h
  obtain ⟨l, content, hlocate, hfile⟩ := exists_locate_of_isFile h
  have hslash : '/' ∉ (Path.fileName path).toList := by
    rw [Path.fileName_of_lastSegment (lastSegment_of_isFile h), String.toList_ofList]
    exact Text.not_mem_lastSegment '/' path.toList
  refine ⟨dir, t.namesIn above, hparent, ?_, ?_, ?_⟩
  · refine bind_eq_ok_iff.mpr ⟨above, hdir, ?_⟩
    rw [hfind]
  · exact mem_namesIn hreached (hpath.symm.trans hlocate) hfile
  · rw [locate_join hslash hdir hcheck, hpath]

end FileTree

namespace Locator

/-- A search starts from an absolute directory, whatever directory it is given. -/
theorem isAbsolute_start (t : FileTree) {root : String} (hroot : root ≠ "") (config : Config) :
    Path.IsAbsolute (start t root config).root := by
  refine Path.isAbsolute_absolute ?_ hroot
  rw [Path.IsAbsolute, String.toList_append]
  rfl

/-- What is found from an absolute directory is at an absolute path. -/
theorem isAbsolute_of_resolve {l : Locator} {t : FileTree} {path file : String}
    (hroot : Path.IsAbsolute l.root) (h : l.resolve t path = some file) : Path.IsAbsolute file := by
  obtain ⟨dir, hdir, layer, rfl⟩ := exists_dir_of_resolve h
  exact Path.isAbsolute_join (Path.isAbsolute_join (Path.names_of_mem_ancestors hroot hdir).1)

end Locator
end ContractForge
