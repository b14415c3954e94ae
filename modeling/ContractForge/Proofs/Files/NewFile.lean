import ContractForge.Proofs.Files.Beside
import ContractForge.Proofs.Files.Changes
import Mathlib.Data.List.Find
import Mathlib.Data.List.Nodup

/-!
# A new file in a tree

`FileTree.Sound` : a tree as a file system keeps it. Every location is entered once, and the names that
lead to it can stand in a path.

In a sound tree a directory has different names, and each of them leads from the path of the directory
to one place further (`Sound.eq_of_locate_join`). A file at a location where nothing stood makes the list of
its directory longer by its name (`namesIn_put`) and leaves all other paths as they were.
-/

namespace ContractForge

open Text (lastSegment)

/-- The name leads below the directory in which it stands. -/
def Path.IsName (name : String) : Prop :=
  leads name = true ∧ name ≠ ".." ∧ '/' ∉ name.toList

instance (name : String) : Decidable (Path.IsName name) :=
  inferInstanceAs (Decidable (_ ∧ _))

theorem Location.enter_of_isName (l : Location) {name : String} (h : Path.IsName name) :
    l.enter name = l ++ [name] :=
  l.follow_eq_append (List.forall_mem_singleton.mpr ⟨h.1, h.2.1⟩)

namespace FileTree

/-- Every location is entered once, and by names. -/
structure Sound (t : FileTree) : Prop where
  nodup : (t.entries.map (·.1)).Nodup
  names : ∀ x ∈ t.entries, ∀ name ∈ x.1, Path.IsName name

instance (t : FileTree) : Decidable t.Sound :=
  decidable_of_iff ((t.entries.map (·.1)).Nodup ∧ ∀ x ∈ t.entries, ∀ name ∈ x.1, Path.IsName name)
    ⟨fun h => ⟨h.1, h.2⟩, fun h => ⟨h.nodup, h.names⟩⟩

variable {t : FileTree} {above l : Location} {name dir path : String} {content : ByteArray}

/-! ### The names in a directory -/

theorem name_of_place_eq_some_iff {place : Location} :
    (if place.dropLast = above then place.getLast? else none) = some name ↔
      place = above ++ [name] := by
  constructor
  · intro h
    split_ifs at h with habove
    obtain ⟨front, rfl⟩ := List.getLast?_eq_some_iff.mp h
    rw [← habove, List.dropLast_concat]
  · rintro rfl
    rw [List.dropLast_concat, if_pos rfl, List.getLast?_concat]

/-- The names in a directory are those that lead from there to an entry. -/
theorem mem_namesIn_iff : name ∈ t.namesIn above ↔ ∃ e, (above ++ [name], e) ∈ t.entries := by
  rw [namesIn, List.mem_filterMap]
  constructor
  · rintro ⟨⟨place, e⟩, hentry, hname⟩
    obtain rfl := name_of_place_eq_some_iff.mp hname
    exact ⟨e, hentry⟩
  · rintro ⟨e, hentry⟩
    exact ⟨_, hentry, name_of_place_eq_some_iff.mpr rfl⟩

theorem Sound.isName (h : t.Sound) (hname : name ∈ t.namesIn above) : Path.IsName name := by
  obtain ⟨e, hentry⟩ := mem_namesIn_iff.mp hname
  exact h.names _ hentry name (List.mem_append_right _ (List.mem_singleton_self name))

theorem Sound.nodup_namesIn (h : t.Sound) (above : Location) : (t.namesIn above).Nodup := by
  rw [namesIn, List.Nodup, List.pairwise_filterMap]
  refine (List.pairwise_map.mp h.nodup).imp fun hne name hname name' hname' heq => hne ?_
  rw [name_of_place_eq_some_iff.mp hname, name_of_place_eq_some_iff.mp hname', heq]

theorem find?_ne_none_of_mem {x : Location × Entry} (h : x ∈ t.entries) : t.find? x.1 ≠ none := by
  unfold find?
  split_ifs
  · simp
  · intro hnone
    have hnot := List.find?_eq_none.mp (Option.map_eq_none_iff.mp hnone) x h
    simp at hnot

theorem list_eq_ok {names : List String} (h : t.list dir = .ok names) :
    ∃ above, t.locate dir = .ok above ∧ t.find? above = some .directory ∧
      names = t.namesIn above := by
  obtain ⟨above, hdir, hnames⟩ := bind_eq_ok_iff.mp h
  split at hnames
  next hfind => exact ⟨above, hdir, hfind, (Except.ok.inj hnames).symm⟩
  next => cases hnames
  next => cases hnames

/-- A name of a directory leads one place further. -/
theorem Sound.eq_of_locate_join (h : t.Sound) (hdir : t.locate dir = .ok above)
    (hname : name ∈ t.namesIn above) (hlocate : t.locate (Path.join dir name) = .ok l) :
    l = above ++ [name] := by
  have hisName := h.isName hname
  obtain ⟨⟨⟩, hcheck, -⟩ := bind_eq_ok_iff.mp hlocate
  rw [locate_join hisName.2.2 hdir hcheck] at hlocate
  rw [(step_eq_ok hlocate).1, above.enter_of_isName hisName]

/-! ### One more file -/

theorem insertEntry_of_not_mem {es : List (Location × Entry)} {e : Entry}
    (h : ∀ x ∈ es, x.1 ≠ l) : insertEntry l e es = es ++ [(l, e)] := by
  induction es with
  | nil => rfl
  | cons x rest ih =>
    obtain ⟨hx, hrest⟩ := List.forall_mem_cons.mp h
    rw [insertEntry, if_neg hx, ih hrest, List.cons_append]

theorem entries_put (h : t.find? l = none) (e : Entry) :
    (t.put l e).entries = t.entries ++ [(l, e)] := by
  refine insertEntry_of_not_mem fun x hx heq => ?_
  exact find?_ne_none_of_mem hx (heq ▸ h)

theorem namesIn_put (h : t.find? (above ++ [name]) = none) (e : Entry) :
    (t.put (above ++ [name]) e).namesIn above = t.namesIn above ++ [name] := by
  rw [namesIn, entries_put h, List.filterMap_append, ← namesIn]
  simp

section

variable (hnew : t.find? l = none)
include hnew

theorem ne_nil_of_new : l ≠ [] := by
  rintro rfl
  cases hnew

theorem find?_put_directory {k : Location} :
    (t.put l (.file content)).find? k = some .directory ↔ t.find? k = some .directory := by
  rw [find?_put t (ne_nil_of_new hnew)]
  split
  next heq =>
    rw [heq, hnew]
    simp
  next => exact Iff.rfl

/-- Steps succeed from directories only, and these are the same as before. -/
theorem step_put_eq_ok_iff {k next : Location} :
    (t.put l (.file content)).step k name = .ok next ↔ t.step k name = .ok next := by
  by_cases hdir : t.find? k = some .directory
  · have hdir' : (t.put l (.file content)).find? k = some .directory :=
      (find?_put_directory hnew).mpr hdir
    simp only [step, hdir, hdir']
  · refine iff_of_false (fun hstep => hdir ?_) fun hstep => hdir (step_eq_ok hstep).2
    exact (find?_put_directory hnew).mp (step_eq_ok hstep).2

theorem foldlM_step_put_eq_ok_iff {k last : Location} {names : List String} :
    names.foldlM (t.put l (.file content)).step k = .ok last ↔ names.foldlM t.step k = .ok last := by
  induction names generalizing k with
  | nil => exact Iff.rfl
  | cons name rest ih =>
    simp only [List.foldlM_cons, bind_eq_ok_iff, step_put_eq_ok_iff hnew, ih]

theorem locate_put_eq_ok_iff {k : Location} :
    (t.put l (.file content)).locate path = .ok k ↔ t.locate path = .ok k := by
  have hstart : (t.put l (.file content)).start path = t.start path := rfl
  simp only [locate, bind_eq_ok_iff, hstart, foldlM_step_put_eq_ok_iff hnew]

/-- A path that does not lead to the new file finds what it found before. -/
theorem lookup_put_eq_ok_iff (hne : t.locate path ≠ .ok l) {e : Entry} :
    (t.put l (.file content)).lookup path = .ok e ↔ t.lookup path = .ok e := by
  simp only [lookup, bind_eq_ok_iff, locate_put_eq_ok_iff hnew]
  refine exists_congr fun k => and_congr_right fun hlocate => ?_
  have hother : k ≠ l := fun heq => hne (heq ▸ hlocate)
  rw [find?_put t (ne_nil_of_new hnew), if_neg hother]

theorem isFile_put (hne : t.locate path ≠ .ok l) :
    (t.put l (.file content)).isFile path = t.isFile path := by
  have hfile : ∀ t : FileTree, t.isFile path = true ↔ ∃ bytes, t.lookup path = .ok (.file bytes) := by
    intro t
    unfold isFile
    split
    next bytes hlookup => simp [hlookup]
    next hnone => simpa using hnone
  rw [Bool.eq_iff_iff, hfile, hfile]
  simp only [lookup_put_eq_ok_iff hnew hne]

/-- A regular file is not at a location where nothing stands, so what is read of it stays the same. -/
theorem read_put (hfile : t.isFile path = true) :
    (t.put l (.file content)).read path = t.read path := by
  obtain ⟨k, bytes, hlocate, hfind⟩ := exists_locate_of_isFile hfile
  have hother : k ≠ l := by
    rintro rfl
    rw [hnew] at hfind
    cases hfind
  have hfind' : (t.put l (.file content)).find? k = some (.file bytes) := by
    rw [find?_put t (ne_nil_of_new hnew), if_neg hother, hfind]
  rw [read_of_find? hlocate hfind, read_of_find? ((locate_put_eq_ok_iff hnew).mpr hlocate) hfind']

end

theorem list_put (hdir : t.locate dir = .ok above) (hfind : t.find? above = some .directory)
    (hnew : t.find? (above ++ [name]) = none) :
    (t.put (above ++ [name]) (.file content)).list dir = .ok (t.namesIn above ++ [name]) := by
  refine bind_eq_ok_iff.mpr ⟨above, (locate_put_eq_ok_iff hnew).mpr hdir, ?_⟩
  rw [(find?_put_directory hnew).mpr hfind, namesIn_put hnew]

/-- What else the directory has stays a file or none. -/
theorem Sound.isFile_join_put (h : t.Sound) (hdir : t.locate dir = .ok above)
    (hnew : t.find? (above ++ [name]) = none) {other : String} (hother : other ∈ t.namesIn above) :
    (t.put (above ++ [name]) (.file content)).isFile (Path.join dir other) =
      t.isFile (Path.join dir other) := by
  refine isFile_put hnew fun hlocate => ?_
  obtain ⟨e, hentry⟩ := mem_namesIn_iff.mp hother
  rw [h.eq_of_locate_join hdir hother hlocate] at hnew
  exact find?_ne_none_of_mem hentry hnew

/-- A path whose last segment is a name leads to a place of that name. -/
theorem getLast?_of_locate (hlast : Path.IsName (String.ofList (lastSegment '/' path.toList)))
    (h : t.locate path = .ok l) : l.getLast? = some (String.ofList (lastSegment '/' path.toList)) := by
  obtain ⟨before, hsegments⟩ := Text.segments_eq_append_lastSegment '/' path.toList
  rw [locate_eq_ok h, target_eq_follow, components, hsegments, List.map_append,
    Location.follow_append]
  show ((Location.follow _ _).enter _).getLast? = _
  rw [Location.enter_of_isName _ hlast, List.getLast?_concat]

/-- A regular file lies in the directory of its parent, under its name. -/
theorem Sound.locate_of_isFile (h : t.Sound) (habs : Path.IsAbsolute path)
    (hfile : t.isFile path = true) :
    ∃ dir above, Path.parent? path = some dir ∧ t.locate dir = .ok above ∧
      t.find? above = some .directory ∧ Path.IsName (Path.fileName path) ∧
      t.locate path = .ok (above ++ [Path.fileName path]) := by
  obtain ⟨dir, above, hparent, hdir, hfind, hreached, hstep, -⟩ := locate_parent_of_isFile habs hfile
  obtain ⟨l, bytes, hlocate, hentry⟩ := exists_locate_of_isFile hfile
  have hnext : t.step above (Path.fileName path) = .ok l := hstep.symm.trans hlocate
  have hname : Path.IsName (Path.fileName path) := h.isName (mem_namesIn hreached hnext hentry)
  refine ⟨dir, above, hparent, hdir, hfind, hname, ?_⟩
  rw [hlocate, (step_eq_ok hnext).1, above.enter_of_isName hname]

end FileTree

/-- A search that has found a file finds it again after a file is added in the same directory. -/
theorem Locator.resolve_put {locator : Locator} {t : FileTree} {path base dir name : String}
    {above : Location} (hsound : t.Sound) (hroot : Path.IsAbsolute locator.root)
    (hbase : locator.resolve t path = some base) (hparent : Path.parent? base = some dir)
    (hdir : t.locate dir = .ok above) (hnew : t.find? (above ++ [name]) = none)
    (content : ByteArray) :
    locator.resolve (t.put (above ++ [name]) (.file content)) path = some base := by
  have hfile := isFile_of_resolve hbase
  obtain ⟨dir', above', hparent', hdir', -, hname, hlocate⟩ :=
    hsound.locate_of_isFile (isAbsolute_of_resolve hroot hbase) hfile
  obtain rfl := Option.some.inj (hparent.symm.trans hparent')
  obtain rfl := Except.ok.inj (hdir.symm.trans hdir')
  rw [fileName_of_resolve hbase] at hname hlocate
  -- all candidates have the name of the file that is found, and the new file has another
  have hother : ∀ file ∈ locator.candidates path, t.locate file ≠ .ok (above ++ [name]) := by
    intro file hcandidate heq
    have hlast := lastSegment_of_mem_candidates hcandidate
    have hsame := FileTree.getLast?_of_locate (hlast.symm ▸ hname) heq
    rw [List.getLast?_concat, hlast] at hsame
    obtain ⟨l, bytes, hl, hentry⟩ := FileTree.exists_locate_of_isFile hfile
    obtain rfl := Except.ok.inj (hlocate.symm.trans hl)
    rw [← Option.some.inj hsame, hnew] at hentry
    cases hentry
  have hsame : ∀ file ∈ locator.candidates path,
      (t.put (above ++ [name]) (.file content)).isFile file = t.isFile file :=
    fun file hfile => FileTree.isFile_put hnew (hother file hfile)
  rw [resolve, List.find?_congr hsame]
  exact hbase

end ContractForge
