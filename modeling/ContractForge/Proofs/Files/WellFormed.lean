import ContractForge.Proofs.Files.Descent
import ContractForge.Proofs.Files.NewFile
import Mathlib.Data.List.Infix

/-!
# Well-formed trees

`FileTree.WellFormed` : a sound tree in which everything stands in directories. So nothing is hidden
below a missing directory, to be found once somebody makes it.

The operations keep a tree well-formed: a pass that makes directories and writes files
(`WellFormed.makeDirectories`, `WellFormed.write`), and whoever removes some between two passes
(`WellFormed.remove`). When such a tree changes, a path that does not go up is that of a file afterwards
exactly if it was before, unless the file itself is written (`Changes.isFile_eq`).
-/

namespace ContractForge.FileTree

variable {t t' : FileTree} {l above : Location} {path : String} {content : ByteArray}

instance (t : FileTree) (l : Location) : Decidable (t.find? l = some .directory) :=
  match t.find? l with
  | some .directory => .isTrue rfl
  | some (.file _) => .isFalse nofun
  | none => .isFalse nofun

instance (t : FileTree) (l : Location) : Decidable (t.Reached l) :=
  decidable_of_iff (∀ above ∈ l.dropLast.inits, t.find? above = some .directory) (by
    simp only [List.mem_inits, Reached])

/-- A sound tree in which directories lead to every entry. -/
structure WellFormed (t : FileTree) : Prop extends Sound t where
  reached : ∀ x ∈ t.entries, t.Reached x.1

instance (t : FileTree) : Decidable t.WellFormed :=
  decidable_of_iff (t.Sound ∧ ∀ x ∈ t.entries, t.Reached x.1)
    ⟨fun h => ⟨h.1, h.2⟩, fun h => ⟨h.toSound, h.reached⟩⟩

theorem exists_mem_of_find? (hne : l ≠ []) (h : t.find? l ≠ none) : ∃ e, (l, e) ∈ t.entries := by
  rw [find?, if_neg hne] at h
  obtain ⟨⟨place, e⟩, hentry⟩ := Option.ne_none_iff_exists'.mp (mt Option.map_eq_none_iff.mpr h)
  have hplace : place = l := by simpa using List.find?_some hentry
  exact ⟨e, hplace ▸ List.mem_of_find?_eq_some hentry⟩

theorem WellFormed.reached_of_find? (ht : t.WellFormed) (h : t.find? l ≠ none) : t.Reached l := by
  by_cases hne : l = []
  · rw [hne]
    exact t.reached_root
  · obtain ⟨e, hentry⟩ := exists_mem_of_find? hne h
    exact ht.reached _ hentry

theorem Sound.isName_of_find? (ht : t.Sound) (h : t.find? l ≠ none) : ∀ name ∈ l, Path.IsName name := by
  by_cases hne : l = []
  · simp [hne]
  · obtain ⟨e, hentry⟩ := exists_mem_of_find? hne h
    exact ht.names _ hentry

/-! ### Operations keep a tree well-formed -/

theorem map_fst_insertEntry (l : Location) (e : Entry) (es : List (Location × Entry)) :
    (insertEntry l e es).map (·.1) =
      if l ∈ es.map (·.1) then es.map (·.1) else es.map (·.1) ++ [l] := by
  induction es with
  | nil => rfl
  | cons x rest ih =>
    rw [insertEntry]
    by_cases hx : x.1 = l
    · simp [hx]
    · rw [if_neg hx, List.map_cons, ih]
      by_cases hmem : l ∈ rest.map (·.1)
      · simp only [if_pos hmem, List.map_cons, if_pos (List.mem_cons_of_mem _ hmem)]
      · have hnot : l ∉ (x :: rest).map (·.1) := by
          simpa [Ne.symm hx] using hmem
        rw [if_neg hmem, if_neg hnot]
        rfl

theorem Sound.put (ht : t.Sound) (hl : ∀ name ∈ l, Path.IsName name) (e : Entry) :
    (t.put l e).Sound := by
  have hplaces := map_fst_insertEntry l e t.entries
  refine ⟨?_, fun x hx => ?_⟩
  · show ((insertEntry l e t.entries).map (·.1)).Nodup
    rw [hplaces]
    split
    next => exact ht.nodup
    next hnot => exact List.nodup_append_comm.mp (List.nodup_cons.mpr ⟨hnot, ht.nodup⟩)
  · have hmem : x.1 ∈ (insertEntry l e t.entries).map (·.1) := List.mem_map_of_mem hx
    have hold : x.1 ∈ t.entries.map (·.1) → ∀ name ∈ x.1, Path.IsName name := by
      intro hmem
      obtain ⟨y, hy, heq⟩ := List.mem_map.mp hmem
      rw [← heq]
      exact ht.names y hy
    rw [hplaces] at hmem
    split at hmem
    next => exact hold hmem
    next =>
      rcases List.mem_append.mp hmem with hmem | hmem
      · exact hold hmem
      · rw [List.mem_singleton.mp hmem]
        exact hl

/-- A tree stays well-formed when something that is no directory is put into a directory. -/
theorem WellFormed.put (ht : t.WellFormed) (hl : ∀ name ∈ l, Path.IsName name) (hne : l ≠ [])
    (habove : t.find? l.dropLast = some .directory) (hdir : t.find? l ≠ some .directory) (e : Entry) :
    (t.put l e).WellFormed := by
  have hsound := ht.toSound.put hl e
  -- directories stay, since the new entry does not take the place of one
  have hstays : ∀ k, t.find? k = some .directory → (t.put l e).find? k = some .directory := by
    intro k hk
    have hother : k ≠ l := by
      rintro rfl
      exact hdir hk
    rw [find?_put t hne, if_neg hother, hk]
  have hreached : ∀ k, t.Reached k → (t.put l e).Reached k := fun k hk above habove =>
    hstays above (hk above habove)
  refine ⟨hsound, fun x hx => ?_⟩
  by_cases hx' : x.1 = l
  · refine hreached _ fun above hprefix => ?_
    rw [hx'] at hprefix
    rcases eq_or_ne above l.dropLast with rfl | hother
    · exact habove
    · have hup : t.Reached l.dropLast := ht.reached_of_find? (by simp [habove])
      exact hup above (prefix_dropLast_of_ne hprefix hother)
  · have hfound : t.find? x.1 ≠ none := by
      have hput := find?_ne_none_of_mem hx
      rwa [find?_put t hne, if_neg hx'] at hput
    exact hreached _ (ht.reached_of_find? hfound)

theorem directory_of_container (h : t.container path = .ok above) :
    t.find? above = some .directory := by
  obtain ⟨⟨⟩, -, hrest⟩ := bind_eq_ok_iff.mp h
  obtain ⟨l, -, hstep⟩ := bind_eq_ok_iff.mp hrest
  obtain ⟨rfl, hdir⟩ := step_eq_ok hstep
  exact hdir

theorem isName_lastComponent (h : endsInName path = true) : Path.IsName (lastComponent path) := by
  have hnot : lastComponent path ∉ ["", ".", ".."] := by simpa [endsInName] using h
  simp only [List.mem_cons, List.not_mem_nil, or_false, not_or] at hnot
  obtain ⟨hempty, hdot, hup⟩ := hnot
  refine ⟨by simp [Path.leads, hempty, hdot], hup, ?_⟩
  have hmem : lastComponent path ∈ properComponents path := by
    rw [lastComponent, List.getLastD_eq_getLast?] at hempty ⊢
    cases hlast : (properComponents path).getLast? with
    | none => simp [hlast] at hempty
    | some last => exact List.mem_of_getLast? hlast
  have hcomponent : lastComponent path ∈ components path :=
    List.mem_reverse.mp ((List.dropWhile_sublist _).subset (List.mem_reverse.mp hmem))
  obtain ⟨segment, hsegment, heq⟩ := List.mem_map.mp hcomponent
  rw [← heq, String.toList_ofList]
  exact (Text.of_mem_segments hsegment).1

/-- What is made or written gets an entry in a directory. -/
theorem WellFormed.put_target (ht : t.WellFormed) (hcontainer : t.container path = .ok above)
    (hname : endsInName path = true) (hdir : t.find? (t.target path) ≠ some .directory) (e : Entry) :
    (t.put (t.target path) e).WellFormed := by
  have hlast := isName_lastComponent hname
  have habove := directory_of_container hcontainer
  have htarget : t.target path = above ++ [lastComponent path] := by
    rw [target_of_container hcontainer, above.enter_of_isName hlast]
  rw [htarget] at hdir ⊢
  refine ht.put ?_ (by simp) ?_ hdir e
  · intro name hmem
    rcases List.mem_append.mp hmem with hmem | hmem
    · exact ht.isName_of_find? (by simp [habove]) name hmem
    · rw [List.mem_singleton.mp hmem]
      exact hlast
  · rw [List.dropLast_concat, habove]

theorem WellFormed.makeDirectory (ht : t.WellFormed) (h : t.makeDirectory path = .ok t') :
    t'.WellFormed := by
  obtain ⟨hnone, hput⟩ := makeDirectory_eq_ok h
  obtain ⟨above, hcontainer, hrest⟩ := bind_eq_ok_iff.mp h
  obtain ⟨l, -, hnew⟩ := bind_eq_ok_iff.mp hrest
  split at hnew
  next hname =>
    rw [hput]
    exact ht.put_target hcontainer (Bool.and_eq_true_iff.mp hname).1 (by simp [hnone]) _
  next => cases hnew

theorem WellFormed.ensureDirectory (ht : t.WellFormed) (path : String) :
    (t.ensureDirectory path).2.WellFormed := by
  unfold FileTree.ensureDirectory
  split
  next hmake => exact ht.makeDirectory hmake
  next => exact ht

theorem WellFormed.makeAlong (ht : t.WellFormed) (paths : List String) :
    (t.makeAlong paths).2.WellFormed := by
  induction paths generalizing t with
  | nil => exact ht
  | cons path above ih =>
    rw [FileTree.makeAlong]
    have habove := ih ht
    split
    next =>
      split
      next mid hmid =>
        rw [hmid] at habove
        exact WellFormed.ensureDirectory habove path
      next => exact habove
    next => exact ht.ensureDirectory path

theorem WellFormed.makeDirectories (ht : t.WellFormed) (path : String) :
    (t.makeDirectories path).2.WellFormed :=
  ht.makeAlong _

theorem WellFormed.write (ht : t.WellFormed) (h : t.write path content = .ok t') : t'.WellFormed := by
  obtain ⟨-, hdir, hput⟩ := write_eq_ok h
  obtain ⟨above, hcontainer, hrest⟩ := bind_eq_ok_iff.mp h
  split at hrest
  next => cases hrest
  next hname =>
    have hends : endsInName path = true := by
      by_contra hnot
      simp [hnot] at hname
    rw [hput]
    exact ht.put_target hcontainer hends hdir _

theorem remove_eq_ok (h : t.remove path = .ok t') :
    ∃ l, t.locate path = .ok l ∧
      t' = { t with entries := t.entries.filter fun (place, _) => !l.isPrefixOf place } := by
  obtain ⟨l, hlocate, hrest⟩ := bind_eq_ok_iff.mp h
  split at hrest
  next => cases hrest
  next => exact ⟨l, hlocate, (Except.ok.inj hrest).symm⟩

/-- What stands at the location that is removed or below it is gone, and nothing else. -/
theorem find?_remove (h : t.remove path = .ok t') :
    ∃ l, t.locate path = .ok l ∧
      ∀ k, k ≠ [] → t'.find? k = if l <+: k then none else t.find? k := by
  obtain ⟨l, hlocate, rfl⟩ := remove_eq_ok h
  refine ⟨l, hlocate, fun k hk => ?_⟩
  rw [find?, find?, if_neg hk, if_neg hk]
  by_cases hgone : l <+: k
  · rw [if_pos hgone, Option.map_eq_none_iff, List.find?_eq_none]
    intro x hx hplace
    have hkept : (!l.isPrefixOf x.1) = true := (List.mem_filter.mp hx).2
    rw [eq_of_beq hplace, List.isPrefixOf_iff_prefix.mpr hgone] at hkept
    cases hkept
  · have hkept : l.isPrefixOf k = false :=
      Bool.eq_false_iff.mpr (mt List.isPrefixOf_iff_prefix.mp hgone)
    rw [if_neg hgone, List.find?_filter]
    refine congrArg (Option.map _) (congrArg (List.find? · t.entries) (funext fun x => ?_))
    by_cases hx : x.1 = k
    · simp [hx, hkept]
    · simp [hx]

theorem WellFormed.remove (ht : t.WellFormed) (h : t.remove path = .ok t') : t'.WellFormed := by
  have hsublist : t'.entries.Sublist t.entries := by
    obtain ⟨l, -, rfl⟩ := remove_eq_ok h
    exact List.filter_sublist
  obtain ⟨l, -, hfind⟩ := find?_remove h
  refine ⟨⟨ht.nodup.sublist (hsublist.map _), fun x hx => ht.names x (hsublist.subset hx)⟩,
    fun x hx above habove => ?_⟩
  have hdir := ht.reached x (hsublist.subset hx) above habove
  by_cases hroot : above = []
  · rw [find?, if_pos hroot]
  -- what stands above something that is left is left
  have hstays : ¬l <+: above := by
    intro hbelow
    have hplace : above <+: x.1 := habove.trans (List.dropLast_prefix _)
    have hne : x.1 ≠ [] := fun hnil => hroot (List.prefix_nil.mp (hnil ▸ hplace))
    have hgone := hfind x.1 hne
    rw [if_pos (hbelow.trans hplace)] at hgone
    exact find?_ne_none_of_mem hx hgone
  rw [hfind above hroot, if_neg hstays, hdir]

/-! ### What is found after a change -/

theorem prefix_follow {names : List String} (h : ".." ∉ names) (l : Location) :
    l <+: l.follow names := by
  induction names generalizing l with
  | nil => exact List.prefix_refl l
  | cons name rest ih =>
    obtain ⟨hname, hrest⟩ := not_or.mp (mt List.mem_cons.mpr h)
    refine List.IsPrefix.trans ?_ (ih hrest (l.enter name))
    unfold Location.enter
    split_ifs with hvoid hup
    · exact List.prefix_refl l
    · exact absurd hup.symm hname
    · exact List.prefix_append l [name]

namespace Changes

variable {made written : Location → Prop}

/-- A way without `..` that leads to no directory passes only places on the way there. If these were
directories before, it could be gone before. -/
theorem foldlM_step_back {k : Location} {names : List String} (h : ".." ∉ names)
    (hfold : names.foldlM t'.step k = .ok l) (hl : t'.find? l ≠ some .directory)
    (habove : ∀ above, above <+: l → above ≠ l → t.find? above = some .directory) :
    names.foldlM t.step k = .ok l := by
  induction names generalizing k with
  | nil => exact hfold
  | cons name rest ih =>
    rw [List.foldlM_cons] at hfold ⊢
    obtain ⟨next, hstep, hrest⟩ := bind_eq_ok_iff.mp hfold
    obtain ⟨hnext, hdir'⟩ := step_eq_ok hstep
    have hl' : l = k.follow (name :: rest) := by
      rw [foldlM_step_eq_ok hrest, hnext]
      rfl
    have hne : k ≠ l := by
      rintro rfl
      exact hl hdir'
    have hdir : t.find? k = some .directory := habove k (hl' ▸ prefix_follow h k) hne
    refine bind_eq_ok_iff.mpr ⟨next, ?_, ih (fun hmem => h (List.mem_cons_of_mem _ hmem)) hrest⟩
    rw [← hstep]
    simp only [FileTree.step, hdir, hdir']

/-- Unless the file at its end is written, a path that does not go up leads to a file afterwards
exactly if it did before. -/
theorem isFile_eq (h : Changes made written t t') (ht : t.WellFormed) (hpath : Path.Descends path)
    (hnot : ∀ l, t'.locate path = .ok l → ¬written l) : t'.isFile path = t.isFile path := by
  rw [Bool.eq_iff_iff, isFile_iff, isFile_iff]
  constructor
  · rintro ⟨l, content, hlocate, hfile⟩
    have hold : t.find? l = some (.file content) := by
      rcases h.find? l with hsame | ⟨-, -, hdir⟩ | ⟨hwritten, -⟩
      · exact hsame ▸ hfile
      · rw [hfile] at hdir
        cases hdir
      · exact absurd hwritten (hnot l hlocate)
    refine ⟨l, content, ?_, hold⟩
    obtain ⟨⟨⟩, hcheck, hfold⟩ := bind_eq_ok_iff.mp hlocate
    have hstart : t'.start path = t.start path := by
      rw [start, start, h.workingDir]
    rw [hstart] at hfold
    refine bind_eq_ok_iff.mpr ⟨(), hcheck, foldlM_step_back ?_ hfold ?_ fun above habove hne => ?_⟩
    · exact fun hup => hpath (List.mem_filter.mpr ⟨hup, rfl⟩)
    · rw [hfile]
      intro hsome
      cases hsome
    · -- the places on the way to a file of a well-formed tree are directories
      have hfound : t.find? l ≠ none := by simp [hold]
      exact ht.reached_of_find? hfound above (prefix_dropLast_of_ne habove hne)
  · rintro ⟨l, content, hlocate, hfile⟩
    have hlocate' := h.locate hlocate
    exact ⟨l, content, hlocate', h.file (hnot l hlocate') hfile⟩

/-- Unless it is written, a file is read as before. -/
theorem read_eq (h : Changes made written t t') (hfile : t.isFile path = true)
    (hnot : ∀ l, t.locate path = .ok l → ¬written l) : t'.read path = t.read path := by
  obtain ⟨l, content, hlocate, hfind⟩ := exists_locate_of_isFile hfile
  rw [read_of_find? hlocate hfind, read_of_find? (h.locate hlocate) (h.file (hnot l hlocate) hfind)]

theorem find?_ne_none (h : Changes made written t t') (hl : t.find? l ≠ none) : t'.find? l ≠ none := by
  rcases h.find? l with hsame | ⟨-, hnone, -⟩ | ⟨-, -, content, hfile⟩
  · rwa [hsame]
  · exact absurd hnone hl
  · simp [hfile]

end Changes
end ContractForge.FileTree
