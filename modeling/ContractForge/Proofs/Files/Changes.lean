import ContractForge.Proofs.Files.Location
import Mathlib.Data.List.TakeWhile

/-!
# What operations change

* `FileTree.Changes made written t t'` : the tree `t'` is `t` but for new directories at places of
  which `made` holds and new contents of files at places of which `written` holds. A directory stays
  one, so a location that was found is found again.

Making directories changes nothing but places above the path (`changes_makeDirectories`). Writing
changes one place (`changes_write`), and the path then leads there (`write_eq_ok`).
-/

namespace ContractForge.FileTree

/-- A tree with new directories at some places and new contents at some places. -/
structure Changes (made written : Location → Prop) (t t' : FileTree) : Prop where
  workingDir : t'.workingDir = t.workingDir
  find? : ∀ l, t'.find? l = t.find? l ∨
    made l ∧ t.find? l = none ∧ t'.find? l = some .directory ∨
    written l ∧ t.find? l ≠ some .directory ∧ ∃ content, t'.find? l = some (.file content)

namespace Changes

variable {made made' written written' : Location → Prop} {t mid t' : FileTree} {l : Location}

theorem refl (made written : Location → Prop) (t : FileTree) : Changes made written t t :=
  ⟨rfl, fun _ => .inl rfl⟩

theorem mono (h : Changes made written t t') (hmade : ∀ l, made l → made' l)
    (hwritten : ∀ l, written l → written' l) : Changes made' written' t t' :=
  ⟨h.workingDir, fun l => (h.find? l).imp_right
    (Or.imp (And.imp_left (hmade l)) (And.imp_left (hwritten l)))⟩

theorem directory (h : Changes made written t t') (hl : t.find? l = some .directory) :
    t'.find? l = some .directory := by
  rcases h.find? l with hsame | ⟨-, hnone, -⟩ | ⟨-, hne, -⟩
  · rw [hsame, hl]
  · rw [hl] at hnone
    cases hnone
  · exact absurd hl hne

theorem file (h : Changes made written t t') (hwritten : ¬written l) {content : ByteArray}
    (hl : t.find? l = some (.file content)) : t'.find? l = some (.file content) := by
  rcases h.find? l with hsame | ⟨-, hnone, -⟩ | ⟨hl', -⟩
  · rw [hsame, hl]
  · rw [hl] at hnone
    cases hnone
  · exact absurd hl' hwritten

/-- A file stays one, whatever it then holds. -/
theorem isFile (h : Changes made written t t')
    (hl : ∃ content, t.find? l = some (.file content)) :
    ∃ content, t'.find? l = some (.file content) := by
  obtain ⟨content, hl⟩ := hl
  rcases h.find? l with hsame | ⟨-, hnone, -⟩ | ⟨-, -, hfile⟩
  · exact ⟨content, hsame.trans hl⟩
  · rw [hl] at hnone
    cases hnone
  · exact hfile

theorem trans (h : Changes made written t mid) (h' : Changes made written mid t') :
    Changes made written t t' := by
  refine ⟨h'.workingDir.trans h.workingDir, fun l => ?_⟩
  -- the later step decides what is there, and the earlier one whether it was there before
  rcases h'.find? l with hsame | ⟨hmade, hnone, hdir⟩ | ⟨hwritten, hne, hfile⟩
  · rw [hsame]
    exact h.find? l
  · rcases h.find? l with hsame | ⟨-, -, hdir'⟩ | ⟨-, -, content, hfile'⟩
    · exact .inr (.inl ⟨hmade, hsame ▸ hnone, hdir⟩)
    · rw [hdir'] at hnone
      cases hnone
    · rw [hfile'] at hnone
      cases hnone
  · exact .inr (.inr ⟨hwritten, fun hdir => hne (h.directory hdir), hfile⟩)

theorem target (h : Changes made written t t') (path : String) : t'.target path = t.target path := by
  unfold FileTree.target start
  rw [h.workingDir]

theorem step (h : Changes made written t t') {l' : Location} {name : String}
    (hstep : t.step l name = .ok l') : t'.step l name = .ok l' := by
  obtain ⟨-, hdir⟩ := step_eq_ok hstep
  unfold FileTree.step at hstep ⊢
  rw [hdir] at hstep
  rw [h.directory hdir]
  exact hstep

theorem foldlM_step (h : Changes made written t t') {l' : Location} {names : List String}
    (hfold : names.foldlM t.step l = .ok l') : names.foldlM t'.step l = .ok l' := by
  induction names generalizing l with
  | nil => exact hfold
  | cons name rest ih =>
    rw [List.foldlM_cons] at hfold ⊢
    obtain ⟨next, hstep, hrest⟩ := bind_eq_ok_iff.mp hfold
    exact bind_eq_ok_iff.mpr ⟨next, h.step hstep, ih hrest⟩

/-- A location that was found is found again. -/
theorem locate (h : Changes made written t t') {path : String} (hlocate : t.locate path = .ok l) :
    t'.locate path = .ok l := by
  obtain ⟨⟨⟩, hcheck, hfold⟩ := bind_eq_ok_iff.mp hlocate
  refine bind_eq_ok_iff.mpr ⟨(), hcheck, ?_⟩
  unfold start
  rw [h.workingDir]
  exact h.foldlM_step hfold

end Changes

variable {t t' : FileTree} {path : String}

/-! ### Places found by an operation -/

/-- What is left out of the components are empty ones at the end. -/
theorem exists_components_eq (path : String) :
    ∃ blanks, (∀ name ∈ blanks, name = "") ∧ components path = properComponents path ++ blanks := by
  refine ⟨((components path).reverse.takeWhile (· == "")).reverse, fun name hname => ?_, ?_⟩
  · simpa using List.mem_takeWhile_imp (List.mem_reverse.mp hname)
  · rw [properComponents, ← List.reverse_append, List.takeWhile_append_dropWhile,
      List.reverse_reverse]

/-- The components without the empty ones at the end lead to the same place. -/
theorem follow_properComponents (l : Location) (path : String) :
    l.follow (properComponents path) = l.follow (components path) := by
  obtain ⟨blanks, hblanks, hsplit⟩ := exists_components_eq path
  have hvoid : blanks.filter Path.leads = [] := by
    refine List.filter_eq_nil_iff.mpr fun name hname => ?_
    rw [hblanks name hname]
    decide
  rw [hsplit, ← l.follow_filter (_ ++ blanks), List.filter_append, hvoid, List.append_nil,
    l.follow_filter]

theorem container_eq_ok {above : Location} (h : t.container path = .ok above) :
    checkPath path = .ok () ∧
      (properComponents path).dropLast.foldlM t.step (t.start path) = .ok above := by
  obtain ⟨⟨⟩, hcheck, hrest⟩ := bind_eq_ok_iff.mp h
  obtain ⟨l, hfold, hstep⟩ := bind_eq_ok_iff.mp hrest
  obtain ⟨rfl, -⟩ := step_eq_ok hstep
  exact ⟨hcheck, hfold⟩

/-- The last component leads from the container to the target. -/
theorem target_of_container {above : Location} (h : t.container path = .ok above) :
    t.target path = above.enter (lastComponent path) := by
  obtain ⟨-, hfold⟩ := container_eq_ok h
  have habove := foldlM_step_eq_ok hfold
  rw [target_eq_follow, ← follow_properComponents, lastComponent]
  rcases List.eq_nil_or_concat' (properComponents path) with hnil | ⟨front, last, hlast⟩
  · rw [hnil] at habove ⊢
    rw [habove]
    rfl
  · rw [hlast, List.dropLast_concat] at habove
    rw [hlast, Location.follow_append, ← habove, List.getLastD_eq_getLast?,
      List.getLast?_concat]
    rfl

/-! ### Directories -/

theorem makeDirectory_eq_ok (h : t.makeDirectory path = .ok t') :
    t.find? (t.target path) = none ∧ t' = t.put (t.target path) .directory := by
  obtain ⟨above, hcontainer, hrest⟩ := bind_eq_ok_iff.mp h
  obtain ⟨l, hstep, hput⟩ := bind_eq_ok_iff.mp hrest
  obtain ⟨rfl, -⟩ := step_eq_ok hstep
  rw [← target_of_container hcontainer] at hput
  split at hput
  next hnew =>
    refine ⟨?_, (Except.ok.inj hput).symm⟩
    have hnone := (Bool.and_eq_true_iff.mp hnew).2
    exact Option.isNone_iff_eq_none.mp hnone
  next => cases hput

theorem changes_makeDirectory (h : t.makeDirectory path = .ok t') (written : Location → Prop) :
    Changes (· = t.target path) written t t' := by
  obtain ⟨hnone, rfl⟩ := makeDirectory_eq_ok h
  have hne : t.target path ≠ [] := by
    intro hroot
    rw [hroot] at hnone
    cases hnone
  refine ⟨rfl, fun l => ?_⟩
  rw [find?_put t hne]
  split
  next hl => exact .inr (.inl ⟨hl, hl ▸ hnone, rfl⟩)
  next => exact .inl rfl

theorem changes_ensureDirectory (t : FileTree) (path : String) (written : Location → Prop) :
    Changes (· = t.target path) written t (t.ensureDirectory path).2 := by
  unfold ensureDirectory
  split
  next t' hmake => exact changes_makeDirectory hmake written
  next => exact .refl _ _ t

theorem changes_makeAlong (t : FileTree) (paths : List String) (written : Location → Prop) :
    Changes (fun l => ∃ p ∈ paths, l = t.target p) written t (t.makeAlong paths).2 := by
  induction paths generalizing t with
  | nil => exact .refl _ _ t
  | cons path above ih =>
    have hensure : Changes (fun l => ∃ p ∈ path :: above, l = t.target p) written t
        (t.ensureDirectory path).2 :=
      (changes_ensureDirectory t path written).mono
        (fun l hl => ⟨path, List.mem_cons_self, hl⟩) fun _ hl => hl
    have habove : Changes (fun l => ∃ p ∈ path :: above, l = t.target p) written t
        (t.makeAlong above).2 :=
      (ih t).mono (fun l ⟨p, hp, hl⟩ => ⟨p, List.mem_cons_of_mem _ hp, hl⟩) fun _ hl => hl
    rw [makeAlong]
    split
    next =>
      split
      next mid hmid =>
        rw [hmid] at habove
        refine habove.trans ((changes_ensureDirectory mid path written).mono (fun l hl => ?_)
          fun _ hl => hl)
        exact ⟨path, List.mem_cons_self, hl.trans (habove.target path)⟩
      next => exact habove
    next => exact hensure

theorem changes_makeDirectories (t : FileTree) (path : String) (written : Location → Prop) :
    Changes (fun l => ∃ above ∈ Path.ancestors path, l = t.target above) written t
      (t.makeDirectories path).2 :=
  (changes_makeAlong t _ written).mono
    (fun _ ⟨p, hp, hl⟩ => ⟨p, (List.mem_filter.mp hp).1, hl⟩) fun _ hl => hl

/-! ### Files -/

/-- A path that does not end in a slash ends in its last component. -/
theorem properComponents_of_getLast? (hne : path ≠ "") (hslash : path.toList.getLast? ≠ some '/') :
    properComponents path = components path := by
  have hlast : (Text.segments '/' path.toList).getLast? ≠ some [] := by
    rw [Ne, Text.getLast?_segments_eq_nil_iff, not_or]
    exact ⟨fun hnil => hne (String.toList_eq_nil_iff.mp hnil), hslash⟩
  rcases List.eq_nil_or_concat' (Text.segments '/' path.toList) with hnil | ⟨front, last, hsplit⟩
  · exact absurd hnil (Text.segments_ne_nil _ _)
  · rw [hsplit, List.getLast?_concat] at hlast
    have hname : (String.ofList last == "") = false := by
      have hne : last ≠ [] := fun hnil => hlast (congrArg some hnil)
      simpa [← String.toList_inj] using hne
    have hcomponents : components path = front.map String.ofList ++ [String.ofList last] := by
      rw [components, hsplit, List.map_append, List.map_singleton]
    rw [properComponents, hcomponents, List.reverse_append, List.reverse_singleton,
      List.singleton_append, List.dropWhile_cons_of_neg (by simp [hname]), List.reverse_cons,
      List.reverse_reverse]

theorem checkPath_eq_ok (h : checkPath path = .ok ()) : path ≠ "" := by
  rintro rfl
  cases h

/-- What is written is written to the target of the path, which then is found. -/
theorem write_eq_ok {content : ByteArray} (h : t.write path content = .ok t') :
    t.locate path = .ok (t.target path) ∧ t.find? (t.target path) ≠ some .directory ∧
      t' = t.put (t.target path) (.file content) := by
  obtain ⟨above, hcontainer, hrest⟩ := bind_eq_ok_iff.mp h
  have htarget := target_of_container hcontainer
  obtain ⟨hcheck, hfold⟩ := container_eq_ok hcontainer
  split at hrest
  next => cases hrest
  next hname =>
    obtain ⟨l, hstep, hput⟩ := bind_eq_ok_iff.mp hrest
    obtain ⟨rfl, -⟩ := step_eq_ok hstep
    rw [← htarget] at hput hstep
    have hslash : path.toList.getLast? ≠ some '/' := by
      rintro hlast
      simp [hlast] at hname
    -- the way to the container and the last component make up the way to the target
    have hlocate : t.locate path = .ok (t.target path) := by
      refine bind_eq_ok_iff.mpr ⟨(), hcheck, ?_⟩
      rw [← properComponents_of_getLast? (checkPath_eq_ok hcheck) hslash]
      rcases List.eq_nil_or_concat' (properComponents path) with hnil | ⟨front, last, hsplit⟩
      · simp [endsInName, lastComponent, hnil] at hname
      · rw [hsplit, List.dropLast_concat] at hfold
        rw [lastComponent, hsplit, List.getLastD_eq_getLast?, List.getLast?_concat] at hstep
        rw [hsplit, List.foldlM_append]
        refine bind_eq_ok_iff.mpr ⟨above, hfold, ?_⟩
        rw [List.foldlM_cons]
        exact bind_eq_ok_iff.mpr ⟨_, hstep, rfl⟩
    split at hput
    next => cases hput
    next hdir => exact ⟨hlocate, hdir, (Except.ok.inj hput).symm⟩

theorem changes_write {content : ByteArray} (h : t.write path content = .ok t')
    (made : Location → Prop) : Changes made (· = t.target path) t t' := by
  obtain ⟨-, hdir, rfl⟩ := write_eq_ok h
  have hne : t.target path ≠ [] := by
    intro hroot
    rw [hroot] at hdir
    exact hdir rfl
  refine ⟨rfl, fun l => ?_⟩
  rw [find?_put t hne]
  split
  next hl => exact .inr (.inr ⟨hl, hl ▸ hdir, content, rfl⟩)
  next => exact .inl rfl

theorem read_of_find? {l : Location} {content : ByteArray} (hlocate : t.locate path = .ok l)
    (hfile : t.find? l = some (.file content)) : t.read path = .ok content := by
  refine bind_eq_ok_iff.mpr ⟨.file content, bind_eq_ok_iff.mpr ⟨l, hlocate, ?_⟩, rfl⟩
  rw [hfile]

/-! ### Contents -/

/-- The content of the file at a location. -/
def content? (t : FileTree) (l : Location) : Option ByteArray :=
  match t.find? l with
  | some (.file content) => some content
  | _ => none

theorem Changes.content?_eq {made written : Location → Prop} {l : Location}
    (h : Changes made written t t') (hl : ¬written l) : t'.content? l = t.content? l := by
  unfold FileTree.content?
  rcases h.find? l with hsame | ⟨-, hnone, hdir⟩ | ⟨hwritten, -⟩
  · rw [hsame]
  · rw [hnone, hdir]
  · exact absurd hwritten hl

end ContractForge.FileTree
