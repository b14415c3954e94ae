import ContractForge.Proofs.Files.Present
import ContractForge.Proofs.Generation.Rereading
import ContractForge.Proofs.Generation.Written

/-!
# Running a pass again

* `FileSink.Settled` : the file for a name can be written, and its directory is there.
* `FileSink.lastAt?` : the last of some artifacts that has a place.
* `Apart` : a pass has written no file that it had looked for, and none that it lists.

A pass that succeeds leaves its names settled (`settled_of_accepts`) and the last artifact at each place
(`file_of_accepts`). Writing to settled names only overwrites files (`exists_accepts_of_settled`), so a second
pass that makes the same artifacts ends with the tree it began with (`regeneration_idempotent`).
-/

namespace ContractForge

namespace FileSink

variable {s : FileSink} {t t' final : FileTree} {name : String} {artifacts : List Artifact}

/-- The directory of the file for a name is there, and the file can be written. -/
structure Settled (s : FileSink) (t : FileTree) (name : String) : Prop where
  directory : ∀ dir, Path.parent? (s.pathFor name) = some dir → dir = "" ∨ t.isDirectory dir = true
  write : ∀ content,
    t.write (s.pathFor name) content = .ok (t.put (s.place t name) (.file content))

/-- The last of the artifacts that has a place. -/
def lastAt? (s : FileSink) (t : FileTree) (artifacts : List Artifact) (l : Location) :
    Option Artifact :=
  artifacts.reverse.find? fun a => s.place t a.qualifiedName == l

theorem lastAt?_cons (a : Artifact) (rest : List Artifact) (l : Location) :
    s.lastAt? t (a :: rest) l =
      (s.lastAt? t rest l).or (if s.place t a.qualifiedName = l then some a else none) := by
  simp only [lastAt?, List.reverse_cons, List.find?_append]
  by_cases h : s.place t a.qualifiedName = l
  · simp [h]
  · simp [h]

theorem lastAt?_congr (h : t'.workingDir = t.workingDir) (s : FileSink) :
    s.lastAt? t' artifacts = s.lastAt? t artifacts := by
  unfold lastAt?
  simp only [place_congr h]

/-! ### What a write leaves -/

theorem isDirectory_of_makeParent {path dir : String} (h : makeParent t path = (.ok (), t'))
    (hdir : Path.parent? path = some dir) : dir = "" ∨ t'.isDirectory dir = true := by
  unfold makeParent at h
  rw [hdir] at h
  dsimp only at h
  split at h
  next made hmade =>
    obtain rfl := (Prod.mk.inj h).2
    exact FileTree.isDirectory_of_makeDirectories hmade
  next => cases h

theorem Settled.mono {made written : Location → Prop} (h : s.Settled t name)
    (hchanges : FileTree.Changes made written t t')
    (hplace : t'.find? (s.place t name) ≠ some .directory) : s.Settled t' name := by
  refine ⟨fun dir hdir => (h.directory dir hdir).imp_right hchanges.isDirectory, fun content => ?_⟩
  rw [hchanges.write (h.write content) hplace, place_congr hchanges.workingDir]
  rfl

/-- A name that was written is settled. -/
theorem settled_of_write {a : Artifact} (h : s.sink.write t name a = (.ok (), t')) :
    s.Settled t' name := by
  have hfile := (file_of_write h).2
  have hdir := (changes_of_write h).workingDir
  rw [write_sink] at h
  unfold write at h
  dsimp only at h
  split at h
  next => cases h
  next mid hparent =>
    split at h
    next made hwrite =>
      have hmade : made = t' := (Prod.mk.inj h).2
      rw [hmade] at hwrite
      have hchanges := FileTree.changes_write hwrite fun _ => False
      have hmid : s.place mid name = s.place t name := by
        rw [← place_congr hchanges.workingDir, place_congr hdir]
      have hplace : t'.find? (s.place mid name) ≠ some .directory := by
        rw [hmid, hfile]
        intro hsome
        cases hsome
      refine ⟨fun dir hup => ?_, fun content => ?_⟩
      · exact (isDirectory_of_makeParent hparent hup).imp_right hchanges.isDirectory
      · rw [hchanges.write hwrite hplace, place_congr hchanges.workingDir]
        rfl
    next => cases h

/-- All names are settled after they have been written. -/
theorem settled_of_accepts (h : Accepts s.sink t artifacts final) {a : Artifact}
    (ha : a ∈ artifacts) : s.Settled final a.qualifiedName := by
  induction h with
  | nil => cases ha
  | cons hwrite hrest ih =>
    rcases List.mem_cons.mp ha with rfl | hmem
    · have hlater := changes_of_accepts hrest
      refine (settled_of_write hwrite).mono hlater ?_
      rw [place_congr (changes_of_write hwrite).workingDir]
      obtain ⟨content, hfile⟩ := hlater.isFile ⟨_, (file_of_write hwrite).2⟩
      simp [hfile]
    · exact ih hmem

/-- A place holds the last artifact that was written there. -/
theorem file_of_accepts (h : Accepts s.sink t artifacts final) {l : Location} {a : Artifact}
    (hlast : s.lastAt? t artifacts l = some a) :
    final.find? l = some (.file a.content.toUTF8) := by
  induction h with
  | nil => simp [lastAt?] at hlast
  | cons hwrite hrest ih =>
    rename_i state next final first rest
    have hdir := (changes_of_write hwrite).workingDir
    rw [lastAt?_cons] at hlast
    cases hlater : s.lastAt? state rest l with
    | some b =>
      rw [hlater, Option.some_or] at hlast
      obtain rfl := Option.some.inj hlast
      exact ih (by rw [lastAt?_congr hdir, hlater])
    | none =>
      rw [hlater, Option.none_or] at hlast
      split_ifs at hlast with hplace
      obtain rfl := Option.some.inj hlast
      -- no later artifact has this place, so its file stays
      refine (changes_of_accepts hrest).file ?_ (hplace ▸ (file_of_write hwrite).2)
      intro hlater'
      obtain ⟨b, hb, hl⟩ := hlater'
      have hnone := List.find?_eq_none.mp hlater b (List.mem_reverse.mpr hb)
      rw [place_congr hdir] at hl
      simp [hl] at hnone

/-! ### Writing again -/

/-- Writing to a settled name puts the file, and nothing else. -/
theorem write_of_settled (h : s.Settled t name) (a : Artifact) :
    s.sink.write t name a = (.ok (), t.put (s.place t name) (.file a.content.toUTF8)) := by
  have hparent : makeParent t (s.pathFor name) = (.ok (), t) := by
    unfold makeParent
    split
    next => rfl
    next dir hdir => rw [FileTree.makeDirectories_of_isDirectory (h.directory dir hdir)]
  rw [write_sink]
  unfold write
  dsimp only
  rw [hparent]
  dsimp only
  rw [h.write]

/-- Settled names of files can all be written, and every place then has the last artifact for it. -/
theorem exists_accepts_of_settled (hsettled : ∀ a ∈ artifacts, s.Settled t a.qualifiedName)
    (hfiles : ∀ a ∈ artifacts, ∃ content, t.find? (s.place t a.qualifiedName) = some (.file content)) :
    ∃ again, Accepts s.sink t artifacts again ∧
      ∀ l, again.find? l =
        ((s.lastAt? t artifacts l).map fun a => Entry.file a.content.toUTF8).or (t.find? l) := by
  induction artifacts generalizing t with
  | nil => exact ⟨t, .nil t, fun l => rfl⟩
  | cons a rest ih =>
    have hwrite := write_of_settled (hsettled a List.mem_cons_self) a
    have hchanges := changes_of_write hwrite
    have hdir := hchanges.workingDir
    have hfiles' : ∀ b ∈ rest, ∃ content, (t.put (s.place t a.qualifiedName)
        (.file a.content.toUTF8)).find? (s.place t b.qualifiedName) = some (.file content) :=
      fun b hb => hchanges.isFile (hfiles b (List.mem_cons_of_mem _ hb))
    have hsettled' : ∀ b ∈ rest, s.Settled (t.put (s.place t a.qualifiedName)
        (.file a.content.toUTF8)) b.qualifiedName := by
      intro b hb
      refine (hsettled b (List.mem_cons_of_mem _ hb)).mono hchanges ?_
      obtain ⟨content, hfile⟩ := hfiles' b hb
      rw [hfile]
      intro hsome
      cases hsome
    obtain ⟨again, haccepts, hagain⟩ := ih hsettled' fun b hb => by
      rw [place_congr hdir]
      exact hfiles' b hb
    refine ⟨again, .cons hwrite haccepts, fun l => ?_⟩
    have hne : s.place t a.qualifiedName ≠ [] := by
      intro hroot
      obtain ⟨content, hfile⟩ := hfiles a List.mem_cons_self
      rw [hroot] at hfile
      cases hfile
    rw [hagain, lastAt?_congr hdir, lastAt?_cons, FileTree.find?_put t hne]
    cases s.lastAt? t rest l with
    | some b => simp only [Option.map_some, Option.some_or]
    | none =>
      simp only [Option.map_none, Option.none_or]
      by_cases hplace : s.place t a.qualifiedName = l
      · simp only [hplace, if_true, Option.map_some, Option.some_or]
      · simp only [hplace, Ne.symm hplace, if_false, Option.map_none, Option.none_or]

/-- Artifacts that were written are written again without any change. -/
theorem exists_accepts_again (h : Accepts s.sink t artifacts final) :
    ∃ again, Accepts s.sink final artifacts again ∧ ∀ l, again.find? l = final.find? l := by
  have hdir := (changes_of_accepts h).workingDir
  obtain ⟨again, haccepts, hagain⟩ := exists_accepts_of_settled
    (fun a ha => settled_of_accepts h ha) fun a ha => by
      rw [place_congr hdir]
      exact isFile_of_accepts h ha
  refine ⟨again, haccepts, fun l => ?_⟩
  rw [hagain, lastAt?_congr hdir]
  cases hlast : s.lastAt? t artifacts l with
  | none => rfl
  | some a => exact (file_of_accepts h hlast).symm

/-- A write keeps a tree well-formed, whether or not it succeeds. -/
theorem wellFormed_write (s : FileSink) (ht : t.WellFormed) (name : String) (a : Artifact) :
    (s.write t name a).2.WellFormed := by
  have hparent : (makeParent t (s.pathFor name)).2.WellFormed := by
    unfold makeParent
    split
    next => exact ht
    next dir _ =>
      have hmade := ht.makeDirectories dir
      split
      next mid hmid =>
        rw [hmid] at hmade
        exact hmade
      next fault mid hmid =>
        rw [hmid] at hmade
        exact hmade
  unfold write
  dsimp only
  split
  next hfail =>
    rw [hfail] at hparent
    exact hparent
  next mid hmid =>
    rw [hmid] at hparent
    split
    next hwrite => exact FileTree.WellFormed.write hparent hwrite
    next => exact hparent

theorem wellFormed_of_accepts (h : Accepts s.sink t artifacts final) (ht : t.WellFormed) :
    final.WellFormed := by
  induction h with
  | nil => exact ht
  | cons hwrite hrest ih =>
    rename_i state next final a rest
    refine ih ?_
    have hnext := s.wellFormed_write ht a.qualifiedName a
    rw [write_sink] at hwrite
    rwa [hwrite] at hnext

end FileSink

/-- A pass has written no file that it tried for a logical path, and none with the end of a message
file. -/
structure Apart (context : PassContext) (s : FileSink) (final : FileTree) (names : List String) :
    Prop where
  probed : ∀ name ∈ names, ∀ path ∈ context.searched,
    ∀ file ∈ context.locator.probed context.files path,
      final.locate file ≠ final.locate (s.pathFor name)
  unlisted : ∀ name ∈ names,
    ¬context.config.messageSuffix.toList <:+ (Path.fileName (s.pathFor name)).toList

/-- What a pass has written does not change what it reads. -/
theorem rereads_of_apart {context : PassContext} {s : FileSink} {final : FileTree}
    {artifacts : List Artifact} (hfiles : context.files.WellFormed)
    (hroot : Path.Descends context.locator.root) (hlanguage : Path.Descends context.locator.language)
    (hsuffix : Path.Descends context.config.messageSuffix)
    (haccepts : Accepts s.sink context.files artifacts final)
    (hapart : Apart context s final (artifacts.map (·.qualifiedName))) : context.Rereads final := by
  have hchanges := FileSink.changes_of_accepts haccepts
  have hfinal := FileSink.wellFormed_of_accepts haccepts hfiles
  refine rereads_of_changes hchanges hfiles hfinal.toSound hroot hlanguage hsuffix ?_ ?_
  · intro path hpath file hfile l hlocate hwritten
    obtain ⟨a, ha, hl⟩ := hwritten
    refine hapart.probed _ (List.mem_map_of_mem ha) path hpath file hfile ?_
    have hwrite := (FileSink.settled_of_accepts haccepts ha).write ByteArray.empty
    rw [hlocate, (FileTree.write_eq_ok hwrite).1, hl, FileSink.place, hchanges.target]
  · intro above last hwritten hends
    obtain ⟨a, ha, hl⟩ := hwritten
    refine hapart.unlisted _ (List.mem_map_of_mem ha) ?_
    have hwrite := (FileSink.settled_of_accepts haccepts ha).write ByteArray.empty
    obtain ⟨above', htarget⟩ := FileTree.exists_target_eq hwrite
    rw [FileSink.place, ← hchanges.target, htarget] at hl
    have hlast := congrArg List.getLast? hl
    rw [List.getLast?_concat, List.getLast?_concat] at hlast
    rwa [← Option.some.inj hlast]

/-- **Running a pass again changes nothing.** Take a pass of the built-in generators into files that
succeeds, on a well-formed tree and with paths that do not go up. If it has written no file that it tried
for a logical path and none with the end of a message file, then the same pass on the tree that it
left succeeds, reports the same names and leaves everything in the tree as it was. -/
theorem regeneration_idempotent {context : PassContext} {generators : List Generator} {s : FileSink}
    {names : List String} {final : FileTree}
    (hbuiltin : ∀ g ∈ generators, g ∈ Selection.generators .all) (hfiles : context.files.WellFormed)
    (hroot : Path.Descends context.locator.root) (hlanguage : Path.Descends context.locator.language)
    (hsuffix : Path.Descends context.config.messageSuffix)
    (hrun : runAll context generators s.sink context.files = (.ok names, final))
    (hapart : Apart context s final names) :
    ∃ again, runAll (context.on final) generators s.sink final = (.ok names, again) ∧
      ∀ l, again.find? l = final.find? l := by
  obtain ⟨artifacts, hmakes, haccepts, rfl, hnew⟩ := complete_of_runAll hrun
  have hrereads := rereads_of_apart hfiles hroot hlanguage hsuffix haccepts hapart
  have hmakes' := makes_on hbuiltin hrereads hmakes
  obtain ⟨again, haccepts', hagain⟩ := FileSink.exists_accepts_again haccepts
  exact ⟨again, runAll_of_outcome (.complete hmakes' hnew haccepts'), hagain⟩

/-- A bundle and an array in the namespace of their files. -/
def besideFiles : PassContext where
  declarations := { contracts := [
    { name := "a.Label", messages := true, methods := [
      { name := "hello", returns := .plain "String" }] },
    { name := "a.Store", methods := [
      { name := "data", returns := .plain "byte[]", markers := { resource := some "x.bin" } }] }] }
  locator := { root := "/work", language := "java" }
  config := {}
  files := { entries := [
    (["work"], .directory), (["work", "a"], .directory),
    (["work", "a", "x.bin"], .file "one".toUTF8),
    (["work", "a", "Label.properties"], .file "hello=Hi".toUTF8)] }

/-- What is made of them. -/
def besideNames : List String :=
  ["a.StoreImpl", "a.b1a2037de5d18267264dcf247032184ca4dddadd65e6e3dd6955ad8343c651b14",
    "a.LabelImpl"]

/-- The files that are made stand beside those that are read, also in the second pass. -/
theorem regeneration_idempotent_besideFiles :
    besideFiles.files.WellFormed ∧ ∃ final again,
      runAll besideFiles (Selection.generators .all) (FileSink.sink { root := "/work" })
        besideFiles.files = (.ok besideNames, final) ∧
      Apart besideFiles { root := "/work" } final besideNames ∧
      runAll (besideFiles.on final) (Selection.generators .all) (FileSink.sink { root := "/work" })
        final = (.ok besideNames, again) ∧
      ∀ l, again.find? l = final.find? l := by
  have hfiles : besideFiles.files.WellFormed := by decide
  have hfacts : (runAll besideFiles (Selection.generators .all) (FileSink.sink { root := "/work" })
      besideFiles.files).1.toOption = some besideNames ∧
      ∀ name ∈ besideNames, ∀ path ∈ besideFiles.searched,
        ∀ file ∈ besideFiles.locator.probed besideFiles.files path,
          (runAll besideFiles (Selection.generators .all) (FileSink.sink { root := "/work" })
            besideFiles.files).2.locate file ≠
          (runAll besideFiles (Selection.generators .all) (FileSink.sink { root := "/work" })
            besideFiles.files).2.locate (FileSink.pathFor { root := "/work" } name) := by
    -- the names are put in order by insertion, since merging does not reduce
    simp only [Selection.generators, runAll, collect, Generator.run, messages]
    delta bundleArtifacts localeVariants
    simp only [variantsAmong, List.mergeSort_eq_insertionSort]
    decide +kernel
  obtain ⟨hok, hprobed⟩ := hfacts
  have hrun := runAll_of_toOption hok
  have hapart : Apart besideFiles { root := "/work" } (runAll besideFiles (Selection.generators .all)
      (FileSink.sink { root := "/work" }) besideFiles.files).2 besideNames :=
    ⟨hprobed, by decide +kernel⟩
  obtain ⟨again, hrun', hagain⟩ := regeneration_idempotent (fun _ h => h) hfiles (by decide)
    (by decide) (by decide) hrun hapart
  exact ⟨hfiles, _, again, hrun, hapart, hrun', hagain⟩

end ContractForge
