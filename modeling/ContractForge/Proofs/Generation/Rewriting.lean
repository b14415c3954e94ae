import ContractForge.Proofs.Generation.Written

/-!
# One name written more than once

A sink may be handed a name again, by a later pass that shares it.

* `Sink.writes` : a sequence of writes, each under a name of its own.
* `firstWritten?`, `lastWritten?` : what the sequence has first and last under a name.
* `FileSink.get?` : what the file for a name holds.

`sinks_agree_iff` : in memory the first text under a name is found, on disk the last. So the two agree
about a name exactly if both are the same text. Names that were never written are found in neither.
-/

namespace ContractForge

/-- Writes artifacts under names, in order, up to the first that is refused. -/
def Sink.writes {σ : Type} (sink : Sink σ) (state : σ) :
    List (String × Artifact) → Except GenerationError Unit × σ
  | [] => (.ok (), state)
  | (name, a) :: rest =>
    match sink.write state name a with
    | (.ok (), state) => sink.writes state rest
    | (.error e, state) => (.error e, state)

/-- What is written first under a name. -/
def firstWritten? (writes : List (String × Artifact)) (name : String) : Option String :=
  (writes.find? (·.1 == name)).map (·.2.content)

/-- What is written last under a name. -/
def lastWritten? (writes : List (String × Artifact)) (name : String) : Option String :=
  firstWritten? writes.reverse name

/-- The content of the file for a name. -/
def FileSink.get? (s : FileSink) (t : FileTree) (name : String) : Option ByteArray :=
  (t.read (s.pathFor name)).toOption

/-- Nothing stands below the place to which a path leads. -/
def FileTree.EmptyBelow (t : FileTree) (path : String) : Prop :=
  ∀ below ≠ [], t.find? (t.target path ++ below) = none

variable {writes : List (String × Artifact)} {name : String}

theorem Sink.writes_nil_eq_ok {σ : Type} {sink : Sink σ} {state final : σ}
    (h : sink.writes state [] = (.ok (), final)) : final = state :=
  (Prod.mk.inj h).2.symm

theorem Sink.writes_cons_eq_ok {σ : Type} {sink : Sink σ} {state final : σ} {a : Artifact}
    (h : sink.writes state ((name, a) :: writes) = (.ok (), final)) :
    ∃ next, sink.write state name a = (.ok (), next) ∧ sink.writes next writes = (.ok (), final) := by
  rw [Sink.writes] at h
  split at h
  next hwrite => exact ⟨_, hwrite, h⟩
  next => cases h

theorem firstWritten?_eq_none_iff : firstWritten? writes name = none ↔ name ∉ writes.map (·.1) := by
  simp [firstWritten?]
  grind

theorem lastWritten?_cons (other : String) (a : Artifact) (writes : List (String × Artifact))
    (name : String) :
    lastWritten? ((other, a) :: writes) name =
      (lastWritten? writes name).or (if other = name then some a.content else none) := by
  simp only [lastWritten?, firstWritten?, List.reverse_cons, List.find?_append, Option.map_or]
  by_cases h : other = name
  · simp [h]
  · simp [h]

/-! ### In memory -/

theorem MemorySink.writes_eq (s : MemorySink) (writes : List (String × Artifact)) :
    MemorySink.sink.writes s writes =
      (.ok (), { artifacts := s.artifacts ++ writes.map fun w => (w.1, w.2.content) }) := by
  induction writes generalizing s with
  | nil => simp [Sink.writes]
  | cons w rest ih =>
    obtain ⟨name, a⟩ := w
    show MemorySink.sink.writes { s with artifacts := s.artifacts ++ [(name, a.content)] } rest = _
    rw [ih]
    simp

theorem MemorySink.get?_writes (writes : List (String × Artifact)) (name : String) :
    MemorySink.get? { artifacts := writes.map fun w => (w.1, w.2.content) } name =
      firstWritten? writes name := by
  simp only [MemorySink.get?, firstWritten?, List.find?_map, Option.map_map, Function.comp_def]

/-! ### On disk -/

theorem FileTree.read_eq_ok {t : FileTree} {path : String} {content : ByteArray}
    (h : t.read path = .ok content) :
    t.locate path = .ok (t.target path) ∧ t.content? (t.target path) = some content := by
  obtain ⟨e, hlookup, hfile⟩ := bind_eq_ok_iff.mp h
  obtain ⟨l, hlocate, hfind⟩ := bind_eq_ok_iff.mp hlookup
  obtain rfl := FileTree.locate_eq_ok hlocate
  refine ⟨hlocate, ?_⟩
  split at hfind
  next found =>
    cases hfind
    split at hfile
    next =>
      cases hfile
      rw [FileTree.content?, found]
    next => cases hfile
  next => cases hfind

namespace FileSink

variable {s : FileSink} {t next final : FileTree}

/-- A write changes what is read at the place of its own name only. -/
theorem content?_of_write (hdown : s.Downward) {a : Artifact} {other : String}
    (hname : Dotted name) (hother : Dotted other)
    (hwrite : s.sink.write t name a = (.ok (), next)) :
    next.content? (s.place t other) =
      if name = other then some a.content.toUTF8 else t.content? (s.place t other) := by
  by_cases h : name = other
  · subst h
    rw [if_pos rfl, FileTree.content?, (file_of_write hwrite).2]
  · rw [if_neg h]
    refine (changes_of_write hwrite).content?_eq fun hplace => h ?_
    exact (eq_of_place_eq_of_downward hdown hother hname hplace).symm

/-- After a sequence of writes the place of a name holds what was written last. -/
theorem content?_of_writes (hdown : s.Downward) (hnames : ∀ w ∈ writes, Dotted w.1)
    (hname : Dotted name) (hwrites : s.sink.writes t writes = (.ok (), final)) :
    final.content? (s.place t name) =
      ((lastWritten? writes name).map (·.toUTF8)).or (t.content? (s.place t name)) := by
  induction writes generalizing t with
  | nil =>
    obtain rfl := Sink.writes_nil_eq_ok hwrites
    simp [lastWritten?, firstWritten?]
  | cons w rest ih =>
    obtain ⟨other, a⟩ := w
    obtain ⟨next, hwrite, hrest⟩ := Sink.writes_cons_eq_ok hwrites
    have hdir := (changes_of_write hwrite).workingDir
    have hlater := ih (fun w hw => hnames w (List.mem_cons_of_mem _ hw)) hrest
    have hfirst := content?_of_write hdown (hnames _ List.mem_cons_self) hname hwrite
    rw [place_congr hdir] at hlater
    rw [hlater, hfirst, lastWritten?_cons]
    by_cases h : other = name
    · cases lastWritten? rest name <;> simp [h]
    · simp [h]

theorem changes_of_writes (hwrites : s.sink.writes t writes = (.ok (), final)) :
    FileTree.Changes (fun _ => True) (fun _ => True) t final := by
  induction writes generalizing t with
  | nil =>
    rw [Sink.writes_nil_eq_ok hwrites]
    exact .refl _ _ t
  | cons w rest ih =>
    obtain ⟨next, hwrite, hrest⟩ := Sink.writes_cons_eq_ok hwrites
    have hfirst := changes_of_write hwrite
    exact (hfirst.mono (fun _ h => h) fun _ _ => trivial).trans (ih hrest)

/-- The path for a name that was written leads to its place. -/
theorem locate_of_writes (hwrites : s.sink.writes t writes = (.ok (), final))
    (hmem : name ∈ writes.map (·.1)) : final.locate (s.pathFor name) = .ok (s.place t name) := by
  induction writes generalizing t with
  | nil => cases hmem
  | cons w rest ih =>
    obtain ⟨other, a⟩ := w
    obtain ⟨next, hwrite, hrest⟩ := Sink.writes_cons_eq_ok hwrites
    rcases List.mem_cons.mp hmem with rfl | hlater
    · exact (changes_of_writes hrest).locate (file_of_write hwrite).1
    · rw [ih hrest hlater, place_congr (changes_of_write hwrite).workingDir]

/-- Where nothing was before, the file for a name holds what was written last under it. -/
theorem get?_of_writes (hdown : s.Downward) (hempty : t.EmptyBelow s.root)
    (hnames : ∀ w ∈ writes, Dotted w.1) (hname : Dotted name)
    (hwrites : s.sink.writes t writes = (.ok (), final)) :
    s.get? final name = (lastWritten? writes name).map (·.toUTF8) := by
  have hdir := (changes_of_writes hwrites).workingDir
  have hcontent := content?_of_writes hdown hnames hname hwrites
  -- before the writes there was no file at the place of the name
  have hnone : t.content? (s.place t name) = none := by
    rw [FileTree.content?, place_of_dotted t hdown hname, hempty]
    obtain ⟨before, last, first, rest, -, -, -, -, hparts⟩ := parts_of_dotted s hname
    rw [hparts]
    simp
  rw [hnone, Option.or_none] at hcontent
  have hfinal : final.target (s.pathFor name) = s.place t name := place_congr hdir s name
  rw [get?]
  cases hread : final.read (s.pathFor name) with
  | ok content =>
    have hfound := (FileTree.read_eq_ok hread).2
    rw [hfinal, hcontent] at hfound
    rw [hfound]
    rfl
  | error fault =>
    -- a name that was written is read
    cases hlast : lastWritten? writes name with
    | none => rfl
    | some content =>
      have hmem : name ∈ writes.map (·.1) := by
        by_contra hnot
        have hreverse : name ∉ writes.reverse.map (·.1) := by
          simpa using hnot
        rw [lastWritten?, firstWritten?_eq_none_iff.mpr hreverse] at hlast
        cases hlast
      rw [hlast, Option.map_some, FileTree.content?] at hcontent
      split at hcontent
      next hfile =>
        rw [FileTree.read_of_find? (locate_of_writes hwrites hmem) hfile] at hread
        cases hread
      next => cases hcontent

end FileSink

/-- **What two sinks have after the same writes.** Take a sequence of writes under dotted names, in
which a name may come again, and a directory with nothing in it. If all files can be written, memory
has the first text under each name and the directory has the last. So they agree about a name exactly
if the first text and the last are the same, and both lack the names that were never written. -/
theorem sinks_agree_iff {s : FileSink} {t final : FileTree} {writes : List (String × Artifact)}
    (hdown : s.Downward) (hempty : t.EmptyBelow s.root) (hnames : ∀ w ∈ writes, Dotted w.1)
    (hwrites : s.sink.writes t writes = (.ok (), final)) :
    ∃ memory, MemorySink.sink.writes {} writes = (.ok (), memory) ∧
      ∀ name, Dotted name →
        memory.get? name = firstWritten? writes name ∧
        s.get? final name = (lastWritten? writes name).map (·.toUTF8) ∧
        ((memory.get? name).map (·.toUTF8) = s.get? final name ↔
          firstWritten? writes name = lastWritten? writes name) ∧
        (name ∉ writes.map (·.1) → memory.get? name = none ∧ s.get? final name = none) := by
  refine ⟨_, MemorySink.writes_eq {} writes, fun name hname => ?_⟩
  have hmemory := MemorySink.get?_writes writes name
  have hfile := FileSink.get?_of_writes hdown hempty hnames hname hwrites
  refine ⟨hmemory, hfile, ?_, fun hnever => ⟨?_, ?_⟩⟩
  · show (MemorySink.get? _ name).map (·.toUTF8) = _ ↔ _
    rw [hfile, List.nil_append, hmemory]
    exact (Option.map_injective fun _ _ => String.toByteArray_inj.mp).eq_iff
  · exact hmemory.trans (firstWritten?_eq_none_iff.mpr hnever)
  · have hreverse : name ∉ writes.reverse.map (·.1) := by simpa using hnever
    rw [hfile, lastWritten?, firstWritten?_eq_none_iff.mpr hreverse]
    rfl

theorem Sink.writes_of_toOption {σ : Type} {sink : Sink σ} {state : σ}
    {writes : List (String × Artifact)} (h : (sink.writes state writes).1.toOption = some ()) :
    sink.writes state writes = (.ok (), (sink.writes state writes).2) :=
  Prod.ext (eq_ok_of_toOption h) rfl

/-- Texts under names. -/
def texts (entries : List (String × String)) : List (String × Artifact) :=
  entries.map fun (name, content) => (name, { space := "", simpleName := name, content })

/-- A directory with nothing in it. -/
def emptyOut : FileTree where
  entries := [(["out"], .directory)]

theorem emptyBelow_emptyOut : emptyOut.EmptyBelow "/out" := by
  intro below hbelow
  have hroot : emptyOut.target "/out" = ["out"] := by decide
  have hne : (["out"] == ["out"] ++ below) = false := by simpa using hbelow
  rw [hroot, FileTree.find?, if_neg (by simp), emptyOut, List.find?_cons, hne]
  rfl

theorem sinks_agree_iff_thrice :
    ∃ memory final,
      MemorySink.sink.writes {} (texts [("a.B", "one"), ("a.C", "two"), ("a.B", "one")]) =
        (.ok (), memory) ∧
      (FileSink.sink { root := "/out" }).writes emptyOut
        (texts [("a.B", "one"), ("a.C", "two"), ("a.B", "one")]) = (.ok (), final) ∧
      (memory.get? "a.B").map (·.toUTF8) = FileSink.get? { root := "/out" } final "a.B" ∧
      memory.get? "a.b" = none ∧ FileSink.get? { root := "/out" } final "a.b" = none := by
  have hok : ((FileSink.sink { root := "/out" }).writes emptyOut
      (texts [("a.B", "one"), ("a.C", "two"), ("a.B", "one")])).1.toOption = some () := by
    decide +kernel
  have hwrites := Sink.writes_of_toOption hok
  obtain ⟨memory, hmemory, hagree⟩ :=
    sinks_agree_iff (by decide) emptyBelow_emptyOut (by decide) hwrites
  obtain ⟨-, -, hiff, -⟩ := hagree "a.B" (by decide)
  obtain ⟨-, -, -, hnever⟩ := hagree "a.b" (by decide)
  exact ⟨memory, _, hmemory, hwrites, hiff.mpr (by decide), hnever (by decide)⟩

/-- After a second write under the same name memory still has the first text, and the file the second
one. -/
theorem secondText_lost :
    (∀ w ∈ texts [("a.B", "old"), ("a.B", "new")], Dotted w.1) ∧
    ∃ memory final,
      MemorySink.sink.writes {} (texts [("a.B", "old"), ("a.B", "new")]) = (.ok (), memory) ∧
      (FileSink.sink { root := "/out" }).writes emptyOut (texts [("a.B", "old"), ("a.B", "new")]) =
        (.ok (), final) ∧
      memory.get? "a.B" = some "old" ∧
      FileSink.get? { root := "/out" } final "a.B" = some "new".toUTF8 := by
  have hok : ((FileSink.sink { root := "/out" }).writes emptyOut
      (texts [("a.B", "old"), ("a.B", "new")])).1.toOption = some () := by
    decide +kernel
  have hwrites := Sink.writes_of_toOption hok
  refine ⟨by decide, _, _, MemorySink.writes_eq {} _, hwrites, by decide, ?_⟩
  have hname : Dotted "a.B" := by decide
  rw [FileSink.get?_of_writes (by decide) emptyBelow_emptyOut (by decide) hname hwrites]
  decide

end ContractForge
