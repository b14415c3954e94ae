import ContractForge.Proofs.Generation.Together
import ContractForge.Proofs.Generation.Written

/-!
# Passes into memory and into files

`Rehearsed` : how a pass into files ends, by what the same pass into memory comes to. Both make the
same artifacts, and make all of them before they write any (`rehearsed_of_outcome`).
-/

namespace ContractForge

/-- A file could not be written. -/
def GenerationError.IsWrite : GenerationError → Prop
  | io _ _ => True
  | _ => False

/-- How a pass into files ends, what tree it leaves and what names it hands over, by what the pass
into memory comes to. -/
inductive Rehearsed (s : FileSink) (t : FileTree) : Except GenerationError (List String) →
    Except GenerationError (List String) → FileTree → List String → Prop
  /-- Both fail before anything is written. -/
  | fails {e : GenerationError} (hwrite : ¬e.IsWrite) : Rehearsed s t (.error e) (.error e) t []
  /-- A file cannot be written. -/
  | refused {before after : List String} {name : String} {e : GenerationError} {final : FileTree}
      (hwrite : e.IsWrite) :
      Rehearsed s t (.ok (before ++ name :: after)) (.error e) final (before ++ [name])
  /-- All files are written, and no others. -/
  | complete {names : List String} {final : FileTree}
      (hothers : ∀ l, (∀ name ∈ names, l ≠ s.place t name) → final.content? l = t.content? l)
      (hfiles : ∀ name ∈ names, ∃ content, final.content? (s.place t name) = some content) :
      Rehearsed s t (.ok names) (.ok names) final names

variable {s : FileSink} {t final : FileTree} {context : PassContext} {generators : List Generator}

theorem isWrite_of_makeParent {path : String} {e : GenerationError}
    (h : FileSink.makeParent t path = (.error e, final)) : e.IsWrite := by
  unfold FileSink.makeParent at h
  split at h
  next => cases h
  next =>
    split at h
    next => cases h
    next =>
      cases h
      trivial

theorem isWrite_of_write {name : String} {a : Artifact} {e : GenerationError}
    (h : s.write t name a = (.error e, final)) : e.IsWrite := by
  unfold FileSink.write at h
  dsimp only at h
  split at h
  next e' mid hparent =>
    cases h
    exact isWrite_of_makeParent hparent
  next =>
    split at h
    next => cases h
    next =>
      cases h
      trivial

theorem fst_runAll_memory {artifacts : List Artifact} (hmakes : Makes context generators artifacts)
    (hnew : (artifacts.map (·.qualifiedName)).Nodup) :
    (runAll context generators MemorySink.sink {}).1 = .ok (artifacts.map (·.qualifiedName)) := by
  rw [runAll_memory_eq_ok_iff.mpr ⟨artifacts, hmakes, hnew, rfl, rfl⟩]

theorem rehearsed_of_outcome {result : Except GenerationError (List String)}
    {received : List Artifact} (h : Outcome context generators s.sink t result final received) :
    Rehearsed s t (runAll context generators MemorySink.sink {}).1 result final
      (received.map (·.qualifiedName)) := by
  cases h with
  | aborted hsplit hbefore hfail =>
    rw [runAll_of_outcome (.aborted hsplit hbefore hfail)]
    exact .fails id
  | repeated hmakes hnew hold =>
    rw [runAll_of_outcome (.repeated hmakes hnew hold)]
    exact .fails id
  | @refused before after a mid _ e hmakes hnew _ hrefused =>
    rw [FileSink.write_sink] at hrefused
    rw [fst_runAll_memory hmakes hnew, List.map_append, List.map_append]
    exact .refused (isWrite_of_write hrefused)
  | complete hmakes hnew haccepts =>
    rw [fst_runAll_memory hmakes hnew]
    refine .complete (fun l hl => ?_) fun name hname => ?_
    · refine (FileSink.changes_of_accepts haccepts).content?_eq ?_
      rintro ⟨a, ha, hplace⟩
      exact hl _ (List.mem_map_of_mem ha) hplace
    · obtain ⟨a, ha, rfl⟩ := List.mem_map.mp hname
      obtain ⟨content, hfile⟩ := FileSink.isFile_of_accepts haccepts ha
      exact ⟨content, by rw [FileTree.content?, hfile]⟩

end ContractForge
