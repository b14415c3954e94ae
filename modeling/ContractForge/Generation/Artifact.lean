import ContractForge.Java.Class

/-!
# Artifacts

A generated source file: its namespace, its simple name and its text. `Artifact.ofClass` is the file
of a class.
-/

namespace ContractForge

/-- One generated source file. -/
structure Artifact where
  space : String
  simpleName : String
  content : String

namespace Artifact

/-- The name under which an artifact is written. -/
def qualifiedName (a : Artifact) : String :=
  qualify a.space a.simpleName

/-- The source file of a class. -/
def ofClass (c : Java.Class) : Artifact :=
  ⟨c.package, c.name, c.render⟩

end Artifact
end ContractForge
