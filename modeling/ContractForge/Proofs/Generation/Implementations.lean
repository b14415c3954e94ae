import ContractForge.Generation.Artifact
import ContractForge.Proofs.Generation.Grouping
import ContractForge.Proofs.Generation.Traversal
import ContractForge.Proofs.Java.Structure

/-!
# Implementations of contracts

* `Artifact.IsFileOf` : an artifact is the source file of a class, which can be read back from its text.
* `Java.Class.Implements` : a class implements the contract of a name, perhaps for a locale.
* `Java.Method.Implements` : a method implements a method of a contract with the lines of a body.
* `Overrides` : the methods of a class implement the methods of a contract, one for one.

A generator that makes something for every group makes it for every name that is found
(`forall₂_discover`).
-/

namespace ContractForge

/-- The class implements the contract of a name: it stands in the namespace of the contract, is named
after it and the locale, and has it as its only interface. -/
structure Java.Class.Implements (x : Java.Class) (contract locale : String) : Prop where
  package : x.package = (QualifiedName.split contract).1
  name : x.name = (QualifiedName.split contract).2 ++ "Impl" ++ locale
  interface : x.implements = [contract]

/-- The class has methods only: it keeps nothing, and nothing is done when it is loaded. -/
def Java.Class.HasOnlyMethods (x : Java.Class) : Prop :=
  x.fields = [] ∧ x.staticInit = []

/-- The artifact is the source file of a class, under its package and its name. The class is read back
from the text, unless one of its strings hides where a part of it begins or ends. -/
structure Artifact.IsFileOf (a : Artifact) (x : Java.Class) : Prop where
  space : a.space = x.package
  simpleName : a.simpleName = x.name
  content : a.content = x.render
  readBack : x.Legible → Java.Class.read? a.content = some x

/-- The method implements a method of a contract with the lines of a body: it is public, has the return
type, the name and the parameters of that method, and is marked as an override. -/
structure Java.Method.Implements (i : Java.Method) (m : ContractForge.Method)
    (lines : List String) : Prop where
  signature : i.signature = "public " ++ m.returns.sourceName ++ " " ++ m.name ++ "(" ++
    ", ".intercalate (m.params.map fun p => p.type.sourceName ++ " " ++ p.name) ++ ")"
  annotations : i.annotations = ["Override"]
  body : i.body = lines

/-- The implementations are those of the methods, in order, and each has a body as demanded. -/
def Overrides (body : Method → List String → Prop) (methods : List Method)
    (implementations : List Java.Method) : Prop :=
  List.Forall₂ (fun m i => ∃ lines, body m lines ∧ i.Implements m lines) methods implementations

theorem Artifact.IsFileOf.ofClass (x : Java.Class) : (Artifact.ofClass x).IsFileOf x :=
  ⟨rfl, rfl, rfl, fun h => Java.Class.read?_eq_some_iff.mpr ⟨h, rfl⟩⟩

theorem Artifact.IsFileOf.qualifiedName_eq {a : Artifact} {x : Java.Class} (h : a.IsFileOf x) :
    a.qualifiedName = qualify x.package x.name := by
  rw [Artifact.qualifiedName, h.space, h.simpleName]

theorem Java.Method.Implements.overriding (m : ContractForge.Method) (lines : List String) :
    (Java.Method.overriding m lines).Implements m lines :=
  ⟨rfl, rfl, rfl⟩

variable {set : DeclarationSet} {marker : Marker} {α : Type}

/-- What is made for every group is made for every name that is found. -/
theorem forall₂_discover {R : String → List Method → α → Prop} {made : List α}
    (h : List.Forall₂ (fun g a => R g.contract.name g.methods a) (discover set marker) made) :
    List.Forall₂ (fun name a => R name (set.markedMethods marker name) a) (set.markedNames marker)
      made := by
  have hmap : List.Forall₂ (fun x a => R x.1 x.2 a)
      ((discover set marker).map fun g => (g.contract.name, g.methods)) made :=
    List.forall₂_map_left_iff.mpr h
  rw [discover_eq] at hmap
  exact List.forall₂_map_left_iff.mp hmap

/-- A generator that takes the methods of every group in turn fails with the first failure in the
order of discovery. -/
theorem failure?_mapM_discover {ε β : Type} {f : Contract → Method → Except ε β}
    {p : String → Method → Option ε} (hf : ∀ c m, failure? (f c m) = p c.name m)
    (finish : Group → List β → α) :
    failure? ((discover set marker).mapM fun g =>
        g.methods.mapM (f g.contract) >>= fun made => .ok (finish g made)) =
      (set.marked marker).findSome? fun x => p x.1 x.2 := by
  rw [failure?_mapM, ← flatMap_discover, findSome?_flatMap]
  refine congrArg (List.findSome? · (discover set marker)) (funext fun g => ?_)
  rw [failure?_bind_ok, failure?_mapM, List.findSome?_map]
  exact congrArg (List.findSome? · g.methods) (funext fun m => hf g.contract m)

end ContractForge
