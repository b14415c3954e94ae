import ContractForge.Declaration.Type
import ContractForge.Text.QualifiedName

/-!
# Declarations

What the generators work on, whichever way it was written down: contracts, whose methods carry
markers, and the member shapes of the types that contracts use.

* `Contract`, `Method`, `Markers` : an interface to implement and what its methods are marked with.
* `TypeDecl`, `Field`, `MemberMethod` : the members of a type used as a parameter.
* `DeclarationSet` : everything declared, in document order; `findType?` looks a type up by name.
-/

namespace ContractForge

/-- A named, typed method parameter. -/
structure Parameter where
  name : String
  type : TypeRef

/-- What a method is marked with. -/
structure Markers where
  /-- The route of a service method. -/
  path : Option String := none
  /-- The verbs, spelled as they were declared. -/
  verbs : List String := []
  /-- The resource a method returns, relative to the namespace of its contract. -/
  resource : Option String := none

/-- A method of a contract. -/
structure Method where
  name : String
  params : List Parameter := []
  returns : TypeRef
  markers : Markers := {}

/-- An interface whose methods are to be implemented. -/
structure Contract where
  /-- The qualified name. -/
  name : String
  /-- The contract is marked as a message bundle. -/
  messages : Bool := false
  methods : List Method := []

namespace Contract

def space (c : Contract) : String :=
  (QualifiedName.split c.name).1

def simpleName (c : Contract) : String :=
  (QualifiedName.split c.name).2

/-- The simple name of the class that implements the contract. -/
def implName (c : Contract) : String :=
  c.simpleName ++ "Impl"

end Contract

/-- A field of a declared type. -/
structure Field where
  name : String
  type : TypeRef
  isPublic : Bool := true

/-- A method of a declared type; the public ones without parameters may be getters. -/
structure MemberMethod where
  name : String
  params : List Parameter := []
  returns : TypeRef
  isPublic : Bool := true

/-- The members of a type that contracts use as a parameter. -/
structure TypeDecl where
  name : String
  fields : List Field := []
  methods : List MemberMethod := []

/-- All declarations visible to one pass, in document order. -/
structure DeclarationSet where
  contracts : List Contract := []
  types : List TypeDecl := []

/-- The first type declared under a name. -/
def DeclarationSet.findType? (set : DeclarationSet) (name : String) : Option TypeDecl :=
  set.types.find? (·.name == name)

end ContractForge
