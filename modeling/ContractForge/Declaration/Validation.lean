import ContractForge.Declaration.Basic

/-!
# Validation of declarations

`DeclarationSet.validate` accepts a set whose contracts have names, all different, whose contract
methods have names, and whose types have different names. Otherwise it reports the first fault in
document order, contracts before types.
-/

namespace ContractForge

/-- What is wrong with a set of declarations. -/
inductive DeclarationFault where
  | unnamedContract
  | repeatedContract (name : String)
  | unnamedMethod (contract : String)
  | repeatedType (name : String)
  deriving DecidableEq

def DeclarationFault.message : DeclarationFault → String
  | unnamedContract => "contract name cannot be empty"
  | repeatedContract name => s!"duplicate contract {name}"
  | unnamedMethod contract => s!"contract {contract} declares a method without a name"
  | repeatedType name => s!"duplicate type {name}"

/-- The first fault of the contracts that follow those whose names are `seen`. -/
def contractFault? (seen : List String) : List Contract → Option DeclarationFault
  | [] => none
  | c :: rest =>
    if c.name = "" then some .unnamedContract
    else if c.name ∈ seen then some (.repeatedContract c.name)
    else if c.methods.any (·.name == "") then some (.unnamedMethod c.name)
    else contractFault? (c.name :: seen) rest

/-- The first fault of the types that follow those whose names are `seen`. -/
def typeFault? (seen : List String) : List TypeDecl → Option DeclarationFault
  | [] => none
  | t :: rest =>
    if t.name ∈ seen then some (.repeatedType t.name)
    else typeFault? (t.name :: seen) rest

/-- The first fault of a set. -/
def DeclarationSet.fault? (set : DeclarationSet) : Option DeclarationFault :=
  contractFault? [] set.contracts <|> typeFault? [] set.types

/-- Accepts a set without faults. -/
def DeclarationSet.validate (set : DeclarationSet) : Except DeclarationFault Unit :=
  match set.fault? with
  | some fault => .error fault
  | none => .ok ()

end ContractForge
