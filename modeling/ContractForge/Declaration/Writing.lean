import ContractForge.Declaration.Basic
import ContractForge.Json.Value

/-!
# Writing declarations

The JSON value of each kind of declaration. All fields are written, except generic arguments and
verbs where there are none, and a route or resource that is absent.
-/

namespace ContractForge

open Json (Value)

mutual

/-- The JSON value of a type. -/
def TypeRef.toJson : TypeRef → Value
  | mk name args => .record (("name", .text name) :: TypeRef.argsToJson args)

/-- The member that holds the arguments of a type, where it has any. -/
def TypeRef.argsToJson : List TypeRef → List (String × Value)
  | [] => []
  | t :: ts => [("args", .array (TypeRef.toJson t :: TypeRef.listToJson ts))]

/-- The JSON values of several types. -/
def TypeRef.listToJson : List TypeRef → List Value
  | [] => []
  | t :: ts => TypeRef.toJson t :: TypeRef.listToJson ts

end

def Parameter.toJson (p : Parameter) : Value :=
  .record [("name", .text p.name), ("type", p.type.toJson)]

/-- The member of a text that may be absent. -/
def optionalMember (name : String) (text : Option String) : List (String × Value) :=
  match text with
  | some s => [(name, .text s)]
  | none => []

def Markers.toJson (m : Markers) : Value :=
  .record
    (optionalMember "path" m.path ++
      (if m.verbs.isEmpty then [] else [("verbs", .array (m.verbs.map .text))]) ++
      optionalMember "resource" m.resource)

def Method.toJson (m : Method) : Value :=
  .record
    [("name", .text m.name), ("params", .array (m.params.map Parameter.toJson)),
      ("returns", m.returns.toJson), ("markers", m.markers.toJson)]

def Contract.toJson (c : Contract) : Value :=
  .record
    [("name", .text c.name), ("messages", .bool c.messages),
      ("methods", .array (c.methods.map Method.toJson))]

def Field.toJson (f : Field) : Value :=
  .record [("name", .text f.name), ("type", f.type.toJson), ("public", .bool f.isPublic)]

def MemberMethod.toJson (m : MemberMethod) : Value :=
  .record
    [("name", .text m.name), ("params", .array (m.params.map Parameter.toJson)),
      ("returns", m.returns.toJson), ("public", .bool m.isPublic)]

def TypeDecl.toJson (d : TypeDecl) : Value :=
  .record
    [("name", .text d.name), ("fields", .array (d.fields.map Field.toJson)),
      ("methods", .array (d.methods.map MemberMethod.toJson))]

/-- The JSON value of a set of declarations. -/
def DeclarationSet.toJson (set : DeclarationSet) : Value :=
  .record
    [("contracts", .array (set.contracts.map Contract.toJson)),
      ("types", .array (set.types.map TypeDecl.toJson))]

end ContractForge
