import ContractForge.Declaration.Basic
import ContractForge.Text.Lowercase
import ContractForge.Text.Split

/-!
# Query parameters

A service method without a body sends its argument as query parameters. A scalar argument is one
parameter. Any other argument is taken apart by the declaration of its type: its public fields in
order, then its public getters. A getter whose derived name is there already takes the place of the
value under that name; it is added at the end otherwise.

* `stringExpression` : an expression as a string, converted unless it is one already.
* `getterName?` : the name that a method called `get…` stands for.
* `flatten` : the parameters of an argument of a declared type.
-/

namespace ContractForge

/-- A query parameter: a name and the expression of its value. -/
structure QueryParam where
  name : String
  value : String
  deriving DecidableEq

/-- An expression of a type as a string. -/
def stringExpression (expression : String) (type : TypeRef) : String :=
  if type.isString then expression else "String.valueOf(" ++ expression ++ ")"

/-- The parameter that a scalar argument becomes. -/
def QueryParam.ofScalar (p : Parameter) : QueryParam :=
  ⟨p.name, stringExpression p.name p.type⟩

/-- The parameter that a field of the argument becomes. -/
def QueryParam.ofField (argument : String) (f : Field) : QueryParam :=
  ⟨f.name, stringExpression (argument ++ "." ++ f.name) f.type⟩

/-- The start of the names of getters. -/
def getterStart : String := "get"

/-- The name that a getter stands for: what follows `get`, with its first letter lowercased. -/
def getterName? (m : MemberMethod) : Option String :=
  if m.isPublic && m.params.isEmpty then
    match Text.stripStart? getterStart.toList m.name.toList with
    | some (c :: rest) => some (Text.lowercaseFirst (String.ofList (c :: rest)))
    | _ => none
  else none

/-- The parameter that a getter of the argument becomes. -/
def QueryParam.ofGetter? (argument : String) (m : MemberMethod) : Option QueryParam :=
  (getterName? m).map fun name =>
    ⟨name, stringExpression (argument ++ "." ++ m.name ++ "()") m.returns⟩

/-- Parameters with one more: in place of the first of its name, or else at the end. -/
def override (q : QueryParam) : List QueryParam → List QueryParam
  | [] => [q]
  | x :: xs => if x.name = q.name then q :: xs else x :: override q xs

/-- The parameters of an argument of a declared type. -/
def flatten (argument : String) (d : TypeDecl) : List QueryParam :=
  (d.methods.filterMap (QueryParam.ofGetter? argument)).foldl (fun params q => override q params)
    ((d.fields.filter (·.isPublic)).map (QueryParam.ofField argument))

/-- The parameters of an argument, if its type is scalar or declared. -/
def queryParams? (set : DeclarationSet) (p : Parameter) : Option (List QueryParam) :=
  if p.type.isScalar then some [.ofScalar p]
  else (set.findType? p.type.name).map (flatten p.name)

end ContractForge
