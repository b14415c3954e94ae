import ContractForge.Declaration.Basic
import ContractForge.Document.Form

/-!
# Reading declarations

One reader for each kind of declaration, for every form of document. The order of the field names is
the order in which a form may give the fields by position.
-/

namespace ContractForge

/-- A bound on the nesting of types that no document form reaches. -/
def typeDepth : Nat := 128

variable {m : Type → Type} {ν : Type} [Monad m] [MonadExcept Unit m]
  (form : Form m ν)

/-- A type, whose arguments are nested at most `depth` deep. -/
def TypeRef.read : Nat → ν → m TypeRef
  | 0, _ => throw ()
  | depth + 1, node => do
    match ← form.record ["name", "args"] node with
    | [name, args] =>
      let name ← Form.required form.text name
      let args ← Form.optional [] (form.list (TypeRef.read depth)) args
      return .mk name args
    | _ => throw ()

def Parameter.read (node : ν) : m Parameter := do
  match ← form.record ["name", "type"] node with
  | [name, type] =>
    let name ← Form.required form.text name
    let type ← Form.required (TypeRef.read form typeDepth) type
    return { name, type }
  | _ => throw ()

def Markers.read (node : ν) : m Markers := do
  match ← form.record ["path", "verbs", "resource"] node with
  | [path, verbs, resource] =>
    let path ← Form.optional none form.textOrAbsent path
    let verbs ← Form.optional [] (form.list form.text) verbs
    let resource ← Form.optional none form.textOrAbsent resource
    return { path, verbs, resource }
  | _ => throw ()

def Method.read (node : ν) : m Method := do
  match ← form.record ["name", "params", "returns", "markers"] node with
  | [name, params, returns, markers] =>
    let name ← Form.required form.text name
    let params ← Form.optional [] (form.list (Parameter.read form)) params
    let returns ← Form.required (TypeRef.read form typeDepth) returns
    let markers ← Form.optional {} (Markers.read form) markers
    return { name, params, returns, markers }
  | _ => throw ()

def Contract.read (node : ν) : m Contract := do
  match ← form.record ["name", "messages", "methods"] node with
  | [name, messages, methods] =>
    let name ← Form.required form.text name
    let messages ← Form.optional false form.flag messages
    let methods ← Form.optional [] (form.list (Method.read form)) methods
    return { name, messages, methods }
  | _ => throw ()

def Field.read (node : ν) : m Field := do
  match ← form.record ["name", "type", "public"] node with
  | [name, type, isPublic] =>
    let name ← Form.required form.text name
    let type ← Form.required (TypeRef.read form typeDepth) type
    let isPublic ← Form.optional true form.flag isPublic
    return { name, type, isPublic }
  | _ => throw ()

def MemberMethod.read (node : ν) : m MemberMethod := do
  match ← form.record ["name", "params", "returns", "public"] node with
  | [name, params, returns, isPublic] =>
    let name ← Form.required form.text name
    let params ← Form.optional [] (form.list (Parameter.read form)) params
    let returns ← Form.required (TypeRef.read form typeDepth) returns
    let isPublic ← Form.optional true form.flag isPublic
    return { name, params, returns, isPublic }
  | _ => throw ()

def TypeDecl.read (node : ν) : m TypeDecl := do
  match ← form.record ["name", "fields", "methods"] node with
  | [name, fields, methods] =>
    let name ← Form.required form.text name
    let fields ← Form.optional [] (form.list (Field.read form)) fields
    let methods ← Form.optional [] (form.list (MemberMethod.read form)) methods
    return { name, fields, methods }
  | _ => throw ()

/-- A set of declarations. It is not validated. -/
def DeclarationSet.read (node : ν) : m DeclarationSet := do
  match ← form.record ["contracts", "types"] node with
  | [contracts, types] =>
    let contracts ← Form.optional [] (form.list (Contract.read form)) contracts
    let types ← Form.optional [] (form.list (TypeDecl.read form)) types
    return { contracts, types }
  | _ => throw ()

end ContractForge
