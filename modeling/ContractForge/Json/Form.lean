import ContractForge.Document.Form
import ContractForge.Json.Value

/-!
# Records in JSON

The JSON form of records. An object gives the fields by name, an array gives them in order. A text
that may be absent can be `null`. Records and lists may not be nested deeper than `nestingLimit`;
what lies in an unknown field is not looked into, so it may be nested at will.
-/

namespace ContractForge.Json

/-- A value with the number of lists and records that may still be nested in it. -/
structure Node where
  value : Value
  room : Nat

/-- How deep lists and records may be nested. -/
def nestingLimit : Nat := 127

/-- Values one level below a node. -/
def Node.below (room : Nat) (values : List Value) : List Node :=
  values.map fun value => ⟨value, room⟩

/-- The fields of an object. -/
def memberFields? (room : Nat) (members : List (Option String × Value)) (names : List String) :
    Option (List (Option Node)) := do
  let named ← members.mapM fun (key, value) => key.map fun key => (key, Node.mk value room)
  pickFields named names

/-- The fields given by position; the ones that are left out must be the last. -/
def positionalFields? (room : Nat) (values : List Value) (names : List String) :
    Option (List (Option Node)) :=
  if values.length ≤ names.length then
    some ((Node.below room values).map some ++ List.replicate (names.length - values.length) none)
  else none

/-- How declarations are read from JSON. -/
def form : Form Option Node where
  text node :=
    match node.value with
    | .string content => content
    | _ => none
  flag node :=
    match node.value with
    | .bool b => some b
    | _ => none
  textOrAbsent node :=
    match node.value with
    | .null => some none
    | .string content => content.map some
    | _ => none
  items node :=
    match node.value, node.room with
    | .array values, room + 1 => some (Node.below room values)
    | _, _ => none
  record names node :=
    match node.value, node.room with
    | .object members, room + 1 => memberFields? room members names
    | .array values, room + 1 => positionalFields? room values names
    | _, _ => none

end ContractForge.Json
