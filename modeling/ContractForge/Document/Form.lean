/-!
# Forms of documents

A record can be written down in several forms. A `Form` says how the nodes of one form are read as
texts, flags, lists and records, so that a record type needs one reader for all of them.

* `Form.record` : a node as a record, given the names of its fields. The result has one place for
  each field, in the order of the names. A field given twice is refused, an unknown one passed over.
* `required`, `optional` : the value of a field that must be there, or that has a default.
-/

namespace ContractForge

/-- How the nodes `ν` of a document are read. The effect `m` is at least the failure to read,
which has no more to tell than the unit. -/
structure Form (m : Type → Type) (ν : Type) where
  text : ν → m String
  flag : ν → m Bool
  /-- A text that may be absent though its field is there. -/
  textOrAbsent : ν → m (Option String)
  items : ν → m (List ν)
  record : List String → ν → m (List (Option ν))

namespace Form

variable {m : Type → Type} {ν α : Type}

/-- The value of a field that must be there. -/
def required [MonadExcept Unit m] (read : ν → m α) : Option ν → m α
  | some node => read node
  | none => throw ()

/-- The value of a field, or its default. -/
def optional [Applicative m] (default : α) (read : ν → m α) : Option ν → m α
  | some node => read node
  | none => pure default

/-- The items of a list, each read in the same way. -/
def list [Monad m] (form : Form m ν) (read : ν → m α) (node : ν) : m (List α) := do
  (← form.items node).mapM read

end Form

/-- The value of each of the named fields among the members of a record, or nothing if one of them
is given twice. -/
def pickFields {α : Type} (members : List (String × α)) (names : List String) :
    Option (List (Option α)) :=
  names.mapM fun name =>
    match members.filter (·.1 == name) with
    | [] => some none
    | [(_, value)] => some (some value)
    | _ => none

end ContractForge
