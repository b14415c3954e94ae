import ContractForge.Document.Form
import ContractForge.Toml.Document

/-!
# Records in TOML

The TOML form of records. A table gives the fields by name, and an array gives them in order; what
an array has beyond the fields is passed over. A date has no fields that anyone knows, and so reads
as a record in which all are left out.
-/

namespace ContractForge.Toml

/-- The items of an array of values or of tables, in order. -/
def Item.toList? : Item → Option (List Item)
  | array items => some items
  | tables latestFirst => some (latestFirst.reverse.map (table {}))
  | _ => none

/-- The fields given by position. -/
def positionalFields (items : List Item) (names : List String) : List (Option Item) :=
  (items.take names.length).map some ++ List.replicate (names.length - items.length) none

/-- How settings are read from TOML. -/
def form : Form Option Item where
  text
    | .text s => some s
    | _ => none
  flag
    | .flag b => some b
    | _ => none
  textOrAbsent
    | .text s => some (some s)
    | _ => none
  items := Item.toList?
  record names item :=
    match item with
    | .table _ entries => pickFields entries names
    | .moment => some (names.map fun _ => none)
    | _ => (item.toList?).map (positionalFields · names)

/-- A number that is not negative. -/
def count : Item → Option Nat
  | .integer n => if 0 ≤ n then some n.toNat else none
  | _ => none

end ContractForge.Toml
