/-!
# TOML tables

* `Toml.Item` : a value. Tables remember how they came about, since that decides what may still be
  added to them.
* `Table.insertAt?` : adds a value under a dotted key.
* `Table.open?`, `Table.append?` : what the headers of tables and of arrays of tables do.

A table is defined once. One that only stands on the way to another is implicit, and may still be
defined by its header; one that came about by a dotted key may only be extended by dotted keys.
-/

namespace ContractForge.Toml

/-- How a table came about. -/
structure Origin where
  /-- It is written in braces, and complete. -/
  isInline : Bool := false
  /-- It only stands on the way to another. -/
  isImplicit : Bool := false
  /-- It came about by a dotted key. -/
  isDotted : Bool := false

/-- A value. -/
inductive Item where
  | text (s : String)
  | integer (n : Int)
  | float
  | flag (b : Bool)
  | moment
  | array (items : List Item)
  | table (origin : Origin) (entries : List (String × Item))
  /-- An array of tables, the latest first. -/
  | tables (latestFirst : List (List (String × Item)))

/-- The entries of a table, and how it came about. -/
structure Table where
  origin : Origin := {}
  entries : List (String × Item) := []

namespace Table

/-- The value under a key. -/
def find? (t : Table) (key : String) : Option Item :=
  (t.entries.find? (·.1 == key)).map (·.2)

/-- The table with a value under a key, in place of the one that was there. -/
def set (t : Table) (key : String) (item : Item) : Table :=
  { t with entries := t.entries.filter (·.1 != key) ++ [(key, item)] }

/-- The table without a key. -/
def erase (t : Table) (key : String) : Table :=
  { t with entries := t.entries.filter (·.1 != key) }

def toItem (t : Table) : Item :=
  .table t.origin t.entries

/-- Changes the table that a path of keys leads to; tables that are missing come about on the way,
as inline ones where `inline`. A path that is `dotted` leads through implicit tables only. -/
def modifyAt? (inline dotted : Bool) (change : Table → Option Table) :
    List String → Table → Option Table
  | [], t => change t
  | key :: path, t =>
    match t.find? key with
    | none => do
      let origin : Origin := { isInline := inline, isImplicit := true, isDotted := dotted }
      return t.set key (← modifyAt? inline dotted change path { origin }).toItem
    | some (.table origin entries) =>
      if origin.isInline != inline || (dotted && !origin.isImplicit) then none
      else do
        return t.set key (← modifyAt? inline dotted change path { origin, entries }).toItem
    | some (.tables (latest :: earlier)) => do
      let latest ← modifyAt? inline dotted change path { entries := latest }
      return t.set key (.tables (latest.entries :: earlier))
    | some _ => none

/-- Adds a value under a dotted key that is still free. -/
def insertAt? (inline : Bool) (path : List String) (key : String) (item : Item) (t : Table) :
    Option Table :=
  modifyAt? inline true
    (fun t =>
      if t.origin.isDotted == path.isEmpty || (t.find? key).isSome then none
      else some (t.set key item))
    path t

/-- Opens the table of a header: the root without it, and what is there of it already. -/
def open? (path : List String) (key : String) (root : Table) : Option (Table × Table) := do
  let found ←
    match ← lookup? path root with
    | none => some {}
    | some (.table origin entries) =>
      if !origin.isInline && origin.isImplicit && !origin.isDotted then some { entries }
      else none
    | some _ => none
  return (← modifyAt? false false (fun t => some (t.erase key)) path root, found)
where
  /-- What stands under the key of the header. -/
  lookup? : List String → Table → Option (Option Item)
    | [], t => some (t.find? key)
    | k :: path, t =>
      match t.find? k with
      | none => some none
      | some (.table origin entries) =>
        if origin.isInline then none else lookup? path { entries }
      | some (.tables (latest :: _)) => lookup? path { entries := latest }
      | some _ => none

/-- Puts the table of a header into its place. -/
def close? (path : List String) (key : String) (table root : Table) : Option Table :=
  modifyAt? false false
    (fun t => if (t.find? key).isSome then none else some (t.set key table.toItem)) path root

/-- Makes sure that an array of tables can stand where a header says. -/
def checkArray? (path : List String) (key : String) (root : Table) : Option Table :=
  modifyAt? false false
    (fun t =>
      match t.find? key with
      | none => some (t.set key (.tables []))
      | some (.tables _) => some t
      | some _ => none)
    path root

/-- Adds a table to the array that a header names. -/
def append? (path : List String) (key : String) (table root : Table) : Option Table :=
  modifyAt? false false
    (fun t =>
      match t.find? key with
      | none => some (t.set key (.tables [table.entries]))
      | some (.tables earlier) => some (t.set key (.tables (table.entries :: earlier)))
      | some _ => none)
    path root

end Table
end ContractForge.Toml
