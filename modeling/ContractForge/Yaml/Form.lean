import ContractForge.Document.Form
import ContractForge.Yaml.Node

/-!
# Records in YAML

* `Yaml.Document` : a node with its aliases resolved to numbers, and the anchored node for each
  number.
* `Yaml.form` : the YAML form of records. A mapping gives the fields by name; an empty plain scalar
  is an empty mapping or list. Any scalar is a text as it is written; the words of `null` are an
  absent text. Lists and records may not be nested deeper than `nestingLimit`, aliases followed.

An anchor is numbered by the count of different names before it, also when its name was used before.
So a new name after a repeated one takes over its number, and with it the earlier aliases.
-/

namespace ContractForge.Yaml

/-- A node in which aliases are numbers. -/
inductive Content where
  | reference (number : Nat)
  | scalar (tag : Option TagText) (style : Style) (text : List Char)
  | sequence (items : List Content)
  | mapping (entries : List (Content × Content))

/-- An anchored node: its number, its place in the order in which nodes begin, and the node. -/
structure Anchored where
  number : Nat
  place : Nat
  content : Content

/-- What is known of anchors at a point of a document. -/
structure AnchorState where
  /-- The number that each name stands for at present. -/
  names : List (List Char × Nat) := []
  anchored : List Anchored := []
  /-- How many nodes have begun. -/
  place : Nat := 0
  /-- How many scalars, aliases, and starts and ends of collections have been met. -/
  events : Nat := 0

namespace AnchorState

/-- A node begins, with or without an anchor. The result has the number of its anchor. -/
def enter (state : AnchorState) (anchor : Option (List Char)) (events : Nat) :
    Option Nat × AnchorState :=
  let state := { state with place := state.place + 1, events := state.events + events }
  match anchor with
  | none => (none, state)
  | some name =>
    let number := state.names.length
    let others := state.names.filter (·.1 != name)
    (some number, { state with names := (name, number) :: others })

/-- A node that began at a place is complete. -/
def leave (state : AnchorState) (number : Option Nat) (place : Nat) (content : Content) :
    AnchorState :=
  match number with
  | none => state
  | some number => { state with anchored := ⟨number, place, content⟩ :: state.anchored }

end AnchorState

mutual

/-- A node with its aliases numbered. -/
def Content.ofNode? (state : AnchorState) : Node → Option (Content × AnchorState)
  | .reference name => do
    let (_, number) ← state.names.find? (·.1 == name)
    return (reference number, { state with place := state.place + 1, events := state.events + 1 })
  | .scalar props style text =>
    let place := state.place
    let (number, state) := state.enter props.anchor 1
    let content := scalar props.tag style text
    some (content, state.leave number place content)
  | .sequence props items => do
    let place := state.place
    let (number, state) := state.enter props.anchor 2
    let (items, state) ← Content.ofNodes? state items
    return (sequence items, state.leave number place (sequence items))
  | .mapping props entries => do
    let place := state.place
    let (number, state) := state.enter props.anchor 2
    let (entries, state) ← Content.ofEntries? state entries
    return (mapping entries, state.leave number place (mapping entries))

/-- Nodes with their aliases numbered. -/
def Content.ofNodes? (state : AnchorState) : List Node → Option (List Content × AnchorState)
  | [] => some ([], state)
  | node :: rest => do
    let (content, state) ← Content.ofNode? state node
    let (contents, state) ← Content.ofNodes? state rest
    return (content :: contents, state)

/-- Entries with their aliases numbered. -/
def Content.ofEntries? (state : AnchorState) :
    List (Node × Node) → Option (List (Content × Content) × AnchorState)
  | [] => some ([], state)
  | (key, value) :: rest => do
    let (key, state) ← Content.ofNode? state key
    let (value, state) ← Content.ofNode? state value
    let (entries, state) ← Content.ofEntries? state rest
    return ((key, value) :: entries, state)

end

/-- A document whose aliases can be followed. -/
structure Document where
  root : Content
  anchored : List Anchored
  events : Nat

/-- The document of a root node. -/
def Document.ofNode? (node : Node) : Option Document := do
  let (root, state) ← Content.ofNode? {} node
  return { root, anchored := state.anchored, events := state.events }

/-- The node that a number stands for: of those with this number, the one that begins last. -/
def Document.target? (d : Document) (number : Nat) : Option Content :=
  ((d.anchored.filter (·.number == number)).foldl
    (fun (best : Option Anchored) a =>
      match best with
      | some b => if b.place < a.place then some a else best
      | none => some a)
    none).map (·.content)

/-- A node with the number of lists and records that may still be nested in it. -/
structure Place where
  content : Content
  room : Nat

/-- How deep lists and records may be nested. -/
def nestingLimit : Nat := 128

/-- How many aliases may be followed, for each event of the document. -/
def aliasesPerEvent : Nat := 100

/-- Reading with a count of the aliases that may still be followed. -/
abbrev Reading := StateT Nat Option

/-- The content at a place, with an alias followed. -/
def Document.follow (d : Document) (p : Place) : Reading Content :=
  match p.content with
  | .reference number => do
    match ← get with
    | 0 => failure
    | left + 1 =>
      set left
      d.target? number
  | content => pure content

/-- The word means that there is no value. -/
def isNullWord (text : List Char) : Bool :=
  ["null", "Null", "NULL", "~"].contains (String.ofList text)

/-- The flag that a word stands for. -/
def flagOfWord? (text : List Char) : Option Bool :=
  if ["true", "True", "TRUE"].contains (String.ofList text) then some true
  else if ["false", "False", "FALSE"].contains (String.ofList text) then some false
  else none

/-- The tag of absent values. -/
def nullTag : TagText := .ofString "tag:yaml.org,2002:null"

/-- The tag of flags. -/
def flagTag : TagText := .ofString "tag:yaml.org,2002:bool"

/-- The content is left out: an empty list or record. -/
def Content.isVoid : Content → Bool
  | scalar _ .plain [] => true
  | _ => false

/-- A scalar as a text. -/
def Document.text (d : Document) (p : Place) : Reading String := do
  match ← d.follow p with
  | .scalar _ _ text => return String.ofList text
  | _ => failure

/-- A scalar as a text, or nothing where it says that there is none. -/
def Document.textOrAbsent (d : Document) (p : Place) : Reading (Option String) := do
  match ← d.follow p with
  | .scalar none .plain text =>
    return if text.isEmpty || isNullWord text then none else some (String.ofList text)
  | .scalar (some tag) .plain text =>
    if tag = nullTag then (if isNullWord text then return none else failure)
    else return some (String.ofList text)
  | .scalar _ _ text => return some (String.ofList text)
  | _ => failure

/-- A scalar as a flag. -/
def Document.flag (d : Document) (p : Place) : Reading Bool := do
  match ← d.follow p with
  | .scalar tag style text =>
    if style = .plain || (style = .literal && tag = some flagTag) then
      match flagOfWord? text with
      | some b => return b
      | none => failure
    else failure
  | _ => failure

/-- How declarations are read from YAML. -/
def form (d : Document) : Form Reading Place where
  text := d.text
  flag := d.flag
  textOrAbsent := d.textOrAbsent
  items p := do
    match ← d.follow p, p.room with
    | .sequence items, room + 1 => return items.map fun content => ⟨content, room⟩
    | content, _ => if content.isVoid then return [] else failure
  record names p := do
    match ← d.follow p, p.room with
    | .mapping entries, room + 1 =>
      let members ← entries.mapM fun (key, value) => do
        return (← d.text ⟨key, room⟩, Place.mk value room)
      pickFields members names
    | content, _ => if content.isVoid then return names.map fun _ => none else failure

end ContractForge.Yaml
