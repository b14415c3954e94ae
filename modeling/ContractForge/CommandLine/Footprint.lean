import ContractForge.CommandLine.Run

/-!
# What a run looks at

A run is carried out on a tree that holds only the part of a file system that the run looks at.

* `Place` : an entry, a directory with what is in it, or a directory with everything below it.
* `inputs` : the places that the arguments name.
* `searched` : the places at which resources are looked for, once the inputs are in the tree.
* `changes` : what is new in the tree that a run leaves.
-/

namespace ContractForge.CommandLine

/-- A part of a file system. -/
inductive Place where
  | entry (path : String)
  | listing (directory : String)
  | below (directory : String)

/-- The places that a request names. -/
def inputs : Request → List Place
  | .generate r =>
    .entry r.declarations :: .below r.outputDir :: (r.config.map Place.entry).toList
  | .resolve r => (r.config.map Place.entry).toList
  | .help | .version => []

/-- The places at which the resources of a pass are looked for. -/
def resourcePlaces (context : PassContext) : List Place :=
  (discover context.declarations .resource).flatMap fun g =>
    g.methods.flatMap fun m =>
      (context.locator.candidates (resourcePath g.contract m)).map Place.entry

/-- The directories in which the message files of a pass are looked for. -/
def messagePlaces (context : PassContext) : List Place :=
  (discover context.declarations .messages).flatMap fun g =>
    (context.locator.candidates (basePath g.contract context.config.messageSuffix)).filterMap
      fun file => (Path.parent? file).map Place.listing

/-- The places at which a request looks for resources, given a tree that holds its inputs. -/
def searched (t : FileTree) : Request → List Place
  | .generate r =>
    match prepare t r with
    | .ok (context, _) => resourcePlaces context ++ messagePlaces context
    | .error _ => []
  | .resolve r =>
    match Config.load t r.config with
    | .ok config => ((Locator.start t r.searchRoot config).candidates r.path).map Place.entry
    | .error _ => []
  | .help | .version => []

/-- The entry differs from what a tree holds at its location. -/
def isNew (t : FileTree) (l : Location) (e : Entry) : Bool :=
  match t.find? l, e with
  | some .directory, .directory => false
  | some (.file old), .file new => old != new
  | _, _ => true

/-- The entries in which a tree differs from an earlier one, in the order in which they came. -/
def changes (before after : FileTree) : List (Location × Entry) :=
  after.entries.filter fun (l, e) => isNew before l e

end ContractForge.CommandLine
