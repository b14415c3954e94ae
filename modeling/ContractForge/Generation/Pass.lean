import ContractForge.Files.Locator
import ContractForge.Generation.Artifact
import ContractForge.Generation.Discovery
import ContractForge.Generation.Failure

/-!
# Generation passes

* `Generator` : makes artifacts from the groups that carry its marker.
* `PassContext` : what every generator of a pass may read.
* `Sink` : takes artifacts one by one, and may refuse one.
* `runAll` : runs all generators, checks that no name was made twice, and only then writes. So a
  pass that fails before the first write leaves the sink as it was.
-/

namespace ContractForge

/-- What the generators of a pass may read. -/
structure PassContext where
  declarations : DeclarationSet
  locator : Locator
  config : Config
  files : FileTree

/-- Makes artifacts from the contracts that carry a marker. -/
structure Generator where
  name : String
  marker : Marker
  generate : PassContext → List Group → Except GenerationError (List Artifact)

/-- Takes artifacts under their qualified names. A refused write may still change the state. -/
structure Sink (σ : Type) where
  write : σ → String → Artifact → Except GenerationError Unit × σ

/-- The artifacts of one generator; its failure names it. -/
def Generator.run (g : Generator) (context : PassContext) :
    Except GenerationError (List Artifact) :=
  match g.generate context (discover context.declarations g.marker) with
  | .ok artifacts => .ok artifacts
  | .error cause => .error (.aborted g.name cause)

/-- The artifacts of all generators in order, or the failure of the first that fails. -/
def collect (context : PassContext) : List Generator → Except GenerationError (List Artifact)
  | [] => .ok []
  | g :: rest =>
    match g.run context with
    | .error e => .error e
    | .ok artifacts =>
      match collect context rest with
      | .error e => .error e
      | .ok further => .ok (artifacts ++ further)

/-- The first name that occurred before, in the list or among those `seen`. -/
def firstRepeated? (seen : List String) : List String → Option String
  | [] => none
  | name :: rest => if name ∈ seen then some name else firstRepeated? (name :: seen) rest

/-- Writes artifacts in order, up to the first that is refused. -/
def writeAll {σ : Type} (sink : Sink σ) (state : σ) :
    List Artifact → Except GenerationError Unit × σ
  | [] => (.ok (), state)
  | a :: rest =>
    match sink.write state a.qualifiedName a with
    | (.ok (), state) => writeAll sink state rest
    | (.error e, state) => (.error e, state)

/-- Runs generators and writes what they make. The result lists the names written, in order. -/
def runAll {σ : Type} (context : PassContext) (generators : List Generator) (sink : Sink σ)
    (state : σ) : Except GenerationError (List String) × σ :=
  match collect context generators with
  | .error e => (.error e, state)
  | .ok artifacts =>
    let names := artifacts.map (·.qualifiedName)
    match firstRepeated? [] names with
    | some name => (.error (.repeatedArtifact name), state)
    | none =>
      match writeAll sink state artifacts with
      | (.error e, state) => (.error e, state)
      | (.ok (), state) => (.ok names, state)

end ContractForge
