import ContractForge.Generation.Pass
import ContractForge.Resource.Embedding

/-!
# Resource accessors

Every method marked with a resource gives the content of a file back from an embedded class.
Methods that ask for one path in one encoding share the class, whichever contract they are in.

* `resourcePath` : the logical path that a marked method refers to.
* `ResourceCache` : the classes made so far in a pass, ordered by encoding and path. A path without
  a file is remembered too.
* `resources` : the generator. It makes one class for each contract, then the embedded classes.
-/

namespace ContractForge

/-- The logical path of a marker text, relative to a namespace. -/
def markerPath (space marker : String) : String :=
  let base := namespacePath space
  if base.isEmpty then Path.normalize marker else Path.normalize (base ++ "/" ++ marker)

/-- The logical path of the resource that a method of a contract refers to. -/
def resourcePath (c : Contract) (m : Method) : String :=
  markerPath c.space (m.markers.resource.getD "")

/-- What a cache is keyed by. -/
structure ResourceKey where
  encoding : Encoding
  path : String
  deriving DecidableEq

/-- The order of keys: raw before text, then by path. -/
def ResourceKey.before (a b : ResourceKey) : Bool :=
  match a.encoding, b.encoding with
  | .raw, .text => true
  | .text, .raw => false
  | _, _ => decide (a.path < b.path)

/-- Resources in the order of their keys; `none` stands for a path without a file. -/
abbrev ResourceCache := List (ResourceKey × Option EmbeddedResource)

namespace ResourceCache

/-- What is remembered of a key. -/
def find? (cache : ResourceCache) (key : ResourceKey) : Option (Option EmbeddedResource) :=
  (List.find? (·.1 == key) cache).map (·.2)

/-- A cache with one more key. -/
def insert (key : ResourceKey) (r : Option EmbeddedResource) : ResourceCache → ResourceCache
  | [] => [(key, r)]
  | x :: xs => if key.before x.1 then (key, r) :: x :: xs else x :: insert key r xs

end ResourceCache

/-- Embeds the file that a key's path resolves to. -/
def embed (context : PassContext) (key : ResourceKey) :
    Except GenerationError (Option EmbeddedResource) :=
  match context.locator.resolve context.files key.path with
  | none => .ok none
  | some file =>
    match context.files.read file with
    | .error fault => .error (.io file fault)
    | .ok content =>
      .ok (some
        { encoding := key.encoding
          space := EmbeddedResource.spaceFor key.path
          identifier := EmbeddedResource.identifierFor key.encoding (Path.fileName file)
          bytes := content.data.toList })

/-- The resource of a key, embedded unless the cache has it, and the cache that has it. -/
def ResourceCache.getOrEmbed (context : PassContext) (cache : ResourceCache) (key : ResourceKey) :
    Except GenerationError (Option EmbeddedResource × ResourceCache) :=
  match cache.find? key with
  | some r => .ok (r, cache)
  | none =>
    match embed context key with
    | .error e => .error e
    | .ok r => .ok (r, cache.insert key r)

/-- The only statement of an accessor. -/
def accessorStatement : Option EmbeddedResource → String
  | some r => "return " ++ r.accessor ++ ";"
  | none => "return null;"

/-- The accessor for one method. -/
def accessorMethod (context : PassContext) (cache : ResourceCache) (c : Contract) (m : Method) :
    Except GenerationError (Java.Method × ResourceCache) :=
  match Encoding.ofReturnType m.returns with
  | none => .error (.resourceType c.name m.name m.returns.sourceName)
  | some encoding =>
    match cache.getOrEmbed context ⟨encoding, resourcePath c m⟩ with
    | .error e => .error e
    | .ok (r, cache) => .ok (.overriding m [accessorStatement r], cache)

/-- The accessors for several methods. -/
def accessorMethods (context : PassContext) (cache : ResourceCache) (c : Contract) :
    List Method → Except GenerationError (List Java.Method × ResourceCache)
  | [] => .ok ([], cache)
  | m :: rest =>
    match accessorMethod context cache c m with
    | .error e => .error e
    | .ok (method, cache) =>
      match accessorMethods context cache c rest with
      | .error e => .error e
      | .ok (methods, cache) => .ok (method :: methods, cache)

/-- The class that implements the accessors of a contract. -/
def accessorClass (c : Contract) (methods : List Java.Method) : Java.Class where
  package := c.space
  name := c.implName
  implements := [c.name]
  methods

/-- The implementations of several contracts, and the cache after them. -/
def accessorArtifacts (context : PassContext) (cache : ResourceCache) :
    List Group → Except GenerationError (List Artifact × ResourceCache)
  | [] => .ok ([], cache)
  | g :: rest =>
    match accessorMethods context cache g.contract g.methods with
    | .error e => .error e
    | .ok (methods, cache) =>
      match accessorArtifacts context cache rest with
      | .error e => .error e
      | .ok (artifacts, cache) =>
        .ok (Artifact.ofClass (accessorClass g.contract methods) :: artifacts, cache)

/-- The classes of the resources that a cache holds, in the order of their keys. -/
def ResourceCache.artifacts (chunkSize : Nat) (cache : ResourceCache) : List Artifact :=
  cache.filterMap fun (_, r) => r.map (·.artifact chunkSize)

/-- Implements the resource-marked methods. -/
def resources : Generator where
  name := "resources"
  marker := .resource
  generate context groups :=
    match accessorArtifacts context [] groups with
    | .error e => .error e
    | .ok (artifacts, cache) => .ok (artifacts ++ cache.artifacts context.config.chunkSize)

end ContractForge
