import ContractForge.Generation.Pass
import ContractForge.Message.Properties
import ContractForge.Message.Template

/-!
# Message bundles

A contract marked for messages is implemented once for each locale. The locales are the files beside
the base file of the contract whose names begin with its simple name and end with the suffix.

* `Variant` : a message file and the part of its name that tells the locale.
* `variantsAmong` : the variants among the files of a directory, ordered by file name.
* `bundleMethod` : a method that returns its message; the message must be there.
* `messages` : the generator. A contract without a base file is passed over.
-/

namespace ContractForge

/-- A message file and its part of the name between simple name and suffix. -/
structure Variant where
  path : String
  locale : String

/-- The part of a file name between a beginning and an end that do not overlap. -/
def localePart? (simpleName suffix fileName : String) : Option String := do
  let rest ← Text.stripStart? simpleName.toList fileName.toList
  String.ofList <$> Text.stripEnd? suffix.toList rest

/-- The variants among the files of a directory, ordered by file name. -/
def variantsAmong (directory simpleName suffix : String) (fileNames : List String) :
    List Variant :=
  (fileNames.mergeSort (· ≤ ·)).filterMap fun name =>
    (localePart? simpleName suffix name).map fun locale => ⟨Path.join directory name, locale⟩

/-- The variants beside a base file. -/
def localeVariants (t : FileTree) (baseFile simpleName suffix : String) :
    Except GenerationError (List Variant) :=
  match Path.parent? baseFile with
  | none => .ok []
  | some directory =>
    match t.list directory with
    | .error fault => .error (.io directory fault)
    | .ok names =>
      .ok (variantsAmong directory simpleName suffix
        (names.filter fun name => t.isFile (Path.join directory name)))

/-- The logical path of the base file of a contract. -/
def basePath (c : Contract) (suffix : String) : String :=
  namespacePath c.name ++ suffix

/-- The method that returns a message of a variant. -/
def bundleMethod (c : Contract) (v : Variant) (texts : Properties) (m : Method) :
    Except GenerationError Java.Method :=
  match texts.find? m.name with
  | some template =>
    .ok (.overriding m ["return " ++ Template.expression (m.params.map (·.name)) template ++ ";"])
  | none => .error (.missingMessage c.name m.name v.path)

/-- The class that implements a contract for a variant. -/
def bundleClass (c : Contract) (v : Variant) (methods : List Java.Method) : Java.Class where
  package := c.space
  name := c.implName ++ v.locale
  implements := [c.name]
  methods

/-- The implementation for one variant. -/
def bundleArtifact (context : PassContext) (g : Group) (v : Variant) :
    Except GenerationError Artifact :=
  match context.files.read v.path with
  | .error fault => .error (.io v.path fault)
  | .ok bytes => do
    let texts := Properties.parse (Properties.decode bytes)
    let methods ← g.methods.mapM (bundleMethod g.contract v texts)
    return .ofClass (bundleClass g.contract v methods)

/-- The implementations of one contract, none if its base file is missing. -/
def bundleArtifacts (context : PassContext) (g : Group) : Except GenerationError (List Artifact) :=
  let suffix := context.config.messageSuffix
  match context.locator.resolve context.files (basePath g.contract suffix) with
  | none => .ok []
  | some baseFile => do
    let variants ← localeVariants context.files baseFile g.contract.simpleName suffix
    variants.mapM (bundleArtifact context g)

/-- Implements the message contracts. -/
def messages : Generator where
  name := "messages"
  marker := .messages
  generate context groups := do
    return (← groups.mapM (bundleArtifacts context)).flatten

end ContractForge
