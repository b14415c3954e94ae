import ContractForge.Config
import ContractForge.Declaration.Reading
import ContractForge.Declaration.Validation
import ContractForge.Files.Tree
import ContractForge.Json.Form
import ContractForge.Toml.Form
import ContractForge.Yaml.Form

/-!
# Loading manifests and configurations

* `Manifest.parse` : the declarations of a manifest text. The name of its source tells whether it is
  JSON or YAML; where it does not, JSON is tried before YAML.
* `Config.parse` : the settings of a TOML text.
* `Manifest.load`, `Config.load` : the same from a file.

What is loaded has been validated.
-/

namespace ContractForge

/-- Why a manifest or a configuration cannot be loaded. -/
inductive LoadError where
  | io (fault : FileFault)
  | yaml
  | json
  | toml
  /-- The text is no manifest in any format. -/
  | noManifest (source : String)
  | declaration (fault : DeclarationFault)
  | config (fault : ConfigFault)

def LoadError.message : LoadError → String
  | io fault => "I/O error: " ++ fault.message
  | yaml => "YAML parsing error"
  | json => "JSON parsing error"
  | toml => "TOML parsing error"
  | noManifest source => s!"Declaration error: Failed to parse {source}"
  | declaration fault => "Declaration error: " ++ fault.message
  | config fault => "Configuration error: " ++ fault.message

namespace Manifest

/-- The declarations of a JSON text. -/
def ofJson? (text : String) : Option DeclarationSet := do
  let value ← Json.Value.parse? text
  DeclarationSet.read Json.form ⟨value, Json.nestingLimit⟩

/-- The declarations of a YAML text. -/
def ofYaml? (text : String) : Option DeclarationSet := do
  let document ← Yaml.Document.ofNode? (← Yaml.Node.parse? text)
  (DeclarationSet.read (Yaml.form document) ⟨document.root, Yaml.nestingLimit⟩).run'
    (document.events * Yaml.aliasesPerEvent)

/-- A text ends with a given extension. -/
def hasExtension (source extension : String) : Bool :=
  extension.toList.isSuffixOf source.toList

/-- The declarations of a text, in the format that its source asks for. -/
def read (source content : String) : Except LoadError DeclarationSet :=
  if hasExtension source ".json" then
    match ofJson? content with
    | some set => .ok set
    | none => .error .json
  else if hasExtension source ".yaml" || hasExtension source ".yml" then
    match ofYaml? content with
    | some set => .ok set
    | none => .error .yaml
  else
    match ofJson? content <|> ofYaml? content with
    | some set => .ok set
    | none => .error (.noManifest source)

/-- The valid declarations of a text. -/
def parse (source content : String) : Except LoadError DeclarationSet :=
  match read source content with
  | .error e => .error e
  | .ok set =>
    match set.validate with
    | .error fault => .error (.declaration fault)
    | .ok () => .ok set

section Parse

variable {source content : String} {set : DeclarationSet}

/-- What cannot be read has no fault yet. -/
theorem read_ne_declaration (fault : DeclarationFault) :
    read source content ≠ .error (.declaration fault) := by
  unfold read
  intro h
  split at h
  next => split at h <;> cases h
  next =>
    split at h
    next => split at h <;> cases h
    next => split at h <;> cases h

theorem parse_eq_ok_iff :
    parse source content = .ok set ↔ read source content = .ok set ∧ set.validate = .ok () := by
  unfold parse
  cases hread : read source content with
  | error e => simp
  | ok other =>
    by_cases hsame : other = set
    · subst hsame
      cases hvalid : other.validate <;> simp [hvalid]
    · cases hvalid : other.validate <;> simp [hvalid, hsame]

theorem parse_eq_declaration_iff {fault : DeclarationFault} :
    parse source content = .error (.declaration fault) ↔
      ∃ set, read source content = .ok set ∧ set.validate = .error fault := by
  unfold parse
  cases hread : read source content with
  | error e =>
    have hne : e ≠ .declaration fault := by
      rintro rfl
      exact read_ne_declaration fault hread
    simpa using hne
  | ok other => cases hvalid : other.validate <;> simp [hvalid]

end Parse

/-- The valid declarations of a file. -/
def load (t : FileTree) (path : String) : Except LoadError DeclarationSet :=
  match t.readText path with
  | .error fault => .error (.io fault)
  | .ok content => parse path content

end Manifest

namespace RuntimeNames

/-- The names given by a record; the ones left out keep their defaults. -/
def read (item : Toml.Item) : Option RuntimeNames := do
  let names ← Toml.form.record
    ["promise", "remote_service", "http_request", "http_method", "type_literal", "function",
      "content_type", "inject", "nullable"] item
  match names with
  | [promise, remoteService, httpRequest, httpMethod, typeLiteral, function, contentType, inject,
      nullable] =>
    let standard : RuntimeNames := {}
    let text (default : String) (field : Option Toml.Item) : Option String :=
      Form.optional default Toml.form.text field
    return {
      promise := ← text standard.promise promise
      remoteService := ← text standard.remoteService remoteService
      httpRequest := ← text standard.httpRequest httpRequest
      httpMethod := ← text standard.httpMethod httpMethod
      typeLiteral := ← text standard.typeLiteral typeLiteral
      function := ← text standard.function function
      contentType := ← text standard.contentType contentType
      inject := ← text standard.inject inject
      nullable := ← text standard.nullable nullable }
  | _ => none

end RuntimeNames

namespace Config

/-- The only field of a section, or its default. -/
def readSection {α : Type} (name : String) (default : α) (read : Toml.Item → Option α)
    (item : Toml.Item) : Option α := do
  match ← Toml.form.record [name] item with
  | [field] => Form.optional default read field
  | _ => none

/-- The settings given by a root table; the ones left out keep their defaults. -/
def read (root : Toml.Item) : Option Config := do
  let standard : Config := {}
  match ← Toml.form.record ["locator", "embedding", "messages", "runtime"] root with
  | [locator, embedding, messages, runtime] =>
    return {
      sourceLanguage := ← Form.optional standard.sourceLanguage
        (readSection "source_language" standard.sourceLanguage Toml.form.text) locator
      chunkSize := ← Form.optional standard.chunkSize
        (readSection "chunk_size" standard.chunkSize Toml.count) embedding
      messageSuffix := ← Form.optional standard.messageSuffix
        (readSection "suffix" standard.messageSuffix Toml.form.text) messages
      runtime := ← Form.optional standard.runtime RuntimeNames.read runtime }
  | _ => none

/-- The valid settings of a text. -/
def parse (text : String) : Except LoadError Config :=
  match Toml.parse? text >>= fun root => read root.toItem with
  | none => .error .toml
  | some config =>
    match config.validate with
    | .error fault => .error (.config fault)
    | .ok () => .ok config

/-- The valid settings of a file, or the defaults where no file is given. -/
def load (t : FileTree) : Option String → Except LoadError Config
  | none => .ok {}
  | some path =>
    match t.readText path with
    | .error fault => .error (.io fault)
    | .ok text => parse text

end Config
end ContractForge
