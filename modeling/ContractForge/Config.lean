/-!
# Configuration

* `Config` : where resources are looked up, how they are embedded, which files hold messages, and
  the names of the runtime library that generated code calls. The field defaults are the settings
  that hold when nothing is configured.
* `Config.validate` : refuses the settings that no generator can work with.
-/

namespace ContractForge

/-- The names that generated service classes use. -/
structure RuntimeNames where
  /-- The wrapper that every service method returns. -/
  promise : String := "contractgen.runtime.Promise"
  /-- The type of the injected remote service. -/
  remoteService : String := "contractgen.runtime.RemoteService"
  /-- The request type; its builder is the nested type `Builder`. -/
  httpRequest : String := "contractgen.runtime.HttpRequest"
  /-- The enumeration of verbs. -/
  httpMethod : String := "contractgen.runtime.HttpMethod"
  /-- The factory of descriptors for generic types. -/
  typeLiteral : String := "contractgen.runtime.TypeLiteral"
  /-- The function type of the request interceptor. -/
  function : String := "java.util.function.Function"
  /-- The expression given as content type. -/
  contentType : String := "\"application/json; charset=utf-8\""
  /-- The annotation of the constructor. -/
  inject : String := "javax.inject.Inject"
  /-- The annotation of what may be null. -/
  nullable : String := "javax.annotation.Nullable"

/-- The settings of a pass. -/
structure Config where
  /-- The directory below `src/main` that is searched beside `resources`. -/
  sourceLanguage : String := "java"
  /-- The largest number of statements in one initializer unit. -/
  chunkSize : Nat := 1000
  /-- The end of the names of message files. -/
  messageSuffix : String := ".properties"
  runtime : RuntimeNames := {}

/-- A setting that no generator can work with. -/
inductive ConfigFault where
  | zeroChunkSize
  | emptySuffix
  | emptyLanguage
  deriving DecidableEq

def ConfigFault.message : ConfigFault → String
  | zeroChunkSize => "embedding.chunk_size must be greater than zero"
  | emptySuffix => "messages.suffix cannot be empty"
  | emptyLanguage => "locator.source_language cannot be empty"

/-- Refuses an empty unit, suffix or language, in this order. -/
def Config.validate (c : Config) : Except ConfigFault Unit :=
  if c.chunkSize = 0 then .error .zeroChunkSize
  else if c.messageSuffix = "" then .error .emptySuffix
  else if c.sourceLanguage = "" then .error .emptyLanguage
  else .ok ()

end ContractForge
