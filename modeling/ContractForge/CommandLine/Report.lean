import ContractForge.Generation.Failure
import ContractForge.Loading

/-!
# Reports of failures

* `Failure` : why a command fails.
* `Failure.report` : the failure in words, with the causes below it. Several causes are numbered.
-/

namespace ContractForge.CommandLine

/-- Why a command fails. -/
inductive Failure where
  | unknownGenerator (text reason : String)
  | configuration (cause : LoadError)
  | declarations (source : String) (cause : LoadError)
  | pass (cause : GenerationError)
  | unresolved (path root : String)

/-- The failure itself in words, without its causes. -/
def Failure.message : Failure → String
  | unknownGenerator text reason => s!"Invalid generator '{text}': {reason}"
  | configuration _ => "Failed to load configuration"
  | declarations source _ => s!"Failed to load declarations from {source}"
  | pass _ => "Generation pass failed"
  | unresolved path root => s!"Resource '{path}' not found from {root}"

/-- The causes of a failed pass, outermost first. -/
def passCauses : GenerationError → List String
  | e@(.aborted _ cause) => e.message :: passCauses cause
  | e@(.io _ fault) => [e.message, fault.message]
  | e => [e.message]

/-- The causes of a failure to load, outermost first, and whether there are more of them than are
told: a reader of a format knows more than its name. -/
def loadCauses : LoadError → List String × Bool
  | e@(.io fault) => ([e.message, fault.message], false)
  | e@.yaml | e@.json | e@.toml => ([e.message], true)
  | e => ([e.message], false)

/-- The causes of a failure, outermost first, and whether there are more. -/
def Failure.causes : Failure → List String × Bool
  | configuration cause | declarations _ cause => loadCauses cause
  | pass cause => (passCauses cause, false)
  | unknownGenerator .. | unresolved .. => ([], false)

/-- A text with its later lines set in. -/
def hang (margin text : String) : String :=
  ("\n" ++ margin).intercalate ((Text.segments '\n' text.toList).map String.ofList)

/-- A text set flush right in five columns. -/
def flushRight (text : String) : String :=
  String.ofList (List.replicate (5 - text.length) ' ') ++ text

/-- The causes of a failure, one below the other. -/
def causeLines (causes : List String) (isNumbered : Bool) : List String :=
  causes.mapIdx fun k cause =>
    if isNumbered then flushRight (toString k) ++ ": " ++ hang "       " cause
    else "    " ++ hang "    " cause

/-- The failure and its causes in words. -/
def Failure.report (f : Failure) : String :=
  let (causes, hasMore) := f.causes
  "Error: " ++ f.message ++
    if causes.isEmpty then ""
    else "\n\nCaused by:\n" ++ "\n".intercalate (causeLines causes (hasMore || 1 < causes.length))

end ContractForge.CommandLine
