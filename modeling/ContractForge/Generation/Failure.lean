import ContractForge.Files.Tree
import ContractForge.Text.Quoted

/-!
# Failures of a pass

* `GenerationError` : why a pass fails, one constructor for each cause.
* `GenerationError.message` : the cause in words.
* `GenerationError.rootCause` : the cause below all the generators that it aborted.
-/

namespace ContractForge

/-- Why a pass fails. -/
inductive GenerationError where
  | resourceType (contract method found : String)
  | noVerb (contract method : String)
  | severalVerbs (contract method : String) (verbs : List String)
  | unknownVerb (contract method verb : String)
  | tooManyParameters (contract method : String) (count : Nat)
  | notEventual (contract method expected found : String)
  | unresolvedType (contract method type : String)
  | missingMessage (contract key file : String)
  | repeatedArtifact (name : String)
  | rendering (reason : String)
  | io (path : String) (fault : FileFault)
  | aborted (generator : String) (cause : GenerationError)
  deriving DecidableEq

namespace GenerationError

/-- The cause in words. -/
def message : GenerationError → String
  | resourceType contract method found =>
    s!"Invalid return type for resource {contract}.{method}: {found}. It must be byte[] or String"
  | noVerb contract method =>
    s!"Service method {contract}.{method} must be annotated with one HTTP method: " ++
      "GET, POST, PUT, DELETE, HEAD"
  | severalVerbs contract method verbs =>
    s!"Service method {contract}.{method} declares more than one HTTP method: " ++
      Text.quotedList verbs
  | unknownVerb contract method verb =>
    s!"Service method {contract}.{method} uses unrecognized HTTP method {verb}"
  | tooManyParameters contract method count =>
    s!"Service method {contract}.{method} must have 0 or 1 parameters, found {count}"
  | notEventual contract method expected found =>
    s!"Service method {contract}.{method} must return {expected}<T>, found {found}"
  | unresolvedType contract method type =>
    s!"No declaration found for type {type} used by {contract}.{method}"
  | missingMessage contract key file => s!"Missing message '{key}' for {contract} in {file}"
  | repeatedArtifact name => s!"Artifact {name} generated more than once"
  | rendering reason => s!"Render error: {reason}"
  | io path fault => s!"IO error on {path}: " ++ fault.message
  | aborted generator cause => s!"Generator '{generator}' failed: " ++ cause.message

/-- The cause below all aborted generators. -/
def rootCause : GenerationError → GenerationError
  | aborted _ cause => cause.rootCause
  | e => e

/-- No abort is left in a root cause. -/
theorem rootCause_ne_aborted (e : GenerationError) (generator : String) (cause : GenerationError) :
    e.rootCause ≠ aborted generator cause := by
  induction e with
  | aborted _ _ ih => simpa [rootCause] using ih
  | _ => simp [rootCause]

end GenerationError
end ContractForge
