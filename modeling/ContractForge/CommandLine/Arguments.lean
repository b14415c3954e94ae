/-!
# Arguments of the command line

`Request.parse` reads the arguments: a subcommand with its options. `--verbose` may stand before or
after the subcommand, `--version` only before it. An option is given once at most, as `--name value`
or `--name=value`, and `--` ends the options. One-letter flags may be joined, as in `-vV`. The first
call for help or for the version settles the request, whatever follows it.
-/

namespace ContractForge.CommandLine

/-- What `generate` is asked to do. -/
structure GenerateRequest where
  declarations : String
  outputDir : String := "generated"
  searchRoot : String := "."
  config : Option String := none
  generator : String := "all"
  dryRun : Bool := false
  deriving DecidableEq

/-- What `resolve` is asked to do. -/
structure ResolveRequest where
  path : String
  searchRoot : String := "."
  config : Option String := none
  deriving DecidableEq

/-- What the arguments ask for. -/
inductive Request where
  | generate (request : GenerateRequest)
  | resolve (request : ResolveRequest)
  | help
  | version
  deriving DecidableEq

/-- The arguments make no request. -/
inductive UsageError where
  | usage
  deriving DecidableEq

/-- The options of a subcommand. -/
structure Options where
  /-- The names of the options with a value; an empty value is refused where the flag is set. -/
  valued : List (String × Bool)
  flags : List String
  /-- How many arguments that are no options are taken. -/
  positionals : Nat
  /-- The version can be asked for. -/
  hasVersion : Bool := false

/-- What has been read of the arguments of a subcommand. -/
structure Given where
  values : List (String × String) := []
  flags : List String := []
  positionals : List String := []

namespace Given

def value? (g : Given) (name : String) : Option String :=
  (g.values.find? (·.1 == name)).map (·.2)

/-- Takes a flag, which must be new. -/
def addFlag? (g : Given) (name : String) : Option Given :=
  if name ∈ g.flags then none else some { g with flags := name :: g.flags }

/-- Takes the value of an option, which must be new. -/
def addValue? (o : Options) (g : Given) (name value : String) : Option Given :=
  if (g.value? name).isSome || (value = "" && o.valued.contains (name, true)) then none
  else some { g with values := (name, value) :: g.values }

/-- Takes an argument that is no option. -/
def addPositional? (o : Options) (g : Given) (arg : String) : Option Given :=
  if g.positionals.length < o.positionals then
    some { g with positionals := g.positionals ++ [arg] }
  else none

end Given

/-- The name of a long option and the value that is attached to it. -/
def splitLong (arg : List Char) : String × Option String :=
  match arg.span (· ≠ '=') with
  | (name, _ :: value) => (String.ofList name, some (String.ofList value))
  | (name, []) => (String.ofList name, none)

/-- The argument is an option, or the end of options, by its looks. -/
def looksLikeOption (arg : String) : Bool :=
  match arg.toList with
  | '-' :: _ :: _ => true
  | _ => false

/-- What reading comes to: the options given, a call for help or for the version, or neither. -/
inductive Reading where
  | given (g : Given)
  | help
  | version
  | refused

/-- Reads the letters of a cluster of one-letter flags. -/
def readShort (o : Options) (g : Given) : List Char → Reading
  | [] => .given g
  | 'h' :: _ => .help
  | 'V' :: _ => if o.hasVersion then .version else .refused
  | 'v' :: rest =>
    match g.addFlag? "verbose" with
    | some g => readShort o g rest
    | none => .refused
  | _ => .refused

/-- Reads the arguments of a subcommand. -/
def readOptions (o : Options) (g : Given) : List String → Reading
  | [] => .given g
  | arg :: rest =>
    match arg.toList with
    | ['-', '-'] =>
      match rest.foldlM (Given.addPositional? o) g with
      | some g => .given g
      | none => .refused
    | '-' :: '-' :: long =>
      let (name, attached) := splitLong long
      if name = "help" && attached.isNone then .help
      else if name = "version" && attached.isNone && o.hasVersion then .version
      else if name ∈ o.flags then
        match attached, g.addFlag? name with
        | none, some g => readOptions o g rest
        | _, _ => .refused
      else if o.valued.any (·.1 == name) then
        match attached, rest with
        | some value, rest =>
          match g.addValue? o name value with
          | some g => readOptions o g rest
          | none => .refused
        | none, value :: rest =>
          if looksLikeOption value then .refused
          else
            match g.addValue? o name value with
            | some g => readOptions o g rest
            | none => .refused
        | none, [] => .refused
      else .refused
    | '-' :: c :: short =>
      match readShort o g (c :: short) with
      | .given g => readOptions o g rest
      | other => other
    | _ =>
      match g.addPositional? o arg with
      | some g => readOptions o g rest
      | none => .refused

/-- The options of `generate`. -/
def generateOptions : Options where
  valued :=
    [("declarations", true), ("output-dir", true), ("search-root", true), ("config", true),
      ("generator", false)]
  flags := ["dry-run", "verbose"]
  positionals := 0

/-- The options of `resolve`. -/
def resolveOptions : Options where
  valued := [("search-root", true), ("config", true)]
  flags := ["verbose"]
  positionals := 1

/-- The request of the options given to `generate`. -/
def generateRequest? (g : Given) : Option Request := do
  let declarations ← g.value? "declarations"
  return .generate {
    declarations
    outputDir := (g.value? "output-dir").getD "generated"
    searchRoot := (g.value? "search-root").getD "."
    config := g.value? "config"
    generator := (g.value? "generator").getD "all"
    dryRun := g.flags.contains "dry-run" }

/-- The request of the options given to `resolve`. -/
def resolveRequest? (g : Given) : Option Request := do
  let path ← g.positionals.head?
  return .resolve {
    path
    searchRoot := (g.value? "search-root").getD "."
    config := g.value? "config" }

/-- The request of a subcommand with its arguments. -/
def Request.ofSubcommand (options : Options) (request? : Given → Option Request)
    (args : List String) : Except UsageError Request :=
  match readOptions options {} args with
  | .help => .ok .help
  | .version => .ok .version
  | .refused => .error .usage
  | .given g =>
    match request? g with
    | some request => .ok request
    | none => .error .usage

/-- The names of the subcommands. -/
def subcommands : List String :=
  ["generate", "resolve", "help"]

/-- The flags before a subcommand. -/
def commonOptions : Options where
  valued := []
  flags := ["verbose"]
  positionals := 0
  hasVersion := true

/-- The request of a subcommand with its arguments, by its name. -/
def Request.ofNamed (name : String) (args : List String) : Except UsageError Request :=
  match name, args with
  | "generate", args => ofSubcommand generateOptions generateRequest? args
  | "resolve", args => ofSubcommand resolveOptions resolveRequest? args
  | "help", [] => .ok .help
  | "help", [topic] => if topic ∈ subcommands then .ok .help else .error .usage
  | _, _ => .error .usage

/-- Reads the flags before the subcommand, of which some are given already. -/
def Request.parseFrom (g : Given) : List String → Except UsageError Request
  | [] | "--" :: _ => .error .usage
  | arg :: rest =>
    if looksLikeOption arg then
      match readOptions commonOptions g [arg] with
      | .given g => parseFrom g rest
      | .help => .ok .help
      | .version => .ok .version
      | .refused => .error .usage
    else ofNamed arg rest

/-- The request that arguments make. -/
def Request.parse (args : List String) : Except UsageError Request :=
  parseFrom {} args

end ContractForge.CommandLine
