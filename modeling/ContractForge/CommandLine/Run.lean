import ContractForge.CommandLine.Arguments
import ContractForge.CommandLine.Report
import ContractForge.Generation.Selection
import ContractForge.Generation.Sinks

/-!
# Commands

`CommandLine.run` carries out the request of some arguments on a file tree. The outcome has the exit
code, what is printed, the report of a failure, and the tree as it is left.
-/

namespace ContractForge.CommandLine

/-- What a run comes to. -/
structure Outcome where
  exitCode : Nat
  output : String := ""
  report : Option String := none
  files : FileTree

/-- The pass that a request asks for, with its generators. -/
def prepare (t : FileTree) (r : GenerateRequest) :
    Except Failure (PassContext × List Generator) :=
  match Selection.parse? r.generator with
  | none => .error (.unknownGenerator r.generator (Selection.unknownMessage r.generator))
  | some selection =>
    match Config.load t r.config with
    | .error cause => .error (.configuration cause)
    | .ok config =>
      match Manifest.load t r.declarations with
      | .error cause => .error (.declarations r.declarations cause)
      | .ok declarations =>
        .ok ({ declarations, config, locator := .start t r.searchRoot config, files := t },
          selection.generators)

/-- The line that tells how many files were generated. -/
def summaryLine (count : Nat) (outputDir : String) : String :=
  s!"Generated {count} source file(s) in {outputDir}\n"

/-- Generates, and lists the names or writes the files. -/
def generate (t : FileTree) (r : GenerateRequest) : Except Failure String × FileTree :=
  match prepare t r with
  | .error f => (.error f, t)
  | .ok (context, generators) =>
    if r.dryRun then
      match runAll context generators MemorySink.sink {} with
      | (.error e, _) => (.error (.pass e), t)
      | (.ok _, memory) => (.ok (String.join (memory.names.map (· ++ "\n"))), t)
    else
      match runAll context generators (FileSink.sink { root := r.outputDir }) t with
      | (.error e, t) => (.error (.pass e), t)
      | (.ok names, t) => (.ok (summaryLine names.length r.outputDir), t)

/-- Finds the file for a logical path. -/
def resolve (t : FileTree) (r : ResolveRequest) : Except Failure String :=
  match Config.load t r.config with
  | .error cause => .error (.configuration cause)
  | .ok config =>
    let locator := Locator.start t r.searchRoot config
    match locator.resolve t r.path with
    | some file => .ok (file ++ "\n")
    | none => .error (.unresolved r.path locator.root)

/-- The text that explains the command line. -/
def helpText : String :=
  "\n".intercalate
    ["Generate implementation sources from marker-annotated service contracts",
      "",
      "Usage: contractgen [--verbose] generate --declarations <FILE> [--output-dir <DIR>]",
      "                   [--search-root <DIR>] [--config <FILE>] [--generator <NAME>] [--dry-run]",
      "       contractgen [--verbose] resolve <PATH> [--search-root <DIR>] [--config <FILE>]",
      ""]

/-- The outcome of a command that printed something or failed. -/
def Outcome.of (result : Except Failure String) (files : FileTree) : Outcome :=
  match result with
  | .ok output => { exitCode := 0, output, files }
  | .error f => { exitCode := 1, report := some f.report, files }

/-- Carries out what the arguments ask for. -/
def run (t : FileTree) (args : List String) : Outcome :=
  match Request.parse args with
  | .error .usage => { exitCode := 2, files := t }
  | .ok .help => { exitCode := 0, output := helpText, files := t }
  | .ok .version => { exitCode := 0, output := "contractgen 0.1.0\n", files := t }
  | .ok (.generate r) => .of (generate t r).1 (generate t r).2
  | .ok (.resolve r) => .of (resolve t r) t

end ContractForge.CommandLine
