import ContractForge.CommandLine.Run
import ContractForge.Proofs.CommandLine.Arguments
import ContractForge.Proofs.Generation.Rehearsal

/-!
# Dry runs

* `handed` : the names that a real run hands to its sink, whether or not they are taken.
* `Predicts` : what a dry run tells about the real run.

Only a write that is refused tells the two apart (`dryRun_predicts`). Then the dry run has printed the
names of all artifacts, and the real run has stopped at one of them (`blockedWrite_stops`).
-/

namespace ContractForge.CommandLine

/-- The command failed because a file could not be written. -/
def Failure.IsWrite : Failure → Prop
  | .pass e => e.IsWrite
  | _ => False

/-- The sink of a request that is carried out. -/
def GenerateRequest.sink (r : GenerateRequest) : FileSink where
  root := r.outputDir

/-- The names that the real run of a request hands to its sink, whether or not they are taken. -/
def handed (t : FileTree) (r : GenerateRequest) : List String :=
  match prepare t r with
  | .error _ => []
  | .ok (context, generators) =>
    (runAll context generators r.sink.sink.recording (t, [])).2.2.map (·.qualifiedName)

/-- Names, one a line. -/
def nameLines (names : List String) : String :=
  String.join (names.map (· ++ "\n"))

/-- What is told of a pass: why it failed, or its names in print. -/
def tell (print : List String → String) :
    Except GenerationError (List String) → Except Failure String
  | .error e => .error (.pass e)
  | .ok names => .ok (print names)

/-- What the names tell that a dry run printed: the real run hands them all over and writes no other
files, or it hands them over up to the first that cannot be written. -/
structure CarriesOut (t : FileTree) (real : GenerateRequest) (names : List String) : Prop where
  complete : ∀ line, (generate t real).1 = .ok line →
    handed t real = names ∧ line = summaryLine names.length real.outputDir ∧
      (∀ l, (∀ name ∈ names, l ≠ real.sink.place t name) →
        (generate t real).2.content? l = t.content? l) ∧
      ∀ name ∈ names, ∃ content,
        (generate t real).2.content? (real.sink.place t name) = some content
  stopped : ∀ f, (generate t real).1 = .error f →
    f.IsWrite ∧ ∃ before name after, names = before ++ name :: after ∧
      handed t real = before ++ [name]

/-- What a dry run tells about the real run. -/
structure Predicts (t : FileTree) (dry real : GenerateRequest) : Prop where
  unchanged : (generate t dry).2 = t
  /-- The dry run fails as the real run does, but not where a file cannot be written. -/
  error_iff : ∀ f, (generate t dry).1 = .error f ↔ (generate t real).1 = .error f ∧ ¬f.IsWrite
  /-- Where the dry run fails, the real run changes nothing either. -/
  untouched : ∀ f, (generate t dry).1 = .error f → (generate t real).2 = t ∧ handed t real = []
  printed : ∀ output, (generate t dry).1 = .ok output →
    ∃ names, output = nameLines names ∧ CarriesOut t real names

variable {t : FileTree} {r : GenerateRequest}

theorem not_isWrite_of_prepare {f : Failure} (h : prepare t r = .error f) : ¬f.IsWrite := by
  unfold prepare at h
  split at h
  next =>
    cases h
    exact id
  next =>
    split at h
    next =>
      cases h
      exact id
    next =>
      split at h
      next =>
        cases h
        exact id
      next => cases h

section

variable {context : PassContext} {generators : List Generator}

theorem generate_dry (hprepare : prepare t r = .ok (context, generators)) (hdry : r.dryRun = true) :
    generate t r = (tell nameLines (runAll context generators MemorySink.sink {}).1, t) := by
  rw [generate, hprepare]
  dsimp only
  rw [if_pos hdry]
  rcases hrun : runAll context generators MemorySink.sink {} with ⟨e | names, memory⟩
  · rfl
  · obtain ⟨artifacts, -, -, rfl, hmemory⟩ := runAll_memory_eq_ok_iff.mp hrun
    simp [tell, nameLines, MemorySink.names, hmemory, Function.comp_def]

theorem generate_real (hprepare : prepare t r = .ok (context, generators))
    (hreal : r.dryRun = false) :
    generate t r = (tell (summaryLine ·.length r.outputDir)
        (runAll context generators r.sink.sink t).1,
      (runAll context generators r.sink.sink t).2) := by
  rw [generate, hprepare]
  dsimp only
  rw [if_neg (by simp [hreal]), GenerateRequest.sink]
  rcases runAll context generators (FileSink.sink { root := r.outputDir }) t with ⟨e | names, final⟩
  · rfl
  · rfl

end

theorem predicts_of_fails {dry real : GenerateRequest} {f : Failure}
    (hdry : generate t dry = (.error f, t)) (hreal : generate t real = (.error f, t))
    (hwrite : ¬f.IsWrite) (hhanded : handed t real = []) : Predicts t dry real where
  unchanged := by rw [hdry]
  error_iff f' := by
    rw [hdry, hreal, iff_self_and]
    intro h
    obtain rfl := Except.error.inj h
    exact hwrite
  untouched _ _ := ⟨by rw [hreal], hhanded⟩
  printed output h := by
    rw [hdry] at h
    cases h

theorem predicts_of_prints {dry real : GenerateRequest} {names : List String}
    (hdry : generate t dry = (.ok (nameLines names), t))
    (hreal : CarriesOut t real names) : Predicts t dry real where
  unchanged := by rw [hdry]
  error_iff f := by
    rw [hdry]
    constructor
    · intro h
      cases h
    · rintro ⟨h, hwrite⟩
      exact absurd (hreal.stopped f h).1 hwrite
  untouched f h := by
    rw [hdry] at h
    cases h
  printed output h := by
    rw [hdry] at h
    exact ⟨names, (Except.ok.inj h).symm, hreal⟩

theorem predicts_of_rehearsed {dry real : GenerateRequest}
    {result result' : Except GenerationError (List String)} {final : FileTree} {names : List String}
    (hdry : generate t dry = (tell nameLines result, t))
    (hreal : generate t real = (tell (summaryLine ·.length real.outputDir) result', final))
    (hhanded : handed t real = names)
    (hrehearsed : Rehearsed real.sink t result result' final names) : Predicts t dry real := by
  cases hrehearsed with
  | fails hwrite => exact predicts_of_fails hdry hreal hwrite hhanded
  | @refused before after name e _ hwrite =>
    refine predicts_of_prints hdry ⟨fun line h => ?_, fun f h => ?_⟩
    · rw [hreal] at h
      cases h
    · rw [hreal] at h
      obtain rfl := Except.error.inj h
      exact ⟨hwrite, before, name, after, rfl, hhanded⟩
  | complete hothers hfiles =>
    refine predicts_of_prints hdry ⟨fun line h => ?_, fun f h => ?_⟩
    · rw [hreal] at h ⊢
      exact ⟨hhanded, (Except.ok.inj h).symm, hothers, hfiles⟩
    · rw [hreal] at h
      cases h

theorem predicts (t : FileTree) (r : GenerateRequest) :
    Predicts t { r with dryRun := true } { r with dryRun := false } := by
  rcases hprepare : prepare t r with f | ⟨context, generators⟩
  · have hgenerate : ∀ dryRun, generate t { r with dryRun } = (.error f, t) := by
      intro dryRun
      rw [generate, show prepare t { r with dryRun } = .error f from hprepare]
    have hhanded : handed t { r with dryRun := false } = [] := by
      rw [handed, show prepare t { r with dryRun := false } = .error f from hprepare]
    exact predicts_of_fails (hgenerate true) (hgenerate false) (not_isWrite_of_prepare hprepare)
      hhanded
  · obtain ⟨received, houtcome⟩ := outcome_of_runAll
      (rfl : runAll context generators r.sink.sink t = (_, _))
    have hrecorded := runAll_of_outcome (outcome_recording_iff.mpr ⟨houtcome, rfl⟩)
    have hhanded : handed t { r with dryRun := false } = received.map (·.qualifiedName) := by
      rw [handed, show prepare t { r with dryRun := false } = .ok (context, generators) from hprepare]
      exact congrArg (fun x => x.2.2.map (·.qualifiedName)) hrecorded
    exact predicts_of_rehearsed (generate_dry hprepare rfl) (generate_real hprepare rfl) hhanded
      (rehearsed_of_outcome houtcome)

theorem run_eq_of_parse {args : List String} (hparse : Request.parse args = .ok (.generate r)) :
    run t args = .of (generate t r).1 (generate t r).2 := by
  rw [run, hparse]

theorem files_of (result : Except Failure String) (t : FileTree) :
    (Outcome.of result t).files = t := by
  cases result with
  | error f => rfl
  | ok output => rfl

/-- **A dry run predicts the real run.** On any tree, with any command line that asks to generate: with
the flag the tree is left alone, and all that can go wrong without it goes wrong in the same way, but
for a file that cannot be written. -/
theorem dryRun_predicts (t : FileTree) {args : List String} {r : GenerateRequest}
    (hparse : Request.parse args = .ok (.generate r)) :
    Request.parse (withDryRun args) = .ok (.generate { r with dryRun := true }) ∧
    Request.parse (withoutDryRun args) = .ok (.generate { r with dryRun := false }) ∧
    (run t (withDryRun args)).files = t ∧
    (∀ f, (generate t { r with dryRun := true }).1 = .error f →
      run t (withoutDryRun args) = run t (withDryRun args)) ∧
    Predicts t { r with dryRun := true } { r with dryRun := false } := by
  have hdry := parse_withDryRun hparse
  have hreal := parse_withoutDryRun hparse
  have hpredicts := predicts t r
  rw [run_eq_of_parse hdry, run_eq_of_parse hreal, files_of, hpredicts.unchanged]
  refine ⟨hdry, hreal, rfl, fun f h => ?_, hpredicts⟩
  rw [h, ((hpredicts.error_iff f).mp h).1, (hpredicts.untouched f h).1]

/-- A manifest of contracts, each with an accessor for a file that there is not. The fields are given by
position. -/
def accessors (names : List String) : String :=
  "[[" ++ ",".intercalate (names.map fun name =>
    "[\"" ++ name ++ "\",false,[[\"x\",[],[\"String\"],[null,[],\"none\"]]]]") ++ "]]"

/-- A tree with such a manifest and some directories. -/
def accessorTree (names : List String) (directories : List Location) : FileTree where
  entries := (["m.json"], .file (accessors names).toUTF8) ::
    directories.map fun l => (l, .directory)

theorem dryRun_predicts_accessorTree :
    Request.parse ["generate", "--declarations", "m.json"] =
      .ok (.generate { declarations := "m.json" }) ∧
    (run (accessorTree ["a.A"] []) ["generate", "--dry-run", "--declarations", "m.json"]).files =
      accessorTree ["a.A"] [] ∧
    CarriesOut (accessorTree ["a.A"] []) { declarations := "m.json" } ["a.AImpl"] := by
  have hparse : Request.parse ["generate", "--declarations", "m.json"] =
      .ok (.generate { declarations := "m.json" }) :=
    eq_ok_of_toOption (by decide +kernel)
  have hargs : withDryRun ["generate", "--declarations", "m.json"] =
      ["generate", "--dry-run", "--declarations", "m.json"] := by
    decide +kernel
  obtain ⟨-, -, hfiles, -, hpredicts⟩ := dryRun_predicts (accessorTree ["a.A"] []) hparse
  rw [hargs] at hfiles
  have hdry : (generate (accessorTree ["a.A"] []) { declarations := "m.json", dryRun := true }).1 =
      .ok "a.AImpl\n" :=
    eq_ok_of_toOption (by decide +kernel)
  have hreal : (generate (accessorTree ["a.A"] []) { declarations := "m.json" }).1 =
      .ok "Generated 1 source file(s) in generated\n" :=
    eq_ok_of_toOption (by decide +kernel)
  have hhanded : handed (accessorTree ["a.A"] []) { declarations := "m.json" } = ["a.AImpl"] := by
    decide +kernel
  obtain ⟨names, -, hcarries⟩ := hpredicts.printed _ hdry
  obtain rfl : ["a.AImpl"] = names := hhanded.symm.trans (hcarries.complete _ hreal).1
  exact ⟨hparse, hfiles, hcarries⟩

/-- Where a directory stands in the place of the first of two files, the dry run prints two names, but
the real run hands over the first one only. -/
theorem blockedWrite_stops :
    (run (accessorTree ["a.A", "a.B"] [["generated"], ["generated", "a"],
        ["generated", "a", "AImpl.java"]])
      ["generate", "--declarations", "m.json", "--dry-run"]).output = "a.AImpl\na.BImpl\n" ∧
    handed (accessorTree ["a.A", "a.B"] [["generated"], ["generated", "a"],
        ["generated", "a", "AImpl.java"]]) { declarations := "m.json" } = ["a.AImpl"] := by
  decide +kernel

end ContractForge.CommandLine
