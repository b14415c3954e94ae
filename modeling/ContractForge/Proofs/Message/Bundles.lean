import ContractForge.Proofs.Files.Search
import ContractForge.Proofs.Generation.Implementations
import ContractForge.Proofs.Message.Variants
import Mathlib.Data.List.Sort

/-!
# The classes of message bundles

* `Bundles` : the message contracts with their variants, in the order of the declarations and of the
  file names. A contract without a base file has none.
* `messageKeys` : the methods of the contracts of these, each a key that the file of its variant needs.
* `IsBundle` : an implementation of a contract that returns the messages of a variant.

`bundles_end_to_end` : the generator makes one implementation for every contract and variant, unless a
key is missing, and then it reports the first key that is.

`bundles_out_of_reach` : a search from the empty path fails though no key is missing, and a variant
whose path is too long to be opened is left out.
-/

namespace ContractForge

open Text (segments)

/-- The template that the file of a variant has for a key. -/
def Variant.template? (t : FileTree) (v : Variant) (key : String) : Option String :=
  match t.read v.path with
  | .ok bytes => (Properties.parse (Properties.decode bytes)).find? key
  | .error _ => none

/-- The variants of contracts. -/
inductive Bundles (context : PassContext) : List Contract → List (Contract × Variant) → Prop
  | nil : Bundles context [] []
  /-- Neither contracts of another kind nor those without a base file have variants. -/
  | skipped {c : Contract} {contracts : List Contract} {bundles : List (Contract × Variant)}
      (missing : c.messages = true →
        context.locator.resolve context.files (basePath c context.config.messageSuffix) = none)
      (rest : Bundles context contracts bundles) : Bundles context (c :: contracts) bundles
  /-- The variants of a message contract are those beside its base file. -/
  | found {c : Contract} {contracts : List Contract} {bundles : List (Contract × Variant)}
      {base : String} {variants : List Variant} (marked : c.messages = true)
      (resolved : context.locator.resolve context.files
        (basePath c context.config.messageSuffix) = some base)
      (beside : VariantsBeside context.files base c.simpleName context.config.messageSuffix variants)
      (rest : Bundles context contracts bundles) :
      Bundles context (c :: contracts) (variants.map (c, ·) ++ bundles)

/-- Every method of a contract, for every variant of it. -/
def messageKeys (bundles : List (Contract × Variant)) : List (Contract × Variant × Method) :=
  bundles.flatMap fun b => b.1.methods.map (b.1, b.2, ·)

/-- The artifact implements a contract with the messages of a variant: every method returns the text
that its own parameters and the template under its name make. -/
def IsBundle (context : PassContext) (c : Contract) (v : Variant) (a : Artifact) : Prop :=
  ∃ x, a.IsFileOf x ∧ x.Implements c.name v.locale ∧ x.HasOnlyMethods ∧
    Overrides (fun m lines => ∃ template, v.template? context.files m.name = some template ∧
      lines = ["return " ++ Template.expression (m.params.map (·.name)) template ++ ";"])
      c.methods x.methods

variable {context : PassContext}

/-! ### One variant -/

/-- The report of a missing message. -/
def missing? (context : PassContext) (x : Contract × Variant × Method) : Option GenerationError :=
  match x.2.1.template? context.files x.2.2.name with
  | none => some (.missingMessage x.1.name x.2.2.name x.2.1.path)
  | some _ => none

/-- The implementation of a contract for a variant that can be read. -/
theorem bundleArtifact_eq {c : Contract} {v : Variant}
    (h : context.files.isFile v.path = true) :
    ∃ texts, (∀ key, Properties.find? texts key = v.template? context.files key) ∧
      bundleArtifact context ⟨c, c.methods⟩ v =
        c.methods.mapM (bundleMethod c v texts) >>= fun methods =>
          .ok (.ofClass (bundleClass c v methods)) := by
  obtain ⟨bytes, hread⟩ := FileTree.exists_read_of_isFile h
  refine ⟨Properties.parse (Properties.decode bytes), fun key => ?_, ?_⟩
  · simp only [Variant.template?, hread]
  · simp only [bundleArtifact, hread]
    rfl

theorem failure?_bundleArtifact {c : Contract} {v : Variant}
    (h : context.files.isFile v.path = true) :
    failure? (bundleArtifact context ⟨c, c.methods⟩ v) =
      (c.methods.map (c, v, ·)).findSome? (missing? context) := by
  obtain ⟨texts, htexts, heq⟩ := bundleArtifact_eq (c := c) h
  rw [heq, failure?_bind_ok, failure?_mapM, List.findSome?_map]
  refine congrArg (List.findSome? · c.methods) (funext fun m => ?_)
  simp only [bundleMethod, missing?, Function.comp_apply, htexts]
  cases v.template? context.files m.name <;> rfl

theorem isBundle_of_bundleArtifact {c : Contract} {v : Variant} {a : Artifact}
    (h : context.files.isFile v.path = true)
    (hmade : bundleArtifact context ⟨c, c.methods⟩ v = .ok a) : IsBundle context c v a := by
  obtain ⟨texts, htexts, heq⟩ := bundleArtifact_eq (c := c) h
  rw [heq] at hmade
  obtain ⟨methods, hmethods, hclass⟩ := bind_eq_ok_iff.mp hmade
  obtain rfl := Except.ok.inj hclass
  refine ⟨_, .ofClass _, ⟨rfl, rfl, rfl⟩, ⟨rfl, rfl⟩, ?_⟩
  refine (mapM_eq_ok_iff.mp hmethods).imp fun m method hmethod => ?_
  unfold bundleMethod at hmethod
  split at hmethod
  next template hfind =>
    obtain rfl := Except.ok.inj hmethod
    exact ⟨_, ⟨template, by rw [← htexts, hfind], rfl⟩, .overriding m _⟩
  next => cases hmethod

/-! ### All variants of all contracts -/

theorem ofContract?_messages (c : Contract) :
    Group.ofContract? .messages c = if c.messages then some ⟨c, c.methods⟩ else none := by
  cases hmarked : c.messages <;> simp [Group.ofContract?, Marker.marks, Marker.marksContract, hmarked]

/-- A traversal that makes lists, of which only the elements matter, takes the first list first. -/
theorem mapM_flatten_cons {ε α β : Type} (f : α → Except ε (List β)) (x : α) (xs : List α) :
    ((x :: xs).mapM f >>= fun made => .ok made.flatten) =
      f x >>= fun first => (xs.mapM f >>= fun made => .ok made.flatten) >>= fun further =>
        .ok (first ++ further) := by
  rw [List.mapM_cons]
  cases f x with
  | error e => rfl
  | ok first => cases xs.mapM f <;> rfl

/-- The generator makes the implementations of the variants one after another. -/
theorem exists_bundles (hroot : Path.IsAbsolute context.locator.root) (contracts : List Contract) :
    ∃ bundles, Bundles context contracts bundles ∧
      ((contracts.filterMap (Group.ofContract? .messages)).mapM (bundleArtifacts context) >>=
        fun made => .ok made.flatten) =
      bundles.mapM fun b => bundleArtifact context ⟨b.1, b.1.methods⟩ b.2 := by
  induction contracts with
  | nil => exact ⟨[], .nil, rfl⟩
  | cons c rest ih =>
    obtain ⟨bundles, hbundles, hmade⟩ := ih
    cases hmarked : c.messages with
    | false =>
      refine ⟨bundles, .skipped (by simp [hmarked]) hbundles, ?_⟩
      rw [List.filterMap_cons_none (by rw [ofContract?_messages, hmarked]; rfl), hmade]
    | true =>
      have hgroup : Group.ofContract? .messages c = some ⟨c, c.methods⟩ := by
        rw [ofContract?_messages, if_pos hmarked]
      rw [List.filterMap_cons_some hgroup, mapM_flatten_cons, hmade]
      cases hbase : context.locator.resolve context.files
          (basePath c context.config.messageSuffix) with
      | none =>
        refine ⟨bundles, .skipped (fun _ => hbase) hbundles, ?_⟩
        simp only [bundleArtifacts, hbase]
        exact bind_pure (m := Except GenerationError) _
      | some base =>
        obtain ⟨variants, hvariants, hbeside⟩ := exists_localeVariants
          (Locator.isAbsolute_of_resolve hroot hbase) (Locator.isFile_of_resolve hbase)
          c.simpleName context.config.messageSuffix
        refine ⟨_, .found hmarked hbase hbeside hbundles, ?_⟩
        simp only [bundleArtifacts, hbase, hvariants]
        rw [List.mapM_append, List.mapM_map]
        rfl

theorem Bundles.isFile {contracts : List Contract} {bundles : List (Contract × Variant)}
    (h : Bundles context contracts bundles) :
    ∀ b ∈ bundles, context.files.isFile b.2.path = true := by
  induction h with
  | nil => exact fun b hb => absurd hb List.not_mem_nil
  | skipped _ _ ih => exact ih
  | found _ _ hbeside _ ih =>
    intro b hb
    rcases List.mem_append.mp hb with hmem | hmem
    · obtain ⟨v, hv, rfl⟩ := List.mem_map.mp hmem
      exact hbeside.isFile hv
    · exact ih b hmem

/-- The files decide what variants there are. -/
theorem Bundles.eq {contracts : List Contract} {bundles bundles' : List (Contract × Variant)}
    (h : Bundles context contracts bundles) (h' : Bundles context contracts bundles') :
    bundles = bundles' := by
  induction h generalizing bundles' with
  | nil =>
    cases h'
    rfl
  | skipped hmissing _ ih =>
    cases h' with
    | skipped _ hrest => exact ih hrest
    | found hmarked hresolved =>
      rw [hmissing hmarked] at hresolved
      cases hresolved
  | found hmarked hresolved hbeside _ ih =>
    cases h' with
    | skipped hmissing =>
      rw [hmissing hmarked] at hresolved
      cases hresolved
    | found _ hresolved' hbeside' hrest =>
      obtain rfl := Option.some.inj (hresolved.symm.trans hresolved')
      rw [hbeside.eq hbeside', ih hrest]

/-- The bundles of a message contract are its variants. -/
theorem Bundles.exists_variants {contracts : List Contract} {bundles : List (Contract × Variant)}
    (h : Bundles context contracts bundles) {c : Contract} {base : String} (hc : c ∈ contracts)
    (hmarked : c.messages = true)
    (hbase : context.locator.resolve context.files (basePath c context.config.messageSuffix) =
      some base) :
    ∃ variants, VariantsBeside context.files base c.simpleName context.config.messageSuffix variants ∧
      ∀ v ∈ variants, (c, v) ∈ bundles := by
  induction h with
  | nil => cases hc
  | skipped hmissing _ ih =>
    rcases List.mem_cons.mp hc with rfl | hmem
    · rw [hmissing hmarked] at hbase
      cases hbase
    · exact ih hmem
  | found _ hresolved hbeside _ ih =>
    rcases List.mem_cons.mp hc with rfl | hmem
    · obtain rfl := Option.some.inj (hbase.symm.trans hresolved)
      exact ⟨_, hbeside, fun v hv => List.mem_append_left _ (List.mem_map_of_mem hv)⟩
    · obtain ⟨variants, hvariants, hmore⟩ := ih hmem
      exact ⟨variants, hvariants, fun v hv => List.mem_append_right _ (hmore v hv)⟩

/-! ### The base file -/

/-- The last segment of a base path is the simple name with the suffix. -/
theorem lastSegment_basePath {c : Contract} {suffix : String} (hsimple : '/' ∉ c.simpleName.toList)
    (hsuffix : '/' ∉ suffix.toList) :
    Text.lastSegment '/' (basePath c suffix).toList = (c.simpleName ++ suffix).toList := by
  have hfree : '/' ∉ (c.simpleName ++ suffix).toList := by
    simp [String.toList_append, hsimple, hsuffix]
  have hpath : (basePath c suffix).toList =
      (c.name.toList.map fun c => if c = '.' then '/' else c) ++ suffix.toList := by
    rw [basePath, namespacePath, Text.substitute, String.toList_append, String.toList_ofList]
  rw [String.toList_append] at hfree ⊢
  rw [hpath]
  cases hcut : Text.splitLast? '.' c.name.toList with
  | none =>
    have hname : c.simpleName = c.name := by simp [Contract.simpleName, QualifiedName.split, hcut]
    rw [hname] at hfree ⊢
    rw [Text.map_replace_of_not_mem (Text.splitLast?_eq_none_iff.mp hcut),
      Text.lastSegment_of_not_mem hfree]
  | some cut =>
    obtain ⟨space, simple⟩ := cut
    have hname : c.simpleName.toList = simple := by
      simp [Contract.simpleName, QualifiedName.split, hcut]
    obtain ⟨hwhole, hdot⟩ := Text.splitLast?_eq_some_iff.mp hcut
    rw [hname] at hfree ⊢
    rw [hwhole, List.map_append, List.map_cons, if_pos rfl, Text.map_replace_of_not_mem hdot,
      List.append_assoc, List.cons_append, Text.lastSegment_append_sep,
      Text.lastSegment_of_not_mem hfree]

theorem fileName_of_base {c : Contract} {suffix base : String}
    (hsimple : '/' ∉ c.simpleName.toList) (hsuffix : '/' ∉ suffix.toList)
    (hbase : context.locator.resolve context.files (basePath c suffix) = some base) :
    Path.fileName base = c.simpleName ++ suffix := by
  rw [Locator.fileName_of_resolve hbase, lastSegment_basePath hsimple hsuffix, String.ofList_toList]

/-! ### The generator -/

theorem failure?_mapM_bundleArtifact {bundles : List (Contract × Variant)}
    (hfile : ∀ b ∈ bundles, context.files.isFile b.2.path = true) :
    failure? (bundles.mapM fun b => bundleArtifact context ⟨b.1, b.1.methods⟩ b.2) =
      (messageKeys bundles).findSome? (missing? context) := by
  rw [failure?_mapM]
  induction bundles with
  | nil => rfl
  | cons b rest ih =>
    obtain ⟨hfirst, hrest⟩ := List.forall_mem_cons.mp hfile
    rw [messageKeys, List.flatMap_cons, List.findSome?_append, List.findSome?_cons, ih hrest,
      failure?_bundleArtifact hfirst]
    cases List.findSome? (missing? context) (b.1.methods.map (b.1, b.2, ·)) <;> rfl

theorem missing?_eq_none_iff {x : Contract × Variant × Method} :
    missing? context x = none ↔
      ∃ template, x.2.1.template? context.files x.2.2.name = some template := by
  unfold missing?
  cases x.2.1.template? context.files x.2.2.name <;> simp

theorem missing?_eq_some_iff {c : Contract} {v : Variant} {m : Method} {e : GenerationError} :
    missing? context (c, v, m) = some e ↔
      v.template? context.files m.name = none ∧ e = .missingMessage c.name m.name v.path := by
  unfold missing?
  dsimp only
  cases v.template? context.files m.name <;> simp [eq_comm]

/-- **Message bundles end to end.** In a valid set, with a search from an absolute directory, as every
search that is given a directory is (`Locator.isAbsolute_start`), one implementation is made for every
message contract with a base file and every variant beside that file, in order, exactly if every file
has every key it needs. Otherwise the first missing key is reported. The base file is one of its
variants, without a locale, unless a slash in the simple name or the suffix hides its name. -/
theorem bundles_end_to_end (hvalid : context.declarations.validate = .ok ())
    (hroot : Path.IsAbsolute context.locator.root) :
    ∃ bundles, Bundles context context.declarations.contracts bundles ∧
      ((∃ made, messages.generate context (discover context.declarations .messages) = .ok made) ↔
        ∀ x ∈ messageKeys bundles, ∃ template,
          x.2.1.template? context.files x.2.2.name = some template) ∧
      (∀ e, messages.generate context (discover context.declarations .messages) = .error e ↔
        ∃ before c v m after, messageKeys bundles = before ++ (c, v, m) :: after ∧
          (∀ x ∈ before, ∃ template, x.2.1.template? context.files x.2.2.name = some template) ∧
          v.template? context.files m.name = none ∧ e = .missingMessage c.name m.name v.path) ∧
      (∀ made, messages.generate context (discover context.declarations .messages) = .ok made →
        List.Forall₂ (fun b a => IsBundle context b.1 b.2 a) bundles made) ∧
      ∀ c ∈ context.declarations.contracts, c.messages = true → ∀ base,
        context.locator.resolve context.files (basePath c context.config.messageSuffix) = some base →
        '/' ∉ c.simpleName.toList → '/' ∉ context.config.messageSuffix.toList →
        ∃ v, (c, v) ∈ bundles ∧ v.locale = "" ∧
          context.files.locate v.path = context.files.locate base := by
  obtain ⟨bundles, hbundles, hgenerate⟩ := exists_bundles hroot context.declarations.contracts
  have hmade : messages.generate context (discover context.declarations .messages) =
      bundles.mapM fun b => bundleArtifact context ⟨b.1, b.1.methods⟩ b.2 := by
    rw [discover_of_nodup (nodup_names_of_validate hvalid), ← hgenerate]
    rfl
  rw [hmade]
  refine ⟨bundles, hbundles, ?_, fun e => ?_, fun made h => ?_, ?_⟩
  · rw [exists_ok_iff_of_failure? (failure?_mapM_bundleArtifact hbundles.isFile)]
    simp only [missing?_eq_none_iff]
  · rw [eq_error_iff_of_failure? (failure?_mapM_bundleArtifact hbundles.isFile)]
    simp only [missing?_eq_none_iff, missing?_eq_some_iff, Prod.exists]
  · have hall := (List.forall₂_and_left _ _).mpr ⟨hbundles.isFile, mapM_eq_ok_iff.mp h⟩
    exact hall.imp fun b a ⟨hfile, hclass⟩ => isBundle_of_bundleArtifact hfile hclass
  · intro c hc hmarked base hbase hsimple hsuffix
    obtain ⟨variants, hbeside, hmem⟩ := hbundles.exists_variants hc hmarked hbase
    obtain ⟨v, hv, hlocale, hlocate⟩ := hbeside.base_mem
      (Locator.isAbsolute_of_resolve hroot hbase) (Locator.isFile_of_resolve hbase)
      (fileName_of_base hsimple hsuffix hbase)
    exact ⟨v, hmem v hv, hlocale, hlocate⟩

/-- A message contract with a base file, a German variant and a file of another contract. -/
def greetings : PassContext where
  declarations := { contracts := [
    { name := "app.Greetings", messages := true, methods := [
      { name := "hello", params := [⟨"name", .plain "String"⟩], returns := .plain "String" }] },
    { name := "app.Labels", messages := true }] }
  locator := Locator.start {} "/work" {}
  config := {}
  files := { entries := [
    (["work"], .directory), (["work", "app"], .directory),
    (["work", "app", "Greetings_de.properties"], .file "hello=Hallo \x7bname\x7d".toUTF8),
    (["work", "app", "Greetings.properties"], .file "hello=Hello \x7bname\x7d".toUTF8),
    (["work", "app", "Farewells.properties"], .file "".toUTF8)] }

theorem bundles_end_to_end_greetings :
    greetings.declarations.validate = .ok () ∧ Path.IsAbsolute greetings.locator.root ∧
    ∃ bundles made, Bundles greetings greetings.declarations.contracts bundles ∧
      messages.generate greetings (discover greetings.declarations .messages) = .ok made ∧
      made.map (·.qualifiedName) = ["app.GreetingsImpl", "app.GreetingsImpl_de"] ∧
      List.Forall₂ (fun b a => IsBundle greetings b.1 b.2 a) bundles made := by
  have hvalid : greetings.declarations.validate = .ok () := by decide
  have hroot : Path.IsAbsolute greetings.locator.root :=
    Locator.isAbsolute_start {} (by decide) {}
  have hnames : (messages.generate greetings
      (discover greetings.declarations .messages)).toOption.map (·.map (·.qualifiedName)) =
        some ["app.GreetingsImpl", "app.GreetingsImpl_de"] := by
    -- the order of the names is computed by insertion, since merging does not reduce
    simp only [messages]
    delta bundleArtifacts localeVariants
    simp only [variantsAmong, List.mergeSort_eq_insertionSort]
    decide +kernel
  obtain ⟨bundles, hbundles, -, -, hmade, -⟩ := bundles_end_to_end hvalid hroot
  cases hgenerate : messages.generate greetings (discover greetings.declarations .messages) with
  | error e =>
    rw [hgenerate] at hnames
    cases hnames
  | ok made =>
    rw [hgenerate] at hnames
    exact ⟨hvalid, hroot, bundles, made, hbundles, rfl, Option.some.inj hnames, hmade made hgenerate⟩

/-! ### What is out of reach -/

/-- A path that goes into a directory of the root and out of it again, and then does so `n` times more. -/
def detour : Nat → String
  | 0 => "/s/.."
  | n + 1 => detour n ++ "/s/.."

theorem utf8ByteSize_detour (n : Nat) : (detour n).utf8ByteSize = 5 * (n + 1) := by
  induction n with
  | zero => rfl
  | succ n ih =>
    have hturn : "/s/..".utf8ByteSize = 5 := rfl
    rw [detour, String.utf8ByteSize_append, ih, hturn]
    omega

/-- The last segment of a detour is the step out. -/
theorem exists_segments_detour (n : Nat) :
    ∃ rest before, (detour n).toList = '/' :: rest ∧ segments '/' rest = before ++ [['.', '.']] := by
  induction n with
  | zero => exact ⟨_, [['s']], rfl, by decide⟩
  | succ n ih =>
    obtain ⟨rest, before, hrest, hsegments⟩ := ih
    refine ⟨rest ++ '/' :: "s/..".toList, before ++ [['.', '.'], ['s']], ?_, ?_⟩
    · rw [detour, String.toList_append, hrest]
      rfl
    · rw [Text.segments_append_sep, hsegments, List.append_assoc, List.append_assoc]
      rfl

theorem isAbsolute_detour (n : Nat) : Path.IsAbsolute (detour n) := by
  obtain ⟨rest, -, hrest, -⟩ := exists_segments_detour n
  rw [Path.IsAbsolute, hrest]
  rfl

theorem detour_ne_empty (n : Nat) : detour n ≠ "" := by
  intro hempty
  have habsolute := isAbsolute_detour n
  rw [hempty] at habsolute
  cases habsolute

theorem nul_not_mem_detour (n : Nat) : '\x00' ∉ (detour n).toList := by
  induction n with
  | zero => decide
  | succ n ih =>
    rw [detour, String.toList_append, List.mem_append, not_or]
    exact ⟨ih, by decide⟩

theorem components_detour_succ (n : Nat) :
    FileTree.components (detour (n + 1)) = FileTree.components (detour n) ++ ["s", ".."] := by
  have htext : detour (n + 1) = String.ofList ((detour n).toList ++ '/' :: "s/..".toList) := by
    rw [← String.toList_inj, String.toList_ofList, detour, String.toList_append]
    rfl
  have hturn : FileTree.components "s/.." = ["s", ".."] := by decide
  rw [htext, FileTree.components_append_slash, String.ofList_toList, String.ofList_toList, hturn]

/-- A detour leads back to the root, unless it is too long. -/
theorem locate_detour {t : FileTree} (hs : t.find? ["s"] = some .directory) {n : Nat}
    (hn : (detour n).utf8ByteSize < FileTree.pathLimit) : t.locate (detour n) = .ok [] := by
  have hturn : ["s", ".."].foldlM t.step [] = .ok [] := by
    have hout : t.step ["s"] ".." = .ok [] := by
      rw [FileTree.step, hs]
      rfl
    exact congrArg (· >>= pure) hout
  have hfold : (FileTree.components (detour n)).foldlM t.step [] = .ok [] := by
    clear hn
    induction n with
    | zero => exact hturn
    | succ n ih =>
      rw [components_detour_succ, List.foldlM_append, ih]
      exact hturn
  have hcheck : FileTree.checkPath (detour n) = .ok () :=
    FileTree.checkPath_eq_ok_iff.mpr ⟨nul_not_mem_detour n, detour_ne_empty n, hn⟩
  rw [FileTree.locate, hcheck, FileTree.start_of_isAbsolute t (isAbsolute_detour n)]
  exact hfold

/-- The parent of a name after a detour is the detour. -/
theorem parent?_detour (n : Nat) {name : List Char} (hname : '/' ∉ name)
    (hvoid : Path.isVoid name = false) :
    Path.parent? (String.ofList ((detour n).toList ++ '/' :: name)) = some (detour n) := by
  obtain ⟨rest, before, hrest, hsegments⟩ := exists_segments_detour n
  have hparts : segments '/' (rest ++ '/' :: name) = before ++ [['.', '.']] ++ [name] := by
    rw [Text.segments_append_sep, hsegments, Text.segments_of_not_mem hname]
  have hkeep : ∀ (parts : List (List Char)) (last : List Char), Path.isVoid last = false →
      Path.dropVoidEnd (parts ++ [last]) = parts ++ [last] := by
    intro parts last hlast
    rw [Path.dropVoidEnd, List.reverse_append, List.reverse_singleton, List.singleton_append,
      List.dropWhile_cons_of_neg (by simp [hlast]), List.reverse_cons, List.reverse_reverse]
  have htext : (String.ofList ((detour n).toList ++ '/' :: name)).toList =
      '/' :: (rest ++ '/' :: name) := by
    rw [String.toList_ofList, hrest]
    rfl
  rw [Path.parent?_of_slash htext, hparts, hkeep _ _ hvoid, List.reverse_append,
    List.reverse_singleton, List.singleton_append]
  dsimp only
  rw [List.reverse_reverse, hkeep _ _ rfl, ← hsegments, Text.joinSegments_segments, ← hrest,
    String.ofList_toList]

theorem join_detour (n : Nat) {name : String} (hslash : '/' ∉ name.toList) :
    Path.join (detour n) name = String.ofList ((detour n).toList ++ '/' :: name.toList) := by
  have hrelative : ¬Path.IsAbsolute name := fun habs =>
    hslash (List.mem_of_mem_head? habs)
  have hslashed : Path.slashed (detour n) = detour n ++ "/" := by
    cases n with
    | zero => decide
    | succ n =>
      have hturn : Path.slashed "/s/.." = "/s/.." ++ "/" := by decide
      rw [detour, Path.slashed_append _ (by decide), hturn, String.append_assoc]
  rw [Path.join_eq_append (detour_ne_empty n) hrelative, hslashed, ← String.toList_inj]
  simp

/-- What stands at the root is found after a detour, unless the path is too long. -/
theorem isFile_detour_iff {t : FileTree} (hs : t.find? ["s"] = some .directory) {n : Nat}
    {name : String} {content : ByteArray} (hname : Path.IsName name) (hnul : '\x00' ∉ name.toList)
    (hshort : name.utf8ByteSize ≤ FileTree.longestName)
    (hfile : t.find? [name] = some (.file content)) :
    t.isFile (Path.join (detour n) name) = true ↔
      5 * (n + 1) + 1 + name.utf8ByteSize < FileTree.pathLimit := by
  obtain ⟨hleads, hup, hslash⟩ := hname
  have hsize : (Path.join (detour n) name).utf8ByteSize = 5 * (n + 1) + 1 + name.utf8ByteSize := by
    have htext : Path.join (detour n) name = detour n ++ "/" ++ name := by
      rw [join_detour n hslash, ← String.toList_inj]
      simp
    rw [htext, String.utf8ByteSize_append, String.utf8ByteSize_append, utf8ByteSize_detour]
    rfl
  rw [FileTree.isFile_iff, ← hsize]
  constructor
  · rintro ⟨l, -, hlocate, -⟩
    obtain ⟨⟨⟩, hcheck, -⟩ := bind_eq_ok_iff.mp hlocate
    exact (FileTree.checkPath_eq_ok_iff.mp hcheck).2.2
  · intro hlimit
    have hdir : t.locate (detour n) = .ok [] := by
      refine locate_detour hs ?_
      rw [utf8ByteSize_detour]
      omega
    have hcheck : FileTree.checkPath (Path.join (detour n) name) = .ok () := by
      refine FileTree.checkPath_eq_ok_iff.mpr ⟨?_, Path.join_ne_empty _ ?_, hlimit⟩
      · rw [join_detour n hslash, String.toList_ofList, List.mem_append, List.mem_cons]
        simp [nul_not_mem_detour, hnul]
      · rintro rfl
        cases hleads
    refine ⟨[name], content, ?_, hfile⟩
    have hvoid : ¬(name = "" || name = ".") = true := by
      simpa only [Path.leads, Bool.not_eq_true', Bool.not_eq_true] using hleads
    rw [FileTree.locate_join hslash hdir hcheck, FileTree.step, FileTree.find?, if_pos rfl]
    dsimp only
    rw [if_neg hvoid, if_neg hup, if_neg (by omega)]
    rfl

/-- A search over a detour, for a base file with a variant beside it. -/
def longSearch (n : Nat) : PassContext where
  declarations := { contracts := [{ name := "Labels", messages := true }] }
  locator := { root := detour n, language := "java" }
  config := {}
  files := { entries := [(["s"], .directory), (["Labels.properties"], .file "".toUTF8),
    (["Labels_de.properties"], .file "".toUTF8)] }

theorem resolve_longSearch {n : Nat} (hn : 5 * (n + 1) + 18 < FileTree.pathLimit) :
    (longSearch n).locator.resolve (longSearch n).files "Labels.properties" =
      some (Path.join (detour n) "Labels.properties") := by
  have hrest : Locator.relative "Labels.properties" = "Labels.properties" := by decide
  rw [Locator.resolve, Locator.candidates_eq _ (by rw [hrest]; decide), hrest, Path.ancestors,
    Path.ancestors.go, List.flatMap_cons, List.find?_append, Locator.probes, List.find?_cons_of_pos]
  · rfl
  · exact (isFile_detour_iff rfl (by decide) (by decide) (by decide) rfl).mpr hn

/-- After a detour that leaves no room for the longer name, the variant beside the base file is left
out. -/
theorem exists_generate_longSearch {n : Nat} (hn : 5 * (n + 1) + 18 < FileTree.pathLimit)
    (hlong : FileTree.pathLimit ≤ 5 * (n + 1) + 21) :
    ∃ made, messages.generate (longSearch n) (discover (longSearch n).declarations .messages) =
      .ok made ∧ ∀ a ∈ made, a.simpleName ≠ "LabelsImpl_de" := by
  have hroot : Path.IsAbsolute (longSearch n).locator.root := isAbsolute_detour n
  have hresolve := resolve_longSearch hn
  obtain ⟨bundles, hbundles, hgenerate⟩ := exists_bundles hroot (longSearch n).declarations.contracts
  obtain ⟨variants, rfl, hbeside⟩ : ∃ variants,
      bundles = variants.map ({ name := "Labels", messages := true }, ·) ∧
        VariantsBeside (longSearch n).files (Path.join (detour n) "Labels.properties") "Labels"
          ".properties" variants := by
    cases hbundles with
    | skipped missing _ => cases (missing rfl).symm.trans hresolve
    | found _ resolved beside rest =>
      cases rest
      obtain rfl := Option.some.inj (resolved.symm.trans hresolve)
      exact ⟨_, List.append_nil _, beside⟩
  obtain ⟨made, hmade⟩ :=
    (exists_ok_iff_of_failure? (failure?_mapM_bundleArtifact hbundles.isFile)).mpr
      (by simp [messageKeys])
  refine ⟨made, hgenerate.trans hmade, fun a ha hname => ?_⟩
  obtain ⟨b, hb, hclass⟩ := exists_left_of_forall₂ (mapM_eq_ok_iff.mp hmade) ha
  obtain ⟨x, hfile, himplements, -⟩ := isBundle_of_bundleArtifact (hbundles.isFile b hb) hclass
  obtain ⟨v, hv, rfl⟩ := List.mem_map.mp hb
  have hlocale : v.locale = "_de" := by
    have hsimple : (QualifiedName.split "Labels").2 = "Labels" := by decide
    have hclassName : "Labels" ++ "Impl" ++ v.locale = "Labels" ++ "Impl" ++ "_de" := by
      rw [← hsimple, ← himplements.name, ← hfile.simpleName, hname]
      rfl
    exact (String.append_right_inj _).mp hclassName
  have hdir : Path.parent? (Path.join (detour n) "Labels.properties") = some (detour n) := by
    rw [join_detour n (by decide)]
    exact parent?_detour n (by decide) (by decide)
  have hpath := hbeside.path_eq hdir hv
  rw [hlocale] at hpath
  have hroom := (isFile_detour_iff rfl (by decide) (by decide) (by decide) rfl).mp
    (hpath ▸ hbeside.isFile hv)
  have hsize : ("Labels" ++ "_de" ++ ".properties").utf8ByteSize = 20 := rfl
  omega

/-- A search from the empty path, which finds the base file in the working directory. -/
def emptySearch : PassContext where
  declarations := { contracts := [{ name := "Labels", messages := true }] }
  locator := Locator.start {} "" {}
  config := {}
  files := { entries := [(["Labels.properties"], .file "".toUTF8)] }

/-- From the empty path the base file is found, but not its directory, so that no class is made although
no key is missing. After a detour of 815 turns the base file is found, and the variant beside it has a
path that is too long, so that it has no class. -/
theorem bundles_out_of_reach :
    (emptySearch.declarations.validate = .ok () ∧
      emptySearch.locator.resolve emptySearch.files "Labels.properties" = some "Labels.properties" ∧
      (∀ c ∈ emptySearch.declarations.contracts, c.methods = []) ∧
      messages.generate emptySearch (discover emptySearch.declarations .messages) =
        .error (.io "" .notFound)) ∧
    (longSearch 814).declarations.validate = .ok () ∧
      (∃ base, (longSearch 814).locator.resolve (longSearch 814).files "Labels.properties" = some base ∧
        Path.parent? base = some (detour 814)) ∧
      (longSearch 814).files.locate (detour 814) = .ok [] ∧
      (longSearch 814).files.find? ["Labels_de.properties"] = some (.file "".toUTF8) ∧
      ∃ made, messages.generate (longSearch 814) (discover (longSearch 814).declarations .messages) =
        .ok made ∧ ∀ a ∈ made, a.simpleName ≠ "LabelsImpl_de" := by
  have hbase : 5 * (814 + 1) + 18 < FileTree.pathLimit := by decide
  refine ⟨⟨by decide, by decide +kernel, by decide, rfl⟩, rfl, ⟨_, resolve_longSearch hbase, ?_⟩,
    ?_, rfl, exists_generate_longSearch hbase (by decide)⟩
  · rw [join_detour _ (by decide)]
    exact parent?_detour _ (by decide) (by decide)
  · refine locate_detour rfl ?_
    rw [utf8ByteSize_detour]
    decide

end ContractForge
