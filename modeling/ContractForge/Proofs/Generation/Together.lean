import ContractForge.Generation.Selection
import ContractForge.Proofs.Message.Sharing
import ContractForge.Proofs.Resource.Uncached

/-!
# Generators that run together

* `DeclarationSet.carriers` : the contracts that carry a marker.
* `NamesApart` : no class of one generator is named like a class of another.

Every generator names its classes by itself. What three passes of one generator each make, one pass of
all of them makes exactly if the names are apart, and otherwise it makes nothing (`runAll_all_iff`).
-/

namespace ContractForge

/-- The contracts that carry a marker. -/
def DeclarationSet.carriers (set : DeclarationSet) (marker : Marker) : List Contract :=
  set.contracts.filter marker.carriedBy

/-- The names that different generators give are different. -/
structure NamesApart (set : DeclarationSet) (bundles : List (Contract × Variant))
    (embedded : List (ResourceKey × EmbeddedResource)) : Prop where
  /-- No contract with resources has the namespace and the simple name of one with routes. -/
  markers : ∀ c ∈ set.carriers .resource, ∀ c' ∈ set.carriers .path,
    ¬(c'.space = c.space ∧ c'.simpleName = c.simpleName)
  /-- No variant is named like the class of a contract with resources or routes. -/
  variants : ∀ c ∈ set.carriers .resource ++ set.carriers .path, ∀ b ∈ bundles,
    ¬(b.1.space = c.space ∧ b.1.simpleName = c.simpleName ∧ b.2.locale = "") ∧
      ¬Overlap b.1 b.2.locale c ""
  /-- No variant is named like the class of a resource. -/
  resources : ∀ x ∈ embedded, ∀ b ∈ bundles, ∀ rest,
    ¬(x.2.space = qualify b.1.space (b.1.implName ++ rest) ∧
      b.2.locale = rest ++ "." ++ x.2.identifier)

/-! ### The names of resources -/

theorem capital_not_mem_identifierFor (e : Encoding) (fileName : String) :
    'I' ∉ (EmbeddedResource.identifierFor e fileName).toList :=
  not_mem_identifierFor (fun e => by cases e <;> decide) (by decide) e fileName

theorem capital_mem_implName (c : Contract) (locale : String) :
    'I' ∈ (c.implName ++ locale).toList := by
  have hcapital : 'I' ∈ "Impl".toList := by decide
  rw [Contract.implName, String.toList_append, String.toList_append]
  exact List.mem_append_left _ (List.mem_append_right _ hcapital)

/-- A class of a contract has the name of a class without dot and capital only behind a dot of its
locale. -/
theorem className_eq_qualify_iff {c : Contract} {locale space simple : String}
    (hdot : '.' ∉ simple.toList) (hcapital : 'I' ∉ simple.toList) :
    qualify space simple = c.className locale ↔
      ∃ rest, space = qualify c.space (c.implName ++ rest) ∧ locale = rest ++ "." ++ simple := by
  constructor
  · intro h
    rcases qualify_eq_qualify h.symm with ⟨-, hname⟩ | ⟨inner, hspace, hname⟩ | ⟨inner, -, hname⟩
    · exact absurd (hname ▸ capital_mem_implName c locale) hcapital
    · obtain ⟨rest, rfl, hlocale⟩ := exists_rest_of_dot hname
      exact ⟨rest, hspace, hlocale⟩
    · refine absurd ?_ hdot
      rw [hname, String.toList_append, String.toList_append]
      exact List.mem_append_left _ (List.mem_append_right _ (by decide))
  · rintro ⟨rest, rfl, rfl⟩
    rw [qualify_qualify (implName_ne_empty c rest), Contract.className]
    simp only [String.append_assoc]

theorem qualify_ne_className {c : Contract} {space simple : String} (hdot : '.' ∉ simple.toList)
    (hcapital : 'I' ∉ simple.toList) : qualify space simple ≠ c.className "" := by
  intro h
  obtain ⟨rest, -, hlonger⟩ := (className_eq_qualify_iff hdot hcapital).mp h
  have hlength := congrArg String.length hlonger
  have hone : ".".length = 1 := by decide
  simp only [String.length_empty, String.length_append] at hlength
  omega

/-! ### What each generator names -/

variable {context : PassContext} {set : DeclarationSet} {made : List Artifact}

theorem map_contract_discover (hnames : (set.contracts.map (·.name)).Nodup) (marker : Marker) :
    (discover set marker).map (·.contract) = set.carriers marker := by
  rw [discover_of_nodup hnames, DeclarationSet.carriers]
  generalize set.contracts = contracts
  induction contracts with
  | nil => rfl
  | cons c rest ih =>
    rw [List.filterMap_cons, ofContract?_eq, List.filter_cons]
    by_cases hcarried : marker.carriedBy c = true
    · rw [if_pos hcarried, if_pos hcarried, List.map_cons, ih]
    · rw [if_neg hcarried, if_neg hcarried, ih]

/-- A generator with one class for every group names the classes after the contracts. -/
theorem map_qualifiedName_groups (hnames : (set.contracts.map (·.name)).Nodup) {marker : Marker}
    {f : Group → Except GenerationError Artifact}
    (hstep : ∀ g a, f g = .ok a → a.qualifiedName = g.contract.className "")
    (hmade : (discover set marker).mapM f = .ok made) :
    made.map (·.qualifiedName) = (set.carriers marker).map (·.className "") := by
  rw [map_eq_of_mapM (fun g _ => hstep g) hmade, ← map_contract_discover hnames, List.map_map]
  rfl

theorem qualifiedName_of_uncachedArtifact (g : Group) (a : Artifact)
    (h : uncachedArtifact context g = .ok a) : a.qualifiedName = g.contract.className "" := by
  obtain ⟨methods, -, hclass⟩ := bind_eq_ok_iff.mp h
  obtain rfl := Except.ok.inj hclass
  rw [Contract.className, String.append_empty]
  rfl

theorem qualifiedName_of_proxyArtifact (g : Group) (a : Artifact)
    (h : proxyArtifact context g = .ok a) : a.qualifiedName = g.contract.className "" := by
  obtain ⟨methods, -, hclass⟩ := bind_eq_ok_iff.mp h
  obtain rfl := Except.ok.inj hclass
  rw [Contract.className, String.append_empty]
  rfl

theorem EmbeddedOnce.exists_identifier {groups : List Group}
    {embedded : List (ResourceKey × EmbeddedResource)} (h : EmbeddedOnce context groups embedded)
    {x : ResourceKey × EmbeddedResource} (hx : x ∈ embedded) :
    ∃ e fileName, x.2.identifier = EmbeddedResource.identifierFor e fileName := by
  have hfound := ((h.mem_iff x.1 x.2).mp hx).2
  have hembed : embed context x.1 = .ok (some x.2) := by rw [embed_eq, hfound]
  obtain ⟨file, -, -, -, hidentifier⟩ := embed_eq_ok_some hembed
  exact ⟨_, _, hidentifier⟩

/-! ### Passes into memory -/

theorem accepts_memory_iff {state final : MemorySink} {artifacts : List Artifact} :
    Accepts MemorySink.sink state artifacts final ↔
      final.artifacts = state.artifacts ++ artifacts.map fun a => (a.qualifiedName, a.content) := by
  induction artifacts generalizing state with
  | nil =>
    constructor
    · rintro ⟨⟩
      simp
    · intro h
      obtain rfl : state = final := by
        obtain ⟨written⟩ := state
        obtain ⟨written'⟩ := final
        simpa using h.symm
      exact .nil state
  | cons a rest ih =>
    constructor
    · rintro (_ | ⟨hwrite, hrest⟩)
      obtain rfl := (Prod.mk.inj hwrite).2
      rw [ih.mp hrest]
      simp
    · intro h
      exact .cons rfl (ih.mpr (by rw [h]; simp))

/-- A pass into empty memory keeps what its generators make, if all names are different. -/
theorem runAll_memory_eq_ok_iff {generators : List Generator} {names : List String}
    {final : MemorySink} :
    runAll context generators MemorySink.sink {} = (.ok names, final) ↔
      ∃ artifacts, Makes context generators artifacts ∧ (artifacts.map (·.qualifiedName)).Nodup ∧
        names = artifacts.map (·.qualifiedName) ∧
        final.artifacts = artifacts.map fun a => (a.qualifiedName, a.content) := by
  constructor
  · intro h
    obtain ⟨artifacts, hmakes, haccepts, rfl, hnodup⟩ := complete_of_runAll h
    exact ⟨artifacts, hmakes, hnodup, rfl, accepts_memory_iff.mp haccepts⟩
  · rintro ⟨artifacts, hmakes, hnodup, rfl, hfinal⟩
    exact runAll_of_outcome (.complete hmakes hnodup (accepts_memory_iff.mpr hfinal))

theorem makes_singleton_iff {g : Generator} :
    Makes context [g] made ↔
      g.generate context (discover context.declarations g.marker) = .ok made := by
  constructor
  · rintro (_ | ⟨hmade, ⟨⟩⟩)
    rw [List.append_nil]
    exact hmade
  · intro hmade
    have hmakes := Makes.cons hmade .nil
    rwa [List.append_nil] at hmakes

/-! ### All generators -/

section

variable {bundles : List (Contract × Variant)} {embedded : List (ResourceKey × EmbeddedResource)}

/-- The names are apart if no two of different generators are equal. -/
theorem namesApart_iff
    (hidentifiers : ∀ x ∈ embedded, '.' ∉ x.2.identifier.toList ∧ 'I' ∉ x.2.identifier.toList) :
    NamesApart set bundles embedded ↔
      (∀ c ∈ set.carriers .resource, ∀ c' ∈ set.carriers .path, c.className "" ≠ c'.className "") ∧
      (∀ c ∈ set.carriers .resource ++ set.carriers .path, ∀ b ∈ bundles,
        c.className "" ≠ b.1.className b.2.locale) ∧
      ∀ x ∈ embedded, ∀ b ∈ bundles, x.2.qualifiedName ≠ b.1.className b.2.locale := by
  have hmarkers : ∀ c c' : Contract,
      c.className "" ≠ c'.className "" ↔ ¬(c'.space = c.space ∧ c'.simpleName = c.simpleName) := by
    intro c c'
    simp [className_empty_eq_iff, not_overlap_empty]
  have hvariants : ∀ (c : Contract) (b : Contract × Variant),
      c.className "" ≠ b.1.className b.2.locale ↔
        ¬(b.1.space = c.space ∧ b.1.simpleName = c.simpleName ∧ b.2.locale = "") ∧
          ¬Overlap b.1 b.2.locale c "" := by
    intro c b
    rw [Ne, className_empty_eq_iff, not_or]
  have hresources : ∀ x ∈ embedded, ∀ b : Contract × Variant,
      x.2.qualifiedName ≠ b.1.className b.2.locale ↔
        ∀ rest, ¬(x.2.space = qualify b.1.space (b.1.implName ++ rest) ∧
          b.2.locale = rest ++ "." ++ x.2.identifier) := by
    intro x hx b
    obtain ⟨hdot, hcapital⟩ := hidentifiers x hx
    rw [Ne, EmbeddedResource.qualifiedName, className_eq_qualify_iff hdot hcapital, not_exists]
  simp only [hmarkers, hvariants]
  constructor
  · intro h
    exact ⟨h.markers, h.variants, fun x hx b hb => (hresources x hx b).mpr (h.resources x hx b hb)⟩
  · rintro ⟨h, h', h''⟩
    exact ⟨h, h', fun x hx b hb => (hresources x hx b).mp (h'' x hx b hb)⟩

/-- If each generator gives different names, all of them do exactly if the names are apart. -/
theorem nodup_names_iff
    (hidentifiers : ∀ x ∈ embedded, '.' ∉ x.2.identifier.toList ∧ 'I' ∉ x.2.identifier.toList)
    (hfirst : ((set.carriers .resource).map (·.className "") ++
      embedded.map (·.2.qualifiedName)).Nodup)
    (hsecond : ((set.carriers .path).map (·.className "")).Nodup)
    (hthird : (bundles.map fun b => b.1.className b.2.locale).Nodup) :
    ((set.carriers .resource).map (·.className "") ++ embedded.map (·.2.qualifiedName) ++
      ((set.carriers .path).map (·.className "") ++
        bundles.map fun b => b.1.className b.2.locale)).Nodup ↔
      NamesApart set bundles embedded := by
  have hproxies : ∀ x ∈ embedded, ∀ c : Contract, x.2.qualifiedName ≠ c.className "" :=
    fun x hx c => qualify_ne_className (hidentifiers x hx).1 (hidentifiers x hx).2
  have hlater : ((set.carriers .path).map (·.className "") ++
      bundles.map fun b => b.1.className b.2.locale).Nodup ↔
        ∀ c ∈ set.carriers .path, ∀ b ∈ bundles, c.className "" ≠ b.1.className b.2.locale := by
    simp only [List.nodup_append, hsecond, hthird, true_and, List.forall_mem_map]
  rw [namesApart_iff hidentifiers, List.nodup_append, hlater]
  simp only [hfirst, true_and, List.forall_mem_append, List.forall_mem_map]
  constructor
  · rintro ⟨hproxy, haccessor, hembedded⟩
    exact ⟨fun c hc => (haccessor c hc).1, ⟨fun c hc => (haccessor c hc).2, hproxy⟩,
      fun x hx => (hembedded x hx).2⟩
  · rintro ⟨hmarkers, ⟨haccessor, hproxy⟩, hembedded⟩
    exact ⟨hproxy, fun c hc => ⟨hmarkers c hc, haccessor c hc⟩,
      fun x hx => ⟨fun c _ => hproxies x hx c, hembedded x hx⟩⟩

end

/-- **Generators alone and together.** In a valid set, with a search from an absolute directory, let the
three generators each succeed alone in empty memory. Then all of them together succeed and keep what
they kept alone, exactly if their names are apart. Otherwise a name is reported and nothing is kept. -/
theorem runAll_all_iff (hvalid : context.declarations.validate = .ok ())
    (hroot : Path.IsAbsolute context.locator.root) {names names' names'' : List String}
    {kept kept' kept'' : MemorySink}
    (hresources : runAll context (Selection.generators .resources) MemorySink.sink {} =
      (.ok names, kept))
    (hservices : runAll context (Selection.generators .services) MemorySink.sink {} =
      (.ok names', kept'))
    (hmessages : runAll context (Selection.generators .messages) MemorySink.sink {} =
      (.ok names'', kept'')) :
    ∃ bundles embedded, Bundles context context.declarations.contracts bundles ∧
      EmbeddedOnce context (discover context.declarations .resource) embedded ∧
      (NamesApart context.declarations bundles embedded →
        runAll context (Selection.generators .all) MemorySink.sink {} =
          (.ok (names ++ names' ++ names''),
            ⟨kept.artifacts ++ kept'.artifacts ++ kept''.artifacts⟩)) ∧
      (¬NamesApart context.declarations bundles embedded →
        ∃ name, runAll context (Selection.generators .all) MemorySink.sink {} =
          (.error (.repeatedArtifact name), {})) := by
  have hnames := nodup_names_of_validate hvalid
  obtain ⟨bundles, hbundles, hgenerate⟩ := exists_bundles_of_validate hvalid hroot
  obtain ⟨made, hmade, hnodup, rfl, hkept⟩ := runAll_memory_eq_ok_iff.mp hresources
  obtain ⟨made', hmade', hnodup', rfl, hkept'⟩ := runAll_memory_eq_ok_iff.mp hservices
  obtain ⟨made'', hmade'', hnodup'', rfl, hkept''⟩ := runAll_memory_eq_ok_iff.mp hmessages
  have hfirst := makes_singleton_iff.mp hmade
  have hsecond := makes_singleton_iff.mp hmade'
  have hthird := makes_singleton_iff.mp hmade''
  obtain ⟨implementations, embedded, himplementations, honce, hparts⟩ := resources_eq_ok_iff.mp hfirst
  have hclasses : made.map (·.qualifiedName) =
      (context.declarations.carriers .resource).map (·.className "") ++
        embedded.map (·.2.qualifiedName) := by
    rw [hparts, List.map_append, List.map_map,
      map_qualifiedName_groups hnames qualifiedName_of_uncachedArtifact himplementations]
    rfl
  have hclasses' : made'.map (·.qualifiedName) =
      (context.declarations.carriers .path).map (·.className "") :=
    map_qualifiedName_groups hnames qualifiedName_of_proxyArtifact hsecond
  have hclasses'' : made''.map (·.qualifiedName) =
      bundles.map fun b => b.1.className b.2.locale :=
    hbundles.map_qualifiedName (hgenerate.symm.trans hthird)
  have hidentifiers : ∀ x ∈ embedded,
      '.' ∉ x.2.identifier.toList ∧ 'I' ∉ x.2.identifier.toList := by
    intro x hx
    obtain ⟨e, fileName, heq⟩ := honce.exists_identifier hx
    rw [heq]
    exact ⟨dot_not_mem_identifierFor e fileName, capital_not_mem_identifierFor e fileName⟩
  have hall : Makes context (Selection.generators .all) (made ++ (made' ++ (made'' ++ []))) :=
    .cons hfirst (.cons hsecond (.cons hthird .nil))
  rw [List.append_nil] at hall
  have hapart : ((made ++ (made' ++ made'')).map (·.qualifiedName)).Nodup ↔
      NamesApart context.declarations bundles embedded := by
    rw [hclasses] at hnodup
    rw [hclasses'] at hnodup'
    rw [hclasses''] at hnodup''
    rw [List.map_append, List.map_append, hclasses, hclasses', hclasses'']
    exact nodup_names_iff hidentifiers hnodup hnodup' hnodup''
  refine ⟨bundles, embedded, hbundles, honce, fun h => ?_, fun h => ?_⟩
  · refine runAll_memory_eq_ok_iff.mpr ⟨_, hall, hapart.mpr h, ?_, ?_⟩
    · simp only [List.map_append, List.append_assoc]
    · simp only [hkept, hkept', hkept'', List.map_append, List.append_assoc]
  · exact runAll_of_repeated (collect_eq_ok_iff.mpr hall) (fun hnodup => h (hapart.mp hnodup)) _ _

/-- A route with one argument. -/
def usersMethod : Method where
  name := "find"
  params := [⟨"query", .plain "com.example.Query"⟩]
  returns := .mk "contractgen.runtime.Promise" [.plain "com.example.User"]
  markers := { path := some "/users", verbs := ["GET"] }

/-- An array. -/
def pictureMethod : Method where
  name := "logo"
  returns := .plain "byte[]"
  markers := { resource := some "logo.png" }

/-- Contracts in the namespace of an image and of a message file. -/
def offering (contracts : List Contract) : PassContext where
  declarations := { contracts, types := [
    { name := "com.example.Query", fields := [{ name := "id", type := .plain "int" }]
      methods := [{ name := "getName", returns := .plain "String" }] }] }
  locator := Locator.start {} "/work" {}
  config := {}
  files := { entries := [
    (["work"], .directory), (["work", "com"], .directory), (["work", "com", "example"], .directory),
    (["work", "com", "example", "logo.png"], .file "PNG".toUTF8),
    (["work", "com", "example", "Texts.properties"], .file "hello=Hi".toUTF8)] }

/-- A contract for each of the three generators. -/
def threeContracts : PassContext :=
  offering [
    { name := "com.example.Api", methods := [usersMethod] },
    { name := "com.example.Assets", methods := [pictureMethod] },
    { name := "com.example.Texts", messages := true, methods := [
      { name := "hello", returns := .plain "String" }] }]

theorem runAll_all_iff_threeContracts :
    threeContracts.declarations.validate = .ok () ∧ Path.IsAbsolute threeContracts.locator.root ∧
    ∃ (names names' names'' : List String) (kept kept' kept'' : MemorySink),
      runAll threeContracts (Selection.generators .resources) MemorySink.sink {} = (.ok names, kept) ∧
      runAll threeContracts (Selection.generators .services) MemorySink.sink {} =
        (.ok names', kept') ∧
      runAll threeContracts (Selection.generators .messages) MemorySink.sink {} =
        (.ok names'', kept'') ∧
      runAll threeContracts (Selection.generators .all) MemorySink.sink {} =
        (.ok (names ++ names' ++ names''),
          ⟨kept.artifacts ++ kept'.artifacts ++ kept''.artifacts⟩) := by
  have hvalid : threeContracts.declarations.validate = .ok () := by decide
  have hroot : Path.IsAbsolute threeContracts.locator.root := Locator.isAbsolute_start {} (by decide) {}
  have hresources : (runAll threeContracts (Selection.generators .resources) MemorySink.sink
      {}).1.isOk = true := by decide +kernel
  have hservices : (runAll threeContracts (Selection.generators .services) MemorySink.sink
      {}).1.isOk = true := by decide +kernel
  have hmessages : (runAll threeContracts (Selection.generators .messages) MemorySink.sink
      {}).1.isOk = true := by
    simp only [Selection.generators, runAll, collect, Generator.run, messages]
    delta bundleArtifacts localeVariants
    simp only [variantsAmong, List.mergeSort_eq_insertionSort]
    decide +kernel
  have hall : (runAll threeContracts (Selection.generators .all) MemorySink.sink {}).1.isOk = true := by
    simp only [Selection.generators, runAll, collect, Generator.run, messages]
    delta bundleArtifacts localeVariants
    simp only [variantsAmong, List.mergeSort_eq_insertionSort]
    decide +kernel
  obtain ⟨names, hresources⟩ := exists_names_of_isOk hresources
  obtain ⟨names', hservices⟩ := exists_names_of_isOk hservices
  obtain ⟨names'', hmessages⟩ := exists_names_of_isOk hmessages
  obtain ⟨bundles, embedded, -, -, hapart, hclash⟩ :=
    runAll_all_iff hvalid hroot hresources hservices hmessages
  have htogether : NamesApart threeContracts.declarations bundles embedded := by
    by_contra h
    obtain ⟨name, herror⟩ := hclash h
    rw [herror] at hall
    cases hall
  exact ⟨hvalid, hroot, names, names', names'', _, _, _, hresources, hservices, hmessages,
    hapart htogether⟩

/-- The two methods in one contract. -/
def oneContract : PassContext :=
  offering [{ name := "com.example.Api", methods := [usersMethod, pictureMethod] }]

/-- Each generator succeeds with it, and all of them together make its class twice. -/
theorem oneContract_repeats :
    oneContract.declarations.validate = .ok () ∧
    (∃ names kept,
      runAll oneContract (Selection.generators .resources) MemorySink.sink {} = (.ok names, kept)) ∧
    (∃ names kept,
      runAll oneContract (Selection.generators .services) MemorySink.sink {} = (.ok names, kept)) ∧
    (∃ names kept,
      runAll oneContract (Selection.generators .messages) MemorySink.sink {} = (.ok names, kept)) ∧
    (runAll oneContract (Selection.generators .all) MemorySink.sink {}).1 =
      .error (.repeatedArtifact "com.example.ApiImpl") := by
  have hresources : (runAll oneContract (Selection.generators .resources) MemorySink.sink
      {}).1.isOk = true := by decide +kernel
  have hservices : (runAll oneContract (Selection.generators .services) MemorySink.sink
      {}).1.isOk = true := by decide +kernel
  have hmessages : (runAll oneContract (Selection.generators .messages) MemorySink.sink
      {}).1.isOk = true := by decide +kernel
  have hall : failure? (runAll oneContract (Selection.generators .all) MemorySink.sink {}).1 =
      some (.repeatedArtifact "com.example.ApiImpl") := by decide +kernel
  obtain ⟨names, hresources⟩ := exists_names_of_isOk hresources
  obtain ⟨names', hservices⟩ := exists_names_of_isOk hservices
  obtain ⟨names'', hmessages⟩ := exists_names_of_isOk hmessages
  exact ⟨by decide, ⟨names, _, hresources⟩, ⟨names', _, hservices⟩, ⟨names'', _, hmessages⟩,
    failure?_eq_some_iff.mp hall⟩

end ContractForge
