import ContractForge.Generation.Selection
import ContractForge.Proofs.Generation.Outcome
import ContractForge.Proofs.Resource.Once
import Mathlib.Data.List.Nodup

/-!
# Generation is modular

* `PassContext.declaring` : a context with other declarations.
* `Joined` : a run on two lists of contracts is made of the runs on each of them.
* `Reordered` : two runs make the same artifacts, and what is embedded in the same order.

`generation_modular` : runs on contracts of different names are joined in this way, and neither the
order of the contracts nor that of the types matters.
-/

namespace ContractForge

/-- The context with other declarations. -/
def PassContext.declaring (context : PassContext) (contracts : List Contract)
    (types : List TypeDecl) : PassContext :=
  { context with declarations := { contracts, types } }

/-- A run on two lists of contracts succeeds if both runs on one do. It then makes what they make, one
after the other. What is embedded stands at the end, as one list in the order of the keys. -/
structure Joined (first second both : PassContext) : Prop where
  succeeds : ∀ g ∈ Selection.generators .all, (∃ made, g.run both = .ok made) ↔
    (∃ made, g.run first = .ok made) ∧ ∃ made, g.run second = .ok made
  appended : ∀ g ∈ [services, messages], ∀ made made', g.run first = .ok made →
    g.run second = .ok made' → g.run both = .ok (made ++ made')
  merged : ∀ made made', resources.run first = .ok made → resources.run second = .ok made' →
    ∃ implementations implementations' embedded embedded' joint union,
      ResourcesMade first made implementations embedded ∧
      ResourcesMade second made' implementations' embedded' ∧
      resources.run both = .ok joint ∧
      ResourcesMade both joint (implementations ++ implementations') union ∧
      ∀ x, x ∈ union ↔ x ∈ embedded ∨ x ∈ embedded'

/-- Two runs succeed together and make the same artifacts. What is embedded is the same list. -/
structure Reordered (context context' : PassContext) : Prop where
  succeeds : ∀ g ∈ Selection.generators .all,
    (∃ made, g.run context' = .ok made) ↔ ∃ made, g.run context = .ok made
  made : ∀ g ∈ Selection.generators .all, ∀ made made', g.run context = .ok made →
    g.run context' = .ok made' → made'.Perm made
  embedded : ∀ made made', resources.run context = .ok made → resources.run context' = .ok made' →
    ∃ implementations implementations' embedded, ResourcesMade context made implementations embedded ∧
      ResourcesMade context' made' implementations' embedded

variable {context : PassContext} {contracts : List Contract} {types types' : List TypeDecl}
  {made : List Artifact}

namespace PassContext

@[simp] theorem declaring_locator : (context.declaring contracts types).locator = context.locator :=
  rfl

@[simp] theorem declaring_config : (context.declaring contracts types).config = context.config :=
  rfl

@[simp] theorem declaring_files : (context.declaring contracts types).files = context.files :=
  rfl

end PassContext

/-! ### What the steps depend on -/

/-- A proxy depends on the types that are found, and not on the other contracts. -/
theorem proxyArtifact_perm (hnames : (types.map (·.name)).Nodup) (hperm : types'.Perm types) :
    proxyArtifact (context.declaring contracts types') =
      proxyArtifact (context.declaring [] types) := by
  have hquery : queryParams? (context.declaring contracts types').declarations =
      queryParams? (context.declaring [] types).declarations := by
    funext p
    simp only [queryParams?, DeclarationSet.findType?, PassContext.declaring,
      find?_perm_of_nodup hnames hperm]
  have hmethod : proxyMethod (context.declaring contracts types') =
      proxyMethod (context.declaring [] types) := by
    funext c m
    simp only [proxyMethod, ServiceCall.ofMethod, methodQuery, hquery, PassContext.declaring_config]
  funext g
  simp only [proxyArtifact, hmethod, PassContext.declaring_config]

theorem bundleArtifacts_declaring :
    bundleArtifacts (context.declaring contracts types) = bundleArtifacts context := by
  have hone : bundleArtifact (context.declaring contracts types) = bundleArtifact context := by
    funext g v
    simp only [bundleArtifact, PassContext.declaring_files]
  funext g
  simp only [bundleArtifacts, hone, PassContext.declaring_files, PassContext.declaring_locator,
    PassContext.declaring_config]

theorem embedded?_declaring :
    embedded? (context.declaring contracts types) = embedded? context := by
  funext key
  simp only [embedded?, embed, PassContext.declaring_files, PassContext.declaring_locator]

theorem uncachedArtifact_declaring :
    uncachedArtifact (context.declaring contracts types) = uncachedArtifact context := by
  have haccessor : uncachedAccessor (context.declaring contracts types) =
      uncachedAccessor context := by
    funext c m
    simp only [uncachedAccessor, embedded?_declaring]
  funext g
  simp only [uncachedArtifact, haccessor]

theorem embeddedOnce_declaring {groups : List Group}
    {embedded : List (ResourceKey × EmbeddedResource)} :
    EmbeddedOnce (context.declaring contracts types) groups embedded ↔
      EmbeddedOnce context groups embedded :=
  ⟨fun h => ⟨h.sorted, embedded?_declaring ▸ h.mem_iff⟩,
    fun h => ⟨h.sorted, embedded?_declaring ▸ h.mem_iff⟩⟩

/-! ### Runs as traversals -/

theorem discover_declaring (h : (contracts.map (·.name)).Nodup) (marker : Marker) :
    discover (context.declaring contracts types).declarations marker =
      contracts.filterMap (Group.ofContract? marker) :=
  discover_of_nodup h marker

theorem services_run_eq_ok_iff (h : (contracts.map (·.name)).Nodup)
    (hnames : (types.map (·.name)).Nodup) (hperm : types'.Perm types) :
    services.run (context.declaring contracts types') = .ok made ↔
      (contracts.filterMap (Group.ofContract? .path)).mapM
        (proxyArtifact (context.declaring [] types)) = .ok made := by
  rw [run_eq_ok_iff, ← proxyArtifact_perm hnames hperm, discover_declaring h]
  rfl

theorem messages_run_eq_ok_iff (h : (contracts.map (·.name)).Nodup) :
    messages.run (context.declaring contracts types) = .ok made ↔
      ∃ parts, (contracts.filterMap (Group.ofContract? .messages)).mapM (bundleArtifacts context) =
        .ok parts ∧ made = parts.flatten := by
  rw [run_eq_ok_iff, discover_declaring h]
  simp only [messages, bundleArtifacts_declaring]
  constructor
  · intro hmade
    obtain ⟨parts, hparts, heq⟩ := bind_eq_ok_iff.mp hmade
    exact ⟨parts, hparts, (Except.ok.inj heq).symm⟩
  · rintro ⟨parts, hparts, rfl⟩
    exact bind_eq_ok_iff.mpr ⟨parts, hparts, rfl⟩

theorem resources_run_eq_ok_iff (h : (contracts.map (·.name)).Nodup) :
    resources.run (context.declaring contracts types) = .ok made ↔
      ∃ implementations embedded,
        (contracts.filterMap (Group.ofContract? .resource)).mapM (uncachedArtifact context) =
          .ok implementations ∧
        EmbeddedOnce context (contracts.filterMap (Group.ofContract? .resource)) embedded ∧
        made = implementations ++ embedded.map fun x => x.2.artifact context.config.chunkSize := by
  rw [run_eq_ok_iff]
  have hdiscover : discover (context.declaring contracts types).declarations resources.marker =
      contracts.filterMap (Group.ofContract? .resource) := discover_declaring h .resource
  rw [hdiscover, resources_eq_ok_iff, uncachedArtifact_declaring]
  simp only [embeddedOnce_declaring]
  rfl

theorem exists_resources_run_iff (h : (contracts.map (·.name)).Nodup) :
    (∃ made, resources.run (context.declaring contracts types) = .ok made) ↔
      ∀ g ∈ contracts.filterMap (Group.ofContract? .resource),
        ∃ a, uncachedArtifact context g = .ok a := by
  have hdiscover : discover (context.declaring contracts types).declarations resources.marker =
      contracts.filterMap (Group.ofContract? .resource) := discover_declaring h .resource
  simp only [run_eq_ok_iff, hdiscover]
  rw [← failure?_eq_none_iff, failure?_resources, uncachedArtifact_declaring, failure?_eq_none_iff,
    exists_mapM_eq_ok_iff]

/-- Whether a run succeeds is decided contract by contract. -/
theorem exists_run_iff (context : PassContext) {g : Generator} (hg : g ∈ Selection.generators .all)
    (hnames : (types.map (·.name)).Nodup) :
    ∃ succeeds : Group → Prop, ∀ contracts types', (contracts.map (·.name)).Nodup →
      types'.Perm types →
      ((∃ made, g.run (context.declaring contracts types') = .ok made) ↔
        ∀ x ∈ contracts.filterMap (Group.ofContract? g.marker), succeeds x) := by
  simp only [Selection.generators, List.mem_cons, List.not_mem_nil, or_false] at hg
  rcases hg with rfl | rfl | rfl
  · exact ⟨_, fun contracts types' h _ => exists_resources_run_iff h⟩
  · refine ⟨fun x => ∃ a, proxyArtifact (context.declaring [] types) x = .ok a,
      fun contracts types' h hperm => ?_⟩
    simp only [services_run_eq_ok_iff h hnames hperm]
    exact exists_mapM_eq_ok_iff
  · refine ⟨fun x => ∃ parts, bundleArtifacts context x = .ok parts, fun contracts types' h _ => ?_⟩
    simp only [messages_run_eq_ok_iff h]
    rw [exists_comm]
    simp only [exists_and_left, exists_eq, and_true]
    exact exists_mapM_eq_ok_iff

/-- What a run of the resource generator makes, as a traversal and as what was asked for. -/
theorem exists_resourcesMade (h : (contracts.map (·.name)).Nodup)
    (hrun : resources.run (context.declaring contracts types) = .ok made) :
    ∃ implementations embedded,
      (contracts.filterMap (Group.ofContract? .resource)).mapM (uncachedArtifact context) =
        .ok implementations ∧
      EmbeddedOnce context (contracts.filterMap (Group.ofContract? .resource)) embedded ∧
      ResourcesMade (context.declaring contracts types) made implementations embedded := by
  obtain ⟨implementations, embedded, hmapM, honce, rfl⟩ := (resources_run_eq_ok_iff h).mp hrun
  refine ⟨implementations, embedded, hmapM, honce, ?_⟩
  have hconfig : context.config = (context.declaring contracts types).config := rfl
  rw [hconfig]
  refine resourcesMade_of_mapM ?_ ?_
  · rw [discover_declaring h, uncachedArtifact_declaring, hmapM]
  · rw [discover_declaring h, embeddedOnce_declaring]
    exact honce

/-! ### Two lists of contracts -/

theorem askedFor_append {groups groups' : List Group} {key : ResourceKey} :
    AskedFor (groups ++ groups') key ↔ AskedFor groups key ∨ AskedFor groups' key := by
  simp only [AskedFor, List.mem_append, or_and_right, exists_or]

theorem joined_of_nodup {contracts' : List Contract} {types'' : List TypeDecl}
    (h : ((contracts ++ contracts').map (·.name)).Nodup) (hnames : (types.map (·.name)).Nodup)
    (hperm : types'.Perm types) (hperm' : types''.Perm types) :
    Joined (context.declaring contracts types') (context.declaring contracts' types'')
      (context.declaring (contracts ++ contracts') types) := by
  obtain ⟨hfirst, hsecond, -⟩ := List.nodup_append.mp (List.map_append ▸ h)
  have hsucceeds : ∀ g ∈ Selection.generators .all,
      (∃ made, g.run (context.declaring (contracts ++ contracts') types) = .ok made) ↔
        (∃ made, g.run (context.declaring contracts types') = .ok made) ∧
        ∃ made, g.run (context.declaring contracts' types'') = .ok made := by
    intro g hg
    obtain ⟨succeeds, hiff⟩ := exists_run_iff context hg hnames
    rw [hiff _ _ h (.refl types), hiff _ _ hfirst hperm, hiff _ _ hsecond hperm',
      List.filterMap_append, List.forall_mem_append]
  refine ⟨hsucceeds, fun g hg made made' hmade hmade' => ?_, fun made made' hmade hmade' => ?_⟩
  · simp only [List.mem_cons, List.not_mem_nil, or_false] at hg
    rcases hg with rfl | rfl
    · rw [services_run_eq_ok_iff hfirst hnames hperm] at hmade
      rw [services_run_eq_ok_iff hsecond hnames hperm'] at hmade'
      rw [services_run_eq_ok_iff h hnames (.refl types), List.filterMap_append]
      exact mapM_append_eq_ok hmade hmade'
    · obtain ⟨parts, hparts, rfl⟩ := (messages_run_eq_ok_iff hfirst).mp hmade
      obtain ⟨parts', hparts', rfl⟩ := (messages_run_eq_ok_iff hsecond).mp hmade'
      rw [messages_run_eq_ok_iff h, List.filterMap_append]
      exact ⟨_, mapM_append_eq_ok hparts hparts', List.flatten_append.symm⟩
  · obtain ⟨joint, hjoint⟩ := (hsucceeds resources List.mem_cons_self).mpr ⟨⟨_, hmade⟩, ⟨_, hmade'⟩⟩
    obtain ⟨implementations, embedded, hmapM, honce, hresult⟩ := exists_resourcesMade hfirst hmade
    obtain ⟨implementations', embedded', hmapM', honce', hresult'⟩ :=
      exists_resourcesMade hsecond hmade'
    obtain ⟨all, union, hall, hunion, hresult''⟩ := exists_resourcesMade h hjoint
    rw [List.filterMap_append, mapM_append_eq_ok hmapM hmapM'] at hall
    obtain rfl := Except.ok.inj hall
    refine ⟨_, _, _, _, joint, union, hresult, hresult', hjoint, hresult'', ?_⟩
    -- both caches together were asked for what the joint one was asked for
    rintro ⟨key, r⟩
    rw [hunion.mem_iff, honce.mem_iff, honce'.mem_iff, List.filterMap_append, askedFor_append,
      or_and_right]

/-! ### Contracts and types in another order -/

/-- Groups in another order ask for the same keys, so the same is embedded. -/
theorem EmbeddedOnce.eq_of_perm {groups groups' : List Group}
    {embedded embedded' : List (ResourceKey × EmbeddedResource)} (hgroups : groups'.Perm groups)
    (h : EmbeddedOnce context groups embedded) (h' : EmbeddedOnce context groups' embedded') :
    embedded' = embedded := by
  refine h'.eq h fun ⟨key, r⟩ => ?_
  simp only [h.mem_iff, h'.mem_iff, AskedFor, hgroups.mem_iff]

theorem reordered_of_perm {contracts' : List Contract} (h : (contracts.map (·.name)).Nodup)
    (hnames : (types.map (·.name)).Nodup) (hcontracts : contracts'.Perm contracts)
    (htypes : types'.Perm types) :
    Reordered (context.declaring contracts types) (context.declaring contracts' types') := by
  have h' : (contracts'.map (·.name)).Nodup := (hcontracts.map _).nodup_iff.mpr h
  have hgroups : ∀ marker, (contracts'.filterMap (Group.ofContract? marker)).Perm
      (contracts.filterMap (Group.ofContract? marker)) := fun marker => hcontracts.filterMap _
  refine ⟨fun g hg => ?_, fun g hg made made' hmade hmade' => ?_, fun made made' hmade hmade' => ?_⟩
  · obtain ⟨succeeds, hiff⟩ := exists_run_iff context hg hnames
    rw [hiff _ _ h' htypes, hiff _ _ h (.refl types)]
    exact forall_congr' fun x => imp_congr_left (hgroups g.marker).mem_iff
  · simp only [Selection.generators, List.mem_cons, List.not_mem_nil, or_false] at hg
    rcases hg with rfl | rfl | rfl
    · obtain ⟨_, embedded, hmapM, honce, rfl⟩ := (resources_run_eq_ok_iff h).mp hmade
      obtain ⟨_, embedded', hmapM', honce', rfl⟩ := (resources_run_eq_ok_iff h').mp hmade'
      rw [honce.eq_of_perm (hgroups .resource) honce']
      exact (perm_of_mapM_eq_ok (hgroups .resource) hmapM hmapM').append_right _
    · rw [services_run_eq_ok_iff h hnames (.refl types)] at hmade
      rw [services_run_eq_ok_iff h' hnames htypes] at hmade'
      exact perm_of_mapM_eq_ok (hgroups .path) hmade hmade'
    · obtain ⟨parts, hparts, rfl⟩ := (messages_run_eq_ok_iff h).mp hmade
      obtain ⟨parts', hparts', rfl⟩ := (messages_run_eq_ok_iff h').mp hmade'
      exact (perm_of_mapM_eq_ok (hgroups .messages) hparts hparts').flatten
  · obtain ⟨_, embedded, -, honce, hresult⟩ := exists_resourcesMade h hmade
    obtain ⟨_, embedded', -, honce', hresult'⟩ := exists_resourcesMade h' hmade'
    rw [honce.eq_of_perm (hgroups .resource) honce'] at hresult'
    exact ⟨_, _, embedded, hresult, hresult'⟩

/-- **Generation is modular.** For contracts of different names and types of different names, a run on
two lists of contracts joins the runs on each, whatever the order of the types, and a run on the
contracts and types in another order makes the same artifacts, with what is embedded in the same
order. -/
theorem generation_modular (context : PassContext) {first second : List Contract}
    {types typesFirst typesSecond : List TypeDecl}
    (hcontracts : ((first ++ second).map (·.name)).Nodup) (htypes : (types.map (·.name)).Nodup)
    (hfirst : typesFirst.Perm types) (hsecond : typesSecond.Perm types) :
    Joined (context.declaring first typesFirst) (context.declaring second typesSecond)
      (context.declaring (first ++ second) types) ∧
    ∀ contracts types', contracts.Perm (first ++ second) → types'.Perm types →
      Reordered (context.declaring (first ++ second) types) (context.declaring contracts types') :=
  ⟨joined_of_nodup hcontracts htypes hfirst hsecond, fun _ _ hperm hperm' =>
    reordered_of_perm hcontracts htypes hperm hperm'⟩

/-- A contract with an accessor for an array, which a marker text refers to. -/
def arrayContract (name marker : String) : Contract where
  name
  methods := [{ name := "data", returns := .plain "byte[]", markers := { resource := some marker } }]

/-- A directory with one file. -/
def oneFile : PassContext where
  declarations := {}
  locator := { root := "/work", language := "java" }
  config := {}
  files := { entries := [
    (["work"], .directory), (["work", "app"], .directory),
    (["work", "app", "logo.bin"], .file ⟨#[1, 2, 3]⟩)] }

/-- Two contracts that refer to one file in two spellings make three artifacts together, and two each
alone. -/
theorem generation_modular_oneFile :
    let first := [arrayContract "app.First" "logo.bin"]
    let second := [arrayContract "app.Second" "./logo.bin"]
    let types : List TypeDecl := [{ name := "app.Key" }, { name := "app.Value" }]
    ((first ++ second).map (·.name)).Nodup ∧ (types.map (·.name)).Nodup ∧
    types.reverse.Perm types ∧
    ((resources.run (oneFile.declaring first types.reverse)).toOption.map (·.length) = some 2 ∧
      (resources.run (oneFile.declaring second types)).toOption.map (·.length) = some 2 ∧
      (resources.run (oneFile.declaring (first ++ second) types)).toOption.map (·.length) = some 3) ∧
    Joined (oneFile.declaring first types.reverse) (oneFile.declaring second types)
      (oneFile.declaring (first ++ second) types) ∧
    Reordered (oneFile.declaring (first ++ second) types)
      (oneFile.declaring (second ++ first) types.reverse) := by
  intro first second types
  have hcontracts : ((first ++ second).map (·.name)).Nodup := by decide
  have htypes : (types.map (·.name)).Nodup := by decide
  have hreverse : types.reverse.Perm types := types.reverse_perm
  obtain ⟨hjoined, hreordered⟩ :=
    generation_modular oneFile hcontracts htypes hreverse (.refl types)
  exact ⟨hcontracts, htypes, hreverse, by decide +kernel, hjoined,
    hreordered _ _ List.perm_append_comm hreverse⟩

end ContractForge
