import ContractForge.Proofs.Generation.Implementations
import ContractForge.Proofs.Resource.ClassNames

/-!
# What the cache does not change

* `embedded?` : what is embedded for a key, found without a cache.
* `uncachedAccessor`, `uncachedArtifact` : accessors and implementations made without a cache.
* `EmbeddedOnce` : the resources that some groups ask for, each once and in the order of the keys.

Implementations are the same with and without the cache (`map_fst_accessorArtifacts`), and what
the cache leaves behind is known from the keys alone (`resources_eq_ok_iff`).
-/

namespace ContractForge

open ResourceCache (Sound Grows Proper)

/-- What is embedded for a key. -/
def embedded? (context : PassContext) (key : ResourceKey) : Option EmbeddedResource :=
  match embed context key with
  | .ok r => r
  | .error _ => none

/-- The accessor for one method, without a cache. -/
def uncachedAccessor (context : PassContext) (c : Contract) (m : Method) :
    Except GenerationError Java.Method :=
  match Encoding.ofReturnType m.returns with
  | none => .error (.resourceType c.name m.name m.returns.sourceName)
  | some e => .ok (.overriding m [accessorStatement (embedded? context ⟨e, resourcePath c m⟩)])

/-- The implementation of one contract, without a cache. -/
def uncachedArtifact (context : PassContext) (g : Group) : Except GenerationError Artifact := do
  let methods ← g.methods.mapM (uncachedAccessor context g.contract)
  return .ofClass (accessorClass g.contract methods)

/-- The resources that groups ask for and that are found, in the order of their keys. -/
structure EmbeddedOnce (context : PassContext) (groups : List Group)
    (embedded : List (ResourceKey × EmbeddedResource)) : Prop where
  sorted : embedded.Pairwise fun x y => x.1.before y.1 = true
  mem_iff : ∀ key r, (key, r) ∈ embedded ↔ AskedFor groups key ∧ embedded? context key = some r

variable {context : PassContext} {cache later : ResourceCache} {groups : List Group}

/-! ### Without the cache -/

/-- Embedding never fails: a file that is found can be read. -/
theorem embed_eq (context : PassContext) (key : ResourceKey) :
    embed context key = .ok (embedded? context key) := by
  have hok : ∃ r, embed context key = .ok r := by
    unfold embed
    split
    next => exact ⟨_, rfl⟩
    next file hfile =>
      obtain ⟨content, hread⟩ := FileTree.exists_read_of_isFile (Locator.isFile_of_resolve hfile)
      rw [hread]
      exact ⟨_, rfl⟩
  obtain ⟨r, hr⟩ := hok
  simp only [embedded?, hr]

theorem map_fst_getOrEmbed (hsound : Sound context cache) (key : ResourceKey) :
    (cache.getOrEmbed context key).map (·.1) = .ok (embedded? context key) := by
  cases hget : cache.getOrEmbed context key with
  | error e =>
    rw [ResourceCache.getOrEmbed] at hget
    split at hget
    next => cases hget
    next =>
      rw [embed_eq] at hget
      cases hget
  | ok result =>
    obtain ⟨r, later⟩ := result
    have hembed := (ResourceCache.getOrEmbed_eq_ok hget hsound).1
    rw [embed_eq] at hembed
    rw [Except.ok.inj hembed]
    rfl

theorem map_fst_accessorMethod (hsound : Sound context cache) (c : Contract) (m : Method) :
    (accessorMethod context cache c m).map (·.1) = uncachedAccessor context c m := by
  unfold accessorMethod uncachedAccessor
  cases Encoding.ofReturnType m.returns with
  | none => rfl
  | some e =>
    have hget := map_fst_getOrEmbed hsound ⟨e, resourcePath c m⟩
    dsimp only
    cases hresult : cache.getOrEmbed context ⟨e, resourcePath c m⟩ with
    | error cause =>
      rw [hresult] at hget
      cases hget
    | ok result =>
      rw [hresult] at hget
      rw [← Except.ok.inj hget]
      rfl

theorem map_fst_accessorMethods (hsound : Sound context cache) (c : Contract) (ms : List Method) :
    (accessorMethods context cache c ms).map (·.1) = ms.mapM (uncachedAccessor context c) := by
  induction ms generalizing cache with
  | nil => rfl
  | cons m rest ih =>
    rw [List.mapM_cons, ← map_fst_accessorMethod hsound, accessorMethods]
    cases hmethod : accessorMethod context cache c m with
    | error e => rfl
    | ok result =>
      obtain ⟨method, mid⟩ := result
      have hmid := (accessorMethod_eq_ok hmethod hsound).2.sound hsound
      have hrest := ih hmid
      dsimp only [Except.map, bind, Except.bind]
      rw [← hrest]
      cases accessorMethods context mid c rest <;> rfl

/-- The implementations do not depend on what the cache has. -/
theorem map_fst_accessorArtifacts (hsound : Sound context cache) (groups : List Group) :
    (accessorArtifacts context cache groups).map (·.1) = groups.mapM (uncachedArtifact context) := by
  induction groups generalizing cache with
  | nil => rfl
  | cons g rest ih =>
    rw [List.mapM_cons, uncachedArtifact, ← map_fst_accessorMethods hsound, accessorArtifacts]
    cases hmethods : accessorMethods context cache g.contract g.methods with
    | error e => rfl
    | ok result =>
      obtain ⟨methods, mid⟩ := result
      have hmid := (accessorMethods_eq_ok hmethods hsound).2.sound hsound
      have hrest := ih hmid
      dsimp only [Except.map, bind, Except.bind, pure, Except.pure]
      rw [← hrest]
      cases accessorArtifacts context mid rest <;> rfl

/-! ### The order of the keys -/

namespace ResourceKey

theorem before_trans {a b c : ResourceKey} (hab : a.before b = true) (hbc : b.before c = true) :
    a.before c = true := by
  obtain ⟨_ | _, p⟩ := a <;> obtain ⟨_ | _, q⟩ := b <;> obtain ⟨_ | _, r⟩ := c <;>
    simp only [before, decide_eq_true_eq] at hab hbc ⊢ <;>
    first | exact String.lt_trans hab hbc | contradiction

theorem not_before_of_before {a b : ResourceKey} (h : a.before b = true) : b.before a = false := by
  obtain ⟨_ | _, p⟩ := a <;> obtain ⟨_ | _, q⟩ := b <;>
    simp only [before, decide_eq_true_eq, decide_eq_false_iff_not] at h ⊢ <;>
    first | exact String.lt_asymm h | contradiction

theorem before_of_not_before {a b : ResourceKey} (hne : a ≠ b) (h : a.before b = false) :
    b.before a = true := by
  have hpaths : ∀ p q : String, ¬p < q → p ≠ q → q < p := by
    intro p q hnot hpq
    by_contra hnot'
    exact hpq (String.le_antisymm (String.not_lt.mp hnot') (String.not_lt.mp hnot))
  obtain ⟨_ | _, p⟩ := a <;> obtain ⟨_ | _, q⟩ := b <;>
    simp only [before, decide_eq_true_eq, decide_eq_false_iff_not] at h ⊢
  · exact hpaths p q h fun hpq => hne (by rw [hpq])
  · cases h
  · exact hpaths p q h fun hpq => hne (by rw [hpq])

end ResourceKey

namespace ResourceCache

/-- The keys of the cache are strictly increasing. -/
def Sorted (cache : ResourceCache) : Prop :=
  cache.Pairwise fun x y => x.1.before y.1 = true

theorem Sorted.insert {key : ResourceKey} (hsorted : Sorted cache) (hnew : key ∉ cache.map (·.1))
    (r : Option EmbeddedResource) : Sorted (ResourceCache.insert key r cache) := by
  induction cache with
  | nil => exact List.pairwise_singleton _ _
  | cons x rest ih =>
    rw [List.map_cons, List.mem_cons, not_or] at hnew
    obtain ⟨hfirst, hrest⟩ := List.pairwise_cons.mp hsorted
    rw [ResourceCache.insert]
    split
    next hbefore =>
      refine List.pairwise_cons.mpr ⟨fun y hy => ?_, hsorted⟩
      rcases List.mem_cons.mp hy with rfl | hmem
      · exact hbefore
      · exact ResourceKey.before_trans hbefore (hfirst y hmem)
    next hbefore =>
      refine List.pairwise_cons.mpr ⟨fun y hy => ?_, ih hrest hnew.2⟩
      rcases mem_insert.mp hy with rfl | hmem
      · exact ResourceKey.before_of_not_before hnew.1 (Bool.eq_false_iff.mpr hbefore)
      · exact hfirst y hmem

theorem Sorted.getOrEmbed {key : ResourceKey} {r : Option EmbeddedResource} (hsorted : Sorted cache)
    (h : ResourceCache.getOrEmbed context cache key = .ok (r, later)) : Sorted later := by
  rw [ResourceCache.getOrEmbed] at h
  split at h
  next =>
    cases h
    exact hsorted
  next hnone =>
    split at h
    next => cases h
    next =>
      cases h
      exact hsorted.insert (not_mem_keys_of_find? hnone) _

end ResourceCache

/-! ### What the cache leaves behind -/

theorem mem_embedded_iff {key : ResourceKey} {r : EmbeddedResource} :
    (key, r) ∈ cache.embedded ↔ (key, some r) ∈ cache := by
  rw [ResourceCache.embedded, List.mem_filterMap]
  constructor
  · rintro ⟨⟨key', r'⟩, hmem, h⟩
    obtain ⟨r, rfl, heq⟩ := Option.map_eq_some_iff.mp h
    cases heq
    exact hmem
  · exact fun hmem => ⟨_, hmem, rfl⟩

/-- After a whole run the cache has what was asked for, in the order of the keys. -/
theorem embeddedOnce_of_accessorArtifacts {artifacts : List Artifact}
    (h : accessorArtifacts context [] groups = .ok (artifacts, cache)) :
    EmbeddedOnce context groups cache.embedded where
  sorted := by
    have hsorted : cache.Sorted :=
      accessorArtifacts_keeps (fun _ _ _ _ _ hget hsorted => hsorted.getOrEmbed hget) h .nil
    rw [ResourceCache.embedded, List.pairwise_filterMap]
    refine hsorted.imp fun hbefore x hx y hy => ?_
    obtain ⟨-, -, rfl⟩ := Option.map_eq_some_iff.mp hx
    obtain ⟨-, -, rfl⟩ := Option.map_eq_some_iff.mp hy
    exact hbefore
  mem_iff key r := by
    have hproper := proper_of_accessorArtifacts h
    rw [mem_embedded_iff]
    constructor
    · intro hmem
      have hembed := hproper.sound _ hmem
      rw [embed_eq] at hembed
      exact ⟨hproper.asked _ hmem, Except.ok.inj hembed⟩
    · rintro ⟨⟨g, hg, m, hm, e, htype, rfl⟩, hembedded⟩
      obtain ⟨hgroups, -⟩ := accessorArtifacts_eq_ok h (Proper.empty context groups).sound
      obtain ⟨methods, -, haccess⟩ := hgroups g hg
      obtain ⟨method, -, e', r', htype', hembed, hcached, -⟩ := haccess m hm
      rw [htype] at htype'
      obtain rfl := Option.some.inj htype'
      rw [embed_eq, hembedded] at hembed
      rw [Except.ok.inj hembed]
      exact hcached

/-- What is embedded is known from what is in it. -/
theorem EmbeddedOnce.eq {context' : PassContext} {groups' : List Group}
    {embedded embedded' : List (ResourceKey × EmbeddedResource)}
    (h : EmbeddedOnce context groups embedded) (h' : EmbeddedOnce context' groups' embedded')
    (hmem : ∀ x, x ∈ embedded ↔ x ∈ embedded') : embedded = embedded' := by
  have hnodup : ∀ {es : List (ResourceKey × EmbeddedResource)},
      es.Pairwise (fun x y => x.1.before y.1 = true) → es.Nodup := by
    refine fun hsorted => hsorted.imp fun {x y} hbefore heq => ?_
    rw [heq] at hbefore
    simp [ResourceKey.not_before_of_before hbefore] at hbefore
  have hperm := (List.perm_ext_iff_of_nodup (hnodup h.sorted) (hnodup h'.sorted)).mpr hmem
  refine hperm.eq_of_pairwise (fun x y _ _ hxy hyx => ?_) h.sorted h'.sorted
  simp [ResourceKey.not_before_of_before hxy] at hyx

/-- The generator makes the implementations, and after them what is embedded. -/
theorem resources_eq_ok_iff {made : List Artifact} :
    resources.generate context groups = .ok made ↔
      ∃ implementations embedded, groups.mapM (uncachedArtifact context) = .ok implementations ∧
        EmbeddedOnce context groups embedded ∧
        made = implementations ++ embedded.map fun x => x.2.artifact context.config.chunkSize := by
  have himplementations := map_fst_accessorArtifacts (Proper.empty context groups).sound groups
  simp only [resources]
  cases hmade : accessorArtifacts context [] groups with
  | error e =>
    rw [hmade] at himplementations
    rw [← himplementations]
    constructor
    · rintro ⟨⟩
    · rintro ⟨_, _, ⟨⟩, -⟩
  | ok result =>
    obtain ⟨implementations, cache⟩ := result
    have hembedded := embeddedOnce_of_accessorArtifacts hmade
    rw [hmade] at himplementations
    rw [← himplementations]
    constructor
    · intro h
      obtain rfl := Except.ok.inj h
      exact ⟨implementations, cache.embedded, rfl, hembedded, by rw [artifacts_eq]⟩
    · rintro ⟨_, embedded, ⟨⟩, honce, rfl⟩
      have hsame : embedded = cache.embedded := honce.eq hembedded fun x => by
        rw [honce.mem_iff, hembedded.mem_iff]
      rw [hsame]
      dsimp only
      rw [artifacts_eq]

theorem failure?_resources (context : PassContext) (groups : List Group) :
    failure? (resources.generate context groups) =
      failure? (groups.mapM (uncachedArtifact context)) := by
  rw [← map_fst_accessorArtifacts (Proper.empty context groups).sound]
  simp only [resources]
  cases accessorArtifacts context [] groups <;> rfl

end ContractForge
