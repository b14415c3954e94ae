import ContractForge.Proofs.Resource.Cache
import Mathlib.Data.List.Perm.Basic

/-!
# The keys of a pass

* `AskedFor` : the keys for which the marked methods of some groups ask.
* `ResourceCache.Proper` : every key stands once in the cache, was asked for, and has what embedding
  it gives.

What one look-up keeps, the whole run over the groups keeps (`accessorArtifacts_keeps`).
-/

namespace ContractForge

/-- The key of a method in one of the groups. -/
def AskedFor (groups : List Group) (key : ResourceKey) : Prop :=
  ∃ g ∈ groups, ∃ m ∈ g.methods, ∃ e, Encoding.ofReturnType m.returns = some e ∧
    key = ⟨e, resourcePath g.contract m⟩

namespace ResourceCache

/-- A cache without repeated keys, of keys that were asked for and what embedding them gives. -/
structure Proper (context : PassContext) (groups : List Group) (cache : ResourceCache) : Prop where
  nodup : (cache.map (·.1)).Nodup
  asked : ∀ entry ∈ cache, AskedFor groups entry.1
  sound : Sound context cache

variable {context : PassContext} {groups : List Group} {cache later : ResourceCache}
  {key : ResourceKey}

theorem insert_perm (key : ResourceKey) (r : Option EmbeddedResource) (cache : ResourceCache) :
    (insert key r cache).Perm ((key, r) :: cache) := by
  induction cache with
  | nil => exact .refl _
  | cons x rest ih =>
    rw [insert]
    split
    next => exact .refl _
    next => exact (ih.cons x).trans (.swap _ _ _)

theorem not_mem_keys_of_find? (h : cache.find? key = none) : key ∉ cache.map (·.1) := by
  intro hmem
  obtain ⟨entry, hentry, rfl⟩ := List.mem_map.mp hmem
  have hnone := List.find?_eq_none.mp (Option.map_eq_none_iff.mp h) entry hentry
  simp at hnone

theorem Proper.empty (context : PassContext) (groups : List Group) : Proper context groups [] :=
  ⟨List.nodup_nil, fun _ h => absurd h List.not_mem_nil, fun _ h => absurd h List.not_mem_nil⟩

theorem Proper.getOrEmbed {r : Option EmbeddedResource} (hproper : Proper context groups cache)
    (hasked : AskedFor groups key)
    (h : ResourceCache.getOrEmbed context cache key = .ok (r, later)) :
    Proper context groups later := by
  have hgrown := (getOrEmbed_eq_ok h hproper.sound).2.2
  rw [ResourceCache.getOrEmbed] at h
  split at h
  next =>
    cases h
    exact hproper
  next hnone =>
    split at h
    next => cases h
    next =>
      cases h
      refine ⟨?_, fun entry hentry => ?_, hgrown.sound hproper.sound⟩
      · rw [((insert_perm _ _ cache).map _).nodup_iff, List.map_cons, List.nodup_cons]
        exact ⟨not_mem_keys_of_find? hnone, hproper.nodup⟩
      · rcases mem_insert.mp hentry with rfl | hold
        · exact hasked
        · exact hproper.asked entry hold

end ResourceCache

open ResourceCache (Proper)

variable {context : PassContext} {groups : List Group} {cache later : ResourceCache}

/-! ### The loops of the generator -/

theorem accessorMethods_keeps {I : ResourceCache → Prop} {c : Contract} {ms : List Method}
    (hstep : ∀ m ∈ ms, ∀ e cache later r, Encoding.ofReturnType m.returns = some e →
      ResourceCache.getOrEmbed context cache ⟨e, resourcePath c m⟩ = .ok (r, later) →
      I cache → I later)
    {methods : List Java.Method}
    (h : accessorMethods context cache c ms = .ok (methods, later)) (hcache : I cache) :
    I later := by
  induction ms generalizing cache methods with
  | nil =>
    cases h
    exact hcache
  | cons m rest ih =>
    rw [accessorMethods] at h
    split at h
    next => cases h
    next method mid hmethod =>
      have hmid : I mid := by
        rw [accessorMethod] at hmethod
        split at hmethod
        next => cases hmethod
        next e htype =>
          split at hmethod
          next => cases hmethod
          next hget =>
            cases hmethod
            exact hstep m List.mem_cons_self e _ _ _ htype hget hcache
      split at h
      next => cases h
      next hrest =>
        cases h
        exact ih (fun n hn => hstep n (List.mem_cons_of_mem _ hn)) hrest hmid

/-- What the look-up of every key that is asked for keeps, the run over the groups keeps. -/
theorem accessorArtifacts_keeps {I : ResourceCache → Prop}
    (hstep : ∀ key, AskedFor groups key → ∀ cache later r,
      ResourceCache.getOrEmbed context cache key = .ok (r, later) → I cache → I later)
    {artifacts : List Artifact}
    (h : accessorArtifacts context cache groups = .ok (artifacts, later)) (hcache : I cache) :
    I later := by
  induction groups generalizing cache artifacts with
  | nil =>
    cases h
    exact hcache
  | cons g rest ih =>
    rw [accessorArtifacts] at h
    split at h
    next => cases h
    next methods mid hmethods =>
      have hmid : I mid := by
        refine accessorMethods_keeps (fun m hm e cache later r htype hget => ?_) hmethods hcache
        have hasked : AskedFor (g :: rest) ⟨e, resourcePath g.contract m⟩ :=
          ⟨g, List.mem_cons_self, m, hm, e, htype, rfl⟩
        exact hstep _ hasked cache later r hget
      split at h
      next => cases h
      next hrest =>
        cases h
        refine ih (fun key hasked => hstep key ?_) hrest hmid
        obtain ⟨x, hx, hkey⟩ := hasked
        exact ⟨x, List.mem_cons_of_mem _ hx, hkey⟩

theorem proper_of_accessorArtifacts {artifacts : List Artifact}
    (h : accessorArtifacts context [] groups = .ok (artifacts, cache)) :
    Proper context groups cache :=
  accessorArtifacts_keeps (fun _ hasked _ _ _ hget hproper => hproper.getOrEmbed hasked hget) h
    (.empty context groups)

/-- The first artifacts are the implementations of the contracts of the groups. -/
theorem of_mem_accessorArtifacts {artifacts : List Artifact}
    (h : accessorArtifacts context cache groups = .ok (artifacts, later)) {a : Artifact}
    (ha : a ∈ artifacts) : ∃ g ∈ groups, ∃ methods, a = .ofClass (accessorClass g.contract methods) := by
  induction groups generalizing cache artifacts with
  | nil =>
    cases h
    cases ha
  | cons g rest ih =>
    rw [accessorArtifacts] at h
    split at h
    next => cases h
    next methods mid hmethods =>
      split at h
      next => cases h
      next hrest =>
        cases h
        rcases List.mem_cons.mp ha with rfl | hmem
        · exact ⟨g, List.mem_cons_self, methods, rfl⟩
        · obtain ⟨x, hx, hclass⟩ := ih hrest hmem
          exact ⟨x, List.mem_cons_of_mem _ hx, hclass⟩

/-- What a key is embedded as: the directories of its path, and the digest of the name of the file
that the path resolves to. -/
theorem embed_eq_ok_some {key : ResourceKey} {r : EmbeddedResource}
    (h : embed context key = .ok (some r)) :
    ∃ file, context.locator.resolve context.files key.path = some file ∧ r.encoding = key.encoding ∧
      r.space = EmbeddedResource.spaceFor key.path ∧
      r.identifier = EmbeddedResource.identifierFor key.encoding (Path.fileName file) := by
  unfold embed at h
  split at h
  next => cases h
  next file hfile =>
    split at h
    next => cases h
    next =>
      cases h
      exact ⟨file, hfile, rfl, rfl, rfl⟩

end ContractForge
