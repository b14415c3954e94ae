import ContractForge.Resource.Accessors

/-!
# The cache of a pass

* `ResourceCache.Sound` : what is remembered of a key is what embedding it gives.
* `ResourceCache.Grows` : nothing is forgotten, and soundness is kept.
* `Accesses` : a method gives back what the cache holds for its key.

Each of the three loops of the generator has one lemma: the cache grows, and every marked method gets
an accessor.
-/

namespace ContractForge

namespace ResourceCache

/-- What is remembered of a key is what embedding it gives. -/
def Sound (context : PassContext) (cache : ResourceCache) : Prop :=
  ∀ entry ∈ cache, embed context entry.1 = .ok entry.2

/-- A later cache, which has all that the earlier one has. -/
structure Grows (context : PassContext) (cache later : ResourceCache) : Prop where
  kept : ∀ entry ∈ cache, entry ∈ later
  sound : Sound context cache → Sound context later

variable {context : PassContext} {cache mid later : ResourceCache}

theorem Grows.refl (context : PassContext) (cache : ResourceCache) : Grows context cache cache :=
  ⟨fun _ h => h, fun h => h⟩

theorem Grows.trans (h : Grows context cache mid) (h' : Grows context mid later) :
    Grows context cache later :=
  ⟨fun entry he => h'.kept entry (h.kept entry he), fun hs => h'.sound (h.sound hs)⟩

theorem mem_insert {key : ResourceKey} {r : Option EmbeddedResource}
    {entry : ResourceKey × Option EmbeddedResource} :
    entry ∈ insert key r cache ↔ entry = (key, r) ∨ entry ∈ cache := by
  induction cache with
  | nil => simp [insert]
  | cons x rest ih =>
    rw [insert]
    split
    next => simp
    next => simp [ih, or_left_comm]

/-- Asking for a key gives what embedding it gives, and the cache has it afterwards. -/
theorem getOrEmbed_eq_ok {key : ResourceKey} {r : Option EmbeddedResource}
    (h : getOrEmbed context cache key = .ok (r, later)) (hsound : Sound context cache) :
    embed context key = .ok r ∧ (key, r) ∈ later ∧ Grows context cache later := by
  rw [getOrEmbed] at h
  split at h
  next found hfind =>
    cases h
    obtain ⟨entry, hentry, rfl⟩ := Option.map_eq_some_iff.mp hfind
    have hkey : entry.1 = key := by simpa using List.find?_some hentry
    have hmem := List.mem_of_find?_eq_some hentry
    subst hkey
    exact ⟨hsound entry hmem, hmem, Grows.refl context cache⟩
  next =>
    split at h
    next => cases h
    next made hembed =>
      cases h
      refine ⟨hembed, mem_insert.mpr (.inl rfl), fun entry he => mem_insert.mpr (.inr he), ?_⟩
      intro _ entry he
      rcases mem_insert.mp he with rfl | hold
      · exact hembed
      · exact hsound entry hold

end ResourceCache

open ResourceCache (Sound Grows)

theorem resourcePath_congr {c d : Contract} (h : c.name = d.name) (m : Method) :
    resourcePath c m = resourcePath d m := by
  simp only [resourcePath, Contract.space, h]

/-- The method gives back what the cache holds for its key. -/
def Accesses (context : PassContext) (cache : ResourceCache) (c : Contract) (m : Method)
    (method : Java.Method) : Prop :=
  ∃ e r, Encoding.ofReturnType m.returns = some e ∧
    embed context ⟨e, resourcePath c m⟩ = .ok r ∧ (⟨e, resourcePath c m⟩, r) ∈ cache ∧
    method = .overriding m [accessorStatement r]

variable {context : PassContext} {cache later : ResourceCache}

theorem Accesses.mono {c : Contract} {m : Method} {method : Java.Method}
    (h : Accesses context cache c m method) (hgrows : Grows context cache later) :
    Accesses context later c m method := by
  obtain ⟨e, r, htype, hembed, hmem, hmethod⟩ := h
  exact ⟨e, r, htype, hembed, hgrows.kept _ hmem, hmethod⟩

theorem accessorMethod_eq_ok {c : Contract} {m : Method} {method : Java.Method}
    (h : accessorMethod context cache c m = .ok (method, later)) (hsound : Sound context cache) :
    Accesses context later c m method ∧ Grows context cache later := by
  rw [accessorMethod] at h
  split at h
  next => cases h
  next e htype =>
    split at h
    next => cases h
    next r cache' hget =>
      cases h
      obtain ⟨hembed, hmem, hgrows⟩ := ResourceCache.getOrEmbed_eq_ok hget hsound
      exact ⟨⟨e, r, htype, hembed, hmem, rfl⟩, hgrows⟩

theorem accessorMethods_eq_ok {c : Contract} {ms : List Method} {methods : List Java.Method}
    (h : accessorMethods context cache c ms = .ok (methods, later)) (hsound : Sound context cache) :
    (∀ m ∈ ms, ∃ method ∈ methods, Accesses context later c m method) ∧
      Grows context cache later := by
  induction ms generalizing cache methods with
  | nil =>
    cases h
    exact ⟨fun m hm => absurd hm List.not_mem_nil, Grows.refl context _⟩
  | cons m rest ih =>
    rw [accessorMethods] at h
    split at h
    next => cases h
    next method mid hmethod =>
      split at h
      next => cases h
      next further last hrest =>
        cases h
        obtain ⟨hfirst, hgrows⟩ := accessorMethod_eq_ok hmethod hsound
        obtain ⟨hothers, hmore⟩ := ih hrest (hgrows.sound hsound)
        refine ⟨fun x hx => ?_, hgrows.trans hmore⟩
        rcases List.mem_cons.mp hx with rfl | hmem
        · exact ⟨method, List.mem_cons_self, hfirst.mono hmore⟩
        · obtain ⟨found, hfound, haccess⟩ := hothers x hmem
          exact ⟨found, List.mem_cons_of_mem _ hfound, haccess⟩

theorem accessorArtifacts_eq_ok {groups : List Group} {artifacts : List Artifact}
    (h : accessorArtifacts context cache groups = .ok (artifacts, later))
    (hsound : Sound context cache) :
    (∀ g ∈ groups, ∃ methods, .ofClass (accessorClass g.contract methods) ∈ artifacts ∧
        ∀ m ∈ g.methods, ∃ method ∈ methods, Accesses context later g.contract m method) ∧
      Grows context cache later := by
  induction groups generalizing cache artifacts with
  | nil =>
    cases h
    exact ⟨fun g hg => absurd hg List.not_mem_nil, Grows.refl context _⟩
  | cons g rest ih =>
    rw [accessorArtifacts] at h
    split at h
    next => cases h
    next methods mid hmethods =>
      split at h
      next => cases h
      next further last hrest =>
        cases h
        obtain ⟨hfirst, hgrows⟩ := accessorMethods_eq_ok hmethods hsound
        obtain ⟨hothers, hmore⟩ := ih hrest (hgrows.sound hsound)
        refine ⟨fun x hx => ?_, hgrows.trans hmore⟩
        rcases List.mem_cons.mp hx with rfl | hmem
        · refine ⟨methods, List.mem_cons_self, fun m hm => ?_⟩
          obtain ⟨found, hfound, haccess⟩ := hfirst m hm
          exact ⟨found, hfound, haccess.mono hmore⟩
        · obtain ⟨found, hclass, haccess⟩ := hothers x hmem
          exact ⟨found, List.mem_cons_of_mem _ hclass, haccess⟩

/-- A successful run of the generator makes an accessor for every method of every group, and the
class of every resource that an accessor gives back. -/
theorem resources_generate_eq_ok {groups : List Group} {artifacts : List Artifact}
    (h : resources.generate context groups = .ok artifacts) :
    ∃ cache, (∀ g ∈ groups, ∃ methods, .ofClass (accessorClass g.contract methods) ∈ artifacts ∧
        ∀ m ∈ g.methods, ∃ method ∈ methods, Accesses context cache g.contract m method) ∧
      ∀ key r, (key, some r) ∈ cache → r.artifact context.config.chunkSize ∈ artifacts := by
  simp only [resources] at h
  split at h
  next => cases h
  next accessors cache haccessors =>
    cases h
    obtain ⟨hgroups, -⟩ := accessorArtifacts_eq_ok haccessors fun entry he => absurd he List.not_mem_nil
    refine ⟨cache, fun g hg => ?_, fun key r hmem => ?_⟩
    · obtain ⟨methods, hclass, haccess⟩ := hgroups g hg
      exact ⟨methods, List.mem_append_left _ hclass, haccess⟩
    · exact List.mem_append_right _ (List.mem_filterMap.mpr ⟨_, hmem, rfl⟩)

end ContractForge
