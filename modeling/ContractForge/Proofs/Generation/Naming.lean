import ContractForge.Generation.Selection
import ContractForge.Proofs.Generation.Discovery
import ContractForge.Proofs.Generation.Outcome
import ContractForge.Proofs.Generation.Steps
import ContractForge.Proofs.Message.Variants
import ContractForge.Proofs.Resource.Keys

/-!
# How artifacts are named

* `Derived` : the ways in which a class comes about. It implements a contract, with the messages of a
  file or without, or it holds a resource. There are no others (`derived_of_made`).
* `Named` : what follows for the names of artifacts. An implementation stands in the namespace of its
  contract, an embedded resource in the directory of its path (`named_of_made`).
-/

namespace ContractForge

/-- What a class was made from, and what its head has of it. -/
inductive Derived (context : PassContext) (cls : Java.Class) : Prop
  /-- An implementation that gives resources back or calls a service. -/
  | implementation {c : Contract} (hc : c ∈ context.declarations.contracts)
      (hpackage : cls.package = c.space) (hname : cls.name = c.implName)
      (himplements : cls.implements = [c.name])
  /-- An implementation with the messages of a file beside the base file of the contract. -/
  | bundle {c : Contract} {v : Variant} {base dir : String}
      (hc : c ∈ context.declarations.contracts)
      (hbase : context.locator.resolve context.files
        (basePath c context.config.messageSuffix) = some base)
      (hdir : Path.parent? base = some dir)
      (hpath : v.path = Path.join dir (c.simpleName ++ v.locale ++ context.config.messageSuffix))
      (hfile : context.files.isFile v.path = true)
      (hpackage : cls.package = c.space) (hname : cls.name = c.implName ++ v.locale)
      (himplements : cls.implements = [c.name])
  /-- The class of an embedded resource. -/
  | embedded {c : Contract} {m : Method} {file : String}
      (hc : c ∈ context.declarations.contracts) (hm : m ∈ c.methods)
      (hmarked : m.markers.resource.isSome = true) (e : Encoding)
      (hfile : context.locator.resolve context.files (resourcePath c m) = some file)
      (hpackage : cls.package = EmbeddedResource.spaceFor (resourcePath c m))
      (hname : cls.name = EmbeddedResource.identifierFor e (Path.fileName file))
      (himplements : cls.implements = [])

/-- The artifact is named after a declared contract or after a marked path. -/
inductive Named (set : DeclarationSet) (a : Artifact) : Prop
  /-- The implementation of a contract, for a locale unless that is empty. -/
  | implementation {c : Contract} (hc : c ∈ set.contracts) (locale : String)
      (hspace : a.space = c.space) (hname : a.simpleName = c.implName ++ locale)
  /-- The class of an embedded resource. -/
  | embedded {c : Contract} {m : Method} (hc : c ∈ set.contracts) (hm : m ∈ c.methods)
      (hmarked : m.markers.resource.isSome = true) (e : Encoding) (file : String)
      (hspace : a.space = EmbeddedResource.spaceFor (resourcePath c m))
      (hname : a.simpleName = EmbeddedResource.identifierFor e file)

variable {context : PassContext} {groups : List Group} {a : Artifact}

theorem derived_of_resources (hgroups : ∀ g ∈ groups, g.Declared context.declarations .resource)
    {made : List Artifact} (h : resources.generate context groups = .ok made) (ha : a ∈ made) :
    ∃ cls, a = .ofClass cls ∧ Derived context cls := by
  simp only [resources] at h
  split at h
  next => cases h
  next accessors cache haccessors =>
    cases h
    rcases List.mem_append.mp ha with haccessor | hembedded
    · obtain ⟨g, hg, methods, rfl⟩ := of_mem_accessorArtifacts haccessors haccessor
      exact ⟨_, rfl, .implementation (hgroups g hg).contract rfl rfl rfl⟩
    · obtain ⟨⟨key, r⟩, hentry, hmade⟩ := List.mem_filterMap.mp hembedded
      obtain ⟨r, rfl, rfl⟩ := Option.map_eq_some_iff.mp hmade
      have hproper := proper_of_accessorArtifacts haccessors
      obtain ⟨g, hg, m, hm, e, -, hkey⟩ := hproper.asked _ hentry
      obtain ⟨file, hfile, -, hspace, hidentifier⟩ := embed_eq_ok_some (hproper.sound _ hentry)
      obtain ⟨c, hc, hname, hmem, hmarks⟩ := (hgroups g hg).methods m hm
      have hpath : key.path = resourcePath c m := by
        rw [resourcePath_congr hname, show key = _ from hkey]
      rw [hpath] at hspace hfile
      exact ⟨_, rfl, .embedded hc hmem hmarks _ hfile hspace hidentifier rfl⟩

theorem derived_of_services (hgroups : ∀ g ∈ groups, g.Declared context.declarations .path)
    {made : List Artifact} (h : services.generate context groups = .ok made) (ha : a ∈ made) :
    ∃ cls, a = .ofClass cls ∧ Derived context cls := by
  obtain ⟨g, hg, hproxy⟩ := exists_of_mem_mapM h ha
  obtain ⟨methods, -, hclass⟩ := bind_eq_ok_iff.mp hproxy
  cases hclass
  exact ⟨_, rfl, .implementation (hgroups g hg).contract rfl rfl rfl⟩

theorem derived_of_messages (hgroups : ∀ g ∈ groups, g.Declared context.declarations .messages)
    {made : List Artifact} (h : messages.generate context groups = .ok made) (ha : a ∈ made) :
    ∃ cls, a = .ofClass cls ∧ Derived context cls := by
  obtain ⟨bundles, hbundles, hflat⟩ := bind_eq_ok_iff.mp h
  cases hflat
  obtain ⟨bundle, hbundle, hmem⟩ := List.mem_flatten.mp ha
  obtain ⟨g, hg, hgroup⟩ := exists_of_mem_mapM hbundles hbundle
  unfold bundleArtifacts at hgroup
  dsimp only at hgroup
  split at hgroup
  next =>
    cases hgroup
    cases hmem
  next base hbase =>
    obtain ⟨variants, hvariants, hmade⟩ := bind_eq_ok_iff.mp hgroup
    obtain ⟨v, hv, hvariant⟩ := exists_of_mem_mapM hmade hmem
    obtain ⟨dir, above, hdir, -, -, hpath, hfile⟩ := exists_dir_of_localeVariants hvariants hv
    unfold bundleArtifact at hvariant
    split at hvariant
    next => cases hvariant
    next =>
      obtain ⟨methods, -, hclass⟩ := bind_eq_ok_iff.mp hvariant
      cases hclass
      exact ⟨_, rfl, .bundle (hgroups g hg).contract hbase hdir hpath hfile rfl rfl rfl⟩

/-- Every artifact of the generators is the source of a class that comes about in one of these ways. -/
theorem derived_of_made {generators : List Generator}
    (hbuiltin : ∀ g ∈ generators, g ∈ Selection.generators .all)
    (ha : Made context generators a) : ∃ cls, a = .ofClass cls ∧ Derived context cls := by
  obtain ⟨g, hg, made, hgenerate, hmem⟩ := ha.exists_generator
  have hgroups : ∀ x ∈ discover context.declarations g.marker,
      x.Declared context.declarations g.marker := fun x hx => declared_of_mem_discover hx
  have hall : g ∈ [resources, services, messages] := hbuiltin g hg
  simp only [List.mem_cons, List.not_mem_nil, or_false] at hall
  rcases hall with rfl | rfl | rfl
  · exact derived_of_resources hgroups hgenerate hmem
  · exact derived_of_services hgroups hgenerate hmem
  · exact derived_of_messages hgroups hgenerate hmem

/-- There are no other names. -/
theorem named_of_made {generators : List Generator}
    (hbuiltin : ∀ g ∈ generators, g ∈ Selection.generators .all)
    (ha : Made context generators a) : Named context.declarations a := by
  obtain ⟨cls, rfl, hderived⟩ := derived_of_made hbuiltin ha
  cases hderived with
  | implementation hc hpackage hname _ =>
    exact .implementation hc "" hpackage (hname.trans String.append_empty.symm)
  | bundle hc _ _ _ _ hpackage hname _ => exact .implementation hc _ hpackage hname
  | embedded hc hm hmarked e _ hpackage hname _ => exact .embedded hc hm hmarked e _ hpackage hname

end ContractForge
