import ContractForge.Generation.Selection
import ContractForge.Proofs.Files.WellFormed
import ContractForge.Proofs.Message.Variants
import ContractForge.Proofs.Resource.Uncached

/-!
# What a pass reads again

A pass reads files in three ways: it looks for the file of a logical path, it reads what it found, and
it lists the directory of a bundle.

* `PassContext.on` : the same pass on another tree.
* `PassContext.searched` : the logical paths that a pass looks for.
* `Locator.probed` : the files that are tried for a logical path until one is there.
* `PassContext.Rereads` : another tree gives the pass the same answers.

Generators make the same from trees that give the same answers (`makes_on`). A tree that has changed
gives the same answers if no file was written that was tried or has the end of a message file
(`rereads_of_changes`).
-/

namespace ContractForge

/-- The files that are tried for a logical path, up to the first that is there. -/
def Locator.probed (l : Locator) (t : FileTree) (path : String) : List String :=
  (l.candidates path).take ((l.candidates path).findIdx t.isFile + 1)

namespace PassContext

/-- The same pass on another tree. -/
def on (context : PassContext) (t : FileTree) : PassContext :=
  { context with files := t }

@[simp] theorem on_declarations (context : PassContext) (t : FileTree) :
    (context.on t).declarations = context.declarations :=
  rfl

@[simp] theorem on_locator (context : PassContext) (t : FileTree) :
    (context.on t).locator = context.locator :=
  rfl

@[simp] theorem on_config (context : PassContext) (t : FileTree) :
    (context.on t).config = context.config :=
  rfl

@[simp] theorem on_files (context : PassContext) (t : FileTree) : (context.on t).files = t :=
  rfl

/-- The resource paths and the bundle base names of the declared contracts. -/
def searched (context : PassContext) : List String :=
  ((discover context.declarations .resource).flatMap fun g =>
      g.methods.map (resourcePath g.contract)) ++
    (discover context.declarations .messages).map fun g =>
      basePath g.contract context.config.messageSuffix

/-- Another tree answers as the tree of the pass: the same files are found, with the same content,
and the same variants beside them. -/
structure Rereads (context : PassContext) (t : FileTree) : Prop where
  found : ∀ path ∈ context.searched,
    context.locator.resolve t path = context.locator.resolve context.files path
  read : ∀ path ∈ context.searched, ∀ file,
    context.locator.resolve context.files path = some file →
      t.read file = context.files.read file
  variants : ∀ base simple vs,
    localeVariants context.files base simple context.config.messageSuffix = .ok vs →
      localeVariants t base simple context.config.messageSuffix = .ok vs ∧
        ∀ v ∈ vs, t.read v.path = context.files.read v.path

end PassContext

variable {context : PassContext} {t : FileTree}

/-! ### Generators and the tree they read -/

theorem embedded?_on {e : Encoding} {path : String} (h : context.Rereads t)
    (hpath : path ∈ context.searched) :
    embedded? (context.on t) ⟨e, path⟩ = embedded? context ⟨e, path⟩ := by
  have hembed : embed (context.on t) ⟨e, path⟩ = embed context ⟨e, path⟩ := by
    simp only [embed, PassContext.on_locator, PassContext.on_files, h.found _ hpath]
    split
    next => rfl
    next file hfile => rw [h.read _ hpath file hfile]
  rw [embedded?, embedded?, hembed]

theorem resourcePath_mem_searched {g : Group} {m : Method}
    (hg : g ∈ discover context.declarations .resource) (hm : m ∈ g.methods) :
    resourcePath g.contract m ∈ context.searched := by
  rw [PassContext.searched, List.mem_append, List.mem_flatMap]
  exact .inl ⟨g, hg, List.mem_map.mpr ⟨m, hm, rfl⟩⟩

theorem uncachedArtifact_on {g : Group} (h : context.Rereads t)
    (hg : g ∈ discover context.declarations .resource) :
    uncachedArtifact (context.on t) g = uncachedArtifact context g := by
  have hmethod : ∀ m ∈ g.methods,
      uncachedAccessor (context.on t) g.contract m = uncachedAccessor context g.contract m := by
    intro m hm
    unfold uncachedAccessor
    split
    next => rfl
    next e _ => rw [embedded?_on h (resourcePath_mem_searched hg hm)]
  rw [uncachedArtifact, uncachedArtifact, mapM_congr hmethod]

theorem embeddedOnce_on (h : context.Rereads t) {embedded : List (ResourceKey × EmbeddedResource)} :
    EmbeddedOnce (context.on t) (discover context.declarations .resource) embedded ↔
      EmbeddedOnce context (discover context.declarations .resource) embedded := by
  have hsame : ∀ key, AskedFor (discover context.declarations .resource) key →
      embedded? (context.on t) key = embedded? context key := by
    intro key hasked
    obtain ⟨g, hg, m, hm, e, -, rfl⟩ := hasked
    exact embedded?_on h (resourcePath_mem_searched hg hm)
  have hmem : ∀ key r, (AskedFor (discover context.declarations .resource) key ∧
      embedded? (context.on t) key = some r) ↔
      (AskedFor (discover context.declarations .resource) key ∧ embedded? context key = some r) :=
    fun key r => and_congr_right fun hasked => by rw [hsame key hasked]
  constructor
  · exact fun once => ⟨once.sorted, fun key r => (once.mem_iff key r).trans (hmem key r)⟩
  · exact fun once => ⟨once.sorted, fun key r => (once.mem_iff key r).trans (hmem key r).symm⟩

theorem resources_on (h : context.Rereads t) {made : List Artifact} :
    resources.generate (context.on t) (discover context.declarations .resource) = .ok made ↔
      resources.generate context (discover context.declarations .resource) = .ok made := by
  have himplementations :
      (discover context.declarations .resource).mapM (uncachedArtifact (context.on t)) =
        (discover context.declarations .resource).mapM (uncachedArtifact context) :=
    mapM_congr fun g hg => uncachedArtifact_on h hg
  rw [resources_eq_ok_iff, resources_eq_ok_iff, himplementations]
  simp only [embeddedOnce_on h, PassContext.on_config]

theorem bundleArtifact_on {g : Group} {v : Variant}
    (hread : t.read v.path = context.files.read v.path) :
    bundleArtifact (context.on t) g v = bundleArtifact context g v := by
  simp only [bundleArtifact, PassContext.on_files, hread]

/-- What was made of a bundle is made of it again. -/
theorem bundleArtifacts_on {g : Group} (h : context.Rereads t)
    (hg : g ∈ discover context.declarations .messages) {made : List Artifact}
    (hmade : bundleArtifacts context g = .ok made) :
    bundleArtifacts (context.on t) g = .ok made := by
  have hpath : basePath g.contract context.config.messageSuffix ∈ context.searched := by
    rw [PassContext.searched, List.mem_append, List.mem_map]
    exact .inr ⟨g, hg, rfl⟩
  simp only [bundleArtifacts] at hmade
  simp only [bundleArtifacts, PassContext.on_locator, PassContext.on_files, PassContext.on_config,
    h.found _ hpath]
  split at hmade
  next => exact hmade
  next base hbase =>
    obtain ⟨vs, hvs, hvariants⟩ := bind_eq_ok_iff.mp hmade
    obtain ⟨hvs', hread⟩ := h.variants _ _ _ hvs
    refine bind_eq_ok_iff.mpr ⟨vs, hvs', ?_⟩
    rw [← hvariants]
    exact mapM_congr fun v hv => bundleArtifact_on (hread v hv)

theorem messages_on (h : context.Rereads t) {made : List Artifact}
    (hmade : messages.generate context (discover context.declarations .messages) = .ok made) :
    messages.generate (context.on t) (discover context.declarations .messages) = .ok made := by
  obtain ⟨bundles, hbundles, hflat⟩ := bind_eq_ok_iff.mp hmade
  refine bind_eq_ok_iff.mpr ⟨bundles, mapM_eq_ok_iff.mpr ?_, hflat⟩
  have hgroups := (List.forall₂_and_left _ _).mpr ⟨fun g hg => hg, mapM_eq_ok_iff.mp hbundles⟩
  exact hgroups.imp fun g made hgroup => bundleArtifacts_on h hgroup.1 hgroup.2

/-- The generators make from a tree with the same answers what they made. -/
theorem makes_on {generators : List Generator} {artifacts : List Artifact}
    (hbuiltin : ∀ g ∈ generators, g ∈ Selection.generators .all) (h : context.Rereads t)
    (hmakes : Makes context generators artifacts) : Makes (context.on t) generators artifacts := by
  induction hmakes with
  | nil => exact .nil
  | cons hmade hfurther ih =>
    rename_i g rest made further
    refine .cons ?_ (ih fun g hg => hbuiltin g (List.mem_cons_of_mem _ hg))
    have hall : g ∈ [resources, services, messages] := hbuiltin g List.mem_cons_self
    simp only [List.mem_cons, List.not_mem_nil, or_false] at hall
    rcases hall with rfl | rfl | rfl
    · exact (resources_on h).mpr hmade
    · exact hmade
    · exact messages_on h hmade

/-! ### A tree that has changed -/

variable {made written : Location → Prop} {t' : FileTree}

/-- A search depends on what is tried until something is found. -/
theorem find?_congr_take {α : Type} {p q : α → Bool} {xs : List α}
    (h : ∀ x ∈ xs.take (xs.findIdx p + 1), q x = p x) : xs.find? q = xs.find? p := by
  induction xs with
  | nil => rfl
  | cons x rest ih =>
    have hx : q x = p x := h x (by simp)
    rw [List.find?_cons, List.find?_cons, hx]
    cases hp : p x with
    | true => rfl
    | false =>
      refine ih fun y hy => h y ?_
      rw [List.findIdx_cons, hp]
      exact List.mem_cons_of_mem _ hy

theorem mem_take_of_find? {α : Type} {p : α → Bool} {xs : List α} {x : α} (h : xs.find? p = some x) :
    x ∈ xs.take (xs.findIdx p + 1) := by
  induction xs with
  | nil => cases h
  | cons y rest ih =>
    rw [List.find?_cons] at h
    rw [List.findIdx_cons]
    cases hp : p y with
    | true =>
      rw [hp] at h
      obtain rfl := Option.some.inj h
      exact List.mem_cons_self
    | false =>
      rw [hp] at h
      exact List.mem_cons_of_mem _ (ih h)

/-- A name that no written file has leads from a directory to a file afterwards exactly if it did
before. -/
theorem isFile_join_of_changes {dir name : String} {above : Location}
    (h : FileTree.Changes made written t t') (hdir : t.locate dir = .ok above)
    (hfind : t.find? above = some .directory) (hname : Path.IsName name)
    (hnot : ¬written (above ++ [name])) :
    t'.isFile (Path.join dir name) = t.isFile (Path.join dir name) := by
  have hstep : t'.step above name = t.step above name := by
    simp only [FileTree.step, hfind, h.directory hfind]
  rw [Bool.eq_iff_iff, FileTree.isFile_iff, FileTree.isFile_iff]
  constructor
  · rintro ⟨l, content, hlocate, hfile⟩
    obtain ⟨⟨⟩, hcheck, -⟩ := bind_eq_ok_iff.mp hlocate
    rw [FileTree.locate_join hname.2.2 (h.locate hdir) hcheck, hstep] at hlocate
    have hl : l = above ++ [name] := by
      rw [(FileTree.step_eq_ok hlocate).1, above.enter_of_isName hname]
    refine ⟨l, content, by rw [FileTree.locate_join hname.2.2 hdir hcheck, hlocate], ?_⟩
    rcases h.find? l with hsame | ⟨-, -, hmade⟩ | ⟨hwritten, -⟩
    · exact hsame ▸ hfile
    · rw [hfile] at hmade
      cases hmade
    · exact absurd (hl ▸ hwritten) hnot
  · rintro ⟨l, content, hlocate, hfile⟩
    have hlocate' := h.locate hlocate
    obtain ⟨⟨⟩, hcheck, -⟩ := bind_eq_ok_iff.mp hlocate
    rw [FileTree.locate_join hname.2.2 hdir hcheck] at hlocate
    have hl : l = above ++ [name] := by
      rw [(FileTree.step_eq_ok hlocate).1, above.enter_of_isName hname]
    exact ⟨l, content, hlocate', h.file (hl ▸ hnot) hfile⟩

/-- No written file has a name that ends as the names of message files do. -/
def Unlisted (written : Location → Prop) (suffix : String) : Prop :=
  ∀ above name, written (above ++ [name]) → ¬suffix.toList <:+ name.toList

/-- The names of variants in a directory are the same. -/
theorem mem_variants_of_changes {dir simple suffix name : String} {above : Location}
    (h : FileTree.Changes made written t t') (ht : t.Sound) (ht' : t'.Sound)
    (hunlisted : Unlisted written suffix) (hdir : t.locate dir = .ok above)
    (hfind : t.find? above = some .directory) (hlocale : hasLocale simple suffix name = true) :
    (name ∈ t'.namesIn above ∧ t'.isFile (Path.join dir name) = true) ↔
      name ∈ t.namesIn above ∧ t.isFile (Path.join dir name) = true := by
  have hnot : ¬written (above ++ [name]) := by
    intro hwritten
    obtain ⟨locale, rfl⟩ := hasLocale_iff.mp hlocale
    refine hunlisted above _ hwritten ?_
    rw [String.toList_append]
    exact List.suffix_append _ _
  have hentry : ∀ (tree : FileTree), name ∈ tree.namesIn above ↔ tree.find? (above ++ [name]) ≠ none := by
    intro tree
    rw [FileTree.mem_namesIn_iff]
    constructor
    · intro hnamed
      obtain ⟨e, he⟩ := hnamed
      exact FileTree.find?_ne_none_of_mem he
    · exact FileTree.exists_mem_of_find? (by simp)
  constructor
  · intro hfound
    obtain ⟨hmem, hfile⟩ := hfound
    have hname := ht'.isName hmem
    rw [isFile_join_of_changes h hdir hfind hname hnot] at hfile
    refine ⟨?_, hfile⟩
    -- a file that is there was there before
    obtain ⟨l, content, hlocate, hcontent⟩ := FileTree.isFile_iff.mp hfile
    obtain ⟨⟨⟩, hcheck, -⟩ := bind_eq_ok_iff.mp hlocate
    rw [FileTree.locate_join hname.2.2 hdir hcheck] at hlocate
    rw [(FileTree.step_eq_ok hlocate).1, above.enter_of_isName hname] at hcontent
    exact (hentry t).mpr (by simp [hcontent])
  · intro hfound
    obtain ⟨hmem, hfile⟩ := hfound
    rw [isFile_join_of_changes h hdir hfind (ht.isName hmem) hnot]
    exact ⟨(hentry t').mpr (h.find?_ne_none ((hentry t).mp hmem)), hfile⟩

theorem localeVariants_of_changes {base simple suffix : String} {vs : List Variant}
    (h : FileTree.Changes made written t t') (ht : t.Sound) (ht' : t'.Sound)
    (hunlisted : Unlisted written suffix) (hvs : localeVariants t base simple suffix = .ok vs) :
    localeVariants t' base simple suffix = .ok vs := by
  unfold localeVariants at hvs ⊢
  split at hvs
  next => exact hvs
  next dir hparent =>
    split at hvs
    next => cases hvs
    next names hlist =>
      obtain ⟨above, hdir, hfind, rfl⟩ := FileTree.list_eq_ok hlist
      have hlist' : t'.list dir = .ok (t'.namesIn above) := by
        refine bind_eq_ok_iff.mpr ⟨above, h.locate hdir, ?_⟩
        rw [h.directory hfind]
      have hperm : ((t'.namesIn above).filter fun name => t'.isFile (Path.join dir name)).filter
          (hasLocale simple suffix) |>.Perm
          (((t.namesIn above).filter fun name => t.isFile (Path.join dir name)).filter
            (hasLocale simple suffix)) := by
        refine (List.perm_ext_iff_of_nodup (((ht'.nodup_namesIn above).filter _).filter _)
          (((ht.nodup_namesIn above).filter _).filter _)).mpr fun name => ?_
        simp only [List.mem_filter]
        exact and_congr_left fun hlocale =>
          mem_variants_of_changes h ht ht' hunlisted hdir hfind hlocale
      rw [hlist']
      dsimp only
      rw [variantsAmong_congr hperm]
      exact hvs

theorem read_variant_of_changes {base simple suffix : String} {vs : List Variant} {v : Variant}
    (h : FileTree.Changes made written t t') (ht : t.Sound) (hunlisted : Unlisted written suffix)
    (hvs : localeVariants t base simple suffix = .ok vs) (hv : v ∈ vs) :
    t'.read v.path = t.read v.path := by
  obtain ⟨dir, above, -, hdir, hname, hpath, hfile⟩ := exists_dir_of_localeVariants hvs hv
  refine h.read_eq hfile fun l hlocate hwritten => ?_
  rw [hpath] at hlocate
  rw [ht.eq_of_locate_join hdir hname hlocate] at hwritten
  refine hunlisted above _ hwritten ?_
  rw [String.toList_append]
  exact List.suffix_append _ _

/-- A tree in which no file was written that the pass tries or lists gives the pass the same answers. -/
theorem rereads_of_changes (h : FileTree.Changes made written context.files t)
    (hfiles : context.files.WellFormed) (ht : t.Sound) (hroot : Path.Descends context.locator.root)
    (hlanguage : Path.Descends context.locator.language)
    (hsuffix : Path.Descends context.config.messageSuffix)
    (hprobed : ∀ path ∈ context.searched, ∀ file ∈ context.locator.probed context.files path,
      ∀ l, t.locate file = .ok l → ¬written l)
    (hunlisted : Unlisted written context.config.messageSuffix) : context.Rereads t where
  found path hpath := by
    have hdescends : Path.Descends path := by
      rw [PassContext.searched, List.mem_append, List.mem_flatMap, List.mem_map] at hpath
      rcases hpath with ⟨g, -, hmem⟩ | ⟨g, -, rfl⟩
      · obtain ⟨m, -, rfl⟩ := List.mem_map.mp hmem
        exact descends_resourcePath g.contract m
      · exact descends_basePath g.contract hsuffix
    refine find?_congr_take fun file hfile => h.isFile_eq hfiles ?_ (hprobed path hpath file hfile)
    exact Locator.descends_of_mem_candidates hroot hlanguage hdescends (List.mem_of_mem_take hfile)
  read path hpath file hfound :=
    h.read_eq (Locator.isFile_of_resolve hfound) fun l hl =>
      hprobed path hpath file (mem_take_of_find? hfound) l (h.locate hl)
  variants base simple vs hvs :=
    ⟨localeVariants_of_changes h hfiles.toSound ht hunlisted hvs, fun v hv =>
      read_variant_of_changes h hfiles.toSound hunlisted hvs hv⟩

end ContractForge
