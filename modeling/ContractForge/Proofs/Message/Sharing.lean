import ContractForge.Proofs.Files.NewFile
import ContractForge.Proofs.Generation.ImplementationNames
import ContractForge.Proofs.Message.Bundles
import Mathlib.Data.List.Sort

/-!
# Message files that contracts share

* `PassContext.baseDirectory?` : the directory in which the base file of a contract is found.
* `PassContext.withFile` : the context after a file is added or replaced.

A file is a variant of every contract whose base file it stands beside and with whose simple name it
begins. So two contracts share files exactly if their base files stand in one directory and one simple
name begins with the other (`bundles_of_neighbours`).
-/

namespace ContractForge

/-- The directory in which the base file of a contract is found. -/
def PassContext.baseDirectory? (context : PassContext) (c : Contract) : Option String :=
  (context.locator.resolve context.files (basePath c context.config.messageSuffix)).bind Path.parent?

/-- The context with a file at a location. -/
def PassContext.withFile (context : PassContext) (l : Location) (content : ByteArray) : PassContext :=
  { context with files := context.files.put l (.file content) }

/-! ### The variants beside a base file -/

namespace VariantsBeside

variable {t : FileTree} {base simple suffix : String} {vs : List Variant}

/-- The file of a variant is known by its locale. -/
theorem locate_of_mem (h : VariantsBeside t base simple suffix vs) (hsound : t.Sound) {v : Variant}
    (hv : v ∈ vs) :
    ∃ dir above, Path.parent? base = some dir ∧ t.locate dir = .ok above ∧
      t.locate v.path = .ok (above ++ [simple ++ v.locale ++ suffix]) := by
  obtain ⟨dir, found, names, others, hparent, hlist, hperm, -, hvariants, -⟩ := h
  obtain ⟨above, hdir, -, rfl⟩ := FileTree.list_eq_ok hlist
  obtain ⟨name, hname, hlocale, hpath, hfile⟩ := exists_left_of_forall₂ hvariants hv
  have hmem : name ∈ t.namesIn above := hperm.mem_iff.mpr (List.mem_append_left _ hname)
  refine ⟨dir, above, hparent, hdir, ?_⟩
  obtain ⟨l, -, hlocate, -⟩ := FileTree.exists_locate_of_isFile hfile
  rw [hpath] at hlocate ⊢
  rw [hlocate, hsound.eq_of_locate_join hdir hmem hlocate, hlocale]

theorem nodup_locales (h : VariantsBeside t base simple suffix vs) (hsound : t.Sound) :
    (vs.map (·.locale)).Nodup := by
  obtain ⟨dir, found, names, others, -, hlist, hperm, -, hvariants, -⟩ := h
  obtain ⟨above, -, -, rfl⟩ := FileTree.list_eq_ok hlist
  have hnodup := hperm.nodup_iff.mp (hsound.nodup_namesIn above)
  have hnames : names = (vs.map (·.locale)).map fun locale => simple ++ locale ++ suffix := by
    rw [← List.forall₂_eq_eq_eq, List.forall₂_map_right_iff, List.forall₂_map_right_iff]
    exact hvariants.imp fun _ _ hv => hv.1
  rw [hnames] at hnodup
  exact (List.nodup_append.mp hnodup).1.of_map _

/-- Every file of the directory that is named like a variant is one. -/
theorem mem_of_isFile (h : VariantsBeside t base simple suffix vs) {dir name locale : String}
    {found : List String} (hparent : Path.parent? base = some dir) (hlist : t.list dir = .ok found)
    (hmem : name ∈ found) (hfile : t.isFile (Path.join dir name) = true)
    (hname : name = simple ++ locale ++ suffix) : ⟨Path.join dir name, locale⟩ ∈ vs := by
  obtain ⟨dir', found', names, others, hparent', hlist', hperm, -, hvariants, hothers⟩ := h
  obtain rfl := Option.some.inj (hparent.symm.trans hparent')
  obtain rfl := Except.ok.inj (hlist.symm.trans hlist')
  rcases List.mem_append.mp (hperm.mem_iff.mp hmem) with hvariant | hother
  · obtain ⟨⟨path, locale'⟩, hv, hlocale, hpath, -⟩ := exists_right_of_forall₂ hvariants hvariant
    obtain rfl : locale' = locale := locale_inj.mp (hlocale.symm.trans hname)
    rwa [← hpath]
  · exact absurd hname (hothers name hother hfile locale)

/-! ### One more file in the directory -/

variable {dir name : String} {above : Location} {content : ByteArray}

/-- The variants and the other names of the directory are the same after a file is added. -/
theorem exists_names_put (h : VariantsBeside t base simple suffix vs) (hsound : t.Sound)
    (hparent : Path.parent? base = some dir) (hdir : t.locate dir = .ok above)
    (hnew : t.find? (above ++ [name]) = none) :
    ∃ names others,
      (t.put (above ++ [name]) (.file content)).list dir = .ok (t.namesIn above ++ [name]) ∧
      (t.namesIn above).Perm (names ++ others) ∧ names.Pairwise (· ≤ ·) ∧
      List.Forall₂ (fun name' v => name' = simple ++ v.locale ++ suffix ∧
        v.path = Path.join dir name' ∧
        (t.put (above ++ [name]) (.file content)).isFile v.path = true) names vs ∧
      ∀ other ∈ others,
        (t.put (above ++ [name]) (.file content)).isFile (Path.join dir other) = true →
        ∀ locale, other ≠ simple ++ locale ++ suffix := by
  obtain ⟨dir', found, names, others, hparent', hlist, hperm, hsorted, hvariants, hothers⟩ := h
  obtain rfl := Option.some.inj (hparent.symm.trans hparent')
  obtain ⟨above', hdir', hfind, rfl⟩ := FileTree.list_eq_ok hlist
  obtain rfl := Except.ok.inj (hdir.symm.trans hdir')
  have hsame : ∀ other ∈ names ++ others,
      (t.put (above ++ [name]) (.file content)).isFile (Path.join dir other) =
        t.isFile (Path.join dir other) :=
    fun other hmem => hsound.isFile_join_put hdir hnew (hperm.mem_iff.mpr hmem)
  refine ⟨names, others, FileTree.list_put hdir hfind hnew, hperm, hsorted, ?_, ?_⟩
  · have hmem : ∀ other ∈ names, other ∈ names ++ others := fun _ => List.mem_append_left _
    refine ((List.forall₂_and_left _ _).mpr ⟨hmem, hvariants⟩).imp ?_
    rintro other v ⟨hother, hlocale, hpath, hfile⟩
    rw [hpath, ← hsame other hother, ← hpath] at hfile
    exact ⟨hlocale, hpath, hfile⟩
  · intro other hother hfile
    rw [hsame other (List.mem_append_right _ hother)] at hfile
    exact hothers other hother hfile

/-- A file of another name is no variant. -/
theorem put_other (h : VariantsBeside t base simple suffix vs) (hsound : t.Sound)
    (hparent : Path.parent? base = some dir) (hdir : t.locate dir = .ok above)
    (hnew : t.find? (above ++ [name]) = none) (hname : ∀ locale, name ≠ simple ++ locale ++ suffix) :
    VariantsBeside (t.put (above ++ [name]) (.file content)) base simple suffix vs := by
  obtain ⟨names, others, hlist, hperm, hsorted, hvariants, hothers⟩ :=
    h.exists_names_put hsound hparent hdir hnew
  have hmore : (t.namesIn above ++ [name]).Perm (names ++ (others ++ [name])) := by
    rw [← List.append_assoc]
    exact hperm.append_right _
  refine ⟨dir, _, names, others ++ [name], hparent, hlist, hmore, hsorted, hvariants, ?_⟩
  intro other hother hfile
  rcases List.mem_append.mp hother with hmem | hmem
  · exact hothers other hmem hfile
  · rw [List.mem_singleton.mp hmem]
    exact hname

/-- What corresponds to a sorted list corresponds to it with one element more at its place. -/
theorem exists_forall₂_orderedInsert {R : String → Variant → Prop} {names : List String} {v : Variant}
    (h : List.Forall₂ R names vs) (hv : R name v) :
    ∃ before after, vs = before ++ after ∧
      List.Forall₂ R (names.orderedInsert (· ≤ ·) name) (before ++ v :: after) := by
  induction h with
  | nil => exact ⟨[], [], rfl, .cons hv .nil⟩
  | cons hfirst hrest ih =>
    rw [List.orderedInsert_cons]
    split
    next => exact ⟨[], _, rfl, .cons hv (.cons hfirst hrest)⟩
    next =>
      obtain ⟨before, after, rfl, hmore⟩ := ih
      exact ⟨_ :: before, after, rfl, .cons hfirst hmore⟩

/-- A file that is named like a variant is one more. -/
theorem put_variant (h : VariantsBeside t base simple suffix vs) (hsound : t.Sound)
    (hparent : Path.parent? base = some dir) (hdir : t.locate dir = .ok above)
    (hnew : t.find? (above ++ [name]) = none) {locale : String}
    (hname : name = simple ++ locale ++ suffix)
    (hopens : (t.put (above ++ [name]) (.file content)).isFile (Path.join dir name) = true) :
    ∃ before after, vs = before ++ after ∧
      VariantsBeside (t.put (above ++ [name]) (.file content)) base simple suffix
        (before ++ ⟨Path.join dir name, locale⟩ :: after) := by
  obtain ⟨names, others, hlist, hperm, hsorted, hvariants, hothers⟩ :=
    h.exists_names_put hsound hparent hdir hnew
  obtain ⟨before, after, rfl, hinserted⟩ :=
    exists_forall₂_orderedInsert (v := ⟨Path.join dir name, locale⟩) hvariants ⟨hname, rfl, hopens⟩
  have hmore : (t.namesIn above ++ [name]).Perm (names.orderedInsert (· ≤ ·) name ++ others) := by
    refine (List.perm_append_singleton name _).trans ((hperm.cons name).trans ?_)
    exact (List.perm_orderedInsert _ name names).symm.append_right others
  exact ⟨before, after, rfl, dir, _, _, others, hparent, hlist, hmore, hsorted.orderedInsert name _,
    hinserted, hothers⟩

end VariantsBeside

/-! ### Variants of declared contracts -/

variable {context : PassContext} {contracts : List Contract} {bundles : List (Contract × Variant)}
  {c c' : Contract} {v v' : Variant}

theorem Bundles.of_mem (h : Bundles context contracts bundles) (hmem : (c, v) ∈ bundles) :
    c ∈ contracts ∧ c.messages = true ∧ ∃ base variants,
      context.locator.resolve context.files (basePath c context.config.messageSuffix) = some base ∧
      VariantsBeside context.files base c.simpleName context.config.messageSuffix variants ∧
      v ∈ variants := by
  induction h with
  | nil => cases hmem
  | skipped _ _ ih =>
    obtain ⟨hc, hrest⟩ := ih hmem
    exact ⟨List.mem_cons_of_mem _ hc, hrest⟩
  | found hmarked hresolved hbeside _ ih =>
    rcases List.mem_append.mp hmem with hfirst | hlater
    · obtain ⟨v, hv, heq⟩ := List.mem_map.mp hfirst
      obtain ⟨rfl, rfl⟩ := Prod.mk.inj heq
      exact ⟨List.mem_cons_self, hmarked, _, _, hresolved, hbeside, hv⟩
    · obtain ⟨hc, hrest⟩ := ih hlater
      exact ⟨List.mem_cons_of_mem _ hc, hrest⟩

theorem baseDirectory?_eq_some_iff {dir : String} :
    context.baseDirectory? c = some dir ↔ ∃ base,
      context.locator.resolve context.files (basePath c context.config.messageSuffix) = some base ∧
      Path.parent? base = some dir :=
  Option.bind_eq_some_iff

theorem baseDirectory?_eq {base : String}
    (h : context.locator.resolve context.files (basePath c context.config.messageSuffix) = some base) :
    context.baseDirectory? c = Path.parent? base := by
  rw [PassContext.baseDirectory?, h]
  rfl

/-- Contracts that share a file are neighbours, and the simple name of one begins with the other's. -/
theorem Bundles.neighbours_of_locate_eq (h : Bundles context contracts bundles)
    (hsound : context.files.Sound) (hb : (c, v) ∈ bundles) (hb' : (c', v') ∈ bundles)
    (hsame : context.files.locate v.path = context.files.locate v'.path) :
    (∃ dir dir', context.baseDirectory? c = some dir ∧ context.baseDirectory? c' = some dir' ∧
      context.files.locate dir = context.files.locate dir') ∧
    (c.simpleName.toList <+: c'.simpleName.toList ∨ c'.simpleName.toList <+: c.simpleName.toList) := by
  obtain ⟨-, -, base, variants, hresolved, hbeside, hv⟩ := h.of_mem hb
  obtain ⟨-, -, base', variants', hresolved', hbeside', hv'⟩ := h.of_mem hb'
  obtain ⟨dir, above, hparent, hdir, hlocate⟩ := hbeside.locate_of_mem hsound hv
  obtain ⟨dir', above', hparent', hdir', hlocate'⟩ := hbeside'.locate_of_mem hsound hv'
  rw [hlocate, hlocate'] at hsame
  obtain ⟨rfl, hname⟩ := List.append_inj' (Except.ok.inj hsame) rfl
  refine ⟨⟨dir, dir', ?_, ?_, hdir.trans hdir'.symm⟩, ?_⟩
  · rw [baseDirectory?_eq hresolved, hparent]
  · rw [baseDirectory?_eq hresolved', hparent']
  · -- both simple names begin the name of the file
    have hchars := congrArg String.toList (List.singleton_inj.mp hname)
    simp only [String.toList_append, List.append_assoc] at hchars
    rcases List.append_eq_append_iff.mp hchars with ⟨rest, hlonger, -⟩ | ⟨rest, hlonger, -⟩
    · exact .inl ⟨rest, hlonger.symm⟩
    · exact .inr ⟨rest, hlonger.symm⟩

/-- If the base files stand in one directory and one simple name begins with the other, the base file of
the longer name is shared. -/
theorem Bundles.exists_shared (h : Bundles context contracts bundles)
    (hroot : Path.IsAbsolute context.locator.root)
    (hsuffix : '/' ∉ context.config.messageSuffix.toList) (hc : c ∈ contracts)
    (hmarked : c.messages = true) (hc' : c' ∈ contracts) (hmarked' : c'.messages = true)
    (hsimple : '/' ∉ c'.simpleName.toList) {dir : String}
    (hdir : context.baseDirectory? c = some dir) (hdir' : context.baseDirectory? c' = some dir)
    (hbegins : c.simpleName.toList <+: c'.simpleName.toList) :
    ∃ v v', (c, v) ∈ bundles ∧ (c', v') ∈ bundles ∧ v.path = v'.path := by
  obtain ⟨base, hbase, hparent⟩ := baseDirectory?_eq_some_iff.mp hdir
  obtain ⟨base', hbase', hparent'⟩ := baseDirectory?_eq_some_iff.mp hdir'
  obtain ⟨variants, hbeside, hall⟩ := h.exists_variants hc hmarked hbase
  obtain ⟨variants', hbeside', hall'⟩ := h.exists_variants hc' hmarked' hbase'
  have hfile := Locator.isFile_of_resolve hbase'
  obtain ⟨dir', found, hparent'', hlist, hmem, hlocate⟩ :=
    FileTree.list_parent_of_isFile (Locator.isAbsolute_of_resolve hroot hbase') hfile
  obtain rfl := Option.some.inj (hparent'.symm.trans hparent'')
  rw [fileName_of_base hsimple hsuffix hbase'] at hmem hlocate
  rw [← FileTree.isFile_congr hlocate] at hfile
  obtain ⟨rest, hrest⟩ := hbegins
  have hlonger : c'.simpleName = c.simpleName ++ String.ofList rest := by
    rw [← String.toList_inj, ← hrest]
    simp
  have hname : c'.simpleName ++ context.config.messageSuffix =
      c.simpleName ++ String.ofList rest ++ context.config.messageSuffix := by
    rw [hlonger]
  have hname' : c'.simpleName ++ context.config.messageSuffix =
      c'.simpleName ++ "" ++ context.config.messageSuffix := by
    rw [String.append_empty]
  exact ⟨_, _, hall _ (hbeside.mem_of_isFile hparent hlist hmem hfile hname),
    hall' _ (hbeside'.mem_of_isFile hparent' hlist hmem hfile hname'), rfl⟩

/-! ### The names of the classes -/

theorem Bundles.nodup_keys (h : Bundles context contracts bundles) (hsound : context.files.Sound)
    (hnames : (contracts.map (·.name)).Nodup) :
    (bundles.map fun b => (b.1.name, b.2.locale)).Nodup := by
  induction h with
  | nil => exact List.nodup_nil
  | skipped _ _ ih => exact ih (List.nodup_cons.mp hnames).2
  | @found c contracts bundles base variants hmarked hresolved hbeside hrest ih =>
    obtain ⟨hnew, hmore⟩ := List.nodup_cons.mp hnames
    rw [List.map_append, List.map_map, List.nodup_append]
    refine ⟨?_, ih hmore, ?_⟩
    · have hlocales := (hbeside.nodup_locales hsound).map (f := fun locale => (c.name, locale))
        fun _ _ heq => (Prod.mk.inj heq).2
      rwa [List.map_map] at hlocales
    · rintro _ hfirst _ hlater rfl
      obtain ⟨v, -, heq⟩ := List.mem_map.mp hfirst
      obtain ⟨b, hb, heq'⟩ := List.mem_map.mp hlater
      obtain ⟨hname, -⟩ := Prod.mk.inj (heq.trans heq'.symm)
      exact hnew (List.mem_map.mpr ⟨b.1, (hrest.of_mem hb).1, hname.symm⟩)

theorem Bundles.nodup_classNames_iff (h : Bundles context contracts bundles)
    (hsound : context.files.Sound) (hnames : (contracts.map (·.name)).Nodup) :
    (bundles.map fun b => b.1.className b.2.locale).Nodup ↔
      ∀ b ∈ bundles, ∀ b' ∈ bundles, b.1.name ≠ b'.1.name →
        ¬(b.1.space = b'.1.space ∧ b.1.simpleName = b'.1.simpleName ∧ b.2.locale = b'.2.locale) ∧
        ¬Overlap b.1 b.2.locale b'.1 b'.2.locale := by
  have hkeys := h.nodup_keys hsound hnames
  rw [List.nodup_map_iff_inj_on (hkeys.of_map _)]
  constructor
  · intro hinj b hb b' hb' hne
    have hclass : b.1.className b.2.locale ≠ b'.1.className b'.2.locale :=
      fun heq => hne (congrArg (·.1.name) (hinj b hb b' hb' heq))
    exact ⟨fun htwin => hclass (className_eq_iff.mpr (.inl htwin)),
      fun hover => hclass (className_eq_iff.mpr (.inr (.inl hover)))⟩
  · intro hapart b hb b' hb' heq
    by_cases hname : b.1.name = b'.1.name
    · rw [className_congr hname, className_inj] at heq
      exact List.inj_on_of_nodup_map hkeys hb hb' (Prod.ext hname heq)
    · rcases className_eq_iff.mp heq with htwin | hover | hover
      · exact absurd htwin (hapart b hb b' hb' hname).1
      · exact absurd hover (hapart b hb b' hb' hname).2
      · exact absurd hover (hapart b' hb' b hb (Ne.symm hname)).2

/-- In a valid set, the generator makes one class for every variant. -/
theorem exists_bundles_of_validate (hvalid : context.declarations.validate = .ok ())
    (hroot : Path.IsAbsolute context.locator.root) :
    ∃ bundles, Bundles context context.declarations.contracts bundles ∧
      messages.generate context (discover context.declarations .messages) =
        bundles.mapM fun b => bundleArtifact context ⟨b.1, b.1.methods⟩ b.2 := by
  obtain ⟨bundles, hbundles, hgenerate⟩ := exists_bundles hroot context.declarations.contracts
  refine ⟨bundles, hbundles, ?_⟩
  rw [discover_of_nodup (nodup_names_of_validate hvalid), ← hgenerate]
  rfl

theorem IsBundle.qualifiedName_eq {a : Artifact} (h : IsBundle context c v a) :
    a.qualifiedName = c.className v.locale := by
  obtain ⟨x, hfile, ⟨hpackage, hname, -⟩, -⟩ := h
  rw [Contract.className, hfile.qualifiedName_eq, hpackage, hname]
  rfl

/-- The classes that are made are named after the contracts and the locales. -/
theorem Bundles.map_qualifiedName (h : Bundles context contracts bundles) {made : List Artifact}
    (hmade : bundles.mapM (fun b => bundleArtifact context ⟨b.1, b.1.methods⟩ b.2) = .ok made) :
    made.map (·.qualifiedName) = bundles.map fun b => b.1.className b.2.locale :=
  map_eq_of_mapM (fun b hb _ hclass =>
    (isBundle_of_bundleArtifact (h.isFile b hb) hclass).qualifiedName_eq) hmade

/-! ### One more file beside a base file -/

/-- Every method of a contract finds its template. -/
def Variant.Complete (v : Variant) (t : FileTree) (c : Contract) : Prop :=
  ∀ m ∈ c.methods, ∃ template, v.template? t m.name = some template

theorem exists_bundleArtifact_iff (h : context.files.isFile v.path = true) :
    (∃ a, bundleArtifact context ⟨c, c.methods⟩ v = .ok a) ↔ v.Complete context.files c := by
  rw [exists_ok_iff_of_failure? (failure?_bundleArtifact h)]
  simp only [missing?_eq_none_iff, List.forall_mem_map, Variant.Complete]

theorem bundleArtifacts_eq (context : PassContext) (hroot : Path.IsAbsolute context.locator.root)
    {base : String} {variants : List Variant}
    (hbase : context.locator.resolve context.files (basePath c context.config.messageSuffix) = some base)
    (hbeside : VariantsBeside context.files base c.simpleName context.config.messageSuffix variants) :
    bundleArtifacts context ⟨c, c.methods⟩ = variants.mapM (bundleArtifact context ⟨c, c.methods⟩) := by
  obtain ⟨found, hfound, hbeside'⟩ := exists_localeVariants
    (Locator.isAbsolute_of_resolve hroot hbase) (Locator.isFile_of_resolve hbase) c.simpleName
    context.config.messageSuffix
  obtain rfl := hbeside.eq hbeside'
  simp only [bundleArtifacts, hbase, hfound]
  rfl

section

variable {dir name : String} {above : Location} {content : ByteArray}

/-- What a file gives that was there before. -/
theorem bundleArtifact_withFile {l : Location} (hnew : context.files.find? l = none)
    (hfile : context.files.isFile v.path = true) :
    bundleArtifact (context.withFile l content) ⟨c, c.methods⟩ v =
      bundleArtifact context ⟨c, c.methods⟩ v := by
  have hread : (context.withFile l content).files.read v.path = context.files.read v.path :=
    FileTree.read_put hnew hfile
  rw [bundleArtifact, hread]
  rfl

variable (hroot : Path.IsAbsolute context.locator.root) (hsound : context.files.Sound)
  (hbase : context.baseDirectory? c = some dir) (hdir : context.files.locate dir = .ok above)
  (hnew : context.files.find? (above ++ [name]) = none)
include hroot hsound hbase hdir hnew

/-- A file that is not named like a variant changes nothing. -/
theorem bundleArtifacts_withFile_other
    (hname : ∀ locale, name ≠ c.simpleName ++ locale ++ context.config.messageSuffix) :
    bundleArtifacts (context.withFile (above ++ [name]) content) ⟨c, c.methods⟩ =
      bundleArtifacts context ⟨c, c.methods⟩ := by
  obtain ⟨base, hresolved, hparent⟩ := baseDirectory?_eq_some_iff.mp hbase
  obtain ⟨variants, -, hbeside⟩ := exists_localeVariants
    (Locator.isAbsolute_of_resolve hroot hresolved) (Locator.isFile_of_resolve hresolved) c.simpleName
    context.config.messageSuffix
  have hresolved' := Locator.resolve_put hsound hroot hresolved hparent hdir hnew content
  have hbeside' : VariantsBeside (context.files.put (above ++ [name]) (.file content)) base
      c.simpleName context.config.messageSuffix variants :=
    hbeside.put_other hsound hparent hdir hnew hname
  rw [bundleArtifacts_eq context hroot hresolved hbeside,
    bundleArtifacts_eq (context.withFile (above ++ [name]) content) hroot hresolved' hbeside']
  exact mapM_congr fun v hv => bundleArtifact_withFile hnew (hbeside.isFile hv)

/-- A file that is named like a variant gives one class more, if it has all keys. -/
theorem bundleArtifacts_withFile_variant {locale : String}
    (hname : name = c.simpleName ++ locale ++ context.config.messageSuffix)
    (hopens : (context.withFile (above ++ [name]) content).files.isFile (Path.join dir name) = true) :
    ((∃ made, bundleArtifacts (context.withFile (above ++ [name]) content) ⟨c, c.methods⟩ = .ok made) ↔
      (∃ made, bundleArtifacts context ⟨c, c.methods⟩ = .ok made) ∧
      Variant.Complete ⟨Path.join dir name, locale⟩ (context.withFile (above ++ [name]) content).files
        c) ∧
    ∀ made, bundleArtifacts (context.withFile (above ++ [name]) content) ⟨c, c.methods⟩ = .ok made →
      ∃ first a last, made = first ++ a :: last ∧
        bundleArtifacts context ⟨c, c.methods⟩ = .ok (first ++ last) ∧
        IsBundle (context.withFile (above ++ [name]) content) c ⟨Path.join dir name, locale⟩ a := by
  obtain ⟨base, hresolved, hparent⟩ := baseDirectory?_eq_some_iff.mp hbase
  obtain ⟨variants, -, hbeside⟩ := exists_localeVariants
    (Locator.isAbsolute_of_resolve hroot hresolved) (Locator.isFile_of_resolve hresolved) c.simpleName
    context.config.messageSuffix
  have hresolved' := Locator.resolve_put hsound hroot hresolved hparent hdir hnew content
  obtain ⟨before, after, rfl, hbeside'⟩ :=
    hbeside.put_variant hsound hparent hdir hnew hname hopens
  have hsame : ∀ v ∈ before ++ after,
      bundleArtifact (context.withFile (above ++ [name]) content) ⟨c, c.methods⟩ v =
        bundleArtifact context ⟨c, c.methods⟩ v :=
    fun v hv => bundleArtifact_withFile hnew (hbeside.isFile hv)
  rw [bundleArtifacts_eq context hroot hresolved hbeside, ← mapM_congr hsame,
    bundleArtifacts_eq (context.withFile (above ++ [name]) content) hroot hresolved' hbeside']
  constructor
  · rw [exists_mapM_eq_ok_iff, exists_mapM_eq_ok_iff,
      ← exists_bundleArtifact_iff (v := ⟨Path.join dir name, locale⟩) hopens]
    simp only [List.forall_mem_append, List.forall_mem_cons]
    constructor
    · rintro ⟨hbefore, hv, hafter⟩
      exact ⟨⟨hbefore, hafter⟩, hv⟩
    · rintro ⟨⟨hbefore, hafter⟩, hv⟩
      exact ⟨hbefore, hv, hafter⟩
  · intro made hmade
    rw [List.mapM_append] at hmade
    obtain ⟨first, hfirst, hmore⟩ := bind_eq_ok_iff.mp hmade
    obtain ⟨others, hothers, hall⟩ := bind_eq_ok_iff.mp hmore
    rw [List.mapM_cons] at hothers
    obtain ⟨a, ha, hrest⟩ := bind_eq_ok_iff.mp hothers
    obtain ⟨last, hlast, hcons⟩ := bind_eq_ok_iff.mp hrest
    cases hcons
    cases hall
    exact ⟨first, a, last, rfl, mapM_append_eq_ok hfirst hlast,
      isBundle_of_bundleArtifact (v := ⟨Path.join dir name, locale⟩) hopens ha⟩

end

/-! ### Contracts that are neighbours -/

/-- **Which files and names message contracts share.** In a valid set, with a search from an absolute
directory of a sound tree and a suffix without a slash, contracts share a file only if their base files
stand in one directory and the simple name of one begins with the other's, and then they do. Their
classes have different names exactly if none are twins and none overlap. A file that is added beside
the base file of a contract changes nothing for it, unless its name begins with the simple name and ends
with the suffix. Then it gives one class more, and what succeeded still does exactly if it has all keys. -/
theorem bundles_of_neighbours (hvalid : context.declarations.validate = .ok ())
    (hroot : Path.IsAbsolute context.locator.root) (hsound : context.files.Sound)
    (hsuffix : '/' ∉ context.config.messageSuffix.toList) :
    ∃ bundles, Bundles context context.declarations.contracts bundles ∧
      (∀ b ∈ bundles, ∀ b' ∈ bundles,
        context.files.locate b.2.path = context.files.locate b'.2.path →
        (∃ dir dir', context.baseDirectory? b.1 = some dir ∧ context.baseDirectory? b'.1 = some dir' ∧
          context.files.locate dir = context.files.locate dir') ∧
        (b.1.simpleName.toList <+: b'.1.simpleName.toList ∨
          b'.1.simpleName.toList <+: b.1.simpleName.toList)) ∧
      (∀ c ∈ context.declarations.contracts, c.messages = true →
        ∀ c' ∈ context.declarations.contracts, c'.messages = true → '/' ∉ c'.simpleName.toList →
        ∀ dir, context.baseDirectory? c = some dir → context.baseDirectory? c' = some dir →
        c.simpleName.toList <+: c'.simpleName.toList →
        ∃ v v', (c, v) ∈ bundles ∧ (c', v') ∈ bundles ∧ v.path = v'.path) ∧
      (∀ made, messages.generate context (discover context.declarations .messages) = .ok made →
        ((made.map (·.qualifiedName)).Nodup ↔
          ∀ b ∈ bundles, ∀ b' ∈ bundles, b.1.name ≠ b'.1.name →
            ¬(b.1.space = b'.1.space ∧ b.1.simpleName = b'.1.simpleName ∧
              b.2.locale = b'.2.locale) ∧
            ¬Overlap b.1 b.2.locale b'.1 b'.2.locale)) ∧
      ∀ c dir above name content, context.baseDirectory? c = some dir →
        context.files.locate dir = .ok above → context.files.find? (above ++ [name]) = none →
        ((∀ locale, name ≠ c.simpleName ++ locale ++ context.config.messageSuffix) →
          bundleArtifacts (context.withFile (above ++ [name]) content) ⟨c, c.methods⟩ =
            bundleArtifacts context ⟨c, c.methods⟩) ∧
        ∀ locale, name = c.simpleName ++ locale ++ context.config.messageSuffix →
          (context.withFile (above ++ [name]) content).files.isFile (Path.join dir name) = true →
          ((∃ made, bundleArtifacts (context.withFile (above ++ [name]) content) ⟨c, c.methods⟩ =
              .ok made) ↔
            (∃ made, bundleArtifacts context ⟨c, c.methods⟩ = .ok made) ∧
            Variant.Complete ⟨Path.join dir name, locale⟩
              (context.withFile (above ++ [name]) content).files c) ∧
          ∀ made, bundleArtifacts (context.withFile (above ++ [name]) content) ⟨c, c.methods⟩ =
              .ok made →
            ∃ first a last, made = first ++ a :: last ∧
              bundleArtifacts context ⟨c, c.methods⟩ = .ok (first ++ last) ∧
              IsBundle (context.withFile (above ++ [name]) content) c ⟨Path.join dir name, locale⟩
                a := by
  have hnames := nodup_names_of_validate hvalid
  obtain ⟨bundles, hbundles, hgenerate⟩ := exists_bundles_of_validate hvalid hroot
  refine ⟨bundles, hbundles, fun b hb b' hb' => hbundles.neighbours_of_locate_eq hsound hb hb',
    fun c hc hmarked c' hc' hmarked' hsimple dir =>
      hbundles.exists_shared hroot hsuffix hc hmarked hc' hmarked' hsimple,
    fun made hmade => ?_, fun c dir above name content hbase hdir hnew =>
      ⟨bundleArtifacts_withFile_other hroot hsound hbase hdir hnew,
        fun locale => bundleArtifacts_withFile_variant hroot hsound hbase hdir hnew⟩⟩
  rw [← hbundles.nodup_classNames_iff hsound hnames,
    hbundles.map_qualifiedName (hgenerate.symm.trans hmade)]

/-- A message contract with one key. -/
def label : Contract where
  name := "a.Label"
  messages := true
  methods := [{ name := "hello", returns := .plain "String" }]

/-- The contract and another one without keys in its namespace, and files in their directory. -/
def neighbours (second : String) (files : List (String × String)) : PassContext where
  declarations := { contracts := [label, { name := second, messages := true }] }
  locator := Locator.start {} "/work" {}
  config := {}
  files := { entries := [(["work"], .directory), (["work", "a"], .directory)] ++
    files.map fun file => (["work", "a", file.1], .file file.2.toUTF8) }

/-- The simple name of the second contract begins with that of the first. -/
def labels : PassContext :=
  neighbours "a.Labels" [("Label.properties", "hello=Hi"), ("Labels.properties", "bye=Bye")]

theorem bundles_of_neighbours_labels :
    labels.declarations.validate = .ok () ∧ Path.IsAbsolute labels.locator.root ∧
    labels.files.Sound ∧ '/' ∉ labels.config.messageSuffix.toList ∧
    (∃ bundles v v', Bundles labels labels.declarations.contracts bundles ∧ (label, v) ∈ bundles ∧
      (⟨"a.Labels", true, []⟩, v') ∈ bundles ∧ v.path = v'.path) ∧
    bundleArtifacts (labels.withFile ["work", "a", "Farewells.properties"] "bye=Bye".toUTF8)
        ⟨label, label.methods⟩ =
      bundleArtifacts labels ⟨label, label.methods⟩ := by
  have hvalid : labels.declarations.validate = .ok () := by decide
  have hroot : Path.IsAbsolute labels.locator.root := Locator.isAbsolute_start {} (by decide) {}
  have hsound : labels.files.Sound := by decide
  have hsuffix : '/' ∉ labels.config.messageSuffix.toList := by decide
  have hbase : labels.baseDirectory? label = some "/work/a" := by decide +kernel
  have hbase' : labels.baseDirectory? ⟨"a.Labels", true, []⟩ = some "/work/a" := by decide +kernel
  have hother : ∀ locale, "Farewells.properties" ≠ "Label" ++ locale ++ ".properties" := by
    intro locale hname
    have hnone : localePart? "Label" ".properties" "Farewells.properties" = none := by decide
    rw [localePart?_eq_some_iff.mpr hname] at hnone
    cases hnone
  obtain ⟨bundles, hbundles, -, hshared, -, hadded⟩ :=
    bundles_of_neighbours hvalid hroot hsound hsuffix
  obtain ⟨v, v', hv, hv', hpath⟩ := hshared label List.mem_cons_self rfl ⟨"a.Labels", true, []⟩
    (List.mem_cons_of_mem _ List.mem_cons_self) rfl (by decide) "/work/a" hbase hbase' (by decide)
  have hsame := (hadded label "/work/a" ["work", "a"] "Farewells.properties" "bye=Bye".toUTF8 hbase
    (by decide) (by decide)).1 hother
  exact ⟨hvalid, hroot, hsound, hsuffix, ⟨bundles, v, v', hbundles, hv, hv', hpath⟩, hsame⟩

/-- The second contract is named like the class of the first. -/
def labelImpl : PassContext :=
  neighbours "a.LabelImpl" [("Label.properties", "hello=Hi"), ("LabelImpl.properties", "hello=Ho")]

/-- The file of `a.Labels` is a variant of `a.Label` too, which fails with it and succeeds without it.
With `a.LabelImpl` instead, a name is made twice. -/
theorem neighbours_share :
    (labels.declarations.validate = .ok () ∧ labels.files.Sound ∧
      '/' ∉ labels.config.messageSuffix.toList ∧
      ∃ bundles v v', Bundles labels labels.declarations.contracts bundles ∧ (label, v) ∈ bundles ∧
        (⟨"a.Labels", true, []⟩, v') ∈ bundles ∧ v.path = v'.path) ∧
    ((∃ made, bundleArtifacts (neighbours "a.Labels" [("Label.properties", "hello=Hi")])
        ⟨label, label.methods⟩ = .ok made) ∧
      bundleArtifacts labels ⟨label, label.methods⟩ =
        .error (.missingMessage "a.Label" "hello" "/work/a/Labels.properties")) ∧
    labelImpl.declarations.validate = .ok () ∧
      ∃ made, messages.generate labelImpl (discover labelImpl.declarations .messages) = .ok made ∧
        ¬(made.map (·.qualifiedName)).Nodup := by
  have hroot : Path.IsAbsolute labels.locator.root := Locator.isAbsolute_start {} (by decide) {}
  have hsuffix : '/' ∉ labels.config.messageSuffix.toList := by decide
  have hbase : labels.baseDirectory? label = some "/work/a" := by decide +kernel
  have hbase' : labels.baseDirectory? ⟨"a.Labels", true, []⟩ = some "/work/a" := by decide +kernel
  obtain ⟨bundles, hbundles, -⟩ := exists_bundles hroot labels.declarations.contracts
  obtain ⟨v, v', hv, hv', hpath⟩ := hbundles.exists_shared hroot hsuffix List.mem_cons_self rfl
    (List.mem_cons_of_mem _ List.mem_cons_self) rfl (by decide) hbase hbase' (by decide)
  refine ⟨⟨by decide, by decide, hsuffix, bundles, v, v', hbundles, hv, hv', hpath⟩, ⟨?_, ?_⟩,
    by decide, ?_⟩
  -- the names are put in order by insertion, since merging does not reduce
  · have hmade : (bundleArtifacts (neighbours "a.Labels" [("Label.properties", "hello=Hi")])
        ⟨label, label.methods⟩).toOption.any (fun _ => true) = true := by
      delta bundleArtifacts localeVariants
      simp only [variantsAmong, List.mergeSort_eq_insertionSort]
      decide +kernel
    obtain ⟨made, hmade, -⟩ := exists_of_any_toOption hmade
    exact ⟨made, hmade⟩
  · have hfail : failure? (bundleArtifacts labels ⟨label, label.methods⟩) =
        some (.missingMessage "a.Label" "hello" "/work/a/Labels.properties") := by
      delta bundleArtifacts localeVariants
      simp only [variantsAmong, List.mergeSort_eq_insertionSort]
      decide +kernel
    exact failure?_eq_some_iff.mp hfail
  · have hmade : (messages.generate labelImpl
        (discover labelImpl.declarations .messages)).toOption.any
          (fun made => decide ¬(made.map (·.qualifiedName)).Nodup) = true := by
      simp only [messages]
      delta bundleArtifacts localeVariants
      simp only [variantsAmong, List.mergeSort_eq_insertionSort]
      decide +kernel
    obtain ⟨made, hgenerate, hrepeated⟩ := exists_of_any_toOption hmade
    exact ⟨made, hgenerate, of_decide_eq_true hrepeated⟩

end ContractForge
