import ContractForge.Message.Bundle
import ContractForge.Proofs.Files.NewFile
import ContractForge.Proofs.Generation.Traversal

/-!
# The variants beside a base file

`VariantsBeside` : the variants are the files of the directory of the base file whose names begin with
the simple name and end with the suffix, in the order of their names.

A base file that is found at an absolute path has such variants (`exists_localeVariants`), in one order
only (`VariantsBeside.eq`). If the name of the base file is the simple name with the suffix, it is one
of them (`VariantsBeside.base_mem`).
-/

namespace ContractForge

variable {t : FileTree} {base simple suffix : String} {vs : List Variant}

/-- The names in the directory of the base file are those of the variants, in order, and others. -/
def VariantsBeside (t : FileTree) (base simple suffix : String) (vs : List Variant) : Prop :=
  ∃ dir found names others, Path.parent? base = some dir ∧ t.list dir = .ok found ∧
    found.Perm (names ++ others) ∧ names.Pairwise (· ≤ ·) ∧
    List.Forall₂ (fun name v => name = simple ++ v.locale ++ suffix ∧ v.path = Path.join dir name ∧
      t.isFile v.path = true) names vs ∧
    ∀ name ∈ others, t.isFile (Path.join dir name) = true →
      ∀ locale, name ≠ simple ++ locale ++ suffix

theorem localePart?_eq_some_iff {name locale : String} :
    localePart? simple suffix name = some locale ↔ name = simple ++ locale ++ suffix := by
  unfold localePart?
  constructor
  · intro h
    obtain ⟨rest, hrest, hlocale⟩ := Option.bind_eq_some_iff.mp h
    obtain ⟨middle, hmiddle, rfl⟩ := Option.map_eq_some_iff.mp hlocale
    rw [← String.toList_inj, Text.stripStart?_eq_some_iff.mp hrest,
      Text.stripEnd?_eq_some_iff.mp hmiddle]
    simp [String.toList_append, List.append_assoc]
  · rintro rfl
    simp [String.toList_append, List.append_assoc]

/-- A name has one locale only. -/
theorem locale_inj {locale locale' : String} :
    simple ++ locale ++ suffix = simple ++ locale' ++ suffix ↔ locale = locale' := by
  simp [← String.toList_inj]

/-- The name begins with the simple name and ends with the suffix. -/
def hasLocale (simple suffix name : String) : Bool :=
  (localePart? simple suffix name).isSome

theorem hasLocale_iff {name : String} :
    hasLocale simple suffix name = true ↔ ∃ locale, name = simple ++ locale ++ suffix := by
  simp only [hasLocale, Option.isSome_iff_exists, localePart?_eq_some_iff]

theorem pairwise_mergeSort_le (names : List String) :
    (names.mergeSort (· ≤ ·)).Pairwise (· ≤ ·) := by
  refine (List.pairwise_mergeSort ?_ ?_ _).imp of_decide_eq_true
  · simp only [decide_eq_true_eq]
    exact fun a b c => String.le_trans
  · simp only [Bool.or_eq_true, decide_eq_true_eq]
    exact String.le_total

theorem forall₂_variantsAmong (dir simple suffix : String) (names : List String) :
    List.Forall₂ (fun name v => name = simple ++ v.locale ++ suffix ∧ v.path = Path.join dir name)
      ((names.mergeSort (· ≤ ·)).filter (hasLocale simple suffix))
      (variantsAmong dir simple suffix names) := by
  have hsame : hasLocale simple suffix = fun name =>
      ((localePart? simple suffix name).map (Variant.mk (Path.join dir name))).isSome := by
    funext name
    rw [hasLocale, Option.isSome_map]
  rw [hsame]
  refine (forall₂_filterMap _ _).imp fun name v hv => ?_
  obtain ⟨locale, hlocale, rfl⟩ := Option.map_eq_some_iff.mp hv
  exact ⟨localePart?_eq_some_iff.mp hlocale, rfl⟩

theorem variantsBeside_variantsAmong {dir : String} {found : List String}
    (hparent : Path.parent? base = some dir) (hlist : t.list dir = .ok found) :
    VariantsBeside t base simple suffix
      (variantsAmong dir simple suffix (found.filter fun name => t.isFile (Path.join dir name))) := by
  -- the list is cut in two twice: into files and others, and these by their names
  have hfiles := List.filter_append_perm (fun name => t.isFile (Path.join dir name)) found
  have hvariants := forall₂_variantsAmong dir simple suffix
    (found.filter fun name => t.isFile (Path.join dir name))
  have hsorted := pairwise_mergeSort_le (found.filter fun name => t.isFile (Path.join dir name))
  have hsort := List.mergeSort_perm (found.filter fun name => t.isFile (Path.join dir name)) (· ≤ ·)
  generalize (found.filter fun name => t.isFile (Path.join dir name)).mergeSort (· ≤ ·) = files at *
  have hnames := List.filter_append_perm (hasLocale simple suffix) files
  refine ⟨dir, found, files.filter (hasLocale simple suffix),
    files.filter (fun name => !hasLocale simple suffix name) ++
      found.filter (fun name => !t.isFile (Path.join dir name)), hparent, hlist, ?_,
    hsorted.sublist List.filter_sublist, ?_, ?_⟩
  · rw [← List.append_assoc]
    exact (((hnames.trans hsort).append_right _).trans hfiles).symm
  · have hisFile : ∀ name ∈ files.filter (hasLocale simple suffix),
        t.isFile (Path.join dir name) = true := fun name hname =>
      (List.mem_filter.mp (hsort.mem_iff.mp (List.mem_filter.mp hname).1)).2
    refine ((List.forall₂_and_left _ _).mpr ⟨hisFile, hvariants⟩).imp ?_
    rintro name v ⟨hfile, hname, hpath⟩
    exact ⟨hname, hpath, hpath ▸ hfile⟩
  · intro name hother hfile locale hname
    rcases List.mem_append.mp hother with hmem | hmem
    · have hnot := (List.mem_filter.mp hmem).2
      rw [hasLocale_iff.mpr ⟨locale, hname⟩] at hnot
      cases hnot
    · have hnot := (List.mem_filter.mp hmem).2
      rw [hfile] at hnot
      cases hnot

theorem exists_localeVariants (habs : Path.IsAbsolute base) (hfile : t.isFile base = true)
    (simple suffix : String) :
    ∃ vs, localeVariants t base simple suffix = .ok vs ∧ VariantsBeside t base simple suffix vs := by
  obtain ⟨dir, found, hparent, hlist, -, -⟩ := FileTree.list_parent_of_isFile habs hfile
  refine ⟨_, ?_, variantsBeside_variantsAmong hparent hlist⟩
  simp only [localeVariants, hparent, hlist]

/-- A variant is a file of the directory of the base file, named after its locale. -/
theorem exists_dir_of_localeVariants {v : Variant}
    (hvs : localeVariants t base simple suffix = .ok vs) (hv : v ∈ vs) :
    ∃ dir above, Path.parent? base = some dir ∧ t.locate dir = .ok above ∧
      simple ++ v.locale ++ suffix ∈ t.namesIn above ∧
      v.path = Path.join dir (simple ++ v.locale ++ suffix) ∧ t.isFile v.path = true := by
  unfold localeVariants at hvs
  split at hvs
  next =>
    cases hvs
    cases hv
  next dir hparent =>
    split at hvs
    next => cases hvs
    next names hlist =>
      obtain ⟨above, hdir, -, rfl⟩ := FileTree.list_eq_ok hlist
      rw [← Except.ok.inj hvs] at hv
      obtain ⟨name, hname, hlocale, hpath⟩ := exists_left_of_forall₂
        (forall₂_variantsAmong dir simple suffix _) hv
      obtain ⟨hfound, hfile⟩ := List.mem_filter.mp
        ((List.mergeSort_perm _ _).mem_iff.mp (List.mem_filter.mp hname).1)
      rw [hlocale] at hpath hfound hfile
      exact ⟨dir, above, hparent, hdir, hfound, hpath, hpath ▸ hfile⟩

theorem VariantsBeside.isFile {v : Variant} (h : VariantsBeside t base simple suffix vs)
    (hv : v ∈ vs) : t.isFile v.path = true := by
  obtain ⟨dir, found, names, others, -, -, -, -, hvariants, -⟩ := h
  obtain ⟨name, -, -, -, hfile⟩ := exists_left_of_forall₂ hvariants hv
  exact hfile

theorem VariantsBeside.path_eq {dir : String} {v : Variant} (h : VariantsBeside t base simple suffix vs)
    (hdir : Path.parent? base = some dir) (hv : v ∈ vs) :
    v.path = Path.join dir (simple ++ v.locale ++ suffix) := by
  obtain ⟨dir', found, names, others, hparent, -, -, -, hvariants, -⟩ := h
  obtain rfl := Option.some.inj (hdir.symm.trans hparent)
  obtain ⟨name, -, rfl, hpath, -⟩ := exists_left_of_forall₂ hvariants hv
  exact hpath

/-- A base file of the name that the variants share is the variant without a locale. -/
theorem VariantsBeside.base_mem (h : VariantsBeside t base simple suffix vs)
    (habs : Path.IsAbsolute base) (hfile : t.isFile base = true)
    (hname : Path.fileName base = simple ++ suffix) :
    ∃ v ∈ vs, v.locale = "" ∧ t.locate v.path = t.locate base := by
  obtain ⟨dir, found, names, others, hparent, hlist, hperm, -, hvariants, hothers⟩ := h
  obtain ⟨dir', found', hparent', hlist', hmem, hlocate⟩ :=
    FileTree.list_parent_of_isFile habs hfile
  obtain rfl := Option.some.inj (hparent.symm.trans hparent')
  obtain rfl := Except.ok.inj (hlist.symm.trans hlist')
  rcases List.mem_append.mp (hperm.mem_iff.mp hmem) with hvariant | hother
  · obtain ⟨v, hv, hlocale, hpath, -⟩ := exists_right_of_forall₂ hvariants hvariant
    refine ⟨v, hv, ?_, by rw [hpath, hlocate]⟩
    have hempty : simple ++ "" ++ suffix = simple ++ suffix := by rw [String.append_empty]
    exact locale_inj.mp (hlocale.symm.trans (hname.trans hempty.symm))
  · have hnot := hothers _ hother (by rw [FileTree.isFile_congr hlocate, hfile]) ""
    rw [String.append_empty, hname] at hnot
    exact absurd rfl hnot

/-! ### There is one list of variants -/

/-- The names of the variants are those of the directory that are names of variants. -/
theorem perm_names_of_variants {dir : String} {found names others : List String}
    (hperm : found.Perm (names ++ others))
    (hvariants : List.Forall₂ (fun name v => name = simple ++ v.locale ++ suffix ∧
      v.path = Path.join dir name ∧ t.isFile v.path = true) names vs)
    (hothers : ∀ name ∈ others, t.isFile (Path.join dir name) = true →
      ∀ locale, name ≠ simple ++ locale ++ suffix) :
    (found.filter fun name => hasLocale simple suffix name && t.isFile (Path.join dir name)).Perm
      names := by
  have hnames : names.filter
      (fun name => hasLocale simple suffix name && t.isFile (Path.join dir name)) = names := by
    refine List.filter_eq_self.mpr fun name hname => ?_
    obtain ⟨v, -, hlocale, hpath, hfile⟩ := exists_right_of_forall₂ hvariants hname
    rw [hasLocale_iff.mpr ⟨v.locale, hlocale⟩, ← hpath, hfile]
    rfl
  have hnone : others.filter
      (fun name => hasLocale simple suffix name && t.isFile (Path.join dir name)) = [] := by
    refine List.filter_eq_nil_iff.mpr fun name hname hboth => ?_
    obtain ⟨hlocale, hfile⟩ := Bool.and_eq_true_iff.mp hboth
    obtain ⟨locale, hlocale⟩ := hasLocale_iff.mp hlocale
    exact hothers name hname hfile locale hlocale
  have hfilter := hperm.filter
    (fun name => hasLocale simple suffix name && t.isFile (Path.join dir name))
  rwa [List.filter_append, hnames, hnone, List.append_nil] at hfilter

/-- A name decides the locale and the path. -/
theorem eq_of_names {dir : String} {names : List String} {vs' : List Variant}
    (h : List.Forall₂ (fun name v => name = simple ++ v.locale ++ suffix ∧
      v.path = Path.join dir name) names vs)
    (h' : List.Forall₂ (fun name v => name = simple ++ v.locale ++ suffix ∧
      v.path = Path.join dir name) names vs') : vs = vs' := by
  refine List.right_unique_forall₂' (fun name v v' hv hv' => ?_) h h'
  obtain ⟨hlocale, hpath⟩ := hv
  obtain ⟨hlocale', hpath'⟩ := hv'
  have hsame : v.locale = v'.locale := locale_inj.mp (hlocale.symm.trans hlocale')
  obtain ⟨path, locale⟩ := v
  obtain ⟨path', locale'⟩ := v'
  obtain rfl : path = path' := hpath.trans hpath'.symm
  obtain rfl : locale = locale' := hsame
  rfl

theorem VariantsBeside.eq {vs' : List Variant} (h : VariantsBeside t base simple suffix vs)
    (h' : VariantsBeside t base simple suffix vs') : vs = vs' := by
  obtain ⟨dir, found, names, others, hparent, hlist, hperm, hsorted, hvariants, hothers⟩ := h
  obtain ⟨dir', found', names', others', hparent', hlist', hperm', hsorted', hvariants', hothers'⟩ :=
    h'
  obtain rfl := Option.some.inj (hparent.symm.trans hparent')
  obtain rfl := Except.ok.inj (hlist.symm.trans hlist')
  have hnames : names = names' :=
    ((perm_names_of_variants hperm hvariants hothers).symm.trans
      (perm_names_of_variants hperm' hvariants' hothers')).eq_of_pairwise
      (fun _ _ _ _ => String.le_antisymm) hsorted hsorted'
  subst hnames
  exact eq_of_names (hvariants.imp fun _ _ hv => ⟨hv.1, hv.2.1⟩)
    (hvariants'.imp fun _ _ hv => ⟨hv.1, hv.2.1⟩)

/-- The names with a locale decide the variants, whatever their order. -/
theorem variantsAmong_congr {dir : String} {names names' : List String}
    (h : (names.filter (hasLocale simple suffix)).Perm (names'.filter (hasLocale simple suffix))) :
    variantsAmong dir simple suffix names = variantsAmong dir simple suffix names' := by
  have hvariants := forall₂_variantsAmong dir simple suffix names
  have hvariants' := forall₂_variantsAmong dir simple suffix names'
  have hperm := (List.mergeSort_perm names (· ≤ ·)).filter (hasLocale simple suffix)
  have hperm' := (List.mergeSort_perm names' (· ≤ ·)).filter (hasLocale simple suffix)
  have hsame : (names.mergeSort (· ≤ ·)).filter (hasLocale simple suffix) =
      (names'.mergeSort (· ≤ ·)).filter (hasLocale simple suffix) :=
    ((hperm.trans h).trans hperm'.symm).eq_of_pairwise (fun _ _ _ _ => String.le_antisymm)
      ((pairwise_mergeSort_le names).sublist List.filter_sublist)
      ((pairwise_mergeSort_le names').sublist List.filter_sublist)
  rw [hsame] at hvariants
  exact eq_of_names hvariants hvariants'

end ContractForge
