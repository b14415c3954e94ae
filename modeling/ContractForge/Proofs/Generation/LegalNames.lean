import ContractForge.Declaration.Validation
import ContractForge.Proofs.Files.Descent
import ContractForge.Proofs.Generation.Naming
import ContractForge.Proofs.Java.Identifier
import ContractForge.Proofs.Resource.ClassNames
import Mathlib.Data.List.Sort

/-!
# Which generated names are legal

* `MessageFile` : a variant is the file from which a bundle of a contract is made.
* `Alphabet.Headed` : the names of a class, and when these are legal.

If contracts have legal names, so have the classes that give resources back or call services. What
stands on disk and in markers is taken over without a check: a bundle is called after its file, and an
embedded resource stands in the directories of its path. Of these names `headed_of_made` says when
they are legal, and `illegalHeads_made` shows both that are not.
-/

namespace ContractForge

open Text (segments)
open Java (Alphabet)

/-- The variant is a file beside the base file of the contract, called after it. -/
def MessageFile (context : PassContext) (c : Contract) (v : Variant) : Prop :=
  ∃ base dir,
    context.locator.resolve context.files (basePath c context.config.messageSuffix) = some base ∧
    Path.parent? base = some dir ∧
    v.path = Path.join dir (c.simpleName ++ v.locale ++ context.config.messageSuffix) ∧
    context.files.isFile v.path = true

namespace Java.Alphabet

variable {A : Alphabet}

/-- The directories of the path make up a namespace: each is an identifier, or several with dots between
them. A single slash before a file name makes up the root namespace. -/
def LegalDirectories (A : Alphabet) (path : String) : Prop :=
  Path.directories path = [[]] ∨
    ∀ dir ∈ Path.directories path, A.isQualified (String.ofList dir) = true

instance (path : String) : Decidable (A.LegalDirectories path) :=
  inferInstanceAs (Decidable (_ ∨ _))

/-- What a class of the generators is called, and whether that is legal. -/
inductive Headed (A : Alphabet) (context : PassContext) (cls : Java.Class) : Prop
  /-- An implementation that gives resources back or calls a service. -/
  | implementation {c : Contract} (hc : c ∈ context.declarations.contracts)
      (hpackage : cls.package = c.space) (hname : cls.name = c.implName)
      (hlegal : A.LegalHead cls)
  /-- An implementation with the messages of a file. Its name ends with a part of that of the file. -/
  | bundle {c : Contract} {v : Variant} (hc : c ∈ context.declarations.contracts)
      (hfile : MessageFile context c v)
      (hpackage : cls.package = c.space) (hname : cls.name = c.implName ++ v.locale)
      (hspace : A.isNamespace cls.package = true)
      (hlegal : A.LegalHead cls ↔ v.locale.toList.all A.isPart = true)
  /-- The class of an embedded resource. -/
  | embedded {c : Contract} {m : ContractForge.Method}
      (hc : c ∈ context.declarations.contracts) (hm : m ∈ c.methods)
      (hmarked : m.markers.resource.isSome = true)
      (hpackage : cls.package = EmbeddedResource.spaceFor (resourcePath c m))
      (hidentifier : A.isIdentifier cls.name.toList = true)
      (hlegal : A.LegalHead cls ↔ A.LegalDirectories (resourcePath c m))

/-! ### Embedded resources -/

/-- The class of a resource has a legal name whatever its file is called. -/
theorem isIdentifier_identifierFor (e : Encoding) (fileName : String) :
    A.isIdentifier (EmbeddedResource.identifierFor e fileName).toList = true := by
  have hletter : A.isIdentifier e.letter.toList = true := by
    cases e <;> rfl
  rw [EmbeddedResource.identifierFor, String.toList_append, isIdentifier_append hletter,
    Sha256.hexDigest, String.toList_ofList, List.all_eq_true]
  intro c hc
  obtain ⟨w, -, hw⟩ := List.mem_flatMap.mp hc
  obtain ⟨n, hn, rfl⟩ := Text.exists_of_mem_hexFixed hw
  exact isPart_hexDigit hn

theorem isNamespace_spaceFor (path : String) :
    A.isNamespace (EmbeddedResource.spaceFor path) = true ↔ A.LegalDirectories path := by
  rcases Text.splitLast?_eq_or '/' path.toList with ⟨hnone, -⟩ | ⟨dirs, hsplit, -⟩
  · -- without a directory there is no namespace
    have hfree := Text.splitLast?_eq_none_iff.mp hnone
    rw [spaceFor_of_none hnone, LegalDirectories, Path.directories, Text.segments_of_not_mem hfree]
    simp [isNamespace]
  · obtain ⟨hwhole, hfree⟩ := Text.splitLast?_eq_some_iff.mp hsplit
    have hdirs : Path.directories path = segments '/' dirs := by
      rw [Path.directories, hwhole, Text.segments_append_sep, Text.segments_of_not_mem hfree,
        List.dropLast_concat]
    have hroot : pathNamespace (String.ofList dirs) = "" ↔ segments '/' dirs = [[]] := by
      rw [← String.toList_inj, toList_pathNamespace]
      constructor
      · intro h
        rw [List.map_eq_nil_iff.mp h]
        rfl
      · intro h
        rw [← Text.joinSegments_segments '/' dirs, h]
        rfl
    rw [spaceFor_of_split hsplit, isNamespace, Bool.or_eq_true, decide_eq_true_iff, hroot,
      isQualified_pathNamespace, String.toList_ofList, List.all_eq_true, LegalDirectories, hdirs]
    simp only [isQualified, String.toList_ofList]

/-- The name of a bundle is legal if the part of it that tells the locale is. -/
theorem legalHead_bundle_iff {c : Contract} {cls : Class} {locale : String}
    (hc : A.isQualified c.name = true) (hpackage : cls.package = c.space)
    (hname : cls.name = c.implName ++ locale) (himplements : cls.implements = [c.name]) :
    A.LegalHead cls ↔ locale.toList.all A.isPart = true := by
  have hwhole : A.isIdentifier cls.name.toList = locale.toList.all A.isPart := by
    rw [hname, String.toList_append, isIdentifier_append (isIdentifier_implName hc)]
  constructor
  · intro h
    rw [← hwhole]
    exact h.name
  · intro h
    refine ⟨hpackage ▸ isNamespace_space hc, hwhole.trans h, fun name hmem => ?_⟩
    rw [himplements, List.mem_singleton] at hmem
    rw [hmem]
    exact hc

/-- Of the names of a resource it is the namespace that may be illegal. -/
theorem legalHead_embedded_iff {cls : Class} {path : String}
    (hpackage : cls.package = EmbeddedResource.spaceFor path)
    (hidentifier : A.isIdentifier cls.name.toList = true) (himplements : cls.implements = []) :
    A.LegalHead cls ↔ A.LegalDirectories path := by
  rw [← isNamespace_spaceFor, ← hpackage]
  constructor
  · exact fun h => h.package
  · intro h
    refine ⟨h, hidentifier, fun name hmem => ?_⟩
    rw [himplements] at hmem
    cases hmem

end Java.Alphabet

/-- **Which generated names are legal.** Let the names of all contracts be legal. Then every artifact
of the generators is the source of a class that is `Headed`: its package, name and interfaces are legal,
unless it has the messages of a file whose part for the locale has a character that may not stand in
an identifier, or holds a resource with a directory that is no identifier. -/
theorem headed_of_made (A : Alphabet) {context : PassContext} {generators : List Generator}
    {a : Artifact} (hnames : ∀ c ∈ context.declarations.contracts, A.isQualified c.name = true)
    (hbuiltin : ∀ g ∈ generators, g ∈ Selection.generators .all)
    (ha : Made context generators a) :
    ∃ cls, a = .ofClass cls ∧ A.Headed context cls := by
  obtain ⟨cls, hcls, hderived⟩ := derived_of_made hbuiltin ha
  refine ⟨cls, hcls, ?_⟩
  cases hderived with
  | implementation hc hpackage hname himplements =>
    refine .implementation hc hpackage hname ?_
    rw [← String.append_empty (s := Contract.implName _)] at hname
    exact (Alphabet.legalHead_bundle_iff (hnames _ hc) hpackage hname himplements).mpr rfl
  | bundle hc hbase hdir hpath hfile hpackage hname himplements =>
    refine .bundle hc ⟨_, _, hbase, hdir, hpath, hfile⟩ hpackage hname ?_ ?_
    · rw [hpackage]
      exact Alphabet.isNamespace_space (hnames _ hc)
    · exact Alphabet.legalHead_bundle_iff (hnames _ hc) hpackage hname himplements
  | embedded hc hm hmarked e hfile hpackage hname himplements =>
    have hidentifier : A.isIdentifier cls.name.toList = true := by
      rw [hname]
      exact Alphabet.isIdentifier_identifierFor e _
    exact .embedded hc hm hmarked hpackage hidentifier
      (Alphabet.legalHead_embedded_iff hpackage hidentifier himplements)

/-- A message file and a directory whose names have a dash. -/
def withDashes : PassContext where
  declarations := { contracts := [
    { name := "a.Label", messages := true, methods := [
      { name := "hello", returns := .plain "String" }] },
    { name := "a.Store", methods := [
      { name := "data", returns := .plain "byte[]"
        markers := { resource := some "img-2/x.bin" } }] }] }
  locator := { root := "/work", language := "java" }
  config := {}
  files := { entries := [
    (["work"], .directory), (["work", "a"], .directory), (["work", "a", "img-2"], .directory),
    (["work", "a", "img-2", "x.bin"], .file "one".toUTF8),
    (["work", "a", "Label.properties"], .file "hello=Hi".toUTF8),
    (["work", "a", "Label-es.properties"], .file "hello=Hola".toUTF8)] }

/-- The names that come of them, in the order in which they are made. -/
def namesWithDashes : List (String × String) :=
  [("a", "StoreImpl"),
   ("a.img-2", "b1a2037de5d18267264dcf247032184ca4dddadd65e6e3dd6955ad8343c651b14"),
   ("a", "LabelImpl-es"), ("a", "LabelImpl")]

theorem exists_makes_withDashes :
    ∃ artifacts : List Artifact, Makes withDashes (Selection.generators .all) artifacts ∧
      artifacts.map (fun a => (a.space, a.simpleName)) = namesWithDashes := by
  have hmade : (collect withDashes (Selection.generators .all)).toOption.any
      (fun made => made.map (fun a => (a.space, a.simpleName)) = namesWithDashes) = true := by
    -- the names are put in order by insertion, since merging does not reduce
    simp only [Selection.generators, collect, Generator.run, messages]
    delta bundleArtifacts localeVariants
    simp only [variantsAmong, List.mergeSort_eq_insertionSort]
    decide +kernel
  obtain ⟨artifacts, hcollect, hnames⟩ := exists_of_any_toOption hmade
  exact ⟨artifacts, collect_eq_ok_iff.mp hcollect, of_decide_eq_true hnames⟩

/-- All four classes are `Headed`. -/
theorem headed_of_made_withDashes :
    ∃ artifacts : List Artifact,
      artifacts.map (fun a => (a.space, a.simpleName)) = namesWithDashes ∧
      ∀ a ∈ artifacts, ∃ cls, a = .ofClass cls ∧ Alphabet.widest.Headed withDashes cls := by
  obtain ⟨artifacts, hmakes, hnames⟩ := exists_makes_withDashes
  refine ⟨artifacts, hnames, fun a ha => ?_⟩
  exact headed_of_made Alphabet.widest (by decide) (fun _ h => h) ⟨artifacts, hmakes, ha⟩

/-- The names of the contracts are legal, but not that of the second bundle, nor the namespace of the
resource. -/
theorem illegalHeads_made :
    withDashes.declarations.validate = .ok () ∧
    ∃ resource bundle, Made withDashes (Selection.generators .all) resource ∧
      Made withDashes (Selection.generators .all) bundle ∧
      ∀ A : Alphabet,
        (∀ c ∈ withDashes.declarations.contracts, A.isQualified c.name = true) ∧
        A.isNamespace resource.space = false ∧
        A.isIdentifier bundle.simpleName.toList = false := by
  obtain ⟨artifacts, hmakes, hnames⟩ := exists_makes_withDashes
  have hmem : ∀ name ∈ namesWithDashes, ∃ a ∈ artifacts, (a.space, a.simpleName) = name := by
    intro name hname
    rw [← hnames] at hname
    exact List.mem_map.mp hname
  obtain ⟨resource, hresource, hspace⟩ := hmem _ (List.mem_cons_of_mem _ List.mem_cons_self)
  obtain ⟨bundle, hbundle, hsimple⟩ :=
    hmem _ (List.mem_cons_of_mem _ (List.mem_cons_of_mem _ List.mem_cons_self))
  refine ⟨rfl, resource, bundle, ⟨artifacts, hmakes, hresource⟩, ⟨artifacts, hmakes, hbundle⟩, ?_⟩
  rw [(Prod.mk.inj hspace).1, (Prod.mk.inj hsimple).2]
  intro A
  refine ⟨fun c hc => ?_, rfl, rfl⟩
  rcases List.mem_cons.mp hc with rfl | hc
  · rfl
  · rw [List.mem_singleton.mp hc]
    rfl

end ContractForge
