import ContractForge.Declaration.Validation
import ContractForge.Generation.Sinks
import ContractForge.Proofs.Files.FileName
import ContractForge.Proofs.Generation.Outcome
import ContractForge.Proofs.Resource.Keys

/-!
# Which resources share a class name

* `ResourceCache.embedded` : the keys under which a file is embedded, and what is embedded.
* `nameDigest` : what the class name has of the name of a file.
* `DotFree` : a path whose directories have no dots in their names.

Two keys have one class name exactly if they have the same encoding, the same namespace and the same
file name (`embedded_classNames`). The namespace of `a.b` and that of `a/b` are the same, and so are
those of `x` and `/x`, so that embedding alone may make a name twice (`dottedDirectory_clashes`). It
does not for dot-free paths.
-/

namespace ContractForge

open Text (lastSegment splitLast?)

/-- The files that are embedded, each with its key. -/
def ResourceCache.embedded (cache : ResourceCache) : List (ResourceKey × EmbeddedResource) :=
  cache.filterMap fun (key, r) => r.map (key, ·)

/-- The part of the class name that stands for the name of the file. -/
def nameDigest (fileName : String) : String :=
  Sha256.hexDigest fileName.toUTF8.data.toList

/-- The file name of a logical path. -/
def ResourceKey.fileName (key : ResourceKey) : String :=
  String.ofList (lastSegment '/' key.path.toList)

/-- No directory of the path has a dot in its name, and the path is not one slash and a name. -/
def DotFree (path : String) : Bool :=
  match splitLast? '/' path.toList with
  | some (dirs, _) => !dirs.isEmpty && !dirs.contains '.'
  | none => true

/-! ### Names taken apart -/

theorem not_mem_hexFixed {c : Char} (h : ∀ n < 16, Text.hexDigit n ≠ c) (width n : Nat) :
    c ∉ Text.hexFixed width n := by
  intro hmem
  obtain ⟨k, hk, hc⟩ := Text.exists_of_mem_hexFixed hmem
  exact h k hk hc.symm

/-- Class names of resources have only the letters of the encodings and hexadecimal digits. -/
theorem not_mem_identifierFor {c : Char} (hletter : ∀ e : Encoding, c ∉ e.letter.toList)
    (hdigit : ∀ n < 16, Text.hexDigit n ≠ c) (e : Encoding) (fileName : String) :
    c ∉ (EmbeddedResource.identifierFor e fileName).toList := by
  rw [EmbeddedResource.identifierFor, Sha256.hexDigest, String.toList_append, String.toList_ofList,
    List.mem_append, not_or]
  refine ⟨hletter e, fun h => ?_⟩
  obtain ⟨w, -, hw⟩ := List.mem_flatMap.mp h
  exact not_mem_hexFixed hdigit _ _ hw

theorem dot_not_mem_identifierFor (e : Encoding) (fileName : String) :
    '.' ∉ (EmbeddedResource.identifierFor e fileName).toList :=
  not_mem_identifierFor (fun e => by cases e <;> decide) (by decide) e fileName

theorem identifierFor_eq_iff {e e' : Encoding} {fileName fileName' : String} :
    EmbeddedResource.identifierFor e fileName = EmbeddedResource.identifierFor e' fileName' ↔
      e = e' ∧ nameDigest fileName = nameDigest fileName' := by
  constructor
  · intro h
    have hchars := congrArg String.toList h
    simp only [EmbeddedResource.identifierFor, String.toList_append] at hchars
    have hlength : e.letter.toList.length = e'.letter.toList.length := by
      cases e <;> cases e' <;> rfl
    obtain ⟨hletter, hdigest⟩ := List.append_inj hchars hlength
    refine ⟨?_, String.toList_inj.mp hdigest⟩
    cases e <;> cases e' <;> first | rfl | cases hletter
  · rintro ⟨rfl, h⟩
    exact congrArg (e.letter ++ ·) h

/-! ### Paths known by namespace and name -/

theorem toList_pathNamespace (dirs : List Char) :
    (pathNamespace (String.ofList dirs)).toList = dirs.map fun c => if c = '/' then '.' else c := by
  rw [pathNamespace, Text.substitute, String.toList_ofList, String.toList_ofList]

theorem spaceFor_of_split {path : String} {dirs name : List Char}
    (h : splitLast? '/' path.toList = some (dirs, name)) :
    EmbeddedResource.spaceFor path = pathNamespace (String.ofList dirs) := by
  simp only [EmbeddedResource.spaceFor, h]

theorem spaceFor_of_none {path : String} (h : splitLast? '/' path.toList = none) :
    EmbeddedResource.spaceFor path = "" := by
  simp only [EmbeddedResource.spaceFor, h]

theorem of_dotFree {path : String} {dirs name : List Char} (h : DotFree path = true)
    (hsplit : splitLast? '/' path.toList = some (dirs, name)) : dirs ≠ [] ∧ '.' ∉ dirs := by
  simpa [DotFree, hsplit] using h

/-- A dot-free path has directories exactly if its namespace is not empty, and they can be read off
the namespace. -/
theorem path_eq_of_dotFree {path path' : String} (h : DotFree path = true) (h' : DotFree path' = true)
    (hspace : EmbeddedResource.spaceFor path = EmbeddedResource.spaceFor path')
    (hname : lastSegment '/' path.toList = lastSegment '/' path'.toList) : path = path' := by
  have hnonempty : ∀ {dirs : List Char}, dirs ≠ [] → pathNamespace (String.ofList dirs) ≠ "" := by
    intro dirs hne hempty
    have hchars := congrArg String.toList hempty
    rw [toList_pathNamespace] at hchars
    exact hne (List.map_eq_nil_iff.mp hchars)
  rw [← String.toList_inj]
  -- a path is one segment, or directories and a segment
  rcases Text.splitLast?_eq_or '/' path.toList with ⟨hnone, hlast⟩ | ⟨dirs, hsplit, hwhole⟩ <;>
    rcases Text.splitLast?_eq_or '/' path'.toList with ⟨hnone', hlast'⟩ | ⟨dirs', hsplit', hwhole'⟩
  · rw [← hlast, hname, hlast']
  · rw [spaceFor_of_none hnone, spaceFor_of_split hsplit'] at hspace
    exact absurd hspace.symm (hnonempty (of_dotFree h' hsplit').1)
  · rw [spaceFor_of_split hsplit, spaceFor_of_none hnone'] at hspace
    exact absurd hspace (hnonempty (of_dotFree h hsplit).1)
  · rw [spaceFor_of_split hsplit, spaceFor_of_split hsplit'] at hspace
    have hchars := congrArg String.toList hspace
    rw [toList_pathNamespace, toList_pathNamespace] at hchars
    have hdirs := Text.eq_of_map_replace_eq (of_dotFree h hsplit).2 (of_dotFree h' hsplit').2 hchars
    rw [hwhole, hwhole', hdirs, hname]

/-! ### The classes of a cache -/

theorem ResourceKey.eq_of_eq {key key' : ResourceKey} (hencoding : key.encoding = key'.encoding)
    (hpath : key.path = key'.path) : key = key' := by
  obtain ⟨e, path⟩ := key
  obtain ⟨e', path'⟩ := key'
  obtain rfl : e = e' := hencoding
  obtain rfl : path = path' := hpath
  rfl

variable {context : PassContext} {groups : List Group} {cache : ResourceCache}

theorem artifacts_eq (chunkSize : Nat) (cache : ResourceCache) :
    cache.artifacts chunkSize = cache.embedded.map fun x => x.2.artifact chunkSize := by
  rw [ResourceCache.artifacts, ResourceCache.embedded, List.map_filterMap]
  refine List.filterMap_congr fun x _ => ?_
  rw [Option.map_map]
  rfl

/-- What is embedded under a key is named after the path of the key alone. -/
theorem qualifiedName_of_mem_embedded (hproper : cache.Proper context groups)
    {x : ResourceKey × EmbeddedResource} (hx : x ∈ cache.embedded) :
    x.2.qualifiedName = qualify (EmbeddedResource.spaceFor x.1.path)
      (EmbeddedResource.identifierFor x.1.encoding x.1.fileName) := by
  obtain ⟨⟨key, r⟩, hentry, hembedded⟩ := List.mem_filterMap.mp hx
  obtain ⟨r, rfl, rfl⟩ := Option.map_eq_some_iff.mp hembedded
  obtain ⟨file, hfile, -, hspace, hidentifier⟩ := embed_eq_ok_some (hproper.sound _ hentry)
  rw [EmbeddedResource.qualifiedName, hspace, hidentifier, Locator.fileName_of_resolve hfile]
  rfl

theorem nodup_keys_embedded (hproper : cache.Proper context groups) :
    cache.embedded.Pairwise fun x y => x.1 ≠ y.1 := by
  rw [ResourceCache.embedded, List.pairwise_filterMap]
  refine (List.pairwise_map.mp hproper.nodup).imp fun hne x hx y hy => ?_
  obtain ⟨-, -, rfl⟩ := Option.map_eq_some_iff.mp hx
  obtain ⟨-, -, rfl⟩ := Option.map_eq_some_iff.mp hy
  exact hne

/-- **When embedded classes share a name.** If the digest tells the embedded file names apart, two
classes have one name exactly if their keys have the same encoding, namespace and file name. No name
is made twice if all embedded paths are dot-free. -/
theorem embedded_classNames {accessors : List Artifact}
    (hmade : accessorArtifacts context [] groups = .ok (accessors, cache))
    (hdigest : ∀ x ∈ cache.embedded, ∀ y ∈ cache.embedded,
      nameDigest x.1.fileName = nameDigest y.1.fileName → x.1.fileName = y.1.fileName) :
    resources.generate context groups =
        .ok (accessors ++ cache.artifacts context.config.chunkSize) ∧
      (∀ x ∈ cache.embedded, ∀ y ∈ cache.embedded,
        (x.2.qualifiedName = y.2.qualifiedName ↔
          x.1.encoding = y.1.encoding ∧
          EmbeddedResource.spaceFor x.1.path = EmbeddedResource.spaceFor y.1.path ∧
          x.1.fileName = y.1.fileName)) ∧
      ((∀ x ∈ cache.embedded, DotFree x.1.path = true) →
        ((cache.artifacts context.config.chunkSize).map (·.qualifiedName)).Nodup) := by
  have hproper := proper_of_accessorArtifacts hmade
  have hnames : ∀ x ∈ cache.embedded, ∀ y ∈ cache.embedded,
      (x.2.qualifiedName = y.2.qualifiedName ↔ x.1.encoding = y.1.encoding ∧
        EmbeddedResource.spaceFor x.1.path = EmbeddedResource.spaceFor y.1.path ∧
        x.1.fileName = y.1.fileName) := by
    intro x hx y hy
    rw [qualifiedName_of_mem_embedded hproper hx, qualifiedName_of_mem_embedded hproper hy,
      qualify_eq_iff (dot_not_mem_identifierFor _ _) (dot_not_mem_identifierFor _ _),
      identifierFor_eq_iff]
    constructor
    · rintro ⟨hspace, hencoding, hfile⟩
      exact ⟨hencoding, hspace, hdigest x hx y hy hfile⟩
    · rintro ⟨hencoding, hspace, hfile⟩
      exact ⟨hspace, hencoding, congrArg nameDigest hfile⟩
  refine ⟨by simp only [resources, hmade], hnames, fun hfree => ?_⟩
  rw [artifacts_eq, List.map_map, List.Nodup, List.pairwise_map]
  refine (nodup_keys_embedded hproper).imp_of_mem fun {x y} hx hy hkeys hsame => ?_
  obtain ⟨hencoding, hspace, hfile⟩ := (hnames x hx y hy).mp hsame
  have hlast := congrArg String.toList hfile
  rw [ResourceKey.fileName, ResourceKey.fileName, String.toList_ofList, String.toList_ofList] at hlast
  have hpath := path_eq_of_dotFree (hfree x hx) (hfree y hy) hspace hlast
  exact hkeys (ResourceKey.eq_of_eq hencoding hpath)

/-- Two arrays in the root namespace, from files at two paths. -/
def arraysAt (first second : String) : PassContext where
  declarations := { contracts := [
    { name := "Assets"
      methods := [
        { name := "x", returns := .plain "byte[]", markers := { resource := some first } },
        { name := "y", returns := .plain "byte[]", markers := { resource := some second } }] }] }
  locator := { root := "/work", language := "java" }
  config := {}
  files := { entries := [
    (["work"], .directory), (["work", "a"], .directory), (["work", "a", "b"], .directory),
    (["work", "a.b"], .directory), (["work", "a", "x.bin"], .file "zero".toUTF8),
    (["work", "a.b", "x.bin"], .file "one".toUTF8),
    (["work", "a", "b", "x.bin"], .file "two".toUTF8)] }

theorem embedded_classNames_arrays :
    ∃ (accessors : List Artifact) (cache : ResourceCache),
      cache.embedded.map (·.1.path) = ["a/b/x.bin", "a/x.bin"] ∧
      resources.generate (arraysAt "a/x.bin" "a/b/x.bin")
        (discover (arraysAt "a/x.bin" "a/b/x.bin").declarations .resource) =
          .ok (accessors ++ cache.artifacts 1000) ∧
      ((cache.artifacts 1000).map (·.qualifiedName)).Nodup := by
  have hall : (accessorArtifacts (arraysAt "a/x.bin" "a/b/x.bin") []
      (discover (arraysAt "a/x.bin" "a/b/x.bin").declarations .resource)).toOption.any (fun made =>
        decide (made.2.embedded.map (·.1.path) = ["a/b/x.bin", "a/x.bin"] ∧
          (∀ x ∈ made.2.embedded, DotFree x.1.path = true) ∧
          ∀ x ∈ made.2.embedded, ∀ y ∈ made.2.embedded,
            nameDigest x.1.fileName = nameDigest y.1.fileName → x.1.fileName = y.1.fileName)) =
      true := by decide +kernel
  obtain ⟨⟨accessors, cache⟩, hmade, htrue⟩ := exists_of_any_toOption hall
  obtain ⟨hpaths, hfree, hdigest⟩ := of_decide_eq_true htrue
  obtain ⟨hgenerate, -, hnodup⟩ := embedded_classNames hmade hdigest
  exact ⟨accessors, cache, hpaths, hgenerate, hnodup hfree⟩

/-- With a dot for the slash, two different files are embedded in classes of one name, and the pass
fails. -/
theorem dottedDirectory_clashes :
    (arraysAt "a.b/x.bin" "a/b/x.bin").declarations.validate = .ok () ∧
    (∃ accessors cache,
      accessorArtifacts (arraysAt "a.b/x.bin" "a/b/x.bin") []
        (discover (arraysAt "a.b/x.bin" "a/b/x.bin").declarations .resource) =
          .ok (accessors, cache) ∧
      ∃ x ∈ cache.embedded, ∃ y ∈ cache.embedded, x.1 ≠ y.1 ∧ x.2.bytes ≠ y.2.bytes ∧
        x.1.fileName = y.1.fileName ∧ x.2.qualifiedName = y.2.qualifiedName) ∧
    ∃ name, runAll (arraysAt "a.b/x.bin" "a/b/x.bin") [resources] MemorySink.sink {} =
      (.error (.repeatedArtifact name), {}) := by
  have hall : (accessorArtifacts (arraysAt "a.b/x.bin" "a/b/x.bin") []
      (discover (arraysAt "a.b/x.bin" "a/b/x.bin").declarations .resource)).toOption.any (fun made =>
        decide ((∃ x ∈ made.2.embedded, ∃ y ∈ made.2.embedded, x.1 ≠ y.1 ∧ x.2.bytes ≠ y.2.bytes ∧
          x.1.fileName = y.1.fileName ∧ x.2.qualifiedName = y.2.qualifiedName) ∧
          ¬((made.2.artifacts 1000).map (·.qualifiedName)).Nodup)) = true := by decide +kernel
  obtain ⟨⟨accessors, cache⟩, hmade, htrue⟩ := exists_of_any_toOption hall
  obtain ⟨hclash, hnodup⟩ := of_decide_eq_true htrue
  refine ⟨rfl, ⟨accessors, cache, hmade, hclash⟩, ?_⟩
  have hcollect : collect (arraysAt "a.b/x.bin" "a/b/x.bin") [resources] =
      .ok (accessors ++ cache.artifacts 1000 ++ []) := by
    refine collect_eq_ok_iff.mpr (.cons ?_ .nil)
    simp only [resources, hmade]
    rfl
  refine runAll_of_repeated hcollect (fun h => hnodup ?_) _ _
  rw [List.append_nil, List.map_append] at h
  exact (List.nodup_append.mp h).2.1

end ContractForge
