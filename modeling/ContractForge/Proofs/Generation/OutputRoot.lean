import ContractForge.Declaration.Validation
import ContractForge.Proofs.Generation.Naming
import ContractForge.Proofs.Generation.Placement

/-!
# Output stays below the root

`DeclaresInward` : no name that is made of a declaration begins with a dot or a slash.

`changed_below_root` : then a pass changes nothing but places below the root of its sink, and makes
the root itself if it is missing. A marked path that begins with a slash, or with a directory whose
name begins with a dot, is embedded in a class whose name begins with a dot, and the file of that
class is not below the root (`leadingSlash_escapes`).
-/

namespace ContractForge

/-- What names are made of begins neither with a dot nor with a slash. -/
structure DeclaresInward (set : DeclarationSet) : Prop where
  contracts : ∀ c ∈ set.contracts, Inward (qualify c.space c.simpleName)
  markers : ∀ c ∈ set.contracts, ∀ m ∈ c.methods, m.markers.resource.isSome = true →
    Inward (EmbeddedResource.spaceFor (resourcePath c m))

/-! ### Names that begin with neither -/

theorem head?_qualify_of_ne {space : String} (h : space ≠ "") (simple : String) :
    (qualify space simple).toList.head? = space.toList.head? := by
  have hne : space.toList ≠ [] := fun hnil => h (String.toList_eq_nil_iff.mp hnil)
  rw [qualify, if_neg (by simpa using h), String.toList_append, String.toList_append,
    List.append_assoc, List.head?_append_of_ne_nil _ hne]

theorem inward_qualify_implementation {c : Contract} (h : Inward (qualify c.space c.simpleName))
    (locale : String) : Inward (qualify c.space (c.implName ++ locale)) := by
  by_cases hspace : c.space = ""
  · rw [hspace] at h ⊢
    have hroot : ∀ simple, qualify "" simple = simple := fun _ => rfl
    rw [hroot] at h ⊢
    rw [Inward, Contract.implName, String.append_assoc, String.toList_append]
    cases hsimple : c.simpleName.toList with
    | nil => simp
    | cons first rest =>
      rw [Inward, hsimple] at h
      exact h
  · rw [Inward, head?_qualify_of_ne hspace] at h ⊢
    exact h

theorem inward_qualify_identifierFor {space : String} (h : Inward space) (e : Encoding)
    (file : String) : Inward (qualify space (EmbeddedResource.identifierFor e file)) := by
  by_cases hspace : space = ""
  · subst hspace
    have hroot : ∀ simple, qualify "" simple = simple := fun _ => rfl
    rw [hroot, Inward, EmbeddedResource.identifierFor, String.toList_append]
    cases e <;> simp [Encoding.letter]
  · rw [Inward, head?_qualify_of_ne hspace]
    exact h

theorem inward_of_named {set : DeclarationSet} {a : Artifact} (hset : DeclaresInward set)
    (h : Named set a) : Inward a.qualifiedName := by
  cases h with
  | implementation hc locale hspace hname =>
    rw [Artifact.qualifiedName, hspace, hname]
    exact inward_qualify_implementation (hset.contracts _ hc) locale
  | embedded hc hm hmarked e file hspace hname =>
    rw [Artifact.qualifiedName, hspace, hname]
    exact inward_qualify_identifierFor (hset.markers _ hc _ hm hmarked) e file

/-! ### Places below the root -/

namespace FileSink

variable {s : FileSink} {t : FileTree} {name : String} {l : Location}

theorem place_below_root (hplain : s.Plain) (hname : Inward name) :
    t.target s.root <+: s.place t name ∧ s.place t name ≠ t.target s.root := by
  rw [place_eq_append t hplain hname]
  exact ⟨List.prefix_append _ _, fun h => parts_ne_nil hplain name (List.append_right_eq_self.mp h)⟩

/-- The directories above a file are below the root, or the path of the root passes them. -/
theorem above_below_root (hroot : Path.IsAbsolute s.root) (hplain : s.Plain) (hname : Inward name)
    (h : s.above t name l) :
    t.target s.root <+: l ∧ l ≠ t.target s.root ∨
      ∃ passed, passed <+: Path.names s.root ∧ l = Location.follow [] passed := by
  obtain ⟨dir, hdir, up, hup, rfl⟩ := h
  have hne : s.root ≠ "" := by
    intro hempty
    rw [hempty] at hroot
    cases hroot
  obtain ⟨hdirAbsolute, hdirNames⟩ := Path.names_of_parent? (Path.isAbsolute_join hroot) hdir
  obtain ⟨hupAbsolute, hupNames⟩ := Path.names_of_mem_ancestors hdirAbsolute hup
  have hpath : Path.names up <+: Path.names s.root ++ s.parts name := by
    rw [← names_pathFor hname hne]
    rw [hdirNames] at hupNames
    exact hupNames.trans (List.dropLast_prefix _)
  rw [t.target_of_isAbsolute hupAbsolute]
  -- such a directory is passed before the root is reached, or after it
  rcases List.prefix_or_prefix_of_prefix hpath (List.prefix_append _ _) with hpassed | hbelow
  · exact .inr ⟨_, hpassed, rfl⟩
  · obtain ⟨further, hfurther⟩ := hbelow
    rw [← hfurther] at hpath ⊢
    have hparts := (List.prefix_append_right_inj _).mp hpath
    rw [Location.follow_append, ← t.target_of_isAbsolute hroot, Location.follow_eq_append _
      fun part hpart => of_mem_parts hplain (hparts.subset hpart)]
    cases further with
    | nil =>
      refine .inr ⟨Path.names s.root, List.prefix_refl _, ?_⟩
      rw [List.append_nil, t.target_of_isAbsolute hroot]
    | cons part rest =>
      exact .inl ⟨List.prefix_append _ _, fun h => by simp at h⟩

end FileSink

/-- **Output stays below the root.** However a pass of built-in generators ends, with an absolute root
and names that begin neither with a dot nor with a slash: what it changed is below the root, or is a
new directory that the path of the root passes, and the root was not there before. -/
theorem changed_below_root {context : PassContext} {generators : List Generator} {s : FileSink}
    {t final : FileTree} {result : Except GenerationError (List String)}
    (hrun : runAll context generators s.sink t = (result, final))
    (hbuiltin : ∀ g ∈ generators, g ∈ Selection.generators .all)
    (hroot : Path.IsAbsolute s.root) (hplain : s.Plain)
    (hinward : DeclaresInward context.declarations) {l : Location}
    (hchanged : final.find? l ≠ t.find? l) :
    t.target s.root <+: l ∧ l ≠ t.target s.root ∨
      t.isDirectory s.root = false ∧ t.find? l = none ∧ final.find? l = some .directory ∧
        ∃ passed, passed <+: Path.names s.root ∧ l = Location.follow [] passed := by
  have hname : ∀ a, Made context generators a → Inward a.qualifiedName :=
    fun a ha => inward_of_named hinward (named_of_made hbuiltin ha)
  have hchanges := s.changes_runAll context generators t
  rw [hrun] at hchanges
  rcases hchanges.find? l with hsame | ⟨⟨a, ha, habove⟩, hnone, hdir⟩ | ⟨⟨a, ha, hplace⟩, -, -⟩
  · exact absurd hsame hchanged
  · rcases FileSink.above_below_root hroot hplain (hname a ha) habove with hbelow | hpassed
    · exact .inl hbelow
    · refine .inr ⟨?_, hnone, hdir, hpassed⟩
      obtain ⟨passed, hprefix, hl⟩ := hpassed
      refine Bool.eq_false_iff.mpr fun hexists => ?_
      have hthere := FileTree.directory_of_isDirectory hexists hprefix
      rw [t.start_of_isAbsolute hroot, ← hl, hnone] at hthere
      cases hthere
  · rw [hplace]
    exact .inl (FileSink.place_below_root hplain (hname a ha))

/-- An array from a file at a path in the root namespace. -/
def arrayAt (path : String) : PassContext where
  declarations := { contracts := [
    { name := "Assets"
      methods := [
        { name := "x", returns := .plain "byte[]", markers := { resource := some path } }] }] }
  locator := { root := "/work", language := "java" }
  config := {}
  files := { entries := [
    (["work"], .directory), (["work", "tmp"], .directory),
    (["work", "tmp", "x.bin"], .file "one".toUTF8), (["out"], .directory)] }

theorem declaresInward_array : DeclaresInward (arrayAt "tmp/x.bin").declarations where
  contracts c hc := by
    rw [List.mem_singleton.mp hc]
    decide +kernel
  markers c hc m hm _ := by
    rw [List.mem_singleton.mp hc] at hm ⊢
    rw [List.mem_singleton.mp hm]
    decide +kernel

theorem changed_below_root_array :
    ∃ names final, runAll (arrayAt "tmp/x.bin") [resources] (FileSink.sink { root := "/out" })
        (arrayAt "tmp/x.bin").files = (.ok names, final) ∧
      (final.find? ["out", "AssetsImpl.java"]).isSome = true ∧
      (["out"] <+: ["out", "AssetsImpl.java"] ∧ ["out", "AssetsImpl.java"] ≠ ["out"] ∨
        (arrayAt "tmp/x.bin").files.isDirectory "/out" = false ∧
        (arrayAt "tmp/x.bin").files.find? ["out", "AssetsImpl.java"] = none ∧
        final.find? ["out", "AssetsImpl.java"] = some .directory ∧
        ∃ passed, passed <+: Path.names "/out" ∧
          ["out", "AssetsImpl.java"] = Location.follow [] passed) := by
  have hwritten : (runAll (arrayAt "tmp/x.bin") [resources] (FileSink.sink { root := "/out" })
        (arrayAt "tmp/x.bin").files).1.isOk = true ∧
      ((runAll (arrayAt "tmp/x.bin") [resources] (FileSink.sink { root := "/out" })
        (arrayAt "tmp/x.bin").files).2.find? ["out", "AssetsImpl.java"]).isSome = true := by
    decide +kernel
  obtain ⟨hok, hsome⟩ := hwritten
  obtain ⟨names, hrun⟩ := exists_names_of_isOk hok
  refine ⟨names, _, hrun, hsome, ?_⟩
  refine changed_below_root (s := { root := "/out" }) hrun (by simp [Selection.generators]) rfl
    (by decide) declaresInward_array fun hsame => ?_
  have hnone : (arrayAt "tmp/x.bin").files.find? ["out", "AssetsImpl.java"] = none := rfl
  rw [hsame, hnone] at hsome
  cases hsome

/-- With a slash before it, the same path is embedded in a class whose file is not below the root. -/
theorem leadingSlash_escapes :
    (arrayAt "/tmp/x.bin").declarations.validate = .ok () ∧
    (arrayAt "/tmp/x.bin").files.isDirectory "/out" = true ∧
    ∃ names final l, runAll (arrayAt "/tmp/x.bin") [resources] (FileSink.sink { root := "/out" })
        (arrayAt "/tmp/x.bin").files = (.ok names, final) ∧
      (arrayAt "/tmp/x.bin").files.find? l = none ∧ (final.find? l).isSome = true ∧
      ¬["out"] <+: l := by
  have hwritten : (runAll (arrayAt "/tmp/x.bin") [resources] (FileSink.sink { root := "/out" })
        (arrayAt "/tmp/x.bin").files).1.isOk = true ∧
      ((runAll (arrayAt "/tmp/x.bin") [resources] (FileSink.sink { root := "/out" })
        (arrayAt "/tmp/x.bin").files).2.find? ["tmp",
          "b1a2037de5d18267264dcf247032184ca4dddadd65e6e3dd6955ad8343c651b14.java"]).isSome = true := by
    decide +kernel
  obtain ⟨names, hrun⟩ := exists_names_of_isOk hwritten.1
  exact ⟨rfl, by decide +kernel, names, _, _, hrun, rfl, hwritten.2, by decide⟩

end ContractForge
