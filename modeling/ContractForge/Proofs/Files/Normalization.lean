import ContractForge.Proofs.Files.Descent
import Mathlib.Data.List.Basic

/-!
# Normalized paths

What `Path.normalize` makes of a path, by what it keeps of its segments.

* `Path.Undotted` : none of the segments is `.` or `..`.
* `segments_normalize` : the segments of a normalized path are those that reducing keeps. Where it keeps
  none the path is empty, and an empty path has one segment, which is empty.
* `normalize_append_slash` : a path after another one may be normalized in two steps, unless nothing
  is kept of the first.

`normalize_canonical` puts this together, with what it means for the files that a locator tries.
-/

namespace ContractForge

open Text (segments joinSegments)

namespace Path

/-- None of the segments is a dot or two dots. -/
def Undotted (parts : List (List Char)) : Prop :=
  ∀ s ∈ parts, s ≠ ['.'] ∧ s ≠ ['.', '.']

/-! ### Reducing segments -/

theorem reduceStep_of_ne {s : List Char} (hdot : s ≠ ['.']) (hup : s ≠ ['.', '.'])
    (kept : List (List Char)) : reduceStep kept s = s :: kept := by
  rw [reduceStep, if_neg hdot, if_neg hup]

/-- Segments without dots are all kept. -/
theorem foldl_reduceStep_of_undotted {parts : List (List Char)} (h : Undotted parts)
    (kept : List (List Char)) : parts.foldl reduceStep kept = parts.reverse ++ kept := by
  induction parts generalizing kept with
  | nil => rfl
  | cons s rest ih =>
    obtain ⟨hdot, hup⟩ := h s List.mem_cons_self
    rw [List.foldl_cons, reduceStep_of_ne hdot hup, ih fun part hpart =>
      h part (List.mem_cons_of_mem _ hpart)]
    simp

theorem reduce_of_undotted {parts : List (List Char)} (h : Undotted parts) :
    reduce parts = parts := by
  rw [reduce, foldl_reduceStep_of_undotted h, List.append_nil, List.reverse_reverse]

theorem undotted_reduce (parts : List (List Char)) : Undotted (reduce parts) :=
  fun _ hs => (of_mem_reduce hs).2

/-- Of segments one after another the first ones may be reduced before. -/
theorem reduce_append (first second : List (List Char)) :
    reduce (first ++ second) = reduce (reduce first ++ second) := by
  have hfirst : (reduce first).foldl reduceStep [] = first.foldl reduceStep [] := by
    rw [foldl_reduceStep_of_undotted (undotted_reduce first), reduce, List.reverse_reverse,
      List.append_nil]
  rw [reduce, reduce, List.foldl_append, List.foldl_append, hfirst]

/-- What is kept stands in the order in which it came. -/
theorem foldl_reduceStep_sublist (parts kept : List (List Char)) :
    (parts.foldl reduceStep kept).reverse.Sublist (kept.reverse ++ parts) := by
  induction parts generalizing kept with
  | nil => simp
  | cons s rest ih =>
    refine (ih (reduceStep kept s)).trans ?_
    have hstep : (reduceStep kept s).reverse.Sublist (kept.reverse ++ [s]) := by
      unfold reduceStep
      split_ifs
      · exact List.sublist_append_left _ _
      · exact (List.tail_sublist kept).reverse.trans (List.sublist_append_left _ _)
      · rw [List.reverse_cons]
    simpa using hstep.append_right rest

theorem reduce_sublist (parts : List (List Char)) : (reduce parts).Sublist parts :=
  foldl_reduceStep_sublist parts []

/-! ### Normalizing -/

theorem slash_not_mem_of_mem_reduce {path : List Char} {s : List Char}
    (h : s ∈ reduce (segments '/' path)) : '/' ∉ s :=
  (Text.of_mem_segments (of_mem_reduce h).1).1

theorem normalize_eq (path : String) :
    normalize path = String.ofList (joinSegments '/' (reduce (segments '/' path.toList))) :=
  rfl

/-- The segments of a normalized path. -/
theorem segments_normalize (path : String) :
    segments '/' (normalize path).toList =
      if reduce (segments '/' path.toList) = [] then [[]]
      else reduce (segments '/' path.toList) := by
  rw [normalize_eq, String.toList_ofList]
  split_ifs with hnil
  · rw [hnil]
    rfl
  · exact Text.segments_joinSegments hnil fun _ hs => slash_not_mem_of_mem_reduce hs

theorem undotted_segments_normalize (path : String) :
    Undotted (segments '/' (normalize path).toList) := by
  rw [segments_normalize]
  split_ifs
  · intro s hs
    rw [List.mem_singleton.mp hs]
    decide
  · exact undotted_reduce _

theorem normalize_of_undotted {path : String} (h : Undotted (segments '/' path.toList)) :
    normalize path = path := by
  rw [normalize_eq, reduce_of_undotted h, Text.joinSegments_segments, String.ofList_toList]

/-- It is the paths without dots that are left as they are. -/
theorem normalize_eq_self_iff {path : String} :
    normalize path = path ↔ Undotted (segments '/' path.toList) := by
  refine ⟨fun h => ?_, normalize_of_undotted⟩
  rw [← h]
  exact undotted_segments_normalize path

theorem normalize_normalize (path : String) : normalize (normalize path) = normalize path :=
  normalize_of_undotted (undotted_segments_normalize path)

theorem segments_append_slash (a b : String) :
    segments '/' (a ++ "/" ++ b).toList = segments '/' a.toList ++ segments '/' b.toList := by
  rw [String.toList_append, String.toList_append, List.append_assoc]
  exact Text.segments_append_sep a.toList b.toList

/-- The first of two paths may be normalized before the second follows. Where nothing is kept of it the
second stands alone: its slash would be one segment more. -/
theorem normalize_append_slash (a b : String) :
    normalize (a ++ "/" ++ b) =
      if reduce (segments '/' a.toList) = [] then normalize b
      else normalize (normalize a ++ "/" ++ b) := by
  rw [normalize_eq (a ++ "/" ++ b), segments_append_slash, reduce_append]
  split_ifs with hnil
  · rw [hnil, List.nil_append, ← normalize_eq]
  · have hkept := segments_normalize a
    rw [if_neg hnil] at hkept
    rw [normalize_eq (normalize a ++ "/" ++ b), segments_append_slash, hkept]

end Path

/-! ### The files that are tried -/

namespace Locator

/-- A logical path that does not go up leads below the directory in which it is tried. -/
theorem target_join_relative (t : FileTree) (base : String) {path : String}
    (h : Path.Descends path) :
    t.target (Path.join base (relative path)) = t.target base ++ Path.names path := by
  rw [FileTree.target_join t (not_isAbsolute_relative path), names_relative]
  apply Location.follow_eq_append
  intro name hname
  refine ⟨(List.mem_filter.mp hname).2, ?_⟩
  rintro rfl
  exact h hname

/-- What is tried for such a path lies below the directory, with its layer, in which it is tried. -/
theorem exists_target_of_mem_candidates {l : Locator} (t : FileTree) {path file : String}
    (h : Path.Descends path) (hfile : file ∈ l.candidates path) :
    ∃ dir ∈ Path.ancestors l.root, ∃ layer ∈ l.layers,
      file = Path.join (Path.join dir layer) (relative path) ∧
      t.target file = t.target (Path.join dir layer) ++ Path.names path := by
  obtain ⟨-, dir, hdir, layer, hlayer, rfl⟩ := mem_candidates_iff.mp hfile
  exact ⟨dir, hdir, layer, hlayer, rfl, target_join_relative t _ h⟩

end Locator

/-- **Normalizing gives a canonical form that composes.** A normalized path has no segment that is `.`
or `..`, and normalizing it again changes nothing; it is exactly the paths without such segments that are
left as they are. What is kept of the segments stands in the same order, and these are the segments of
the result, unless none is kept: then the result is empty, and its one segment is the empty one. A path
after another one may be normalized in two steps, unless nothing is kept of the first.

So the logical path of a resource does not go up, and every file that is tried for it lies below the
directory, with its layer, in which it is tried. -/
theorem normalize_canonical :
    (∀ path : String,
      Path.Undotted (segments '/' (Path.normalize path).toList) ∧
      Path.normalize (Path.normalize path) = Path.normalize path ∧
      (Path.normalize path = path ↔ Path.Undotted (segments '/' path.toList)) ∧
      (Path.reduce (segments '/' path.toList)).Sublist (segments '/' path.toList) ∧
      segments '/' (Path.normalize path).toList =
        if Path.reduce (segments '/' path.toList) = [] then [[]]
        else Path.reduce (segments '/' path.toList)) ∧
    (∀ a b : String,
      Path.normalize (a ++ "/" ++ b) =
        if Path.reduce (segments '/' a.toList) = [] then Path.normalize b
        else Path.normalize (Path.normalize a ++ "/" ++ b)) ∧
    ∀ (c : Contract) (m : Method),
      Path.Descends (resourcePath c m) ∧
      ∀ (l : Locator) (t : FileTree), ∀ file ∈ l.candidates (resourcePath c m),
        ∃ dir ∈ Path.ancestors l.root, ∃ layer ∈ l.layers,
          file = Path.join (Path.join dir layer) (Locator.relative (resourcePath c m)) ∧
          t.target file = t.target (Path.join dir layer) ++ Path.names (resourcePath c m) := by
  refine ⟨fun path => ?_, Path.normalize_append_slash, fun c m => ?_⟩
  · exact ⟨Path.undotted_segments_normalize path, Path.normalize_normalize path,
      Path.normalize_eq_self_iff, Path.reduce_sublist _, Path.segments_normalize path⟩
  · have hdescends := descends_resourcePath c m
    exact ⟨hdescends, fun l t file hfile =>
      Locator.exists_target_of_mem_candidates t hdescends hfile⟩

/-- A contract in the namespace `a.b`. -/
def deepContract : Contract where
  name := "a.b.C"

/-- A method whose marker goes up further than the namespace is deep. -/
def climbingMethod : Method where
  name := "logo"
  returns := .plain "byte[]"
  markers := { resource := some "../../../../x/./logo.png" }

theorem normalize_canonical_climbing :
    resourcePath deepContract climbingMethod = "x/logo.png" ∧
      "/src/main/java/x/logo.png" ∈
        Locator.candidates { root := "/work", language := "java" } "x/logo.png" ∧
      ∃ dir ∈ Path.ancestors "/work", ∃ layer ∈ Locator.layers { root := "/work", language := "java" },
        "/src/main/java/x/logo.png" = Path.join (Path.join dir layer) (Locator.relative "x/logo.png") ∧
        FileTree.target {} "/src/main/java/x/logo.png" =
          FileTree.target {} (Path.join dir layer) ++ Path.names "x/logo.png" := by
  have hpath : resourcePath deepContract climbingMethod = "x/logo.png" := by
    decide +kernel
  have hmem : "/src/main/java/x/logo.png" ∈
      Locator.candidates { root := "/work", language := "java" } "x/logo.png" := by
    decide +kernel
  have hbelow := (normalize_canonical.2.2 deepContract climbingMethod).2
  rw [hpath] at hbelow
  exact ⟨hpath, hmem, hbelow _ {} _ hmem⟩

/-- Where nothing is kept of the segments, the result has the empty segment, which the path need not
have. -/
theorem emptySegment_of_nothingKept :
    Path.normalize "a/.." = "" ∧
      [] ∈ segments '/' (Path.normalize "a/..").toList ∧ [] ∉ segments '/' "a/..".toList := by
  decide

end ContractForge
