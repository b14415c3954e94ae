import ContractForge.Message.Bundle
import ContractForge.Proofs.Files.FileName
import ContractForge.Resource.Accessors

/-!
# Paths that do not go up

* `Path.Descends` : no component of the path is `..`, so none of the directories on the way is left again.
* `Path.directories` : the segments before the last one.

The paths that a locator tries do not go up if its root, its language and the logical path do not
(`Locator.descends_of_mem_candidates`). Of the logical paths those of resources never do, because they
are normalized (`descends_resourcePath`), and those of message bundles only if the suffix does
(`descends_basePath`).
-/

namespace ContractForge

open Text (segments joinSegments)

namespace Path

/-- No component of the path goes up. -/
def Descends (path : String) : Prop :=
  ".." ∉ names path

instance (path : String) : Decidable (Descends path) :=
  inferInstanceAs (Decidable (¬_))

theorem descends_iff {path : String} : Descends path ↔ ['.', '.'] ∉ segments '/' path.toList := by
  rw [Descends, names_eq, not_iff_not, List.mem_map]
  constructor
  · intro hmapped
    obtain ⟨segment, hmem, hup⟩ := hmapped
    obtain rfl : segment = ['.', '.'] := by simpa [← String.toList_inj] using hup
    exact (List.mem_filter.mp hmem).1
  · intro hmem
    exact ⟨_, List.mem_filter.mpr ⟨hmem, rfl⟩, rfl⟩

theorem Descends.join {a b : String} (ha : Descends a) (hb : Descends b) : Descends (join a b) := by
  rw [descends_iff] at ha hb
  unfold Path.join
  split
  next => exact descends_iff.mpr hb
  next =>
    split
    next hslash =>
      obtain ⟨front, hfront⟩ := List.getLast?_eq_some_iff.mp hslash
      rw [hfront, Text.segments_append_sep, List.mem_append] at ha
      rw [descends_iff, String.toList_append, hfront, List.append_assoc]
      show _ ∉ segments '/' (front ++ '/' :: b.toList)
      rw [Text.segments_append_sep, List.mem_append]
      exact not_or.mpr ⟨fun hmem => ha (.inl hmem), hb⟩
    next =>
      rw [descends_iff, String.toList_append, String.toList_append, List.append_assoc]
      show _ ∉ segments '/' (a.toList ++ '/' :: b.toList)
      rw [Text.segments_append_sep, List.mem_append]
      exact not_or.mpr ⟨ha, hb⟩

/-! ### The paths above -/

theorem mem_segments_joinSegments {parts : List (List Char)} (hfree : ∀ s ∈ parts, '/' ∉ s)
    {s : List Char} (h : s ∈ segments '/' (joinSegments '/' parts)) : s = [] ∨ s ∈ parts := by
  by_cases hne : parts = []
  · subst hne
    exact .inl (List.mem_singleton.mp h)
  · rw [Text.segments_joinSegments hne hfree] at h
    exact .inr h

/-- A path is taken apart into its start, which is a slash, a dot or nothing, and some of its
segments. -/
theorem of_anchor (path : List Char) :
    ((anchor path).1 = [] ∨ (anchor path).1 = ['.'] ∨ (anchor path).1 = ['/']) ∧
      ∀ s ∈ (anchor path).2, s ∈ segments '/' path := by
  unfold anchor
  split
  next rest =>
    refine ⟨.inr (.inr rfl), fun s hs => ?_⟩
    rw [segments, if_pos rfl]
    exact List.mem_cons_of_mem _ hs
  next =>
    split
    next rest hdot =>
      refine ⟨.inr (.inl rfl), fun s hs => ?_⟩
      rw [hdot]
      exact List.mem_cons_of_mem _ hs
    next => exact ⟨.inl rfl, fun s hs => hs⟩

/-- Put back together, a path has no other segments than these and void ones. -/
theorem mem_segments_unanchor {start : List Char} {parts : List (List Char)}
    (hstart : start = [] ∨ start = ['.'] ∨ start = ['/']) (hfree : ∀ s ∈ parts, '/' ∉ s)
    {s : List Char} (h : s ∈ segments '/' (unanchor start parts)) :
    isVoid s = true ∨ s ∈ parts := by
  have hjoined : ∀ s ∈ segments '/' (joinSegments '/' parts), isVoid s = true ∨ s ∈ parts := by
    intro s hs
    rcases mem_segments_joinSegments hfree hs with rfl | hmem
    · exact .inl rfl
    · exact .inr hmem
  unfold unanchor at h
  split at h
  next =>
    have hdot : segments '/' ('.' :: '/' :: joinSegments '/' parts) =
        ['.'] :: segments '/' (joinSegments '/' parts) :=
      Text.segments_append_sep ['.'] _
    rw [hdot] at h
    rcases List.mem_cons.mp h with rfl | hmem
    · exact .inl rfl
    · exact hjoined s hmem
  next hnot =>
    rcases hstart with rfl | rfl | rfl
    · exact hjoined s h
    · -- a dot with nothing after it
      have hnil : parts = [] := by simpa using hnot
      subst hnil
      obtain rfl := List.mem_singleton.mp h
      exact .inl rfl
    · have hslash : segments '/' (['/'] ++ joinSegments '/' parts) =
          [] :: segments '/' (joinSegments '/' parts) :=
        Text.segments_append_sep [] _
      rw [hslash] at h
      rcases List.mem_cons.mp h with rfl | hmem
      · exact .inl rfl
      · exact hjoined s hmem

theorem Descends.parent {path dir : String} (hpath : Descends path) (h : parent? path = some dir) :
    Descends dir := by
  rw [descends_iff] at hpath ⊢
  obtain ⟨hstart, hsub⟩ := of_anchor path.toList
  unfold parent? at h
  dsimp only at h
  split at h
  next =>
    split at h
    next =>
      obtain rfl := Option.some.inj h
      decide
    next => cases h
  next last before hkept =>
    obtain rfl := Option.some.inj h
    have hparts : ∀ s ∈ dropVoidEnd before.reverse, s ∈ segments '/' path.toList := by
      intro s hs
      refine hsub s (mem_of_mem_dropVoidEnd (List.mem_reverse.mp ?_))
      rw [hkept]
      exact List.mem_cons_of_mem _ (List.mem_reverse.mp (mem_of_mem_dropVoidEnd hs))
    intro hup
    rw [String.toList_ofList] at hup
    rcases mem_segments_unanchor hstart (fun s hs => (Text.of_mem_segments (hparts s hs)).1) hup
      with hvoid | hmem
    · cases hvoid
    · exact hpath (hparts _ hmem)

theorem Descends.of_mem_ancestors {path above : String} (hpath : Descends path)
    (h : above ∈ ancestors path) : Descends above := by
  have hgo : ∀ n p, Descends p → above ∈ ancestors.go n p → Descends above := by
    intro n
    induction n with
    | zero =>
      intro p _ hmem
      cases hmem
    | succ n ih =>
      intro p hp hmem
      rw [ancestors.go] at hmem
      rcases List.mem_cons.mp hmem with rfl | hmem
      · exact hp
      · split at hmem
        next dir hdir => exact ih dir (hp.parent hdir) hmem
        next => cases hmem
  exact hgo _ _ hpath h

/-! ### Normalized paths -/

/-- What is kept of the segments was there before, or is one of them and no dots. -/
theorem of_mem_foldl_reduceStep {parts kept : List (List Char)} {s : List Char}
    (h : s ∈ parts.foldl reduceStep kept) :
    s ∈ kept ∨ s ∈ parts ∧ s ≠ ['.'] ∧ s ≠ ['.', '.'] := by
  induction parts generalizing kept with
  | nil => exact .inl h
  | cons part rest ih =>
    rcases ih h with hmem | ⟨hmem, hdots⟩
    · unfold reduceStep at hmem
      split_ifs at hmem with hdot hup
      · exact .inl hmem
      · exact .inl (List.mem_of_mem_tail hmem)
      · rcases List.mem_cons.mp hmem with rfl | hmem
        · exact .inr ⟨List.mem_cons_self, hdot, hup⟩
        · exact .inl hmem
    · exact .inr ⟨List.mem_cons_of_mem _ hmem, hdots⟩

theorem of_mem_reduce {parts : List (List Char)} {s : List Char} (h : s ∈ reduce parts) :
    s ∈ parts ∧ s ≠ ['.'] ∧ s ≠ ['.', '.'] := by
  rcases of_mem_foldl_reduceStep (List.mem_reverse.mp h) with hmem | hkept
  · cases hmem
  · exact hkept

/-- A normalized path does not go up. -/
theorem descends_normalize (path : String) : Descends (normalize path) := by
  rw [descends_iff, normalize, String.toList_ofList, normalizeChars]
  intro hup
  have hfree : ∀ s ∈ reduce (segments '/' path.toList), '/' ∉ s :=
    fun s hs => (Text.of_mem_segments (of_mem_reduce hs).1).1
  rcases mem_segments_joinSegments hfree hup with hnil | hmem
  · cases hnil
  · exact (of_mem_reduce hmem).2.2 rfl

/-- The segments of a path before the last one. -/
def directories (path : String) : List (List Char) :=
  (segments '/' path.toList).dropLast

end Path

/-! ### Logical paths -/

theorem descends_markerPath (space marker : String) : Path.Descends (markerPath space marker) := by
  unfold markerPath
  dsimp only
  split_ifs
  · exact Path.descends_normalize _
  · exact Path.descends_normalize _

theorem descends_resourcePath (c : Contract) (m : Method) : Path.Descends (resourcePath c m) :=
  descends_markerPath _ _

/-- The dots of a name have become slashes, so it is only the suffix that could go up. -/
theorem descends_basePath (c : Contract) {suffix : String} (h : Path.Descends suffix) :
    Path.Descends (basePath c suffix) := by
  rw [Path.descends_iff] at h ⊢
  rw [basePath, String.toList_append]
  obtain ⟨before, last, first, rest, hname, hsuffix, hpath⟩ :=
    @Text.segments_append '/' (namespacePath c.name).toList suffix.toList
  have hfree : ∀ part ∈ before ++ [last], '.' ∉ part := fun part hpart hdot =>
    dot_not_mem_namespacePath c.name ((Text.of_mem_segments (hname ▸ hpart)).2 _ hdot)
  rw [hsuffix] at h
  rw [hpath]
  intro hup
  rcases List.mem_append.mp hup with hbefore | hmem
  · exact hfree _ (List.mem_append_left _ hbefore) List.mem_cons_self
  · rcases List.mem_cons.mp hmem with heq | hrest
    · cases last with
      | nil => exact h (heq ▸ List.mem_cons_self)
      | cons ch more =>
        obtain ⟨rfl, -⟩ := List.cons.inj heq
        exact hfree ('.' :: more) (by simp) List.mem_cons_self
    · exact h (List.mem_cons_of_mem _ hrest)

namespace Locator

theorem names_relative (path : String) : Path.names (relative path) = Path.names path := by
  rw [Path.names_eq, Path.names_eq, relative, String.toList_ofList]
  generalize path.toList = s
  induction s with
  | nil => rfl
  | cons c rest ih =>
    rw [List.dropWhile_cons]
    split
    next hc =>
      obtain rfl : c = '/' := by simpa using hc
      rw [ih, segments, if_pos rfl]
      rfl
    next => rfl

theorem descends_of_mem_candidates {l : Locator} {path file : String}
    (hroot : Path.Descends l.root) (hlanguage : Path.Descends l.language)
    (hpath : Path.Descends path) (h : file ∈ l.candidates path) : Path.Descends file := by
  obtain ⟨-, dir, hdir, layer, hmem, rfl⟩ := mem_candidates_iff.mp h
  have hrelative : Path.Descends (relative path) := by
    rw [Path.Descends, names_relative]
    exact hpath
  have hlayers : ∀ layer ∈ l.layers, Path.Descends layer := by
    have hsources : Path.Descends "src/main" := by decide
    have hresources : Path.Descends "src/main/resources" := by decide
    have hnothing : Path.Descends "" := by decide
    intro layer hlayer
    rcases List.mem_cons.mp hlayer with rfl | hlayer
    · exact hnothing
    · rcases List.mem_cons.mp hlayer with rfl | hlayer
      · exact hsources.join hlanguage
      · rw [List.mem_singleton.mp hlayer]
        exact hresources
  exact ((hroot.of_mem_ancestors hdir).join (hlayers layer hmem)).join hrelative

end Locator
end ContractForge
