import ContractForge.Text.Split
import Mathlib.Data.List.Basic

/-!
# The segments of a text

How cutting at a separator goes together with putting texts one after another.

`lastSegment sep s` : what follows the last separator.
-/

namespace ContractForge.Text

variable {sep : Char}

theorem segments_append_sep (a b : List Char) :
    segments sep (a ++ sep :: b) = segments sep a ++ segments sep b := by
  induction a with
  | nil => simp [segments]
  | cons c cs ih =>
    obtain ⟨p, ps, hp⟩ := List.exists_cons_of_ne_nil (segments_ne_nil sep cs)
    rw [List.cons_append, segments, segments, ih, hp]
    split <;> rfl

theorem segments_of_not_mem {s : List Char} (h : sep ∉ s) : segments sep s = [s] := by
  induction s with
  | nil => rfl
  | cons c cs ih =>
    obtain ⟨hc, hcs⟩ := not_or.mp (mt List.mem_cons.mpr h)
    rw [segments, if_neg (Ne.symm hc), ih hcs]

/-- The last segment of one text and the first of the next become one. -/
theorem segments_append (a b : List Char) :
    ∃ before last first rest, segments sep a = before ++ [last] ∧ segments sep b = first :: rest ∧
      segments sep (a ++ b) = before ++ (last ++ first) :: rest := by
  induction a with
  | nil =>
    obtain ⟨first, rest, hb⟩ := List.exists_cons_of_ne_nil (segments_ne_nil sep b)
    exact ⟨[], [], first, rest, rfl, hb, hb⟩
  | cons c cs ih =>
    obtain ⟨before, last, first, rest, hcs, hb, happend⟩ := ih
    rw [List.cons_append, segments, segments, hcs, happend]
    split
    next => exact ⟨[] :: before, last, first, rest, rfl, hb, rfl⟩
    next =>
      cases before with
      | nil => exact ⟨[], c :: last, first, rest, rfl, hb, rfl⟩
      | cons p ps => exact ⟨(c :: p) :: ps, last, first, rest, rfl, hb, rfl⟩

/-- A text in which no separator stands makes the last segment longer. -/
theorem segments_append_of_not_mem {tail : List Char} (h : sep ∉ tail) (s : List Char) :
    ∃ before last, segments sep s = before ++ [last] ∧
      segments sep (s ++ tail) = before ++ [last ++ tail] := by
  obtain ⟨before, last, first, rest, hs, htail, happend⟩ := @segments_append sep s tail
  rw [segments_of_not_mem h] at htail
  obtain ⟨rfl, rfl⟩ := List.cons.inj htail
  exact ⟨before, last, hs, happend⟩

/-- The last segment is empty exactly after a separator, and in the empty text. -/
theorem getLast?_segments_eq_nil_iff {s : List Char} :
    (segments sep s).getLast? = some [] ↔ s = [] ∨ s.getLast? = some sep := by
  rcases List.eq_nil_or_concat' s with rfl | ⟨front, c, rfl⟩
  · simp [segments]
  · by_cases hc : c = sep
    · subst hc
      simp [segments_append_sep, segments]
    · obtain ⟨before, last, -, hlast⟩ :=
        segments_append_of_not_mem (List.mem_singleton.not.mpr (Ne.symm hc)) front
      simp [hlast, hc]

/-- No separator is left in a segment, and nothing new is in it. -/
theorem of_mem_segments {s part : List Char} (h : part ∈ segments sep s) :
    sep ∉ part ∧ ∀ c ∈ part, c ∈ s := by
  induction s generalizing part with
  | nil =>
    obtain rfl := List.mem_singleton.mp h
    simp
  | cons c cs ih =>
    obtain ⟨p, ps, hp⟩ := List.exists_cons_of_ne_nil (segments_ne_nil sep cs)
    rw [segments, hp] at h
    rw [hp] at ih
    split at h
    next =>
      rcases List.mem_cons.mp h with rfl | hmem
      · simp
      · exact ⟨(ih hmem).1, fun d hd => List.mem_cons_of_mem _ ((ih hmem).2 d hd)⟩
    next hc =>
      rcases List.mem_cons.mp h with rfl | hmem
      · obtain ⟨hsep, hsub⟩ := ih List.mem_cons_self
        refine ⟨fun hmem => ?_, fun d hd => ?_⟩
        · rcases List.mem_cons.mp hmem with rfl | hmem
          · exact hc rfl
          · exact hsep hmem
        · rcases List.mem_cons.mp hd with rfl | hd
          · exact List.mem_cons_self
          · exact List.mem_cons_of_mem _ (hsub d hd)
      · obtain ⟨hsep, hsub⟩ := ih (List.mem_cons_of_mem _ hmem)
        exact ⟨hsep, fun d hd => List.mem_cons_of_mem _ (hsub d hd)⟩

theorem joinSegments_cons_cons (part next : List Char) (further : List (List Char)) :
    joinSegments sep (part :: next :: further) =
      part ++ sep :: joinSegments sep (next :: further) := by
  simp [joinSegments, List.intercalate]

/-- Segments that were put together are cut apart again. -/
theorem segments_joinSegments {parts : List (List Char)} (hne : parts ≠ [])
    (hparts : ∀ part ∈ parts, sep ∉ part) : segments sep (joinSegments sep parts) = parts := by
  induction parts with
  | nil => exact absurd rfl hne
  | cons part rest ih =>
    have hpart := hparts part List.mem_cons_self
    cases rest with
    | nil => simpa [joinSegments] using segments_of_not_mem hpart
    | cons next further =>
      have hrest := ih (by simp) fun p hp => hparts p (List.mem_cons_of_mem _ hp)
      rw [joinSegments_cons_cons, segments_append_sep, segments_of_not_mem hpart, hrest]
      rfl

theorem joinSegments_append {first second : List (List Char)} (hfirst : first ≠ [])
    (hsecond : second ≠ []) :
    joinSegments sep (first ++ second) =
      joinSegments sep first ++ sep :: joinSegments sep second := by
  induction first with
  | nil => exact absurd rfl hfirst
  | cons part rest ih =>
    cases rest with
    | nil =>
      obtain ⟨next, further, rfl⟩ := List.exists_cons_of_ne_nil hsecond
      rw [List.cons_append, List.nil_append, joinSegments_cons_cons]
      simp [joinSegments]
    | cons next further =>
      have hrest := ih (by simp)
      rw [List.cons_append] at hrest
      rw [List.cons_append, List.cons_append, joinSegments_cons_cons, hrest, joinSegments_cons_cons,
        List.append_assoc, List.cons_append]

theorem joinSegments_prefix (first second : List (List Char)) :
    joinSegments sep first <+: joinSegments sep (first ++ second) := by
  rcases eq_or_ne first [] with rfl | hfirst
  · exact List.nil_prefix
  · rcases eq_or_ne second [] with rfl | hsecond
    · simp only [List.append_nil, List.prefix_refl]
    · rw [joinSegments_append hfirst hsecond]
      exact List.prefix_append _ _

theorem suffix_joinSegments (parts : List (List Char)) (last : List Char) :
    last <:+ joinSegments sep (parts ++ [last]) := by
  have hlast : joinSegments sep [last] = last := by simp [joinSegments]
  rcases eq_or_ne parts [] with rfl | hparts
  · simp only [List.nil_append, hlast, List.suffix_refl]
  · rw [joinSegments_append hparts (by simp), hlast]
    exact (List.suffix_cons sep last).trans (List.suffix_append _ _)

theorem map_replace_of_not_mem {a b : Char} {s : List Char} (h : a ∉ s) :
    (s.map fun c => if c = a then b else c) = s := by
  have hsame : ∀ c ∈ s, (if c = a then b else c) = c := fun c hc =>
    if_neg fun heq : c = a => h (heq ▸ hc)
  rw [List.map_congr_left hsame, List.map_id']

/-- A separator may be replaced by a character that the text does not have. -/
theorem segments_map_replace {a b : Char} {s : List Char} (h : b ∉ s) :
    segments b (s.map fun c => if c = a then b else c) = segments a s := by
  induction s with
  | nil => rfl
  | cons c cs ih =>
    obtain ⟨hc, hcs⟩ := not_or.mp (mt List.mem_cons.mpr h)
    rw [List.map_cons, segments, segments, ih hcs]
    by_cases heq : c = a
    · rw [if_pos heq, if_pos rfl, if_pos heq]
    · rw [if_neg heq, if_neg (Ne.symm hc), if_neg heq]

theorem eq_of_map_replace_eq {a b : Char} {s s' : List Char} (h : b ∉ s) (h' : b ∉ s')
    (heq : (s.map fun c => if c = a then b else c) = s'.map fun c => if c = a then b else c) :
    s = s' := by
  have hsegments := congrArg (segments b) heq
  rw [segments_map_replace h, segments_map_replace h'] at hsegments
  rw [← joinSegments_segments a s, hsegments, joinSegments_segments]

/-! ### The last segment -/

/-- What follows the last separator. -/
def lastSegment (sep : Char) (s : List Char) : List Char :=
  (segments sep s).getLast (segments_ne_nil sep s)

theorem segments_eq_append_lastSegment (sep : Char) (s : List Char) :
    ∃ before, segments sep s = before ++ [lastSegment sep s] :=
  ⟨_, (List.dropLast_append_getLast (segments_ne_nil sep s)).symm⟩

theorem not_mem_lastSegment (sep : Char) (s : List Char) : sep ∉ lastSegment sep s :=
  (of_mem_segments (List.getLast_mem (segments_ne_nil sep s))).1

theorem lastSegment_append_sep (a b : List Char) :
    lastSegment sep (a ++ sep :: b) = lastSegment sep b := by
  simp only [lastSegment, segments_append_sep]
  exact List.getLast_append_of_ne_nil _ (segments_ne_nil sep b)

theorem lastSegment_of_not_mem {s : List Char} (h : sep ∉ s) : lastSegment sep s = s := by
  simp only [lastSegment, segments_of_not_mem h, List.getLast_singleton]

/-- A text is its last segment, or has a separator before it. -/
theorem splitLast?_eq_or (sep : Char) (s : List Char) :
    splitLast? sep s = none ∧ lastSegment sep s = s ∨
      ∃ before, splitLast? sep s = some (before, lastSegment sep s) ∧
        s = before ++ sep :: lastSegment sep s := by
  cases h : splitLast? sep s with
  | none => exact .inl ⟨rfl, lastSegment_of_not_mem (splitLast?_eq_none_iff.mp h)⟩
  | some cut =>
    obtain ⟨before, after⟩ := cut
    obtain ⟨hwhole, hafter⟩ := splitLast?_eq_some_iff.mp h
    have hlast : lastSegment sep s = after := by
      rw [hwhole, lastSegment_append_sep, lastSegment_of_not_mem hafter]
    rw [hlast]
    exact .inr ⟨before, rfl, hwhole⟩

end ContractForge.Text
