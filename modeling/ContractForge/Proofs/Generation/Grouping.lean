import ContractForge.Proofs.Declaration.Faults
import ContractForge.Proofs.Generation.Discovery
import Mathlib.Data.List.Basic

/-!
# The order of discovery

* `Marker.carriedBy` : a contract carries a marker itself, or on one of its methods.
* `DeclarationSet.markedNames` : the names of the contracts that carry a marker, each once and in the
  order in which they are first seen.
* `DeclarationSet.markedMethods` : the marked methods of all contracts of a name, in the order in which
  they are declared.
* `DeclarationSet.marked` : all marked methods under the names of their contracts, in the order of
  discovery.

Discovery makes one group for every such name, of these methods (`discover_eq`). If the contracts have
different names, as in a set that is valid (`nodup_names_of_validate`), it makes one group for every
contract that carries the marker (`discover_of_nodup`).
-/

namespace ContractForge

/-- The contract carries the marker, itself or on one of its methods. -/
def Marker.carriedBy (marker : Marker) (c : Contract) : Bool :=
  marker.marksContract c || c.methods.any (marker.marks c)

namespace DeclarationSet

variable (set : DeclarationSet) (marker : Marker)

/-- The names of the contracts that carry a marker, in the order in which they are first seen. -/
def markedNames : List String :=
  ((set.contracts.filter marker.carriedBy).map (·.name)).eraseDups

/-- The marked methods of all contracts of a name, in the order in which they are declared. -/
def markedMethods (name : String) : List Method :=
  (set.contracts.filter (·.name == name)).flatMap fun c => c.methods.filter (marker.marks c)

/-- All marked methods, each under the name of its contract, in the order of discovery. -/
def marked : List (String × Method) :=
  (set.markedNames marker).flatMap fun name => (set.markedMethods marker name).map (name, ·)

end DeclarationSet

/-! ### Joining groups by name -/

/-- What later groups add to a group is their methods, if they have its name. -/
theorem foldl_addGroup_cons (g : Group) (groups more : List Group) :
    more.foldl (fun groups g => addGroup g groups) (g :: groups) =
      { g with methods :=
          g.methods ++ (more.filter (·.contract.name == g.contract.name)).flatMap (·.methods) } ::
        (more.filter (·.contract.name != g.contract.name)).foldl
          (fun groups g => addGroup g groups) groups := by
  induction more generalizing g groups with
  | nil => simp
  | cons x rest ih =>
    rw [List.foldl_cons, addGroup]
    by_cases hname : g.contract.name = x.contract.name
    · rw [if_pos hname, ih]
      simp [hname, List.append_assoc]
    · have hne : ¬x.contract.name = g.contract.name := Ne.symm hname
      rw [if_neg hname, ih, List.filter_cons_of_neg (by simpa using hne),
        List.filter_cons_of_pos (by simpa using hne), List.foldl_cons]

/-- Joined groups are known by name: the first of a name has the methods of all of them. -/
theorem map_foldl_addGroup (groups : List Group) :
    (groups.foldl (fun groups g => addGroup g groups) []).map (fun g => (g.contract.name, g.methods)) =
      (groups.map (·.contract.name)).eraseDups.map fun name =>
        (name, (groups.filter (·.contract.name == name)).flatMap (·.methods)) := by
  match groups with
  | [] => rfl
  | g :: rest =>
    have hnames : (rest.map (·.contract.name)).filter (fun name => !name == g.contract.name) =
        (rest.filter (·.contract.name != g.contract.name)).map (·.contract.name) :=
      List.filter_map
    rw [List.foldl_cons, addGroup, foldl_addGroup_cons, List.map_cons, List.map_cons,
      List.eraseDups_cons, List.map_cons, hnames,
      map_foldl_addGroup (rest.filter (·.contract.name != g.contract.name))]
    refine congrArg₂ List.cons (by simp) (List.map_congr_left fun name hname => ?_)
    -- the later names are not that of the first group
    obtain ⟨x, hx, rfl⟩ := List.mem_map.mp (List.mem_eraseDups.mp hname)
    have hother : ¬g.contract.name = x.contract.name := fun heq => by
      simpa [heq] using (List.mem_filter.mp hx).2
    rw [List.filter_cons_of_neg (by simpa using hother), List.filter_filter]
    refine congrArg (fun gs : List Group => (x.contract.name, gs.flatMap (·.methods))) ?_
    refine List.filter_congr fun y _ => ?_
    by_cases hy : y.contract.name = x.contract.name
    · simp [hy, Ne.symm hother]
    · simp [hy]
termination_by groups.length
decreasing_by exact Nat.lt_succ_of_le (List.length_filter_le _ _)

/-! ### The groups of a set -/

variable {set : DeclarationSet} {marker : Marker}

theorem any_marks_eq (marker : Marker) (c : Contract) :
    c.methods.any (marker.marks c) = !(c.methods.filter (marker.marks c)).isEmpty := by
  rw [Bool.eq_iff_iff]
  simp

theorem ofContract?_eq (marker : Marker) (c : Contract) :
    Group.ofContract? marker c =
      if marker.carriedBy c then some ⟨c, c.methods.filter (marker.marks c)⟩ else none := by
  rw [Group.ofContract?, ← any_marks_eq]
  rfl

theorem filter_marks_of_not_carried {c : Contract} (h : marker.carriedBy c = false) :
    c.methods.filter (marker.marks c) = [] := by
  obtain ⟨-, hnone⟩ : marker.marksContract c = false ∧ c.methods.any (marker.marks c) = false := by
    simpa [Marker.carriedBy] using h
  simpa using hnone

theorem map_name_filterMap_ofContract? (marker : Marker) (contracts : List Contract) :
    (contracts.filterMap (Group.ofContract? marker)).map (·.contract.name) =
      (contracts.filter marker.carriedBy).map (·.name) := by
  induction contracts with
  | nil => rfl
  | cons c rest ih =>
    rw [List.filterMap_cons, ofContract?_eq]
    by_cases hcarried : marker.carriedBy c = true
    · simp [hcarried, ih]
    · simp [hcarried, ih]

theorem flatMap_filterMap_ofContract? (marker : Marker) (name : String) (contracts : List Contract) :
    ((contracts.filterMap (Group.ofContract? marker)).filter
        (·.contract.name == name)).flatMap (·.methods) =
      (contracts.filter (·.name == name)).flatMap fun c => c.methods.filter (marker.marks c) := by
  induction contracts with
  | nil => rfl
  | cons c rest ih =>
    rw [List.filterMap_cons, ofContract?_eq]
    by_cases hcarried : marker.carriedBy c = true
    · by_cases hname : c.name = name
      · simp [hcarried, hname, ih]
      · simp [hcarried, hname, ih]
    · have hnone := filter_marks_of_not_carried (Bool.eq_false_iff.mpr hcarried)
      by_cases hname : c.name = name
      · simp [hcarried, hname, ih, hnone]
      · simp [hcarried, hname, ih]

/-- There is one group for every name that is found, of the marked methods of that name. -/
theorem discover_eq (set : DeclarationSet) (marker : Marker) :
    (discover set marker).map (fun g => (g.contract.name, g.methods)) =
      (set.markedNames marker).map fun name => (name, set.markedMethods marker name) := by
  rw [discover, map_foldl_addGroup, map_name_filterMap_ofContract?, DeclarationSet.markedNames]
  refine List.map_congr_left fun name _ => ?_
  rw [flatMap_filterMap_ofContract?, DeclarationSet.markedMethods]

/-- The methods of the groups, one group after another, are the marked methods. -/
theorem flatMap_discover (set : DeclarationSet) (marker : Marker) :
    (discover set marker).flatMap (fun g => g.methods.map (g.contract.name, ·)) =
      set.marked marker := by
  have hgroups := congrArg
    (List.flatMap fun x : String × List Method => x.2.map (x.1, ·)) (discover_eq set marker)
  rwa [List.flatMap_map, List.flatMap_map] at hgroups

/-- A method is found exactly if it is a marked method of a contract of the name. -/
theorem mem_marked_iff {name : String} {m : Method} :
    (name, m) ∈ set.marked marker ↔
      ∃ c ∈ set.contracts, c.name = name ∧ m ∈ c.methods ∧ marker.marks c m = true := by
  rw [DeclarationSet.marked, List.mem_flatMap]
  constructor
  · rintro ⟨_, -, hmem⟩
    obtain ⟨_, hmethod, heq⟩ := List.mem_map.mp hmem
    obtain ⟨rfl, rfl⟩ := Prod.mk.inj heq
    obtain ⟨c, hc, hm⟩ := List.mem_flatMap.mp hmethod
    obtain ⟨hdeclared, hname⟩ := List.mem_filter.mp hc
    obtain ⟨hmem, hmarks⟩ := List.mem_filter.mp hm
    exact ⟨c, hdeclared, by simpa using hname, hmem, hmarks⟩
  · rintro ⟨c, hc, rfl, hm, hmarks⟩
    have hcarried : marker.carriedBy c = true := by
      rw [Marker.carriedBy, List.any_eq_true.mpr ⟨m, hm, hmarks⟩, Bool.or_true]
    refine ⟨c.name, ?_, List.mem_map_of_mem ?_⟩
    · exact List.mem_eraseDups.mpr (List.mem_map_of_mem (List.mem_filter.mpr ⟨hc, hcarried⟩))
    · exact List.mem_flatMap.mpr
        ⟨c, List.mem_filter.mpr ⟨hc, by simp⟩, List.mem_filter.mpr ⟨hm, hmarks⟩⟩

theorem forall_marked_iff {P : Method → Prop} :
    (∀ x ∈ set.marked marker, P x.2) ↔
      ∀ c ∈ set.contracts, ∀ m ∈ c.methods, marker.marks c m = true → P m := by
  constructor
  · intro h c hc m hm hmarks
    exact h (c.name, m) (mem_marked_iff.mpr ⟨c, hc, rfl, hm, hmarks⟩)
  · rintro h ⟨name, m⟩ hmem
    obtain ⟨c, hc, -, hm, hmarks⟩ := mem_marked_iff.mp hmem
    exact h c hc m hm hmarks

/-! ### Contracts of different names -/

/-- The contracts of a valid set have different names. -/
theorem nodup_names_of_validate (h : set.validate = .ok ()) :
    (set.contracts.map (·.name)).Nodup :=
  (DeclarationSet.validate_eq_ok_iff.mp h).contracts.distinct

theorem addGroup_of_not_mem {g : Group} {groups : List Group}
    (h : g.contract.name ∉ groups.map (·.contract.name)) : addGroup g groups = groups ++ [g] := by
  induction groups with
  | nil => rfl
  | cons x rest ih =>
    rw [List.map_cons, List.mem_cons, not_or] at h
    rw [addGroup, if_neg (Ne.symm h.1), ih h.2, List.cons_append]

theorem foldl_addGroup_of_nodup {groups more : List Group}
    (h : ((groups ++ more).map (·.contract.name)).Nodup) :
    more.foldl (fun groups g => addGroup g groups) groups = groups ++ more := by
  induction more generalizing groups with
  | nil => simp
  | cons g rest ih =>
    have hnew : g.contract.name ∉ groups.map (·.contract.name) := by
      rw [List.map_append, List.nodup_append] at h
      exact fun hmem => h.2.2 _ hmem _ List.mem_cons_self rfl
    rw [List.foldl_cons, addGroup_of_not_mem hnew, ih (by simpa using h), List.append_assoc]
    rfl

/-- If all contracts have different names, every contract that carries the marker is a group. -/
theorem discover_of_nodup (h : (set.contracts.map (·.name)).Nodup) (marker : Marker) :
    discover set marker = set.contracts.filterMap (Group.ofContract? marker) := by
  rw [discover, foldl_addGroup_of_nodup, List.nil_append]
  rw [List.nil_append, map_name_filterMap_ofContract?]
  exact h.sublist (List.filter_sublist.map _)

end ContractForge
