import ContractForge.Proofs.Generation.Grouping
import Mathlib.Data.List.Nodup

/-!
# Groups and an index of their places

Discovery may keep the groups in a growing list, together with the place of the group of each name, and
visit one method after another.

* `Slots` : the groups so far and the index of their places.
* `Slots.slot` : the place of the group of a contract, which is made at the end if there is none.
* `discoverIndexed` : discovery with such an index.
* `Slots.InStep` : the names of the groups are different, and the index has the place of each.

The index stays in step (`Slots.InStep.visit`), and what is visited joins the groups by name. So nothing
is found that `discover` does not find (`discoverIndexed_eq`).
-/

namespace ContractForge

variable {marker : Marker} {groups : List Group} {c : Contract} {m : Method}

/-- Groups so far, and the place of the group of each name. -/
structure Slots where
  groups : List Group := []
  index : List (String × Nat) := []

namespace Slots

/-- The place of the group of a contract, which is made at the end if there is none. -/
def slot (s : Slots) (c : Contract) : Nat × Slots :=
  match s.index.lookup c.name with
  | some place => (place, s)
  | none => (s.groups.length, ⟨s.groups ++ [⟨c, []⟩], (c.name, s.groups.length) :: s.index⟩)

/-- A method is put into the group of its contract. -/
def addMethod (c : Contract) (s : Slots) (m : Method) : Slots :=
  let (place, s) := s.slot c
  { s with groups := s.groups.modify place fun g => { g with methods := g.methods ++ [m] } }

/-- A contract with all its methods. -/
def visit (marker : Marker) (s : Slots) (c : Contract) : Slots :=
  let s := if marker.marksContract c then (s.slot c).2 else s
  c.methods.foldl (fun s m => if marker.marks c m then addMethod c s m else s) s

end Slots

/-- The marked methods of a set, grouped with an index. -/
def discoverIndexed (set : DeclarationSet) (marker : Marker) : List Group :=
  (set.contracts.foldl (Slots.visit marker) {}).groups

/-! ### Joining at a place -/

theorem addGroup_of_getElem? {g x : Group} {place : Nat}
    (hnodup : (groups.map (·.contract.name)).Nodup) (hplace : groups[place]? = some x)
    (hname : x.contract.name = g.contract.name) :
    addGroup g groups =
      groups.modify place fun x => { x with methods := x.methods ++ g.methods } := by
  induction groups generalizing place with
  | nil => simp at hplace
  | cons y rest ih =>
    obtain ⟨hy, hrest⟩ := List.nodup_cons.mp hnodup
    cases place with
    | zero =>
      obtain rfl : y = x := by simpa using hplace
      rw [addGroup, if_pos hname]
      rfl
    | succ place =>
      rw [List.getElem?_cons_succ] at hplace
      have hne : ¬y.contract.name = g.contract.name := fun heq =>
        hy (List.mem_map.mpr ⟨x, List.mem_of_getElem? hplace, hname.trans heq.symm⟩)
      rw [addGroup, if_neg hne, ih hrest hplace]
      rfl

/-- Methods that join one after the other have joined together. -/
theorem addGroup_addGroup (c : Contract) (first second : List Method) (groups : List Group) :
    addGroup ⟨c, second⟩ (addGroup ⟨c, first⟩ groups) = addGroup ⟨c, first ++ second⟩ groups := by
  induction groups with
  | nil => simp [addGroup]
  | cons x rest ih =>
    by_cases hname : x.contract.name = c.name
    · simp [addGroup, hname, List.append_assoc]
    · simp [addGroup, hname, ih]

/-- Joining a group adds its contract at the end, unless there is a group of its name. -/
theorem map_contract_addGroup (g : Group) (groups : List Group) :
    (addGroup g groups).map (·.contract) =
      if g.contract.name ∉ (groups.map (·.contract)).map (·.name)
      then groups.map (·.contract) ++ [g.contract] else groups.map (·.contract) := by
  induction groups with
  | nil => rfl
  | cons x rest ih =>
    rw [addGroup]
    by_cases hname : x.contract.name = g.contract.name
    · simp [hname]
    · have hne : ¬g.contract.name = x.contract.name := Ne.symm hname
      rw [if_neg hname, List.map_cons, ih]
      by_cases hmem : g.contract.name ∈ (rest.map (·.contract)).map (·.name)
      · simp only [hmem, hne, List.map_cons, List.mem_cons, or_true, not_true_eq_false, if_false]
      · simp only [hmem, hne, List.map_cons, List.mem_cons, or_self, not_false_eq_true, if_true,
          List.cons_append]

theorem map_name_addGroup_of_mem {g : Group} (h : g.contract.name ∈ groups.map (·.contract.name)) :
    (addGroup g groups).map (·.contract.name) = groups.map (·.contract.name) := by
  have hcontracts := map_contract_addGroup g groups
  rw [if_neg (by simpa using h)] at hcontracts
  have hnames := congrArg (List.map (·.name)) hcontracts
  rwa [List.map_map, List.map_map] at hnames

theorem addGroup_empty_of_mem (h : c.name ∈ groups.map (·.contract.name)) :
    addGroup ⟨c, []⟩ groups = groups := by
  induction groups with
  | nil => simp at h
  | cons x rest ih =>
    by_cases hname : x.contract.name = c.name
    · simp [addGroup, hname]
    · have hrest : c.name ∈ rest.map (·.contract.name) := by
        simpa [Ne.symm hname] using h
      rw [addGroup, if_neg hname, ih hrest]

/-! ### The index stays in step -/

namespace Slots

variable {s : Slots}

/-- The groups have different names, and the index tells where the group of each name is. -/
structure InStep (s : Slots) : Prop where
  nodup : (s.groups.map (·.contract.name)).Nodup
  lookup : ∀ name place,
    s.index.lookup name = some place ↔ (s.groups.map (·.contract.name))[place]? = some name

theorem inStep_empty : InStep {} :=
  ⟨List.nodup_nil, by simp⟩

theorem getElem?_concat_eq_some_iff {names : List String} {last name : String} {place : Nat} :
    (names ++ [last])[place]? = some name ↔
      names[place]? = some name ∨ place = names.length ∧ last = name := by
  rw [List.getElem?_append]
  split
  next hlt =>
    have hne : place ≠ names.length := Nat.ne_of_lt hlt
    simp [hne]
  next hge =>
    have hnone : names[place]? = none := List.getElem?_eq_none (Nat.le_of_not_lt hge)
    rw [List.getElem?_singleton, hnone]
    by_cases hend : place = names.length
    · simp [hend]
    · simp [hend]
      omega

theorem InStep.slot (h : s.InStep) (c : Contract) :
    (s.slot c).2.InStep ∧ (s.slot c).2.groups = addGroup ⟨c, []⟩ s.groups ∧
      ((s.slot c).2.groups.map (·.contract.name))[(s.slot c).1]? = some c.name := by
  unfold Slots.slot
  split
  next place hplace =>
    have hname := (h.lookup c.name place).mp hplace
    exact ⟨h, (addGroup_empty_of_mem (List.mem_of_getElem? hname)).symm, hname⟩
  next hnone =>
    have hnew : c.name ∉ s.groups.map (·.contract.name) := by
      intro hmem
      obtain ⟨place, hplace⟩ := List.mem_iff_getElem?.mp hmem
      rw [(h.lookup c.name place).mpr hplace] at hnone
      cases hnone
    refine ⟨⟨?_, fun name place => ?_⟩, ?_, ?_⟩
    · dsimp only
      rw [List.map_append, List.map_singleton]
      exact List.nodup_append_comm.mp (List.nodup_cons.mpr ⟨hnew, h.nodup⟩)
    · dsimp only
      rw [List.map_append, List.map_singleton, getElem?_concat_eq_some_iff, List.lookup_cons,
        List.length_map]
      by_cases hname : name = c.name
      · subst hname
        have hold : (s.groups.map (·.contract.name))[place]? ≠ some c.name := fun hmem =>
          hnew (List.mem_of_getElem? hmem)
        rw [or_iff_right hold, beq_self_eq_true]
        simp [eq_comm]
      · rw [or_iff_left (fun hend => hname hend.2.symm), beq_eq_false_iff_ne.mpr hname]
        exact h.lookup name place
    · exact (addGroup_of_not_mem hnew).symm
    · simp

/-- The method joins the group of its contract. -/
theorem InStep.addMethod (h : s.InStep) (c : Contract) (m : Method) :
    (addMethod c s m).InStep ∧ (addMethod c s m).groups = addGroup ⟨c, [m]⟩ s.groups := by
  obtain ⟨hslot, hgroups, hplace⟩ := h.slot c
  obtain ⟨x, hx, hname⟩ : ∃ x, (s.slot c).2.groups[(s.slot c).1]? = some x ∧
      x.contract.name = c.name := by
    simpa using hplace
  have hjoined : (Slots.addMethod c s m).groups = addGroup ⟨c, [m]⟩ (s.slot c).2.groups :=
    (addGroup_of_getElem? (g := ⟨c, [m]⟩) hslot.nodup hx hname).symm
  have hnames : (Slots.addMethod c s m).groups.map (·.contract.name) =
      (s.slot c).2.groups.map (·.contract.name) := by
    rw [hjoined, map_name_addGroup_of_mem (List.mem_of_getElem? hplace)]
  refine ⟨⟨?_, fun name place => ?_⟩, ?_⟩
  · rw [hnames]
    exact hslot.nodup
  · rw [hnames]
    exact hslot.lookup name place
  · rw [hjoined, hgroups, addGroup_addGroup]
    rfl

/-- Further methods join the group that is there already. -/
theorem InStep.addMethods (h : s.InStep) {c : Contract} {first : List Method} {groups : List Group}
    (hfirst : s.groups = addGroup ⟨c, first⟩ groups) (more : List Method) :
    (more.foldl (Slots.addMethod c) s).InStep ∧
      (more.foldl (Slots.addMethod c) s).groups = addGroup ⟨c, first ++ more⟩ groups := by
  induction more generalizing s first with
  | nil => exact ⟨h, by rw [List.append_nil, List.foldl_nil, hfirst]⟩
  | cons m rest ih =>
    obtain ⟨hnext, hgroups⟩ := h.addMethod c m
    rw [hfirst, addGroup_addGroup] at hgroups
    rw [List.append_cons]
    exact ih hnext hgroups

/-- A visited contract joins with its marked methods, if it carries the marker at all. -/
theorem InStep.visit (h : s.InStep) (marker : Marker) (c : Contract) :
    (s.visit marker c).InStep ∧ (s.visit marker c).groups =
      ((Group.ofContract? marker c).elim s.groups fun g => addGroup g s.groups) := by
  rw [Slots.visit, ← List.foldl_filter, Group.ofContract?]
  cases hmarks : marker.marksContract c with
  | true =>
    obtain ⟨hslot, hgroups, -⟩ := h.slot c
    exact hslot.addMethods hgroups (c.methods.filter (marker.marks c))
  | false =>
    cases c.methods.filter (marker.marks c) with
    | nil => exact ⟨h, rfl⟩
    | cons m rest =>
      obtain ⟨hnext, hgroups⟩ := h.addMethod c m
      exact hnext.addMethods hgroups rest

theorem InStep.foldl_visit (h : s.InStep) (marker : Marker) (contracts : List Contract) :
    (contracts.foldl (Slots.visit marker) s).groups =
      (contracts.filterMap (Group.ofContract? marker)).foldl
        (fun groups g => addGroup g groups) s.groups := by
  induction contracts generalizing s with
  | nil => rfl
  | cons c rest ih =>
    obtain ⟨hnext, hgroups⟩ := h.visit marker c
    rw [List.foldl_cons, ih hnext, hgroups, List.filterMap_cons]
    cases Group.ofContract? marker c with
    | none => rfl
    | some g => rfl

end Slots

/-- An index of places makes no difference to what is found. -/
theorem discoverIndexed_eq (set : DeclarationSet) (marker : Marker) :
    discoverIndexed set marker = discover set marker :=
  Slots.inStep_empty.foldl_visit marker set.contracts

end ContractForge
