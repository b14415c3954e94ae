import ContractForge.Proofs.Generation.GroupIndex
import Mathlib.Data.List.Induction
import Mathlib.Data.List.Nodup

/-!
# Groups and contracts

* `Marker.firstCarrier` : the place of the first contract of a name that carries a marker.
* `FirstCarriers` : contracts of different names, each the first of its name that carries the marker, in
  the order of their places. One more contract is put at the end, or it changes nothing
  (`FirstCarriers.concat`), so that the contracts of the groups are of this kind
  (`firstCarriers_discover`).
* `GroupedByContract` : what discovery has to give, told by the declarations.
* `Pruned` : lists in which some elements are left out.

`discover_groups` : discovery gives that, with or without an index of places, and what is not marked
makes no difference to it.
-/

namespace ContractForge

variable {marker : Marker}

/-- The place of the first contract of a name that carries the marker. -/
def Marker.firstCarrier (marker : Marker) (contracts : List Contract) (name : String) : Nat :=
  contracts.findIdx fun c => marker.carriedBy c && c.name == name

/-! ### The contracts of the groups -/

/-- The contracts are the first of their names that carry the marker, in order. -/
structure FirstCarriers (marker : Marker) (contracts firsts : List Contract) : Prop where
  place : ∀ c ∈ firsts, contracts[marker.firstCarrier contracts c.name]? = some c
  order : (firsts.map fun c => marker.firstCarrier contracts c.name).Pairwise (· < ·)
  complete : ∀ c ∈ contracts, marker.carriedBy c = true → c.name ∈ firsts.map (·.name)

namespace FirstCarriers

variable {contracts firsts : List Contract} {c : Contract}

theorem mem (h : FirstCarriers marker contracts firsts) (hc : c ∈ firsts) : c ∈ contracts :=
  List.mem_of_getElem? (h.place c hc)

theorem carriedBy (h : FirstCarriers marker contracts firsts) (hc : c ∈ firsts) :
    marker.carriedBy c = true := by
  have hfirst := List.findIdx_of_getElem?_eq_some (h.place c hc)
  exact (Bool.and_eq_true_iff.mp hfirst).1

theorem nodup_names (h : FirstCarriers marker contracts firsts) :
    (firsts.map (·.name)).Nodup := by
  have horder := List.pairwise_map.mp h.order
  refine List.pairwise_map.mpr (horder.imp fun hlt heq => ?_)
  rw [heq] at hlt
  exact Nat.lt_irrefl _ hlt

theorem firstCarrier_lt (h : FirstCarriers marker contracts firsts) (hc : c ∈ firsts) :
    marker.firstCarrier contracts c.name < contracts.length :=
  (List.getElem?_eq_some_iff.mp (h.place c hc)).1

/-- A contract behind the first carrier of a name does not move it. -/
theorem firstCarrier_concat (h : FirstCarriers marker contracts firsts) (hc : c ∈ firsts)
    (next : Contract) :
    marker.firstCarrier (contracts ++ [next]) c.name = marker.firstCarrier contracts c.name := by
  have hlt := h.firstCarrier_lt hc
  unfold Marker.firstCarrier at hlt ⊢
  rw [List.findIdx_append, if_pos hlt]

/-- The first carrier of a new name is the contract itself. -/
theorem firstCarrier_new (h : FirstCarriers marker contracts firsts)
    (hc : marker.carriedBy c = true) (hnew : c.name ∉ firsts.map (·.name)) :
    marker.firstCarrier (contracts ++ [c]) c.name = contracts.length := by
  have hnone : ∀ d ∈ contracts, (marker.carriedBy d && d.name == c.name) = false := by
    intro d hd
    rw [Bool.and_eq_false_iff]
    by_cases hcarried : marker.carriedBy d = true
    · refine .inr (beq_eq_false_iff_ne.mpr fun hname => hnew ?_)
      exact hname ▸ h.complete d hd hcarried
    · exact .inl (Bool.eq_false_iff.mpr hcarried)
  have hend := List.findIdx_eq_length_of_false hnone
  rw [Marker.firstCarrier, List.findIdx_append, hend, if_neg (Nat.lt_irrefl _)]
  simp [hc]

/-- One more contract comes last if it carries the marker under a new name. -/
theorem concat (h : FirstCarriers marker contracts firsts) (c : Contract) :
    FirstCarriers marker (contracts ++ [c])
      (if marker.carriedBy c = true ∧ c.name ∉ firsts.map (·.name) then firsts ++ [c] else firsts) := by
  have hplace : ∀ d ∈ firsts,
      (contracts ++ [c])[marker.firstCarrier (contracts ++ [c]) d.name]? = some d := by
    intro d hd
    rw [h.firstCarrier_concat hd, List.getElem?_append_left (h.firstCarrier_lt hd), h.place d hd]
  have hsame : (firsts.map fun d => marker.firstCarrier (contracts ++ [c]) d.name) =
      firsts.map fun d => marker.firstCarrier contracts d.name :=
    List.map_congr_left fun d hd => h.firstCarrier_concat hd c
  split
  next hfirst =>
    obtain ⟨hcarried, hnew⟩ := hfirst
    have hlast := h.firstCarrier_new hcarried hnew
    refine ⟨fun d hd => ?_, ?_, fun d hd hd' => ?_⟩
    · rcases List.mem_append.mp hd with hold | hmem
      · exact hplace d hold
      · rw [List.mem_singleton.mp hmem, hlast, List.getElem?_concat_length]
    · rw [List.map_append, hsame, List.map_singleton, hlast]
      refine List.pairwise_append.mpr ⟨h.order, List.pairwise_singleton _ _, fun i hi j hj => ?_⟩
      obtain ⟨d, hd, rfl⟩ := List.mem_map.mp hi
      rw [List.mem_singleton.mp hj]
      exact h.firstCarrier_lt hd
    · rw [List.map_append, List.mem_append]
      rcases List.mem_append.mp hd with hold | hmem
      · exact .inl (h.complete d hold hd')
      · exact .inr (by simp [List.mem_singleton.mp hmem])
  next hnot =>
    refine ⟨hplace, by rw [hsame]; exact h.order, fun d hd hd' => ?_⟩
    rcases List.mem_append.mp hd with hold | hmem
    · exact h.complete d hold hd'
    · obtain rfl := List.mem_singleton.mp hmem
      by_contra hnew
      exact hnot ⟨hd', hnew⟩

end FirstCarriers

/-- The groups are those of the first contracts that carry the marker. -/
theorem firstCarriers_discover (set : DeclarationSet) (marker : Marker) :
    FirstCarriers marker set.contracts ((discover set marker).map (·.contract)) := by
  obtain ⟨contracts, types⟩ := set
  show FirstCarriers marker contracts _
  induction contracts using List.reverseRecOn with
  | nil => exact ⟨fun c hc => absurd hc List.not_mem_nil, List.Pairwise.nil,
      fun c hc => absurd hc List.not_mem_nil⟩
  | append_singleton front c ih =>
    have hnext := ih.concat c
    rw [discover] at hnext ⊢
    dsimp only at hnext ⊢
    rw [List.filterMap_append, List.foldl_append, List.filterMap_cons, List.filterMap_nil,
      ofContract?_eq]
    by_cases hcarried : marker.carriedBy c = true
    · rw [if_pos hcarried]
      dsimp only
      rw [List.foldl_cons, List.foldl_nil, map_contract_addGroup]
      simpa only [hcarried, true_and] using hnext
    · rw [if_neg (fun h => hcarried h.1)] at hnext
      rw [if_neg hcarried]
      exact hnext

/-! ### The methods of the groups -/

/-- Joining a group to others keeps the methods of all of them, each under its name. -/
theorem perm_addGroup (g : Group) (groups : List Group) :
    ((addGroup g groups).flatMap fun g => g.methods.map (g.contract.name, ·)).Perm
      ((groups.flatMap fun g => g.methods.map (g.contract.name, ·)) ++
        g.methods.map (g.contract.name, ·)) := by
  induction groups with
  | nil => simp [addGroup]
  | cons x rest ih =>
    rw [addGroup]
    split
    next hname =>
      rw [List.flatMap_cons, List.flatMap_cons, List.map_append, hname, List.append_assoc,
        List.append_assoc]
      exact List.perm_append_comm.append_left _
    next =>
      rw [List.flatMap_cons, List.flatMap_cons, List.append_assoc]
      exact ih.append_left _

theorem perm_foldl_addGroup (more groups : List Group) :
    ((more.foldl (fun groups g => addGroup g groups) groups).flatMap
        fun g => g.methods.map (g.contract.name, ·)).Perm
      ((groups.flatMap fun g => g.methods.map (g.contract.name, ·)) ++
        more.flatMap fun g => g.methods.map (g.contract.name, ·)) := by
  induction more generalizing groups with
  | nil => simp
  | cons g rest ih =>
    rw [List.flatMap_cons, ← List.append_assoc]
    exact (ih (addGroup g groups)).trans ((perm_addGroup g groups).append_right _)

theorem flatMap_named_filterMap_ofContract? (marker : Marker) (contracts : List Contract) :
    ((contracts.filterMap (Group.ofContract? marker)).flatMap
        fun g => g.methods.map (g.contract.name, ·)) =
      contracts.flatMap fun c => (c.methods.filter (marker.marks c)).map (c.name, ·) := by
  induction contracts with
  | nil => rfl
  | cons c rest ih =>
    rw [List.filterMap_cons, ofContract?_eq]
    by_cases hcarried : marker.carriedBy c = true
    · simp [hcarried, ih]
    · have hnone := filter_marks_of_not_carried (Bool.eq_false_iff.mpr hcarried)
      simp [hcarried, ih, hnone]

variable {set : DeclarationSet}

theorem methods_of_mem_discover {g : Group} (hg : g ∈ discover set marker) :
    g.methods = set.markedMethods marker g.contract.name := by
  have hmem : (g.contract.name, g.methods) ∈
      (discover set marker).map fun g => (g.contract.name, g.methods) :=
    List.mem_map_of_mem hg
  rw [discover_eq] at hmem
  obtain ⟨name, -, heq⟩ := List.mem_map.mp hmem
  obtain ⟨rfl, hmethods⟩ := Prod.mk.inj heq
  exact hmethods.symm

/-- A contract that carries a marker on none of its methods carries it itself. -/
theorem messages_of_carriedBy {c : Contract} (hcarried : marker.carriedBy c = true)
    (hnone : c.methods.filter (marker.marks c) = []) : marker = .messages ∧ c.messages = true := by
  have hmethods : c.methods.any (marker.marks c) = false := by
    simpa using hnone
  rw [Marker.carriedBy, hmethods, Bool.or_false] at hcarried
  cases marker with
  | path => cases hcarried
  | resource => cases hcarried
  | messages => exact ⟨rfl, hcarried⟩

/-! ### What the groups of a set are -/

/-- The groups of the declarations of a set, whichever of its contracts have one name. -/
structure GroupedByContract (set : DeclarationSet) (marker : Marker) (groups : List Group) :
    Prop where
  nodup : (groups.map (·.contract.name)).Nodup
  /-- Groups stand in the order of the first contracts of their names that carry the marker. -/
  order : (groups.map fun g => marker.firstCarrier set.contracts g.contract.name).Pairwise (· < ·)
  contract : ∀ g ∈ groups,
    set.contracts[marker.firstCarrier set.contracts g.contract.name]? = some g.contract
  complete : ∀ c ∈ set.contracts, marker.carriedBy c = true → ∃ g ∈ groups, g.contract.name = c.name
  methods : ∀ g ∈ groups, g.methods = set.markedMethods marker g.contract.name
  /-- All groups together have the marked methods, each as often as it is declared. -/
  once : (groups.flatMap fun g => g.methods.map (g.contract.name, ·)).Perm
    (set.contracts.flatMap fun c => (c.methods.filter (marker.marks c)).map (c.name, ·))
  unique : ∀ c ∈ set.contracts, ∀ m ∈ c.methods, marker.marks c m = true →
    ∃! g, g ∈ groups ∧ g.contract.name = c.name ∧ m ∈ g.methods
  marked : ∀ g ∈ groups, ∀ m ∈ g.methods,
    ∃ c ∈ set.contracts, c.name = g.contract.name ∧ m ∈ c.methods ∧ marker.marks c m = true
  empty : ∀ g ∈ groups, g.methods = [] → marker = .messages ∧ g.contract.messages = true

theorem groupedByContract_discover (set : DeclarationSet) (marker : Marker) :
    GroupedByContract set marker (discover set marker) := by
  have hfirsts := firstCarriers_discover set marker
  have hnodup : ((discover set marker).map (·.contract.name)).Nodup := by
    have h := hfirsts.nodup_names
    rwa [List.map_map] at h
  refine ⟨hnodup, ?_, fun g hg => hfirsts.place _ (List.mem_map_of_mem hg), fun c hc hcarried => ?_,
    fun g hg => methods_of_mem_discover hg, ?_, fun c hc m hm hmarks => ?_,
    fun g hg m hm => (declared_of_mem_discover hg).methods m hm, fun g hg hempty => ?_⟩
  · have h := hfirsts.order
    rwa [List.map_map] at h
  · have h := hfirsts.complete c hc hcarried
    rw [List.map_map] at h
    exact List.mem_map.mp h
  · have h := perm_foldl_addGroup (set.contracts.filterMap (Group.ofContract? marker)) []
    rwa [flatMap_named_filterMap_ofContract?] at h
  · obtain ⟨g, hg, hname, hmem⟩ := mem_discover hc hm hmarks
    refine ⟨g, ⟨hg, hname, hmem⟩, fun other hother => ?_⟩
    exact List.inj_on_of_nodup_map hnodup hother.1 hg (hother.2.1.trans hname.symm)
  · have hcontract := List.mem_map_of_mem (f := (·.contract)) hg
    refine messages_of_carriedBy (hfirsts.carriedBy hcontract) ?_
    rw [methods_of_mem_discover hg, DeclarationSet.markedMethods, List.flatMap_eq_nil_iff] at hempty
    exact hempty g.contract (List.mem_filter.mpr ⟨hfirsts.mem hcontract, by simp⟩)

/-! ### What is not marked -/

/-- The second list is the first without some elements that may go. Those that stay are related. -/
inductive Pruned {α : Type} (goes : α → Prop) (stays : α → α → Prop) : List α → List α → Prop where
  | nil : Pruned goes stays [] []
  | drop {x : α} {xs ys : List α} : goes x → Pruned goes stays xs ys → Pruned goes stays (x :: xs) ys
  | keep {x y : α} {xs ys : List α} : stays x y → Pruned goes stays xs ys →
      Pruned goes stays (x :: xs) (y :: ys)

/-- The second contract is the first without some methods that are not marked. -/
def PrunedContract (marker : Marker) (c c' : Contract) : Prop :=
  ∃ methods, c' = { c with methods } ∧
    Pruned (fun m => marker.marks c m = false) (· = ·) c.methods methods

/-- The second contracts are the first without some that do not carry the marker, and the others
without some methods that are not marked. -/
abbrev PrunedContracts (marker : Marker) : List Contract → List Contract → Prop :=
  Pruned (fun c => marker.carriedBy c = false) (PrunedContract marker)

theorem Pruned.filter_eq {α : Type} {p : α → Bool} {xs ys : List α}
    (h : Pruned (fun x => p x = false) (· = ·) xs ys) : ys.filter p = xs.filter p := by
  induction h with
  | nil => rfl
  | drop hx _ ih => rw [ih, List.filter_cons_of_neg (by simp [hx])]
  | keep hxy _ ih => rw [hxy, List.filter_cons, List.filter_cons, ih]

namespace PrunedContract

variable {c c' : Contract}

theorem name_eq (h : PrunedContract marker c c') : c'.name = c.name := by
  obtain ⟨methods, rfl, -⟩ := h
  rfl

theorem filter_marks_eq (h : PrunedContract marker c c') :
    c'.methods.filter (marker.marks c') = c.methods.filter (marker.marks c) := by
  obtain ⟨methods, rfl, hmethods⟩ := h
  -- the methods of a contract have no part in what it marks
  have hmarks : marker.marks { c with methods } = marker.marks c := by
    cases marker <;> rfl
  rw [hmarks]
  exact hmethods.filter_eq

theorem carriedBy_eq (h : PrunedContract marker c c') : marker.carriedBy c' = marker.carriedBy c := by
  have hcontract : marker.marksContract c' = marker.marksContract c := by
    obtain ⟨methods, rfl, -⟩ := h
    cases marker <;> rfl
  rw [Marker.carriedBy, Marker.carriedBy, hcontract, any_marks_eq, any_marks_eq, h.filter_marks_eq]

end PrunedContract

theorem Pruned.map_name_carriers {contracts contracts' : List Contract}
    (h : PrunedContracts marker contracts contracts') :
    (contracts'.filter marker.carriedBy).map (·.name) =
      (contracts.filter marker.carriedBy).map (·.name) := by
  induction h with
  | nil => rfl
  | drop hc _ ih => rw [ih, List.filter_cons_of_neg (by simp [hc])]
  | keep hc _ ih =>
    rw [List.filter_cons, List.filter_cons, hc.carriedBy_eq]
    split
    next => rw [List.map_cons, List.map_cons, hc.name_eq, ih]
    next => exact ih

theorem Pruned.flatMap_marked {contracts contracts' : List Contract}
    (h : PrunedContracts marker contracts contracts') (name : String) :
    (contracts'.filter (·.name == name)).flatMap (fun c => c.methods.filter (marker.marks c)) =
      (contracts.filter (·.name == name)).flatMap fun c => c.methods.filter (marker.marks c) := by
  induction h with
  | nil => rfl
  | drop hc _ ih =>
    rw [ih, List.filter_cons]
    split
    next => rw [List.flatMap_cons, filter_marks_of_not_carried hc, List.nil_append]
    next => rfl
  | keep hc _ ih =>
    rw [List.filter_cons, List.filter_cons, hc.name_eq]
    split
    next => rw [List.flatMap_cons, List.flatMap_cons, hc.filter_marks_eq, ih]
    next => exact ih

/-- **Discovery is grouping by contract.** Every name under which something is marked has one group,
at the place and with the contract that carry the marker first, and with all marked methods of that
name. An index of the places of the groups leads to the same groups, and taking away what is not
marked changes neither their names nor their methods. -/
theorem discover_groups (set : DeclarationSet) (marker : Marker) :
    GroupedByContract set marker (discover set marker) ∧
      discoverIndexed set marker = discover set marker ∧
      ∀ set', PrunedContracts marker set.contracts set'.contracts →
        (discover set' marker).map (fun g => (g.contract.name, g.methods)) =
          (discover set marker).map fun g => (g.contract.name, g.methods) := by
  refine ⟨groupedByContract_discover set marker, discoverIndexed_eq set marker,
    fun set' hpruned => ?_⟩
  rw [discover_eq, discover_eq, DeclarationSet.markedNames, hpruned.map_name_carriers]
  refine List.map_congr_left fun name _ => ?_
  rw [DeclarationSet.markedMethods, hpruned.flatMap_marked]
  rfl

/-- A method without parameters and result, with or without a route. -/
def bareMethod (name : String) (path : Option String) : Method where
  name
  returns := .plain "void"
  markers := { path }

/-- Two contracts of one name around another, and one without routes before them. -/
def usersTwice : DeclarationSet where
  contracts := [
    { name := "a.Plain", methods := [bareMethod "x" none] },
    { name := "a.Users", methods := [bareMethod "y" none, bareMethod "find" (some "/find")] },
    { name := "a.Items", methods := [bareMethod "list" (some "/list")] },
    { name := "a.Users", methods := [bareMethod "save" (some "/save"), bareMethod "z" none] }]

/-- The same contracts with their routes alone. -/
def usersRouted : DeclarationSet where
  contracts := [
    { name := "a.Users", methods := [bareMethod "find" (some "/find")] },
    { name := "a.Items", methods := [bareMethod "list" (some "/list")] },
    { name := "a.Users", methods := [bareMethod "save" (some "/save")] }]

theorem discover_groups_usersTwice :
    PrunedContracts .path usersTwice.contracts usersRouted.contracts ∧
      GroupedByContract usersTwice .path (discover usersTwice .path) ∧
      (discover usersRouted .path).map (fun g => (g.contract.name, g.methods)) =
        (discover usersTwice .path).map fun g => (g.contract.name, g.methods) := by
  have hpruned : PrunedContracts .path usersTwice.contracts usersRouted.contracts :=
    .drop (by decide) <|
      .keep ⟨_, rfl, .drop (by decide) (.keep rfl .nil)⟩ <|
        .keep ⟨_, rfl, .keep rfl .nil⟩ <|
          .keep ⟨_, rfl, .keep rfl (.drop (by decide) .nil)⟩ .nil
  obtain ⟨hgroups, -, hsame⟩ := discover_groups usersTwice .path
  exact ⟨hpruned, hgroups, hsame usersRouted hpruned⟩

end ContractForge
