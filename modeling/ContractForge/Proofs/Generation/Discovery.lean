import ContractForge.Generation.Discovery

/-!
# Where marked methods are found

`mem_discover` : every marked method is in the group of its contract name.
`declared_of_mem_discover` : nothing else is in a group.
-/

namespace ContractForge

/-- The method is in a group of the contract name. -/
def Grouped (groups : List Group) (name : String) (m : Method) : Prop :=
  ∃ g ∈ groups, g.contract.name = name ∧ m ∈ g.methods

/-- A further group takes no method away. -/
theorem Grouped.addGroup {groups : List Group} {name : String} {m : Method}
    (h : Grouped groups name m) (g : Group) : Grouped (addGroup g groups) name m := by
  induction groups with
  | nil =>
    obtain ⟨x, hx, -⟩ := h
    cases hx
  | cons x rest ih =>
    obtain ⟨y, hy, hname, hmem⟩ := h
    rw [ContractForge.addGroup]
    split
    next =>
      rcases List.mem_cons.mp hy with rfl | hrest
      · exact ⟨_, List.mem_cons_self, hname, List.mem_append_left _ hmem⟩
      · exact ⟨y, List.mem_cons_of_mem _ hrest, hname, hmem⟩
    next =>
      rcases List.mem_cons.mp hy with rfl | hrest
      · exact ⟨y, List.mem_cons_self, hname, hmem⟩
      · obtain ⟨z, hz, hzname, hzmem⟩ := ih ⟨y, hrest, hname, hmem⟩
        exact ⟨z, List.mem_cons_of_mem _ hz, hzname, hzmem⟩

/-- The methods of an added group are in a group of its contract name. -/
theorem grouped_addGroup {g : Group} {m : Method} (hm : m ∈ g.methods) (groups : List Group) :
    Grouped (addGroup g groups) g.contract.name m := by
  induction groups with
  | nil => exact ⟨g, List.mem_singleton_self g, rfl, hm⟩
  | cons x rest ih =>
    rw [addGroup]
    split
    next hname => exact ⟨_, List.mem_cons_self, hname, List.mem_append_right _ hm⟩
    next =>
      obtain ⟨z, hz, hzname, hzmem⟩ := ih
      exact ⟨z, List.mem_cons_of_mem _ hz, hzname, hzmem⟩

theorem Grouped.foldl {groups : List Group} {name : String} {m : Method}
    (h : Grouped groups name m) (more : List Group) :
    Grouped (more.foldl (fun groups g => ContractForge.addGroup g groups) groups) name m := by
  induction more generalizing groups with
  | nil => exact h
  | cons g rest ih => exact ih (h.addGroup g)

theorem grouped_foldl {g : Group} {m : Method} (hm : m ∈ g.methods) {more : List Group}
    (hg : g ∈ more) (groups : List Group) :
    Grouped (more.foldl (fun groups g => addGroup g groups) groups) g.contract.name m := by
  induction more generalizing groups with
  | nil => cases hg
  | cons x rest ih =>
    rcases List.mem_cons.mp hg with rfl | hrest
    · exact (grouped_addGroup hm groups).foldl rest
    · exact ih hrest (addGroup x groups)

/-- Every marked method is in the group of its contract name. -/
theorem mem_discover {set : DeclarationSet} {marker : Marker} {c : Contract} {m : Method}
    (hc : c ∈ set.contracts) (hm : m ∈ c.methods) (hmarked : marker.marks c m = true) :
    Grouped (discover set marker) c.name m := by
  have hmem : m ∈ c.methods.filter (marker.marks c) := List.mem_filter.mpr ⟨hm, hmarked⟩
  have hgroup : Group.ofContract? marker c = some ⟨c, c.methods.filter (marker.marks c)⟩ := by
    have hne : (c.methods.filter (marker.marks c)).isEmpty = false :=
      List.isEmpty_eq_false_iff.mpr (List.ne_nil_of_mem hmem)
    simp only [Group.ofContract?, hne, Bool.not_false, Bool.or_true, if_true]
  exact grouped_foldl (g := ⟨c, c.methods.filter (marker.marks c)⟩) hmem
    (List.mem_filterMap.mpr ⟨c, hc, hgroup⟩) []

/-! ### What a group holds -/

/-- The group is that of a declared contract, and its methods are marked methods of that name. -/
structure Group.Declared (set : DeclarationSet) (marker : Marker) (g : Group) : Prop where
  contract : g.contract ∈ set.contracts
  methods : ∀ m ∈ g.methods, ∃ c ∈ set.contracts, c.name = g.contract.name ∧ m ∈ c.methods ∧
    marker.marks c m = true

theorem declared_of_ofContract? {set : DeclarationSet} {marker : Marker} {c : Contract} {g : Group}
    (hc : c ∈ set.contracts) (h : Group.ofContract? marker c = some g) : g.Declared set marker := by
  unfold Group.ofContract? at h
  dsimp only at h
  split at h
  next =>
    cases h
    refine ⟨hc, fun m hm => ?_⟩
    obtain ⟨hmem, hmarks⟩ := List.mem_filter.mp hm
    exact ⟨c, hc, rfl, hmem, hmarks⟩
  next => cases h

theorem declared_addGroup {set : DeclarationSet} {marker : Marker} {g : Group} {groups : List Group}
    (hg : g.Declared set marker) (h : ∀ x ∈ groups, x.Declared set marker) :
    ∀ x ∈ addGroup g groups, x.Declared set marker := by
  induction groups with
  | nil =>
    intro x hx
    rw [List.mem_singleton.mp hx]
    exact hg
  | cons y rest ih =>
    obtain ⟨hy, hrest⟩ := List.forall_mem_cons.mp h
    rw [addGroup]
    split
    next hname =>
      refine List.forall_mem_cons.mpr ⟨⟨hy.contract, fun m hm => ?_⟩, hrest⟩
      rcases List.mem_append.mp hm with hmem | hmem
      · exact hy.methods m hmem
      · rw [hname]
        exact hg.methods m hmem
    next => exact List.forall_mem_cons.mpr ⟨hy, ih hrest⟩

/-- Nothing is in a group but marked methods of declared contracts of its name. -/
theorem declared_of_mem_discover {set : DeclarationSet} {marker : Marker} {g : Group}
    (h : g ∈ discover set marker) : g.Declared set marker := by
  have hfold : ∀ more groups : List Group, (∀ x ∈ more, x.Declared set marker) →
      (∀ x ∈ groups, x.Declared set marker) →
      ∀ x ∈ more.foldl (fun groups g => addGroup g groups) groups, x.Declared set marker := by
    intro more
    induction more with
    | nil => exact fun _ _ hgroups => hgroups
    | cons x rest ih =>
      intro groups hmore hgroups
      obtain ⟨hx, hrest⟩ := List.forall_mem_cons.mp hmore
      exact ih _ hrest (declared_addGroup hx hgroups)
  refine hfold _ [] (fun x hx => ?_) (fun x hx => absurd hx List.not_mem_nil) g h
  obtain ⟨c, hc, hcontract⟩ := List.mem_filterMap.mp hx
  exact declared_of_ofContract? hc hcontract

end ContractForge
