import ContractForge.Declaration.Validation
import Mathlib.Data.List.Induction
import Mathlib.Data.List.Nodup

/-!
# The first fault of a set of declarations

* `WellNamed` : contracts with names, all different, whose methods have names.
* `DeclarationSet.WellNamed` : the contracts of a set are well named, and its types have different names.
* `ContractFault` : the first fault of a contract, judged after those before it.
* `DeclarationSet.FirstFault` : the first fault of a set. Nothing is wrong before it.

A set is well named or it has a first fault (`wellNamed_or_firstFault`). Validation gets over what is well
named, with the names it has seen, and stops at the first fault. So it accepts the well named sets and no
others (`validate_eq_ok_iff`), and reports the first fault of the others (`validate_eq_error_iff`).
-/

namespace ContractForge

/-- Contracts with names, all different, whose methods have names. -/
structure WellNamed (contracts : List Contract) : Prop where
  named : ∀ c ∈ contracts, c.name ≠ ""
  distinct : (contracts.map (·.name)).Nodup
  methods : ∀ c ∈ contracts, ∀ m ∈ c.methods, m.name ≠ ""

/-- What has to hold of a set of declarations. A contract and a type may have one name. -/
structure DeclarationSet.WellNamed (set : DeclarationSet) : Prop where
  contracts : ContractForge.WellNamed set.contracts
  types : (set.types.map (·.name)).Nodup

/-- The first fault of a contract that comes after others: it has no name, one of the others has its name,
or it has a method without a name. -/
inductive ContractFault (earlier : List Contract) (c : Contract) : DeclarationFault → Prop where
  | unnamed (hname : c.name = "") : ContractFault earlier c .unnamedContract
  | repeated (hname : c.name ≠ "") (hused : c.name ∈ earlier.map (·.name)) :
    ContractFault earlier c (.repeatedContract c.name)
  | unnamedMethod (hname : c.name ≠ "") (hnew : c.name ∉ earlier.map (·.name))
      (hmethod : ∃ m ∈ c.methods, m.name = "") : ContractFault earlier c (.unnamedMethod c.name)

/-- The first fault of a set, in document order and with the contracts before the types. -/
inductive DeclarationSet.FirstFault (set : DeclarationSet) : DeclarationFault → Prop where
  | contract {before after : List Contract} {c : Contract} {fault : DeclarationFault}
      (hcontracts : set.contracts = before ++ c :: after) (hbefore : ContractForge.WellNamed before)
      (hfault : ContractFault before c fault) : FirstFault set fault
  | type {before after : List TypeDecl} {t : TypeDecl} (hcontracts : ContractForge.WellNamed set.contracts)
      (htypes : set.types = before ++ t :: after) (hbefore : (before.map (·.name)).Nodup)
      (hused : t.name ∈ before.map (·.name)) : FirstFault set (.repeatedType t.name)

variable {set : DeclarationSet} {fault : DeclarationFault}

/-! ### Well named, or a first fault -/

theorem wellNamed_nil : WellNamed [] :=
  ⟨List.forall_mem_nil _, List.nodup_nil, List.forall_mem_nil _⟩

theorem nodup_map_concat_iff {α : Type} {name : α → String} {before : List α} {x : α} :
    ((before ++ [x]).map name).Nodup ↔ (before.map name).Nodup ∧ name x ∉ before.map name := by
  rw [List.map_append, List.map_singleton, List.nodup_append_comm, List.singleton_append,
    List.nodup_cons, and_comm]

theorem wellNamed_concat_iff {before : List Contract} {c : Contract} :
    WellNamed (before ++ [c]) ↔ WellNamed before ∧
      c.name ≠ "" ∧ c.name ∉ before.map (·.name) ∧ ∀ m ∈ c.methods, m.name ≠ "" := by
  constructor
  · intro h
    obtain ⟨hnamed, hdistinct, hmethods⟩ := h
    obtain ⟨hbefore, hnew⟩ := nodup_map_concat_iff.mp hdistinct
    rw [List.forall_mem_append, List.forall_mem_singleton] at hnamed hmethods
    exact ⟨⟨hnamed.1, hbefore, hmethods.1⟩, hnamed.2, hnew, hmethods.2⟩
  · rintro ⟨hbefore, hname, hnew, hmethods⟩
    refine ⟨?_, nodup_map_concat_iff.mpr ⟨hbefore.distinct, hnew⟩, ?_⟩
    · exact List.forall_mem_append.mpr ⟨hbefore.named, List.forall_mem_singleton.mpr hname⟩
    · exact List.forall_mem_append.mpr ⟨hbefore.methods, List.forall_mem_singleton.mpr hmethods⟩

/-- A contract after well named ones either goes on with them or has a fault. -/
theorem WellNamed.concat_or_fault {before : List Contract} (h : WellNamed before) (c : Contract) :
    WellNamed (before ++ [c]) ∨ ∃ fault, ContractFault before c fault := by
  by_cases hname : c.name = ""
  · exact .inr ⟨_, .unnamed hname⟩
  by_cases hused : c.name ∈ before.map (·.name)
  · exact .inr ⟨_, .repeated hname hused⟩
  by_cases hmethods : ∀ m ∈ c.methods, m.name ≠ ""
  · exact .inl (wellNamed_concat_iff.mpr ⟨h, hname, hused, hmethods⟩)
  · refine .inr ⟨_, .unnamedMethod hname hused ?_⟩
    simpa using hmethods

theorem wellNamed_or_contractFault (contracts : List Contract) :
    WellNamed contracts ∨ ∃ before c after fault, contracts = before ++ c :: after ∧
      WellNamed before ∧ ContractFault before c fault := by
  induction contracts using List.reverseRecOn with
  | nil => exact .inl wellNamed_nil
  | append_singleton front c ih =>
    rcases ih with hfront | ⟨before, d, after, fault, rfl, hbefore, hfault⟩
    · rcases hfront.concat_or_fault c with hall | ⟨fault, hfault⟩
      · exact .inl hall
      · exact .inr ⟨front, c, [], fault, rfl, hfront, hfault⟩
    · exact .inr ⟨before, d, after ++ [c], fault, by simp, hbefore, hfault⟩

theorem nodup_or_repeated (types : List TypeDecl) :
    (types.map (·.name)).Nodup ∨ ∃ before t after, types = before ++ t :: after ∧
      (before.map (·.name)).Nodup ∧ t.name ∈ before.map (·.name) := by
  induction types using List.reverseRecOn with
  | nil => exact .inl List.nodup_nil
  | append_singleton front t ih =>
    rcases ih with hfront | ⟨before, u, after, rfl, hbefore, hused⟩
    · by_cases hused : t.name ∈ front.map (·.name)
      · exact .inr ⟨front, t, [], rfl, hfront, hused⟩
      · exact .inl (nodup_map_concat_iff.mpr ⟨hfront, hused⟩)
    · exact .inr ⟨before, u, after ++ [t], by simp, hbefore, hused⟩

theorem wellNamed_or_firstFault (set : DeclarationSet) :
    set.WellNamed ∨ ∃ fault, set.FirstFault fault := by
  rcases wellNamed_or_contractFault set.contracts with
    hcontracts | ⟨before, c, after, fault, hparts, hbefore, hfault⟩
  · rcases nodup_or_repeated set.types with htypes | ⟨before, t, after, hparts, hbefore, hused⟩
    · exact .inl ⟨hcontracts, htypes⟩
    · exact .inr ⟨_, .type hcontracts hparts hbefore hused⟩
  · exact .inr ⟨fault, .contract hparts hbefore hfault⟩

/-! ### What validation gets over, and where it stops -/

/-- The names of well named contracts are those that have been seen behind them. -/
theorem WellNamed.contractFault?_append {before : List Contract} (h : WellNamed before)
    (rest : List Contract) :
    contractFault? [] (before ++ rest) = contractFault? (before.map (·.name)).reverse rest := by
  induction before using List.reverseRecOn generalizing rest with
  | nil => rfl
  | append_singleton front c ih =>
    obtain ⟨hfront, hname, hnew, hmethods⟩ := wellNamed_concat_iff.mp h
    have hany : ¬c.methods.any (·.name == "") = true := by simpa using hmethods
    rw [List.append_assoc, List.singleton_append, ih hfront, contractFault?, if_neg hname,
      if_neg (mt List.mem_reverse.mp hnew), if_neg hany]
    simp

theorem typeFault?_append {before : List TypeDecl} (h : (before.map (·.name)).Nodup)
    (rest : List TypeDecl) :
    typeFault? [] (before ++ rest) = typeFault? (before.map (·.name)).reverse rest := by
  induction before using List.reverseRecOn generalizing rest with
  | nil => rfl
  | append_singleton front t ih =>
    obtain ⟨hfront, hnew⟩ := nodup_map_concat_iff.mp h
    rw [List.append_assoc, List.singleton_append, ih hfront, typeFault?,
      if_neg (mt List.mem_reverse.mp hnew)]
    simp

theorem WellNamed.contractFault?_eq_none {contracts : List Contract} (h : WellNamed contracts) :
    contractFault? [] contracts = none := by
  rw [← List.append_nil contracts, h.contractFault?_append, contractFault?]

theorem ContractFault.contractFault?_cons {earlier : List Contract} {c : Contract}
    (h : ContractFault earlier c fault) (after : List Contract) :
    contractFault? (earlier.map (·.name)).reverse (c :: after) = some fault := by
  rw [contractFault?]
  cases h with
  | unnamed hname => rw [if_pos hname]
  | repeated hname hused => rw [if_neg hname, if_pos (List.mem_reverse.mpr hused)]
  | unnamedMethod hname hnew hmethod =>
    have hany : c.methods.any (·.name == "") = true := by simpa using hmethod
    rw [if_neg hname, if_neg (mt List.mem_reverse.mp hnew), if_pos hany]

namespace DeclarationSet

theorem WellNamed.validate_eq_ok (h : set.WellNamed) : set.validate = .ok () := by
  have htypes : typeFault? [] set.types = none := by
    rw [← List.append_nil set.types, typeFault?_append h.types, typeFault?]
  rw [validate, fault?, h.contracts.contractFault?_eq_none, htypes]
  rfl

theorem FirstFault.validate_eq_error (h : set.FirstFault fault) : set.validate = .error fault := by
  rw [validate, fault?]
  cases h with
  | contract hcontracts hbefore hfault =>
    rw [hcontracts, hbefore.contractFault?_append, hfault.contractFault?_cons]
    rfl
  | type hcontracts htypes hbefore hused =>
    rw [hcontracts.contractFault?_eq_none, htypes, typeFault?_append hbefore, typeFault?,
      if_pos (List.mem_reverse.mpr hused)]
    rfl

theorem validate_eq_ok_iff : set.validate = .ok () ↔ set.WellNamed := by
  refine ⟨fun h => ?_, WellNamed.validate_eq_ok⟩
  rcases wellNamed_or_firstFault set with hnamed | ⟨fault, hfault⟩
  · exact hnamed
  · rw [hfault.validate_eq_error] at h
    cases h

theorem validate_eq_error_iff : set.validate = .error fault ↔ set.FirstFault fault := by
  refine ⟨fun h => ?_, FirstFault.validate_eq_error⟩
  rcases wellNamed_or_firstFault set with hnamed | ⟨other, hother⟩
  · rw [hnamed.validate_eq_ok] at h
    cases h
  · rw [hother.validate_eq_error] at h
    cases h
    exact hother

end DeclarationSet
end ContractForge
