import ContractForge.Loading
import ContractForge.Proofs.Generation.Grouping

/-!
# Valid declarations

What validation decides, and what the rest of a pass may rely on once it has accepted a set: a type that
is found is the only one of its name, and every contract that carries a marker is a group of its own.

`validate_reports_first_fault` : the whole of this, for sets and for manifests that are parsed.
-/

namespace ContractForge

variable {set : DeclarationSet}

/-- If all types have different names, the type that is found is the only one of its name. -/
theorem filter_name_eq_findType? (h : (set.types.map (·.name)).Nodup) (name : String) :
    set.types.filter (·.name == name) = (set.findType? name).toList := by
  obtain ⟨contracts, types⟩ := set
  show types.filter (·.name == name) = (types.find? (·.name == name)).toList
  induction types with
  | nil => rfl
  | cons t rest ih =>
    obtain ⟨hnew, hrest⟩ := List.nodup_cons.mp h
    by_cases hname : t.name = name
    · subst hname
      have hothers : rest.filter (·.name == t.name) = [] := by
        rw [List.filter_eq_nil_iff]
        intro u hu heq
        exact hnew (List.mem_map.mpr ⟨u, hu, eq_of_beq heq⟩)
      rw [List.filter_cons_of_pos (by simp), List.find?_cons_of_pos (by simp), hothers]
      rfl
    · rw [List.filter_cons_of_neg (by simpa using hname), List.find?_cons_of_neg (by simpa using hname),
        ih hrest]

/-- If all contracts have different names, every contract that carries the marker is a group, with the
marked ones of its own methods. -/
theorem discover_eq_map (h : (set.contracts.map (·.name)).Nodup) (marker : Marker) :
    discover set marker = (set.contracts.filter marker.carriedBy).map fun c =>
      ⟨c, c.methods.filter (marker.marks c)⟩ := by
  rw [discover_of_nodup h]
  induction set.contracts with
  | nil => rfl
  | cons c rest ih =>
    rw [List.filterMap_cons, ofContract?_eq]
    by_cases hcarried : marker.carriedBy c = true
    · simp [hcarried, ih]
    · simp [hcarried, ih]

/-- **Validation is exact and reports the first fault.** A set is accepted exactly if it is well named, and
otherwise its first fault in document order is reported. In a set that is accepted the types of a name are
the one that is found, if any, and every contract that carries a marker is a group, with the marked ones of
its own methods. A manifest is parsed into the set that it says if that set is well named, and otherwise its
first fault is reported. -/
theorem validate_reports_first_fault (set : DeclarationSet) :
    (set.validate = .ok () ↔ set.WellNamed) ∧
    (∀ fault, set.validate = .error fault ↔ set.FirstFault fault) ∧
    (set.validate = .ok () →
      (∀ name, set.types.filter (·.name == name) = (set.findType? name).toList) ∧
      ∀ marker, discover set marker = (set.contracts.filter marker.carriedBy).map fun c =>
        ⟨c, c.methods.filter (marker.marks c)⟩) ∧
    ∀ source content,
      (Manifest.parse source content = .ok set ↔
        Manifest.read source content = .ok set ∧ set.WellNamed) ∧
      ∀ fault, Manifest.parse source content = .error (.declaration fault) ↔
        ∃ other, Manifest.read source content = .ok other ∧ other.FirstFault fault := by
  refine ⟨DeclarationSet.validate_eq_ok_iff, fun fault => DeclarationSet.validate_eq_error_iff,
    fun hvalid => ?_, fun source content => ⟨?_, fun fault => ?_⟩⟩
  · obtain ⟨hcontracts, htypes⟩ := DeclarationSet.validate_eq_ok_iff.mp hvalid
    exact ⟨filter_name_eq_findType? htypes, discover_eq_map hcontracts.distinct⟩
  · rw [Manifest.parse_eq_ok_iff, DeclarationSet.validate_eq_ok_iff]
  · simp only [Manifest.parse_eq_declaration_iff, DeclarationSet.validate_eq_error_iff]

/-- A contract and a type of one name. -/
def oneName : DeclarationSet where
  contracts := [{ name := "a.User", methods := [{ name := "get", returns := .plain "int" }] }]
  types := [{ name := "a.User" }, { name := "" }]

/-- A second contract of a name with a method that has none, before a contract without a name. The types
have faults as well. -/
def manyFaults : DeclarationSet where
  contracts := [{ name := "a.User" },
    { name := "a.User", methods := [{ name := "", returns := .plain "int" }] }, { name := "" }]
  types := [{ name := "a.User" }, { name := "a.User" }]

theorem validate_reports_first_fault_manyFaults :
    oneName.WellNamed ∧ oneName.types.filter (·.name == "a.User") = [{ name := "a.User" }] ∧
      manyFaults.FirstFault (.repeatedContract "a.User") := by
  obtain ⟨hvalid, -, hrest, -⟩ := validate_reports_first_fault oneName
  obtain ⟨-, hfault, -, -⟩ := validate_reports_first_fault manyFaults
  have hok : oneName.validate = .ok () := by decide
  obtain ⟨htypes, -⟩ := hrest hok
  exact ⟨hvalid.mp hok, htypes "a.User", (hfault _).mp (by decide)⟩

end ContractForge
