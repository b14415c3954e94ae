import ContractForge.Proofs.Generation.Steps
import Mathlib.Data.List.Nodup
import Mathlib.Data.List.Perm.Basic

/-!
# Traversals that may fail

* `failure?` : why a step failed, if it did.

A traversal of a list succeeds with what every step gives (`mapM_eq_ok_iff`), and fails with the first
failure in the order of the list (`failure?_mapM`). What corresponds to a list in this way is known
element by element, and what is found under a key does not depend on the order (`find?_perm_of_nodup`).
-/

namespace ContractForge

variable {ε α β : Type}

/-- Why a step failed. -/
def failure? : Except ε α → Option ε
  | .error e => some e
  | .ok _ => none

theorem failure?_eq_some_iff {x : Except ε α} {e : ε} : failure? x = some e ↔ x = .error e := by
  cases x with
  | error e' => simp [failure?]
  | ok a => simp [failure?]

theorem failure?_eq_none_iff {x : Except ε α} : failure? x = none ↔ ∃ a, x = .ok a := by
  cases x with
  | error e => simp [failure?]
  | ok a => simp [failure?]

/-- A step that follows and cannot fail adds no failure. -/
theorem failure?_bind_ok (x : Except ε α) (f : α → β) :
    failure? (x >>= fun a => .ok (f a)) = failure? x := by
  cases x with
  | error e => rfl
  | ok a => rfl

/-- A traversal fails with the first failure of a step. -/
theorem failure?_mapM (f : α → Except ε β) (xs : List α) :
    failure? (xs.mapM f) = xs.findSome? fun x => failure? (f x) := by
  induction xs with
  | nil => rfl
  | cons x rest ih =>
    rw [List.mapM_cons, List.findSome?_cons, ← ih]
    cases f x with
    | error e => rfl
    | ok b => exact failure?_bind_ok (rest.mapM f) (b :: ·)

/-- What fails with the first failure in a list succeeds if there is none. -/
theorem exists_ok_iff_of_failure? {x : Except ε α} {xs : List β} {p : β → Option ε}
    (h : failure? x = xs.findSome? p) : (∃ a, x = .ok a) ↔ ∀ y ∈ xs, p y = none := by
  rw [← failure?_eq_none_iff, h, List.findSome?_eq_none_iff]

theorem eq_error_iff_of_failure? {x : Except ε α} {xs : List β} {p : β → Option ε}
    (h : failure? x = xs.findSome? p) {e : ε} :
    x = .error e ↔ ∃ before y after, xs = before ++ y :: after ∧ (∀ z ∈ before, p z = none) ∧
      p y = some e := by
  rw [← failure?_eq_some_iff, h, List.findSome?_eq_some_iff]
  constructor
  · rintro ⟨before, y, after, hsplit, hfail, hbefore⟩
    exact ⟨before, y, after, hsplit, hbefore, hfail⟩
  · rintro ⟨before, y, after, hsplit, hbefore, hfail⟩
    exact ⟨before, y, after, hsplit, hfail, hbefore⟩

/-- A traversal succeeds with what its steps give. -/
theorem mapM_eq_ok_iff {f : α → Except ε β} {xs : List α} {ys : List β} :
    xs.mapM f = .ok ys ↔ List.Forall₂ (fun x y => f x = .ok y) xs ys := by
  induction xs generalizing ys with
  | nil =>
    rw [List.forall₂_nil_left_iff, List.mapM_nil, eq_comm]
    exact ⟨fun h => Except.ok.inj h, fun h => congrArg Except.ok h⟩
  | cons x rest ih =>
    rw [List.mapM_cons, List.forall₂_cons_left_iff]
    constructor
    · intro h
      obtain ⟨y, hy, hmore⟩ := bind_eq_ok_iff.mp h
      obtain ⟨others, hothers, hall⟩ := bind_eq_ok_iff.mp hmore
      exact ⟨y, others, hy, ih.mp hothers, (Except.ok.inj hall).symm⟩
    · rintro ⟨y, others, hy, hothers, rfl⟩
      exact bind_eq_ok_iff.mpr ⟨y, hy, bind_eq_ok_iff.mpr ⟨others, ih.mpr hothers, rfl⟩⟩

/-- A traversal succeeds if every step does. -/
theorem exists_mapM_eq_ok_iff {f : α → Except ε β} {xs : List α} :
    (∃ ys, xs.mapM f = .ok ys) ↔ ∀ x ∈ xs, ∃ y, f x = .ok y := by
  simp only [exists_ok_iff_of_failure? (failure?_mapM f xs), failure?_eq_none_iff]

theorem mapM_congr {f g : α → Except ε β} {xs : List α} (h : ∀ x ∈ xs, f x = g x) :
    xs.mapM f = xs.mapM g := by
  induction xs with
  | nil => rfl
  | cons x rest ih =>
    obtain ⟨hx, hrest⟩ := List.forall_mem_cons.mp h
    rw [List.mapM_cons, List.mapM_cons, hx, ih hrest]

/-- What each step keeps in view, the traversal does. -/
theorem map_eq_of_mapM {γ : Type} {f : α → Except ε β} {p : β → γ} {q : α → γ} {xs : List α}
    {ys : List β} (hstep : ∀ x ∈ xs, ∀ y, f x = .ok y → p y = q x) (h : xs.mapM f = .ok ys) :
    ys.map p = xs.map q := by
  have hall := (List.forall₂_and_left _ _).mpr ⟨hstep, mapM_eq_ok_iff.mp h⟩
  rw [eq_comm, ← List.forall₂_eq_eq_eq, List.forall₂_map_left_iff, List.forall₂_map_right_iff]
  exact hall.imp fun x y hxy => (hxy.1 y hxy.2).symm

theorem mapM_append_eq_ok {f : α → Except ε β} {xs xs' : List α} {ys ys' : List β}
    (h : xs.mapM f = .ok ys) (h' : xs'.mapM f = .ok ys') :
    (xs ++ xs').mapM f = .ok (ys ++ ys') :=
  mapM_eq_ok_iff.mpr (List.rel_append (mapM_eq_ok_iff.mp h) (mapM_eq_ok_iff.mp h'))

theorem perm_of_mapM_eq_ok {f : α → Except ε β} {xs xs' : List α} {ys ys' : List β}
    (hperm : xs'.Perm xs) (h : xs.mapM f = .ok ys) (h' : xs'.mapM f = .ok ys') : ys'.Perm ys := by
  obtain ⟨zs, hzs, hperm'⟩ := List.perm_comp_forall₂ hperm (mapM_eq_ok_iff.mp h)
  obtain rfl := Except.ok.inj (h'.symm.trans (mapM_eq_ok_iff.mpr hzs))
  exact hperm'

/-! ### Corresponding lists -/

theorem exists_right_of_forall₂ {R : α → β → Prop} {xs : List α} {ys : List β}
    (h : List.Forall₂ R xs ys) {x : α} (hx : x ∈ xs) : ∃ y ∈ ys, R x y := by
  induction h with
  | nil => cases hx
  | cons hxy _ ih =>
    rcases List.mem_cons.mp hx with rfl | hmem
    · exact ⟨_, List.mem_cons_self, hxy⟩
    · obtain ⟨y, hy, hR⟩ := ih hmem
      exact ⟨y, List.mem_cons_of_mem _ hy, hR⟩

theorem exists_left_of_forall₂ {R : α → β → Prop} {xs : List α} {ys : List β}
    (h : List.Forall₂ R xs ys) {y : β} (hy : y ∈ ys) : ∃ x ∈ xs, R x y :=
  exists_right_of_forall₂ (R := flip R) h.flip hy

/-- What a partial function makes of a list corresponds to the elements at which it is defined. -/
theorem forall₂_filterMap (f : α → Option β) (xs : List α) :
    List.Forall₂ (fun x y => f x = some y) (xs.filter fun x => (f x).isSome) (xs.filterMap f) := by
  induction xs with
  | nil => exact .nil
  | cons x rest ih =>
    cases hx : f x with
    | none => rwa [List.filterMap_cons_none hx, List.filter_cons_of_neg (by simp [hx])]
    | some y =>
      rw [List.filterMap_cons_some hx, List.filter_cons_of_pos (by simp [hx])]
      exact .cons hx ih

/-- The first hit in a list of lists is the first hit in all their elements. -/
theorem findSome?_flatMap {γ : Type} (xs : List α) (f : α → List β) (p : β → Option γ) :
    (xs.flatMap f).findSome? p = xs.findSome? fun x => (f x).findSome? p := by
  simp only [← List.head?_filterMap, List.filterMap_flatMap, List.head?_flatMap]

/-! ### Finding by a key -/

theorem find?_eq_some_iff_of_nodup [BEq β] [LawfulBEq β] {key : α → β} {xs : List α}
    (hkeys : (xs.map key).Nodup) {k : β} {x : α} :
    xs.find? (key · == k) = some x ↔ x ∈ xs ∧ key x = k := by
  constructor
  · intro h
    exact ⟨List.mem_of_find?_eq_some h, by simpa using List.find?_some h⟩
  · rintro ⟨hx, rfl⟩
    obtain ⟨y, hy⟩ := Option.isSome_iff_exists.mp
      (List.find?_isSome (p := (key · == key x)).mpr ⟨x, hx, by simp⟩)
    have hkey : key y = key x := by simpa using List.find?_some hy
    rw [hy, List.inj_on_of_nodup_map hkeys (List.mem_of_find?_eq_some hy) hx hkey]

/-- Elements with different keys are found in any order. -/
theorem find?_perm_of_nodup [BEq β] [LawfulBEq β] {key : α → β} {xs xs' : List α}
    (hkeys : (xs.map key).Nodup) (hperm : xs'.Perm xs) (k : β) :
    xs'.find? (key · == k) = xs.find? (key · == k) := by
  have hkeys' : (xs'.map key).Nodup := (hperm.map _).nodup_iff.mpr hkeys
  refine Option.ext fun x => ?_
  rw [find?_eq_some_iff_of_nodup hkeys', find?_eq_some_iff_of_nodup hkeys, hperm.mem_iff]

end ContractForge
