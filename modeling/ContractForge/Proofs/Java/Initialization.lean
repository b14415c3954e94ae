import Mathlib.Data.List.Nodup

/-!
# Initialization of classes

What a class with one data field does when it is loaded. The field gets its initial value, and then
the static blocks, in the order of the text, call methods whose statements fill the field.

* `Data` : the value of the field.
* `Statement`, `Statement.run` : a statement and what it makes of the value.
* `Member`, `initialize?` : the members of a class, and the value and the executed statements that
  they end with. A call of no method and a statement that would throw have no result.

`initialize?_units` : where a static block calls each method once and in order, the statements of all
methods are executed in order.
-/

namespace ContractForge.Java

/-- The value of a data field. -/
inductive Data where
  /-- An array of bytes. -/
  | array (cells : List Int)
  /-- A string builder with the characters appended so far. -/
  | builder (chars : List Char)
  deriving DecidableEq

inductive Statement where
  | assign (index : Nat) (value : Int)
  | append (c : Char)
  deriving DecidableEq

namespace Statement

/-- The field after a statement. There is none where the index is out of bounds, where the value is
not one of a byte, and where the field is of the other kind. -/
def run : Data → Statement → Option Data
  | .array cells, assign i v =>
    if i < cells.length ∧ -128 ≤ v ∧ v ≤ 127 then some (.array (cells.set i v)) else none
  | .builder chars, append c => some (.builder (chars ++ [c]))
  | _, _ => none

def assigns (i : Nat) : Statement → Bool
  | assign j _ => j == i
  | append _ => false

end Statement

inductive Member where
  | field (value : Data)
  | initializer (calls : List String)
  | method (name : String) (body : List Statement)
  deriving DecidableEq

/-- The body of a method, if the member is the method of that name. -/
def Member.body? (name : String) : Member → Option (List Statement)
  | method n body => if n = name then some body else none
  | _ => none

/-- The statements that the static blocks execute by calling methods. -/
def executed? (methods : List Member) : List Member → Option (List Statement)
  | [] => some []
  | .field _ :: _ => none
  | .method _ _ :: rest => executed? methods rest
  | .initializer calls :: rest =>
    match calls.mapM fun name => methods.findSome? (·.body? name), executed? methods rest with
    | some bodies, some further => some (bodies.flatten ++ further)
    | _, _ => none

/-- The field and the statements executed once a class with one field, its first member, is loaded. -/
def initialize? : List Member → Option (Data × List Statement)
  | .field value :: rest =>
    match executed? rest rest with
    | some statements => (statements.foldlM Statement.run value).map (·, statements)
    | none => none
  | _ => none

/-! ### Calls -/

/-- The methods of a class that are units. -/
def unitMembers (units : List (String × List Statement)) : List Member :=
  units.map fun u => .method u.1 u.2

theorem findSome?_unitMembers {units : List (String × List Statement)}
    (hnames : (units.map (·.1)).Nodup) {u : String × List Statement} (hu : u ∈ units) :
    (unitMembers units).findSome? (·.body? u.1) = some u.2 := by
  induction units with
  | nil => simp at hu
  | cons v rest ih =>
    rw [List.map_cons, List.nodup_cons] at hnames
    simp only [unitMembers, List.map_cons, List.findSome?_cons, Member.body?]
    rcases List.mem_cons.mp hu with rfl | hrest
    · rw [if_pos rfl]
    · have hother : v.1 ≠ u.1 := fun h => hnames.1 (h ▸ List.mem_map_of_mem hrest)
      rw [if_neg hother]
      exact ih hnames.2 hrest

theorem executed?_unitMembers (methods : List Member) (units : List (String × List Statement)) :
    executed? methods (unitMembers units) = some [] := by
  induction units with
  | nil => rfl
  | cons u rest ih => exact ih

theorem mapM_eq_some {α β : Type} {f : α → Option β} {g : α → β} {xs : List α}
    (h : ∀ x ∈ xs, f x = some (g x)) : xs.mapM f = some (xs.map g) := by
  induction xs with
  | nil => rfl
  | cons x rest ih =>
    have hrest := ih fun y hy => h y (List.mem_cons_of_mem _ hy)
    simp only [List.mapM_cons, h x List.mem_cons_self, hrest]
    rfl

/-- A static block that calls each unit once and in order executes all their statements in order. -/
theorem initialize?_units {units : List (String × List Statement)}
    (hnames : (units.map (·.1)).Nodup) {value result : Data}
    (hrun : (units.flatMap (·.2)).foldlM Statement.run value = some result) :
    initialize? (.field value :: .initializer (units.map (·.1)) :: unitMembers units) =
      some (result, units.flatMap (·.2)) := by
  have hfind : ∀ u ∈ units,
      (Member.initializer (units.map (·.1)) :: unitMembers units).findSome? (·.body? u.1) =
        some u.2 := by
    intro u hu
    rw [List.findSome?_cons]
    exact findSome?_unitMembers hnames hu
  have hstatements : (units.map (·.2)).flatten ++ [] = units.flatMap (·.2) := by
    rw [List.append_nil, List.flatMap_def]
  have hbodies := mapM_eq_some hfind
  simp only [initialize?, executed?, List.mapM_map, Function.comp_def, hbodies,
    executed?_unitMembers, hstatements, hrun, Option.map_some]

/-! ### Runs of statements -/

/-- The assignments of values to the cells from an index on. -/
def assignFrom (index : Nat) : List Int → List Statement
  | [] => []
  | v :: rest => .assign index v :: assignFrom (index + 1) rest

theorem exists_of_mem_assignFrom {values : List Int} {index : Nat} {s : Statement}
    (hs : s ∈ assignFrom index values) : ∃ i v, v ∈ values ∧ s = .assign i v := by
  induction values generalizing index with
  | nil => cases hs
  | cons v rest ih =>
    rcases List.mem_cons.mp hs with rfl | hrest
    · exact ⟨index, v, List.mem_cons_self, rfl⟩
    · obtain ⟨i, w, hw, rfl⟩ := ih hrest
      exact ⟨i, w, List.mem_cons_of_mem _ hw, rfl⟩

/-- Assigning all cells that are left, one after another, leaves the assigned values. -/
theorem foldlM_assignFrom {values : List Int} (hvalues : ∀ v ∈ values, -128 ≤ v ∧ v ≤ 127)
    (done : List Int) {old : List Int} (hold : old.length = values.length) :
    (assignFrom done.length values).foldlM Statement.run (.array (done ++ old)) =
      some (.array (done ++ values)) := by
  induction values generalizing done old with
  | nil =>
    rw [List.eq_nil_of_length_eq_zero hold]
    rfl
  | cons v rest ih =>
    obtain ⟨o, old, rfl⟩ := List.exists_cons_of_length_eq_add_one hold
    have hin : done.length < (done ++ o :: old).length ∧ -128 ≤ v ∧ v ≤ 127 :=
      ⟨by simp, hvalues v List.mem_cons_self⟩
    have hset : (done ++ o :: old).set done.length v = (done ++ [v]) ++ old := by simp
    have hlength : old.length = rest.length := by simpa using hold
    have hrest := ih (fun w hw => hvalues w (List.mem_cons_of_mem _ hw)) (done ++ [v]) hlength
    rw [assignFrom, List.foldlM_cons, Statement.run, if_pos hin, hset]
    rw [List.length_append, List.length_singleton] at hrest
    simpa using hrest

/-- Appended characters stand in the order in which they are appended. -/
theorem foldlM_append (chars done : List Char) :
    (chars.map Statement.append).foldlM Statement.run (.builder done) =
      some (.builder (done ++ chars)) := by
  induction chars generalizing done with
  | nil => simp
  | cons c rest ih =>
    rw [List.map_cons, List.foldlM_cons, Statement.run]
    simpa using ih (done ++ [c])

/-- Every cell from the index on is assigned once, and no other cell. -/
theorem countP_assignFrom (values : List Int) (index i : Nat) :
    (assignFrom index values).countP (Statement.assigns i) =
      if index ≤ i ∧ i < index + values.length then 1 else 0 := by
  induction values generalizing index with
  | nil =>
    rw [if_neg (by simp)]
    rfl
  | cons v rest ih =>
    rw [assignFrom, List.countP_cons, ih, List.length_cons]
    simp only [Statement.assigns, beq_iff_eq]
    split_ifs <;> omega

end ContractForge.Java
