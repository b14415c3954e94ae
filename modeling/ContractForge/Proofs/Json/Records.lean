import ContractForge.Json.Form
import ContractForge.Proofs.Json.Spelling
import Mathlib.Logic.Basic

/-!
# Reading records back

* `Value.depth` : how deep lists and records are nested in a value.
* `Value.ofFields` : a record without the fields that are left out.
* `Restores` : a reader gives what a writer has written, as long as the room that is left is enough for the
  nesting, and fails where it is not.

A record is restored where its fields are (`Restores.ofFields`), and a list where its items are
(`Restores.list`).
-/

namespace ContractForge.Json

namespace Value

mutual

/-- How deep lists and records are nested in a value. -/
def depth : Value → Nat
  | array items => itemsDepth items + 1
  | object members => membersDepth members + 1
  | _ => 0

/-- The depth of the deepest of several values. -/
def itemsDepth : List Value → Nat
  | [] => 0
  | v :: rest => max v.depth (itemsDepth rest)

/-- The depth of the deepest of the values of members. -/
def membersDepth : List (Option String × Value) → Nat
  | [] => 0
  | (_, v) :: rest => max v.depth (membersDepth rest)

end

@[simp] theorem depth_text (s : String) : (text s).depth = 0 := rfl

@[simp] theorem depth_bool (b : Bool) : (bool b).depth = 0 := rfl

/-- The fields that are not left out. -/
def present (fields : List (String × Option Value)) : List (String × Value) :=
  fields.filterMap fun f => f.2.map (f.1, ·)

/-- The record of named fields, without those that are left out. -/
def ofFields (fields : List (String × Option Value)) : Value :=
  record (present fields)

/-- The depth of a field, which is nothing where it is left out. -/
def fieldDepth : Option Value → Nat
  | some v => v.depth
  | none => 0

/-- The depth of the deepest of several fields. -/
def fieldsDepth : List (String × Option Value) → Nat
  | [] => 0
  | (_, v) :: rest => max (fieldDepth v) (fieldsDepth rest)

@[simp] theorem fieldDepth_some (v : Value) : fieldDepth (some v) = v.depth := rfl

@[simp] theorem fieldsDepth_nil : fieldsDepth [] = 0 := rfl

@[simp] theorem fieldsDepth_cons (name : String) (v : Option Value)
    (rest : List (String × Option Value)) :
    fieldsDepth ((name, v) :: rest) = max (fieldDepth v) (fieldsDepth rest) := rfl

theorem present_cons_none (name : String) (rest : List (String × Option Value)) :
    present ((name, none) :: rest) = present rest := rfl

theorem present_cons_some (name : String) (v : Value) (rest : List (String × Option Value)) :
    present ((name, some v) :: rest) = (name, v) :: present rest := rfl

theorem depth_ofFields (fields : List (String × Option Value)) :
    (ofFields fields).depth = fieldsDepth fields + 1 := by
  have hmembers : membersDepth ((present fields).map fun m => (some m.1, m.2)) =
      fieldsDepth fields := by
    induction fields with
    | nil => rfl
    | cons field rest ih =>
      obtain ⟨name, v⟩ := field
      cases v with
      | none => rw [present_cons_none, ih, fieldsDepth, fieldDepth, Nat.zero_max]
      | some v =>
        rw [present_cons_some, List.map_cons, membersDepth, ih]
        rfl
  show membersDepth _ + 1 = _
  rw [hmembers]

theorem mem_present_iff {fields : List (String × Option Value)} {name : String} {v : Value} :
    (name, v) ∈ present fields ↔ (name, some v) ∈ fields := by
  constructor
  · intro h
    obtain ⟨⟨key, w⟩, hmem, hw⟩ := List.mem_filterMap.mp h
    obtain ⟨u, rfl, heq⟩ := Option.map_eq_some_iff.mp hw
    cases heq
    exact hmem
  · intro h
    exact List.mem_filterMap.mpr ⟨_, h, rfl⟩

/-- A field is left out or its value is plain. -/
def FieldPlain (v : Option Value) : Prop :=
  ∀ w ∈ v, w.Plain

@[simp] theorem fieldPlain_some_iff (v : Value) : FieldPlain (some v) ↔ v.Plain := by
  simp [FieldPlain]

@[simp] theorem fieldPlain_text (s : Option String) : FieldPlain (s.map text) := by
  intro v hv
  obtain ⟨t, -, rfl⟩ := Option.map_eq_some_iff.mp hv
  exact plain_text t

theorem plain_ofFields {fields : List (String × Option Value)} (h : ∀ f ∈ fields, FieldPlain f.2) :
    (ofFields fields).Plain := by
  apply plain_record
  intro m hm
  exact h _ (mem_present_iff.mp hm) m.2 rfl

theorem nodup_present {fields : List (String × Option Value)} (h : (fields.map Prod.fst).Nodup) :
    ((present fields).map Prod.fst).Nodup := by
  have hsublist : ((present fields).map Prod.fst).Sublist (fields.map Prod.fst) := by
    induction fields with
    | nil => exact .slnil
    | cons field rest ih =>
      obtain ⟨name, v⟩ := field
      have hrest := ih (List.nodup_cons.mp h).2
      cases v with
      | none => exact hrest.cons name
      | some v => exact hrest.cons_cons name
  exact h.sublist hsublist

theorem itemsDepth_le_iff {vs : List Value} {n : Nat} :
    itemsDepth vs ≤ n ↔ ∀ v ∈ vs, v.depth ≤ n := by
  induction vs with
  | nil => simp [itemsDepth]
  | cons v vs ih => rw [itemsDepth, Nat.max_le, ih, List.forall_mem_cons]

theorem depth_list_le_iff {α : Type} {write : α → Value} {xs : List α} {n : Nat} :
    (array (xs.map write)).depth ≤ n + 1 ↔ ∀ x ∈ xs, (write x).depth ≤ n := by
  rw [depth, Nat.add_le_add_iff_right, itemsDepth_le_iff, List.forall_mem_map]

/-- Of fields with different names each is found by its name. -/
theorem lookup_present {fields : List (String × Option Value)} (h : (fields.map Prod.fst).Nodup)
    {name : String} {v : Option Value} (hmem : (name, v) ∈ fields) :
    (present fields).lookup name = v := by
  induction fields with
  | nil => exact absurd hmem List.not_mem_nil
  | cons field rest ih =>
    obtain ⟨first, w⟩ := field
    obtain ⟨hfirst, hrest⟩ := List.nodup_cons.mp h
    by_cases hname : name = first
    · subst hname
      -- the name is not among the further ones
      have hv : v = w := by
        rcases List.mem_cons.mp hmem with heq | hlater
        · exact (Prod.mk.inj heq).2
        · exact absurd (List.mem_map.mpr ⟨_, hlater, rfl⟩) hfirst
      subst hv
      cases v with
      | some v => rw [present_cons_some, List.lookup_cons_self]
      | none =>
        rw [present_cons_none, List.lookup_eq_none_iff]
        intro m hm
        have hne : name ≠ m.1 := by
          intro heq
          exact hfirst (List.mem_map.mpr ⟨_, mem_present_iff.mp hm, heq.symm⟩)
        simpa using hne
    · have hlater : (name, v) ∈ rest :=
        (List.mem_cons.mp hmem).resolve_left fun heq => hname (Prod.mk.inj heq).1
      have hne : (name == first) = false := by simpa using hname
      cases w with
      | none => exact ih hrest hlater
      | some w =>
        rw [present_cons_some, List.lookup_cons, hne]
        exact ih hrest hlater

end Value

open Value

/-! ### Records -/

theorem filter_eq_lookup {α : Type} {members : List (String × α)}
    (h : (members.map Prod.fst).Nodup) (name : String) :
    members.filter (·.1 == name) = ((members.lookup name).map (name, ·)).toList := by
  induction members with
  | nil => rfl
  | cons m rest ih =>
    obtain ⟨key, v⟩ := m
    obtain ⟨hkey, hrest⟩ := List.nodup_cons.mp h
    by_cases hname : key = name
    · subst hname
      have hnone : rest.filter (·.1 == key) = [] := by
        apply List.filter_eq_nil_iff.mpr
        intro m hm heq
        exact hkey (List.mem_map.mpr ⟨m, hm, by simpa using heq⟩)
      simp [hnone]
    · have hne : (name == key) = false := by simpa using fun heq : name = key => hname heq.symm
      rw [List.filter_cons_of_neg (by simpa using hname), ih hrest, List.lookup_cons, hne]

/-- Of fields with different names each is picked by its name. -/
theorem pickFields_of_nodup {α : Type} {members : List (String × α)}
    (h : (members.map Prod.fst).Nodup) (names : List String) :
    pickFields members names = some (names.map fun name => members.lookup name) := by
  rw [pickFields]
  induction names with
  | nil => rfl
  | cons name names ih =>
    rw [List.mapM_cons, filter_eq_lookup h, ih, List.map_cons]
    cases members.lookup name <;> rfl

theorem lookup_map_snd {α β : Type} (f : α → β) (members : List (String × α)) (name : String) :
    (members.map fun m => (m.1, f m.2)).lookup name = (members.lookup name).map f := by
  induction members with
  | nil => rfl
  | cons m rest ih =>
    rw [List.map_cons, List.lookup_cons, List.lookup_cons, ih]
    cases name == m.1 <;> rfl

/-- The names of a record all have a text. -/
theorem mapM_named (room : Nat) (members : List (String × Value)) :
    (members.map fun m => (some m.1, m.2)).mapM
        (fun m => m.1.map fun key => (key, Node.mk m.2 room)) =
      some (members.map fun m => (m.1, Node.mk m.2 room)) := by
  induction members with
  | nil => rfl
  | cons m rest ih =>
    rw [List.map_cons, List.mapM_cons, ih]
    rfl

/-- A record that is written with different names is read field by field, if there is room for it. -/
theorem form_record {members : List (String × Value)} (h : (members.map Prod.fst).Nodup)
    (names : List String) (room : Nat) :
    form.record names ⟨record members, room + 1⟩ =
      some (names.map fun name => (members.lookup name).map (Node.mk · room)) := by
  have hkeys : ((members.map fun m => (m.1, Node.mk m.2 room)).map Prod.fst).Nodup := by
    rwa [List.map_map]
  show memberFields? room (members.map fun m => (some m.1, m.2)) names = _
  rw [memberFields?, mapM_named, Option.bind_eq_bind, Option.bind_some, pickFields_of_nodup hkeys]
  simp only [lookup_map_snd (Node.mk · room)]

/-! ### Readers of what is written -/

variable {α β : Type}

/-- In no more room than a bound, the reader gives back what was written if it fits, and fails if it does
not. -/
def Restores (bound : Nat) (read : Node → Option α) (write : α → Value) : Prop :=
  ∀ x, ∀ room ≤ bound, read ⟨write x, room⟩ = if (write x).depth ≤ room then some x else none

theorem Restores.mono {bound bound' : Nat} {read : Node → Option α} {write : α → Value}
    (h : Restores bound read write) (hle : bound' ≤ bound) : Restores bound' read write := by
  intro x room hroom
  exact h x room (Nat.le_trans hroom hle)

@[simp] theorem required_some (read : Node → Option α) (node : Node) :
    Form.required read (some node) = read node := rfl

@[simp] theorem optional_some (default : α) (read : Node → Option α) (node : Node) :
    Form.optional default read (some node) = read node := rfl

@[simp] theorem form_text (s : String) (room : Nat) : form.text ⟨text s, room⟩ = some s := rfl

@[simp] theorem form_flag (b : Bool) (room : Nat) : form.flag ⟨bool b, room⟩ = some b := rfl

theorem restores_text (bound : Nat) : Restores bound form.text text := by
  intro s room _
  rw [form_text, depth_text, if_pos (Nat.zero_le room)]

@[simp] theorem bind_ite_some {p : Prop} [Decidable p] (x : α) (f : α → Option β) :
    ((if p then some x else none) >>= f) = if p then f x else none := by
  by_cases h : p
  · rw [if_pos h, if_pos h]
    rfl
  · rw [if_neg h, if_neg h]
    rfl

theorem Restores.mapM_below {bound room : Nat} {read : Node → Option α} {write : α → Value}
    (h : Restores bound read write) (hroom : room ≤ bound) (xs : List α) :
    (Node.below room (xs.map write)).mapM read =
      if itemsDepth (xs.map write) ≤ room then some xs else none := by
  induction xs with
  | nil => rfl
  | cons x xs ih =>
    show (Node.mk (write x) room :: Node.below room (xs.map write)).mapM read = _
    rw [List.mapM_cons, h x room hroom, ih, bind_ite_some, bind_ite_some, List.map_cons, itemsDepth]
    simp only [Nat.max_le, ite_and]
    rfl

/-- A list is restored where its items are. -/
theorem Restores.list {bound : Nat} {read : Node → Option α} {write : α → Value}
    (h : Restores bound read write) :
    Restores bound (form.list read) fun xs => array (xs.map write) := by
  intro xs room hroom
  cases room with
  | zero => rfl
  | succ room =>
    show (Node.below room (xs.map write)).mapM read = _
    rw [h.mapM_below (Nat.le_of_succ_le hroom), depth]
    simp only [Nat.add_le_add_iff_right]

/-- A list as a field, which is left out where the list is empty. -/
def Value.unlessEmpty (write : α → Value) (xs : List α) : Option Value :=
  if xs.isEmpty then none else some (array (xs.map write))

theorem Value.plain_list {write : α → Value} {xs : List α} (h : ∀ x ∈ xs, (write x).Plain) :
    (array (xs.map write)).Plain := by
  apply plain_array
  intro v hv
  obtain ⟨x, hx, rfl⟩ := List.mem_map.mp hv
  exact h x hx

theorem Value.fieldPlain_unlessEmpty {write : α → Value} {xs : List α}
    (h : ∀ x ∈ xs, (write x).Plain) : FieldPlain (unlessEmpty write xs) := by
  intro v hv
  cases xs with
  | nil => cases hv
  | cons x xs =>
    obtain rfl := Option.some.inj hv
    exact plain_list h

theorem Restores.unlessEmpty {bound room : Nat} {read : Node → Option α} {write : α → Value}
    (h : Restores bound read write) (xs : List α) (hroom : room ≤ bound) :
    Form.optional [] (form.list read) ((unlessEmpty write xs).map (Node.mk · room)) =
      if fieldDepth (unlessEmpty write xs) ≤ room then some xs else none := by
  cases xs with
  | nil => exact (if_pos (Nat.zero_le room)).symm
  | cons x xs => exact h.list (x :: xs) room hroom

@[simp] theorem optional_text (s : Option String) (room : Nat) :
    Form.optional none form.textOrAbsent ((s.map text).map (Node.mk · room)) = some s := by
  cases s <;> rfl

@[simp] theorem fieldDepth_text (s : Option String) : fieldDepth (s.map text) = 0 := by
  cases s <;> rfl

/-- A record is restored where its fields are, which are read one level below. -/
theorem Restores.ofFields {bound : Nat} {read : List (Option Node) → Option α} (names : List String)
    (fields : α → List (String × Option Value)) (hnodup : names.Nodup)
    (hnames : ∀ x, (fields x).map Prod.fst = names)
    (hread : ∀ x, ∀ room < bound, read ((fields x).map fun f => f.2.map (Node.mk · room)) =
      if fieldsDepth (fields x) ≤ room then some x else none) :
    Restores bound (fun node => form.record names node >>= read) fun x => ofFields (fields x) := by
  intro x room hroom
  cases room with
  | zero =>
    rw [depth_ofFields, if_neg (Nat.not_succ_le_zero _)]
    rfl
  | succ room =>
    have hfields : (fields x).map (fun f => f.2.map (Node.mk · room)) =
        names.map fun name => ((present (fields x)).lookup name).map (Node.mk · room) := by
      rw [← hnames x, List.map_map]
      apply List.map_congr_left
      intro f hf
      show _ = ((present (fields x)).lookup f.1).map _
      rw [lookup_present (by rwa [hnames x]) hf]
    have hrecord := form_record (nodup_present (by rwa [hnames x])) names room
    show form.record names ⟨record (present (fields x)), room + 1⟩ >>= read = _
    rw [hrecord, ← hfields, depth_ofFields]
    simp only [Nat.add_le_add_iff_right]
    exact hread x room hroom

end ContractForge.Json
