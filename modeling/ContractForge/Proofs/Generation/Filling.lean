import ContractForge.Proofs.Generation.Units
import Mathlib.Algebra.Order.Floor.Div

/-!
# How batches are filled

A batch receives its statements by calls, one at a time or several together (`BatchCall`). Which calls
they were makes no difference (`Batch.run_eq_extend`).

* `Batch.Regular.exists_finish` : all units but the last are full, and the last has something in it
  unless it is the only one.
* `Filled` : statements cut into full units in order, with numbered names.

`filled_of_calls` : so the units of a batch are filled, whatever calls it received.
-/

namespace ContractForge

/-- A call on a batch. -/
inductive BatchCall where
  | push (statement : String)
  | extend (statements : List String)

namespace BatchCall

/-- The statements of a call, in order. -/
def statements : BatchCall → List String
  | push statement => [statement]
  | extend statements => statements

/-- The batch that a call leaves. -/
def apply (b : Batch) : BatchCall → Batch
  | push statement => b.push statement
  | extend statements => b.extend statements

theorem apply_eq_extend (b : Batch) (call : BatchCall) : call.apply b = b.extend call.statements := by
  cases call with
  | push statement => rfl
  | extend statements => rfl

end BatchCall

namespace Batch

/-- The batch that calls leave, one after the other. -/
def run (b : Batch) (calls : List BatchCall) : Batch :=
  calls.foldl (fun b call => call.apply b) b

/-- Calls in any mixture come to one call with all their statements. -/
theorem run_eq_extend (b : Batch) (calls : List BatchCall) :
    b.run calls = b.extend (calls.flatMap (·.statements)) := by
  induction calls generalizing b with
  | nil => rfl
  | cons call rest ih =>
    show (call.apply b).run rest = _
    rw [ih, BatchCall.apply_eq_extend, List.flatMap_cons]
    exact List.foldl_append.symm

/-! ### The sizes of units -/

theorem length_flatMap_of_full {units : List InitializerUnit} {size : Nat}
    (h : ∀ unit ∈ units, unit.statements.length = size) :
    (units.flatMap (·.statements)).length = units.length * size := by
  induction units with
  | nil => simp
  | cons unit rest ih =>
    obtain ⟨hunit, hrest⟩ := List.forall_mem_cons.mp h
    rw [List.flatMap_cons, List.length_append, hunit, ih hrest, List.length_cons, Nat.succ_mul,
      Nat.add_comm]

/-- What is pending goes into the last unit. It is empty only where there is no other unit. -/
theorem Regular.exists_finish {b : Batch} (h : b.Regular) :
    ∃ front last, b.finish = front ++ [last] ∧
      (∀ unit ∈ front, unit.statements.length = b.capacity) ∧
      last.statements.length ≤ b.capacity ∧ (last.statements = [] → front = []) := by
  unfold finish
  split
  next hdone =>
    -- nothing is pending, so the last unit is the last of the closed ones
    simp only [Bool.and_eq_true, Bool.not_eq_true', Array.isEmpty_eq_false_iff] at hdone
    have hne : b.closed.toList ≠ [] := fun hnil => hdone.2 (Array.toList_eq_nil_iff.mp hnil)
    refine ⟨b.closed.toList.dropLast, b.closed.toList.getLast hne,
      (List.dropLast_append_getLast hne).symm, fun unit hunit => ?_, ?_, fun hempty => ?_⟩
    · exact h.full unit (List.mem_of_mem_dropLast hunit)
    · exact (h.full _ (List.getLast_mem hne)).le
    · have hfull := h.full _ (List.getLast_mem hne)
      have hpending := h.pending
      rw [hempty, List.length_nil] at hfull
      omega
  next hopen =>
    refine ⟨b.closed.toList, ⟨b.stem ++ toString b.closed.size, b.pending.toList⟩, ?_, h.full, ?_,
      fun hempty => ?_⟩
    · rw [close, Array.toList_push]
    · exact h.pending.le
    · have hpending : b.pending = #[] := Array.toList_eq_nil_iff.mp hempty
      simpa [hpending] using hopen

end Batch

/-! ### Filled units -/

/-- Statements cut into units of one size, numbered in order. Only the last unit may be smaller, and
without statements there is one unit, which is empty. -/
structure Filled (size : Nat) (stem : String) (statements : List String)
    (units : List InitializerUnit) : Prop where
  /-- Nothing is lost, repeated or moved. -/
  content : units.flatMap (·.statements) = statements
  full : ∀ unit ∈ units.dropLast, unit.statements.length = size
  last : statements ≠ [] → ∃ unit, units.getLast? = some unit ∧ 1 ≤ unit.statements.length ∧
    unit.statements.length ≤ size
  empty : statements = [] → ∃ unit, units = [unit] ∧ unit.statements = []
  count : statements ≠ [] → units.length = statements.length ⌈/⌉ size
  names : ∀ k (hk : k < units.length), units[k].name = stem ++ toString k
  nodup : (units.map (·.name)).Nodup
  /-- The calls run the units once each, in order. -/
  calls : invocations units = (List.range units.length).map fun k => stem ++ toString k ++ "();"

/-- Full units and a last one are as many as the statements need. -/
theorem length_of_filled {front : List InitializerUnit} {last : InitializerUnit} {size : Nat}
    (hfull : ∀ unit ∈ front, unit.statements.length = size) (hpos : 1 ≤ last.statements.length)
    (hle : last.statements.length ≤ size) :
    (front ++ [last]).length = ((front ++ [last]).flatMap (·.statements)).length ⌈/⌉ size := by
  have hsize : 0 < size := by omega
  rw [List.flatMap_append, List.length_append, List.length_append,
    Batch.length_flatMap_of_full hfull, List.flatMap_singleton, List.length_singleton,
    Nat.ceilDiv_eq_add_pred_div]
  refine (Nat.div_eq_of_lt_le ?_ ?_).symm
  · rw [Nat.add_mul]
    omega
  · rw [Nat.succ_mul, Nat.add_mul]
    omega

theorem Batch.Regular.filled {b : Batch} (h : b.Regular) :
    Filled b.capacity b.stem b.received b.finish := by
  obtain ⟨front, last, hunits, hfull, hle, hlone⟩ := h.exists_finish
  have hcontent := b.flatMap_finish
  have hnames := h.names_finish
  -- the last unit is empty exactly if there is no statement at all
  have hlast : b.received ≠ [] → 1 ≤ last.statements.length := by
    intro hne
    refine List.length_pos_iff.mpr fun hempty => hne ?_
    rw [← hcontent, hunits, hlone hempty]
    simpa using hempty
  refine ⟨hcontent, ?_, fun hne => ?_, fun hempty => ?_, fun hne => ?_, fun k hk => ?_, ?_, ?_⟩
  · rwa [hunits, List.dropLast_concat]
  · exact ⟨last, by rw [hunits, List.getLast?_concat], hlast hne, hle⟩
  · have hnone : last.statements = [] := by
      rw [hempty, hunits, List.flatMap_append, List.append_eq_nil_iff] at hcontent
      simpa using hcontent.2
    exact ⟨last, by rw [hunits, hlone hnone, List.nil_append], hnone⟩
  · rw [← hcontent, hunits]
    exact length_of_filled hfull (hlast hne) hle
  · have hname := congrArg (·[k]?) hnames
    simpa [hk, unitName] using hname
  · rw [hnames]
    exact nodup_unitName b.stem _
  · have hcalls := congrArg (List.map (· ++ "();")) hnames
    rw [List.map_map, List.map_map] at hcalls
    exact hcalls

/-- **Batches lose nothing and respect the bound.** Whatever calls a batch receives, in any mixture,
its units hold the statements of all calls in order, and all but the last are full. -/
theorem filled_of_calls (limit : Nat) (stem : String) (calls : List BatchCall) :
    Filled (max limit 1) stem (calls.flatMap (·.statements))
      (({ limit, stem : Batch }).run calls).finish := by
  have h := ((Batch.regular_empty limit stem).extend (calls.flatMap (·.statements))).filled
  rw [Batch.capacity_extend, Batch.stem_extend, Batch.received_extend] at h
  rw [Batch.run_eq_extend]
  exact h

end ContractForge
