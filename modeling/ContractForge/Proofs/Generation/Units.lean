import ContractForge.Batch
import Mathlib.Data.List.Nodup
import Mathlib.Data.List.Range

/-!
# Units of bounded size

* `unitName` : the stem with the number of the unit after it.
* `Batch.Regular` : what every batch keeps while it receives. Its closed units are full and are
  numbered from zero on, and fewer statements are pending than fill a unit.

So no unit of `batches` is larger than its limit, and no two of them have the same name.
-/

namespace ContractForge

/-- The name of the unit of a number. -/
def unitName (stem : String) (k : Nat) : String :=
  stem ++ toString k

theorem unitName_inj {stem : String} {j k : Nat} (h : unitName stem j = unitName stem k) : j = k := by
  have hdigits : Nat.toDigits 10 j = Nat.toDigits 10 k := by
    have hchars := congrArg String.toList h
    simpa only [unitName, String.toList_append, List.append_cancel_left_eq,
      Nat.toString_eq_ofList_toDigits, String.toList_ofList] using hchars
  rw [← Nat.ofDigitChars_ten_toDigits (n := j), hdigits, Nat.ofDigitChars_ten_toDigits]

theorem nodup_unitName (stem : String) (count : Nat) :
    ((List.range count).map (unitName stem)).Nodup :=
  List.nodup_range.map fun _ _ h => unitName_inj h

namespace Batch

/-- What a batch keeps while it receives statements. -/
structure Regular (b : Batch) : Prop where
  /-- A unit is closed when it is full, and not before. -/
  full : ∀ unit ∈ b.closed.toList, unit.statements.length = b.capacity
  /-- The closed units are numbered in order. -/
  names : b.closed.toList.map (·.name) = (List.range b.closed.size).map (unitName b.stem)
  /-- The open unit has room for a further statement. -/
  pending : b.pending.size < b.capacity

theorem regular_empty (limit : Nat) (stem : String) : Regular { limit, stem } where
  full := by simp
  names := rfl
  pending := by simp only [capacity, Array.size_empty]; omega

theorem names_close {b : Batch}
    (hnames : b.closed.toList.map (·.name) = (List.range b.closed.size).map (unitName b.stem)) :
    b.close.closed.toList.map (·.name) =
      (List.range b.close.closed.size).map (unitName b.stem) := by
  simp only [close, Array.toList_push, List.map_append, hnames, Array.size_push, List.range_succ]
  rfl

/-- Receiving a statement keeps a batch regular. -/
theorem Regular.push {b : Batch} (h : b.Regular) (statement : String) :
    (b.push statement).Regular := by
  simp only [Batch.push]
  split
  next hfull =>
    -- the statement fills the open unit exactly, because there was room for it
    have hsize : b.pending.size + 1 = b.capacity := by
      have := h.pending
      rw [Array.size_push] at hfull
      change b.capacity ≤ b.pending.size + 1 at hfull
      omega
    refine ⟨?_, names_close h.names, ?_⟩
    · intro unit hunit
      simp only [close, Array.toList_push, List.mem_append, List.mem_singleton] at hunit
      rcases hunit with hclosed | rfl
      · exact h.full unit hclosed
      · show (b.pending.toList ++ [statement]).length = b.capacity
        rw [List.length_append, Array.length_toList]
        exact hsize
    · simp only [close, capacity, Array.size_empty]
      omega
  next hroom => exact ⟨h.full, h.names, Nat.lt_of_not_le hroom⟩

@[simp] theorem capacity_push (b : Batch) (statement : String) :
    (b.push statement).capacity = b.capacity := by
  simp only [push]
  split <;> rfl

@[simp] theorem stem_push (b : Batch) (statement : String) : (b.push statement).stem = b.stem := by
  simp only [push]
  split <;> rfl

/-- So does receiving several. -/
theorem Regular.extend {b : Batch} (h : b.Regular) (statements : List String) :
    (b.extend statements).Regular := by
  induction statements generalizing b with
  | nil => exact h
  | cons s rest ih => exact ih (h.push s)

@[simp] theorem capacity_extend (b : Batch) (statements : List String) :
    (b.extend statements).capacity = b.capacity := by
  induction statements generalizing b with
  | nil => rfl
  | cons s rest ih => exact (ih (b.push s)).trans (capacity_push b s)

@[simp] theorem stem_extend (b : Batch) (statements : List String) :
    (b.extend statements).stem = b.stem := by
  induction statements generalizing b with
  | nil => rfl
  | cons s rest ih => exact (ih (b.push s)).trans (stem_push b s)

@[simp] theorem received_extend (b : Batch) (statements : List String) :
    (b.extend statements).received = b.received ++ statements := by
  induction statements generalizing b with
  | nil => simp [extend]
  | cons s rest ih =>
    show ((b.push s).extend rest).received = _
    rw [ih, received_push, List.append_assoc, List.singleton_append]

/-- No unit holds more statements than fill it. -/
theorem Regular.length_le {b : Batch} (h : b.Regular) {unit : InitializerUnit}
    (hunit : unit ∈ b.finish) : unit.statements.length ≤ b.capacity := by
  unfold finish at hunit
  split at hunit
  next => exact (h.full unit hunit).le
  next =>
    simp only [close, Array.toList_push, List.mem_append, List.mem_singleton] at hunit
    rcases hunit with hclosed | rfl
    · exact (h.full unit hclosed).le
    · exact h.pending.le

/-- There is a unit even where there is no statement. -/
theorem finish_ne_nil (b : Batch) : b.finish ≠ [] := by
  unfold finish
  split
  next h => simp_all
  next => simp [close]

theorem Regular.names_finish {b : Batch} (h : b.Regular) :
    b.finish.map (·.name) = (List.range b.finish.length).map (unitName b.stem) := by
  unfold finish
  split
  next => simpa only [Array.length_toList] using h.names
  next => simpa only [Array.length_toList] using names_close h.names

end Batch

/-! ### The units of a run of statements -/

theorem flatMap_batches (limit : Nat) (stem : String) (statements : List String) :
    (batches limit stem statements).flatMap (·.statements) = statements := by
  rw [batches, Batch.flatMap_finish, Batch.received_extend]
  rfl

theorem length_le_of_mem_batches {limit : Nat} {stem : String} {statements : List String}
    {unit : InitializerUnit} (hunit : unit ∈ batches limit stem statements) :
    unit.statements.length ≤ max limit 1 := by
  have h := ((Batch.regular_empty limit stem).extend statements).length_le hunit
  rwa [Batch.capacity_extend] at h

theorem names_batches (limit : Nat) (stem : String) (statements : List String) :
    (batches limit stem statements).map (·.name) =
      (List.range (batches limit stem statements).length).map (unitName stem) := by
  have h := ((Batch.regular_empty limit stem).extend statements).names_finish
  rwa [Batch.stem_extend] at h

theorem batches_ne_nil (limit : Nat) (stem : String) (statements : List String) :
    batches limit stem statements ≠ [] :=
  Batch.finish_ne_nil _

theorem nodup_names_batches (limit : Nat) (stem : String) (statements : List String) :
    ((batches limit stem statements).map (·.name)).Nodup :=
  names_batches limit stem statements ▸ nodup_unitName stem _

end ContractForge
