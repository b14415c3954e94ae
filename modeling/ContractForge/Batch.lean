/-!
# Bounded batches of statements

A compiler limits how large one method may grow, so a long run of statements is cut into numbered
initializer units that are called in order from one place.

* `Batch` : statements received so far, as units already closed and one unit still open.
* `Batch.push`, `Batch.extend` : receive one statement, or several.
* `Batch.finish` : the units. A unit is closed when it holds `limit` statements; the open one is
  kept when it holds any, or when there would be no unit at all.
* `Batch.received` : the statements alone, which is the view that the other operations are known by.

Unit `k` is named `stem` followed by `k`. `invocations` lists the calls of all units in order.
-/

namespace ContractForge

/-- A method of initializing statements. -/
structure InitializerUnit where
  name : String
  statements : List String

/-- The statement that calls a unit. -/
def InitializerUnit.invocation (unit : InitializerUnit) : String :=
  unit.name ++ "();"

/-- Statements on their way into units of at most `limit`. -/
structure Batch where
  /-- How many statements fill a unit; zero counts as one. -/
  limit : Nat
  stem : String
  closed : Array InitializerUnit := #[]
  pending : Array String := #[]

namespace Batch

/-- The number of statements at which a unit is closed. -/
def capacity (b : Batch) : Nat :=
  max b.limit 1

/-- Turns the pending statements into a unit. -/
def close (b : Batch) : Batch :=
  { b with
    closed := b.closed.push ⟨b.stem ++ toString b.closed.size, b.pending.toList⟩
    pending := #[] }

/-- Receives one statement. -/
def push (b : Batch) (statement : String) : Batch :=
  let b := { b with pending := b.pending.push statement }
  if b.capacity ≤ b.pending.size then b.close else b

/-- Receives several statements in order. -/
def extend (b : Batch) (statements : List String) : Batch :=
  statements.foldl push b

/-- All units, in order. -/
def finish (b : Batch) : List InitializerUnit :=
  (if b.pending.isEmpty && !b.closed.isEmpty then b else b.close).closed.toList

/-- The statements received so far, in order. -/
def received (b : Batch) : List String :=
  b.closed.toList.flatMap (·.statements) ++ b.pending.toList

@[simp] theorem received_close (b : Batch) : b.close.received = b.received := by
  simp [received, close]

@[simp] theorem received_push (b : Batch) (statement : String) :
    (b.push statement).received = b.received ++ [statement] := by
  have hpending : { b with pending := b.pending.push statement }.received =
      b.received ++ [statement] := by
    simp [received]
  simp only [push]
  split
  next => exact (received_close _).trans hpending
  next => exact hpending

/-- The units hold the received statements, in order. -/
theorem flatMap_finish (b : Batch) : b.finish.flatMap (·.statements) = b.received := by
  unfold finish
  split
  next h => simp_all [received]
  next => simp [received, close]

end Batch

/-- The calls of all units, once each and in order. -/
def invocations (units : List InitializerUnit) : List String :=
  units.map (·.invocation)

/-- The units of a run of statements. -/
def batches (limit : Nat) (stem : String) (statements : List String) : List InitializerUnit :=
  (({ limit, stem : Batch }).extend statements).finish

end ContractForge
