import AtomicTables.Proofs.Backend.Agreement
import AtomicTables.Script

/-!
# Preconditions of the operations on words

A call fails exactly if its orders are refused or its bit is none of the object's, and then it leaves the
machine as it was (`checksCalls`). Orders are refused before the object is looked at.
-/

namespace AtomicTables

def Operands.Refused (o : Operands) (n : Nat) (s : ObjectSlot) (v : Violation) : Prop :=
  o.BitOutside n s ∧ v = .bitOutOfRange o.bit

/-- The orders of an explicit call are refused. The instruction for 16 bytes has one order, so there no
order is wrong for a store or a load. -/
def Orders.Refused (orders : Orders) (n : Nat) : ObjectSlot → Violation → Prop
  | .store, v => n ∈ Native.widths ∧ ¬orders.success.validForStore ∧ v = .notStoreOrder orders.success
  | .load, v | .testBit, v =>
    n ∈ Native.widths ∧ ¬orders.success.validForLoad ∧ v = .notLoadOrder orders.success
  | .compareExchange _, v =>
    ¬orders.success.validFailure orders.failure ∧ v = .notFailureOrder orders.failure orders.success
  | _, _ => False

def Orders.CallRefused (orders : Orders) (o : Operands) (n : Nat) (s : ObjectSlot) (v : Violation) : Prop :=
  orders.Refused n s v ∨ (∀ v', ¬orders.Refused n s v') ∧ o.Refused n s v

theorem refusal_eq_some_iff {accepted : Bool} {refusal v : Violation} :
    (if accepted then none else some refusal) = some v ↔ ¬accepted ∧ v = refusal := by
  cases accepted <;> simp [eq_comm]

theorem Native.orderViolation?_eq_some_iff {n : Nat} (native : n ∈ widths) (s : ObjectSlot) (orders : Orders)
    (v : Violation) : orderViolation? s orders = some v ↔ orders.Refused n s v := by
  cases s with
  | store | load | testBit => exact refusal_eq_some_iff.trans (and_iff_right native).symm
  | compareExchange => exact refusal_eq_some_iff
  | exchange | changeBit | binary | unary => exact iff_of_false nofun id

theorem Wide.orderViolation?_eq_some_iff (s : ObjectSlot) (orders : Orders) (v : Violation) :
    orderViolation? s orders = some v ↔ orders.Refused width s v := by
  have foreign : width ∉ Native.widths := by decide
  cases s with
  | store | load | testBit => exact iff_of_false nofun fun refused => foreign refused.1
  | compareExchange => exact refusal_eq_some_iff
  | exchange | changeBit | binary | unary => exact iff_of_false nofun id

namespace Orders

variable {orders : Orders} {n : Nat} {s : ObjectSlot}

theorem Refused.ne_bitOutOfRange {v : Violation} (refused : orders.Refused n s v) (bit : UInt64) :
    v ≠ .bitOutOfRange bit := by
  cases s with
  | store | load | testBit =>
      obtain ⟨-, -, rfl⟩ := refused
      nofun
  | compareExchange =>
      obtain ⟨-, rfl⟩ := refused
      nofun
  | exchange | changeBit | binary | unary => cases refused

theorem admits_iff_accepted (native : n ∈ Native.widths)
    (ordered : s = .store ∨ s = .load ∨ s = .testBit) :
    s.admits orders.success ↔ ∀ v, ¬orders.Refused n s v := by
  rcases ordered with rfl | rfl | rfl <;> simp [ObjectSlot.admits, Refused, native]

end Orders

theorem Wide.not_native {bytes : UInt64} (wide : bytes.toNat = width) : bytes.toNat ∉ Native.widths := by
  rw [wide]
  decide

section

variable [FlagSpace]

structure Program.FailsExactly {α : Type} (p : Program α) (hardware : Schedule) (m : Machine)
    (violated : Violation → Prop) : Prop where
  failed_iff (v : Violation) (m' : Machine) : p.run hardware m = (.failed v, m') ↔ violated v ∧ m' = m
  returns (kept : ∀ v, ¬violated v) : ∃ answer m', p.run hardware m = (.returned answer, m')

namespace Program

variable {α : Type} {p : Program α} {hardware : Schedule} {m m' : Machine} {violated : Violation → Prop}

theorem failsExactly_of_failed {v : Violation} (failed : p.run hardware m = (.failed v, m))
    (only : ∀ v', violated v' ↔ v' = v) : p.FailsExactly hardware m violated where
  failed_iff v' m' := by
    rw [failed, only]
    constructor
    · intro same
      cases same
      exact ⟨rfl, rfl⟩
    · rintro ⟨rfl, rfl⟩
      rfl
  returns kept := absurd ((only v).2 rfl) (kept v)

theorem failsExactly_of_returned {answer : α} (returned : p.run hardware m = (.returned answer, m'))
    (kept : ∀ v, ¬violated v) : p.FailsExactly hardware m violated where
  failed_iff v _ := by
    rw [returned]
    exact ⟨nofun, fun ⟨broken, _⟩ => absurd broken (kept v)⟩
  returns _ := ⟨answer, m', returned⟩

end Program

open Program

theorem Cell.failsExactly_operation {n : Nat} {cell : Cell n} {o : Operands}
    (faithful : cell.Faithful o.object) (s : ObjectSlot) {m : Machine} (closed : m.transaction = none)
    (hardware : Schedule) : (cell.operation o s).FailsExactly hardware m (o.Refused n s) := by
  by_cases outside : o.BitOutside n s
  · have failed := run_of_onMemory
      (cell.onMemory_operation_of_bitOutside faithful outside m.store.memory) closed hardware
    exact failsExactly_of_failed failed fun v => and_iff_right outside
  · have returned := run_of_onMemory
      (cell.onMemory_operation faithful (Operands.bitInside_of_not_bitOutside outside) m.store.memory)
      closed hardware
    exact failsExactly_of_returned returned fun v refused => outside refused.1

theorem failsExactly_call {α : Type} {p : Program α} {orders : Orders} {o : Operands} {n : Nat}
    {s : ObjectSlot} {violation? : Option Violation}
    (checked : ∀ v, violation? = some v ↔ orders.Refused n s v) {hardware : Schedule} {m : Machine}
    (exactly : p.FailsExactly hardware m (o.Refused n s)) :
    Program.FailsExactly (match violation? with | some v => fail v | none => p) hardware m
      (orders.CallRefused o n s) := by
  cases violation? with
  | some v =>
      have refused := (checked v).1 rfl
      refine failsExactly_of_failed rfl fun v' => ?_
      rw [Orders.CallRefused, ← checked, Option.some_inj, eq_comm]
      exact or_iff_left fun ⟨accepted, _⟩ => accepted v refused
  | none =>
      have accepted (v : Violation) : ¬orders.Refused n s v := fun refused => nomatch (checked v).2 refused
      have same : orders.CallRefused o n s = o.Refused n s := by
        funext v
        simp [Orders.CallRefused, accepted]
      rw [same]
      exact exactly

/-- When the calls through a slot fail. Stores, loads and tests of the explicit domain accept the orders for
which the implicit domain has the slot, and no orders at all lead to an instruction that does not exist. -/
structure Backend.ChecksCalls (backend : Backend) (width : UInt64) (s : ObjectSlot) (o : Operands)
    (hardware : Schedule) (m : Machine) : Prop where
  implicit (order : MemoryOrder) (call : ImplicitOperation s)
    (inTable : (backend.implicit width order).table s = some call) :
    (call o).FailsExactly hardware m (o.Refused width.toNat s)
  filled : ((backend.explicit width).table s).isSome
  explicit (call : ExplicitOperation s) (inTable : (backend.explicit width).table s = some call)
    (orders : Orders) : (call o orders).FailsExactly hardware m (orders.CallRefused o width.toNat s)
  accepts (native : width.toNat ∈ Native.widths) (ordered : s = .store ∨ s = .load ∨ s = .testBit)
    (call : ExplicitOperation s) (inTable : (backend.explicit width).table s = some call)
    (orders : Orders) :
    ((backend.implicit width orders.success).table s).isSome ↔
      ∀ v m', (call o orders).run hardware m = (.failed v, m') → v = .bitOutOfRange o.bit
  instructions (native : width.toNat ∈ Native.widths) (orders : Orders) :
    (Native.operation width.toNat orders s o).FailsExactly hardware m (o.Refused width.toNat s)

theorem Orders.accepted_iff_failed_bitOutOfRange {α : Type} {p : Program α} {orders : Orders} {n : Nat}
    {s : ObjectSlot} {o : Operands} {hardware : Schedule} {m : Machine}
    (exactly : p.FailsExactly hardware m (orders.CallRefused o n s)) :
    (∀ v, ¬orders.Refused n s v) ↔
      ∀ v m', p.run hardware m = (.failed v, m') → v = .bitOutOfRange o.bit := by
  constructor
  · intro accepted v m' failed
    obtain ⟨refused | ⟨-, -, onBit⟩, -⟩ := (exactly.failed_iff v m').1 failed
    · exact absurd refused (accepted v)
    · exact onBit
  · intro onlyBit v refused
    have failed := (exactly.failed_iff v m).2 ⟨.inl refused, rfl⟩
    exact refused.ne_bitOutOfRange o.bit (onlyBit v m failed)

namespace Native

variable {width : UInt64} {s : ObjectSlot} {o : Operands} {m : Machine}

theorem failsExactly_explicitOperation (native : width.toNat ∈ widths) (closed : m.transaction = none)
    (hardware : Schedule) (orders : Orders) :
    (explicitOperation width.toNat s o orders).FailsExactly hardware m
      (orders.CallRefused o width.toNat s) :=
  failsExactly_call (orderViolation?_eq_some_iff native s orders)
    ((cell width.toNat o.object orders).failsExactly_operation (faithful_cell ..) s closed hardware)

theorem calls_checked (native : width.toNat ∈ widths) (closed : m.transaction = none) (hardware : Schedule) :
    backend.ChecksCalls width s o hardware m where
  implicit order call inTable := by
    rw [table_implicit native] at inTable
    obtain ⟨-, same⟩ := Option.ite_none_right_eq_some.1 inTable
    rw [← Option.some.inj same]
    exact Cell.failsExactly_operation (faithful_cell ..) s closed hardware
  filled := by
    rw [table_explicit native]
    rfl
  explicit call inTable orders := by
    rw [table_explicit native] at inTable
    rw [← Option.some.inj inTable]
    exact failsExactly_explicitOperation native closed hardware orders
  accepts _ ordered call inTable orders := by
    rw [table_explicit native] at inTable
    -- Both sides say that no order of the call is refused.
    rw [← Option.some.inj inTable, table_implicit native,
      ← Orders.accepted_iff_failed_bitOutOfRange
        (failsExactly_explicitOperation native closed hardware orders),
      ← Orders.admits_iff_accepted native ordered]
    simp
  instructions _ orders := Cell.failsExactly_operation (faithful_cell ..) s closed hardware

end Native

namespace Wide

variable {bytes : UInt64} {s : ObjectSlot} {o : Operands} {m : Machine}

theorem calls_checked (wide : bytes.toNat = width) (closed : m.transaction = none) (hardware : Schedule) :
    backend.ChecksCalls bytes s o hardware m where
  implicit order call inTable := by
    rw [table_implicit wide] at inTable
    obtain ⟨-, same⟩ := Option.ite_none_right_eq_some.1 inTable
    rw [← Option.some.inj same, wide]
    exact Cell.failsExactly_operation (faithful_cell ..) s closed hardware
  filled := by
    rw [table_explicit wide]
    rfl
  explicit call inTable orders := by
    rw [table_explicit wide] at inTable
    rw [← Option.some.inj inTable, wide]
    exact failsExactly_call (orderViolation?_eq_some_iff s orders)
      ((cell o.object).failsExactly_operation (faithful_cell ..) s closed hardware)
  accepts native := absurd native (not_native wide)
  instructions native := absurd native (not_native wide)

end Wide

theorem Backend.HasWords.checksCalls {backend : Backend} {width : UInt64} (words : backend.HasWords width)
    (s : ObjectSlot) (o : Operands) (hardware : Schedule) {m : Machine} (closed : m.transaction = none) :
    backend.ChecksCalls width s o hardware m := by
  rcases words with ⟨rfl, native⟩ | ⟨rfl, wide⟩
  · exact Native.calls_checked native closed hardware
  · exact Wide.calls_checked wide closed hardware

end

theorem Backend.HasWords.checksCalls_byte :
    let m := Machine.initial ⟨Array.replicate 4 200⟩
    let o : Operands := ⟨0, 1, 2, 3, 8⟩
    let s : ObjectSlot := .changeBit .set
    (HasWords Native.backend 1 ∧ m.transaction = none ∧ o.BitOutside 1 s) ∧
    Native.backend.ChecksCalls 1 s o (fun _ => .calm) m := by
  intro m o s
  have words : HasWords Native.backend 1 := .inl ⟨rfl, by decide⟩
  exact ⟨⟨words, rfl, rfl, by decide⟩, checksCalls words s o _ rfl⟩

end AtomicTables
