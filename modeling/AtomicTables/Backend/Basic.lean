import AtomicTables.Program.Span
import AtomicTables.Slot.Transaction
import AtomicTables.Table.Suite
import AtomicTables.Transaction.Attempts

/-!
# Operations of the three domains

The types of what fills the slots. In the implicit domain the order is fixed when a table is composed,
in the explicit domain each call gives it, and in the transactional domain each call gives its width and
attempts.
-/

namespace AtomicTables

variable [FlagSpace]

/-- The orders of one call. Only a compare-exchange uses the second. -/
structure Orders where
  success : MemoryOrder
  failure : MemoryOrder

abbrev ImplicitOperation (s : ObjectSlot) : Type := Operands → Program s.Answer

abbrev ExplicitOperation (s : ObjectSlot) : Type := Operands → Orders → Program s.Answer

abbrev TransactionOperation : TransactionSlot → Type
  | .object s => Operands → Config → Program (s.Answer × Outcome)
  | .doubleCompareExchange => Span.Leg → Span.Leg → Config → Program (Bool × Outcome)
  | .multiCompareExchange => List Span.Leg → Config → Program (Bool × Outcome)
  | .generic => Program Unit → Config → Program Outcome
  | .genericWithFallback => Program Unit → Program Unit → Config → Program (Bool × Outcome)
  | .testFlag | .testSetFlag => FlagId → Program Bool
  | .clearFlag => FlagId → Program Unit
  | .begin => Program Status
  | .abortAll | .abortSingle => BitVec 8 → Program Unit
  | .commit => Program Unit
  | .isOpen => Program Bool
  | .depth => Program UInt64

abbrev ImplicitSuite := Suite ImplicitOperation
abbrev ExplicitSuite := Suite ExplicitOperation
abbrev TransactionalSuite := TransactionSuite TransactionOperation

structure Backend where
  implicit : (width : UInt64) → MemoryOrder → ImplicitSuite
  explicit : (width : UInt64) → ExplicitSuite
  transactional : TransactionalSuite

end AtomicTables
