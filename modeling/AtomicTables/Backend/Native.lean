import AtomicTables.Backend.Basic
import AtomicTables.Program.Word

/-!
# Native words

Objects of 1, 2, 4 and 8 bytes, for which the processor has atomic instructions. Explicit calls must give
an order that the operation can have.
-/

namespace AtomicTables.Native

variable [FlagSpace]

open Program

def widths : List Nat := [1, 2, 4, 8]

def exchangeIf (bytes object : Nat) (failure : Fence) (expected desired : BitVec (8 * bytes)) :
    Program (BitVec (8 * bytes) × Bool) := do
  require failure.loadable (.noSuchFailure failure)
  let old ← Word.read bytes object
  if old = expected then
    Word.write object desired
    return (old, true)
  else
    return (old, false)

/-- An update without an instruction of its own compares and exchanges, and fails with the fence that
its order implies. -/
def update (bytes object : Nat) (order : MemoryOrder) (f : BitVec (8 * bytes) → BitVec (8 * bytes)) :
    Program (BitVec (8 * bytes)) := do
  let failure := order.failureOrder.loadFence
  require failure.loadable (.noSuchFailure failure)
  let old ← Word.read bytes object
  Word.write object (f old)
  return old

def load (bytes object : Nat) (fence : Fence) : Program (BitVec (8 * bytes)) := do
  require fence.loadable (.noSuchLoad fence)
  Word.read bytes object

def store {bytes : Nat} (object : Nat) (fence : Fence) (value : BitVec (8 * bytes)) : Program Unit := do
  require fence.storable (.noSuchStore fence)
  Word.write object value

def cell (bytes object : Nat) (orders : Orders) : Cell bytes :=
  ⟨load bytes object orders.success.loadFence, store object orders.success.storeFence,
    update bytes object orders.success, exchangeIf bytes object orders.failure.loadFence⟩

def operation (bytes : Nat) (orders : Orders) (s : ObjectSlot) : ImplicitOperation s :=
  fun o => (cell bytes o.object orders).operation o s

def orderViolation? (s : ObjectSlot) (orders : Orders) : Option Violation :=
  match s with
  | .store => if orders.success.validForStore then none else some (.notStoreOrder orders.success)
  | .load | .testBit => if orders.success.validForLoad then none else some (.notLoadOrder orders.success)
  | .compareExchange _ =>
    if orders.success.validFailure orders.failure then none
    else some (.notFailureOrder orders.failure orders.success)
  | _ => none

def explicitOperation (bytes : Nat) (s : ObjectSlot) : ExplicitOperation s := fun o orders =>
  match orderViolation? s orders with
  | some violation => fail violation
  | none => operation bytes orders s o

def implicit (width : UInt64) (order : MemoryOrder) : ImplicitSuite :=
  if width.toNat ∈ widths then
    ⟨fun s => if s.admits order then some (operation width.toNat ⟨order, order.failureOrder⟩ s) else none,
      .natural width⟩
  else .empty

def explicit (width : UInt64) : ExplicitSuite :=
  if width.toNat ∈ widths then
    ⟨fun s => some (explicitOperation width.toNat s), .natural width⟩
  else .empty

def backend : Backend := ⟨implicit, explicit, .empty⟩

end AtomicTables.Native
