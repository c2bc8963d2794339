import AtomicTables.Backend.Basic
import AtomicTables.Program.Word

/-!
# Objects of 16 bytes

The processor has one instruction for them, a compare-exchange that is sequentially consistent, so the
order of a call is not used. Every operation is built from that instruction.
-/

namespace AtomicTables.Wide

variable [FlagSpace]

open Program

def width : Nat := 16

def exchangeIf (object : Nat) (expected desired : BitVec (8 * width)) :
    Program (BitVec (8 * width) × Bool) := do
  let old ← Word.read width object
  if old = expected then
    Word.write object desired
    return (old, true)
  else
    return (old, false)

def load (object : Nat) : Program (BitVec (8 * width)) := do
  let (old, _) ← exchangeIf object 0 0
  return old

/-- The second exchange finds the value that the first has read, for nobody writes between them. -/
def update (object : Nat) (f : BitVec (8 * width) → BitVec (8 * width)) :
    Program (BitVec (8 * width)) := do
  let old ← load object
  let (_, exchanged) ← exchangeIf object old (f old)
  if exchanged then return old else spin

def store (object : Nat) (value : BitVec (8 * width)) : Program Unit := do
  let _ ← update object fun _ => value
  return ()

def cell (object : Nat) : Cell width :=
  ⟨load object, store object, update object, exchangeIf object⟩

def operation (s : ObjectSlot) : ImplicitOperation s :=
  fun o => (cell o.object).operation o s

/-- Of the orders only the failure order of a compare-exchange is checked. -/
def orderViolation? (s : ObjectSlot) (orders : Orders) : Option Violation :=
  match s with
  | .compareExchange _ =>
    if orders.success.validFailure orders.failure then none
    else some (.notFailureOrder orders.failure orders.success)
  | _ => none

def explicitOperation (s : ObjectSlot) : ExplicitOperation s := fun o orders =>
  match orderViolation? s orders with
  | some violation => fail violation
  | none => operation s o

def implicit (bytes : UInt64) (order : MemoryOrder) : ImplicitSuite :=
  if bytes.toNat = width then
    ⟨fun s => if s.admits order then some (operation s) else none, .natural bytes⟩
  else .empty

def explicit (bytes : UInt64) : ExplicitSuite :=
  if bytes.toNat = width then ⟨fun s => some (explicitOperation s), .natural bytes⟩ else .empty

def backend : Backend := ⟨implicit, explicit, .empty⟩

end AtomicTables.Wide
