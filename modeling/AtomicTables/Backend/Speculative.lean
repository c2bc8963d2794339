import AtomicTables.Backend.Basic

/-!
# Hardware transactions

Every operation runs as a body on spans of bytes inside a transaction, so objects may have any width and
need no alignment.
-/

namespace AtomicTables.Speculative

variable [FlagSpace]

open Program

def report (fetch : Bool) (o : Operands) (width : Nat) : Program Unit :=
  if fetch then Span.copy o.result o.object width else pure ()

def body (o : Operands) (width : UInt64) : (s : ObjectSlot) → Program s.Answer
  | .store => Span.copy o.object o.argument width.toNat
  | .load => Span.copy o.result o.object width.toNat
  | .exchange => do
    Span.copy o.result o.object width.toNat
    Span.copy o.object o.argument width.toNat
  | .compareExchange _ => Span.compareExchange o.object o.expected o.argument width.toNat
  | .testBit => Span.testBit o.object o.bit width
  | .changeBit change => Span.changeBit change o.object o.bit width
  | .binary op fetch => do
    report fetch o width.toNat
    Span.binary op o.object o.argument width.toNat
  | .unary op fetch => do
    report fetch o width.toNat
    Span.unary op o.object width.toNat

def objectOperation (s : ObjectSlot) : TransactionOperation (.object s) := fun o config => do
  let (answer, outcome) ← transact config (body o config.width s)
  return (answer.getD s.noAnswer, outcome)

def beginStatus (word : BitVec 32) : Status :=
  if word = Status.started then .success else .ofHardware word

def dispatch {α : Type} (half : BitVec 8) (arm : Nat → α) : α :=
  match half.toNat with
  | 0 => arm 0 | 1 => arm 1 | 2 => arm 2 | 3 => arm 3
  | 4 => arm 4 | 5 => arm 5 | 6 => arm 6 | 7 => arm 7
  | 8 => arm 8 | 9 => arm 9 | 10 => arm 10 | 11 => arm 11
  | 12 => arm 12 | 13 => arm 13 | 14 => arm 14 | _ => arm 15

/-- The instruction holds its reason, so there is one instruction for each reason to choose from. -/
def abortDynamic (reason : BitVec 8) : Program Unit :=
  dispatch (reason >>> 4) fun high =>
    dispatch (reason &&& 0x0F) fun low => abort (BitVec.ofNat 8 (high * 16 + low))

/-- There is no way to abort a nested transaction alone, nor to ask for the depth of nesting. -/
def table : Table TransactionOperation
  | .object s => some (objectOperation s)
  | .doubleCompareExchange => some fun a b config =>
    transactBool config (Span.compareExchangeAll [a, b] config.width.toNat)
  | .multiCompareExchange => some fun legs config =>
    transactBool config (Span.compareExchangeAll legs config.width.toNat)
  | .generic => some fun action config => transactUnit config action
  | .genericWithFallback => some fun action fallback config => transactElse config action fallback
  | .testFlag => some testFlag
  | .testSetFlag => some testSetFlag
  | .clearFlag => some clearFlag
  | .begin => some (Program.begin fun word => pure (beginStatus word))
  | .abortAll => some abortDynamic
  | .abortSingle => none
  | .commit => some do
    if ← isOpen then commit
  | .isOpen => some isOpen
  | .depth => none

def hints : RetryHints := ⟨20, 10⟩

def safeSize : UInt64 := 4096

def backend : Backend :=
  ⟨fun _ _ => .empty, fun _ => .empty, ⟨⟨table, .permissive⟩, hints, safeSize⟩⟩

end AtomicTables.Speculative
