import AtomicTables.Program.Basic
import AtomicTables.Slot.Object

/-!
# Words

Operations on an object that the processor handles as one word. `Cell` is what an instruction set
offers for such an object, and `Cell.operation` builds every slot's operation from it: buffers are read
before the object changes, and the result is written last.
-/

namespace AtomicTables

variable [FlagSpace]

open Program

namespace Word

def readNat (address : Nat) : Nat → Program Nat
  | 0 => pure 0
  | n + 1 => do
    let low ← Program.read address
    let high ← readNat (address + 1) n
    return low.toNat + 256 * high

def writeNat (address value : Nat) : Nat → Program Unit
  | 0 => pure ()
  | n + 1 => do
    Program.write address (UInt8.ofNat value)
    writeNat (address + 1) (value / 256) n

def read (bytes address : Nat) : Program (BitVec (8 * bytes)) := do
  return BitVec.ofNat _ (← readNat address bytes)

def write {bytes : Nat} (address : Nat) (value : BitVec (8 * bytes)) : Program Unit :=
  writeNat address value.toNat bytes

end Word

structure Cell (bytes : Nat) where
  load : Program (BitVec (8 * bytes))
  store : BitVec (8 * bytes) → Program Unit
  update : (BitVec (8 * bytes) → BitVec (8 * bytes)) → Program (BitVec (8 * bytes))
  /-- Replaces the expected value by the desired one. Answers the old value and whether it was the
  expected one. -/
  compareExchange : (expected desired : BitVec (8 * bytes)) → Program (BitVec (8 * bytes) × Bool)

namespace Cell

variable {bytes : Nat}

def report (fetch : Bool) (address : Nat) (old : BitVec (8 * bytes)) : Program Unit :=
  if fetch then Word.write address old else pure ()

def checkBit (bytes : Nat) (bit : UInt64) : Program Unit :=
  require (bit.toNat < 8 * bytes) (.bitOutOfRange bit)

def operation (cell : Cell bytes) (o : Operands) : (s : ObjectSlot) → Program s.Answer
  | .store => do
    cell.store (← Word.read bytes o.argument)
  | .load => do
    Word.write o.result (← cell.load)
  | .exchange => do
    let value ← Word.read bytes o.argument
    Word.write o.result (← cell.update fun _ => value)
  | .compareExchange _ => do
    let expected ← Word.read bytes o.expected
    let desired ← Word.read bytes o.argument
    let (old, exchanged) ← cell.compareExchange expected desired
    report (!exchanged) o.expected old
    return exchanged
  | .testBit => do
    let value ← cell.load
    checkBit bytes o.bit
    return value.getLsbD o.bit.toNat
  | .changeBit change => do
    checkBit bytes o.bit
    let old ← cell.update fun value => change.apply value (BitVec.twoPow _ o.bit.toNat)
    return old.getLsbD o.bit.toNat
  | .binary op fetch => do
    let argument ← Word.read bytes o.argument
    report fetch o.result (← cell.update fun value => op.apply value argument)
  | .unary op fetch => do
    report fetch o.result (← cell.update op.apply)

end Cell

end AtomicTables
