import AtomicTables.Program.Basic
import AtomicTables.Slot.Object

/-!
# Spans of bytes

Operations on the number in a span of any length, one byte after the other from the lowest on. Spans
may overlap: what one byte's turn has written, a later turn reads.
-/

namespace AtomicTables.Span

variable [FlagSpace]

open Program

def copy (target source : Nat) : Nat → Program Unit
  | 0 => pure ()
  | n + 1 => do
    write target (← read source)
    copy (target + 1) (source + 1) n

def equal (a b : Nat) : Nat → Program Bool
  | 0 => pure true
  | n + 1 => do
    if (← read a) = (← read b) then equal (a + 1) (b + 1) n else pure false

def combine (f : UInt8 → UInt8 → UInt8) (target argument : Nat) : Nat → Program Unit
  | 0 => pure ()
  | n + 1 => do
    write target (f (← read target) (← read argument))
    combine f (target + 1) (argument + 1) n

def complement (target : Nat) : Nat → Program Unit
  | 0 => pure ()
  | n + 1 => do
    write target (~~~(← read target))
    complement (target + 1) n

def add (target argument carry : Nat) : Nat → Program Unit
  | 0 => pure ()
  | n + 1 => do
    let sum := (← read target).toNat + (← read argument).toNat + carry
    write target (UInt8.ofNat sum)
    add (target + 1) (argument + 1) (sum / 256) n

def sub (target argument borrow : Nat) : Nat → Program Unit
  | 0 => pure ()
  | n + 1 => do
    let before := (← read target).toNat
    let taken := (← read argument).toNat + borrow
    write target (UInt8.ofNat (256 + before - taken))
    sub (target + 1) (argument + 1) (if before < taken then 1 else 0) n

def inc (target : Nat) : Nat → Program Unit
  | 0 => pure ()
  | n + 1 => do
    let before ← read target
    write target (before + 1)
    if before = 255 then inc (target + 1) n else pure ()

def dec (target : Nat) : Nat → Program Unit
  | 0 => pure ()
  | n + 1 => do
    let before ← read target
    write target (before - 1)
    if before = 0 then dec (target + 1) n else pure ()

def neg (target width : Nat) : Program Unit := do
  complement target width
  inc target width

/-- The bits of a span are counted in 64 bits before the offset is compared with their number. -/
def checkBit (bit width : UInt64) : Program Unit := do
  require (8 * width.toNat < UInt64.size) .spanTooWide
  require (bit.toNat < 8 * width.toNat) (.bitOutsideSpan bit width)

def testBit (source : Nat) (bit width : UInt64) : Program Bool := do
  checkBit bit width
  let byte ← read (source + bit.toNat / 8)
  return byte.toBitVec.getLsbD (bit.toNat % 8)

def changeBit (change : BitChange) (target : Nat) (bit width : UInt64) : Program Bool := do
  checkBit bit width
  let address := target + bit.toNat / 8
  let byte ← read address
  write address ⟨change.apply byte.toBitVec (BitVec.twoPow 8 (bit.toNat % 8))⟩
  return byte.toBitVec.getLsbD (bit.toNat % 8)

def binary (op : BinaryOp) (target argument width : Nat) : Program Unit :=
  match op with
  | .or => combine (· ||| ·) target argument width
  | .xor => combine (· ^^^ ·) target argument width
  | .and => combine (· &&& ·) target argument width
  | .add => add target argument 0 width
  | .sub => sub target argument 0 width

def unary (op : UnaryOp) (target width : Nat) : Program Unit :=
  match op with
  | .not => complement target width
  | .inc => inc target width
  | .dec => dec target width
  | .neg => neg target width

/-- Replaces the object by the desired span if it equals the expected one, and otherwise reports it
there. -/
def compareExchange (object expected desired width : Nat) : Program Bool := do
  if ← equal object expected width then
    copy object desired width
    return true
  else
    copy expected object width
    return false

structure Leg where
  object : Nat
  expected : Nat
  desired : Nat

def allEqual (width : Nat) : List Leg → Program Bool
  | [] => pure true
  | leg :: legs => do
    if ← equal leg.object leg.expected width then allEqual width legs else pure false

def compareExchangeAll (legs : List Leg) (width : Nat) : Program Bool := do
  let asExpected ← allEqual width legs
  legs.forM fun leg =>
    if asExpected then copy leg.object leg.desired width else copy leg.expected leg.object width
  return asExpected

end AtomicTables.Span
