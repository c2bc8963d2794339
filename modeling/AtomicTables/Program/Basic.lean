import AtomicTables.MemoryOrder
import AtomicTables.Transaction.Status

/-!
# Programs

A program is a tree of instructions on bytes, flags and transactions. What follows a begin stands under
it as a function of the answer word, so that an abort can enter it a second time with another answer.

Main statements: programs are a monad, and `attempt` turns every violation into a value.
-/

namespace AtomicTables

inductive Violation where
  | bitOutOfRange (bit : UInt64)
  | bitOutsideSpan (bit width : UInt64)
  | spanTooWide
  | notStoreOrder (order : MemoryOrder)
  | notLoadOrder (order : MemoryOrder)
  | notFailureOrder (failure success : MemoryOrder)
  | noSuchStore (fence : Fence)
  | noSuchLoad (fence : Fence)
  | noSuchFailure (fence : Fence)
deriving DecidableEq

def Violation.message : Violation → String
  | .bitOutOfRange bit => "bit offset " ++ toString bit.toNat ++ " out of range"
  | .bitOutsideSpan bit width =>
    "bit offset " ++ toString bit.toNat ++ " out of range for width " ++ toString width.toNat
  | .spanTooWide => "attempt to multiply with overflow"
  | .notStoreOrder order => order.name ++ " is not a store order"
  | .notLoadOrder order => order.name ++ " is not a load order"
  | .notFailureOrder failure success =>
    failure.name ++ " is not a failure order for " ++ success.name
  | .noSuchStore fence => "there is no such thing as " ++ fence.article ++ " store"
  | .noSuchLoad fence => "there is no such thing as " ++ fence.article ++ " load"
  | .noSuchFailure fence => "there is no such thing as " ++ fence.article ++ " failure ordering"

inductive Reply where
  | unfilled
  | nothing
  | truth (value : Bool)
  | status (status : Status)
  | number (value : UInt64)
  | outcome (truth : Option Bool) (outcome : Outcome)
  | violation (violation : Violation)

structure Note where
  step : String
  reply : Reply

/-- The flags that transactions and fallbacks share, by number. -/
class FlagSpace where
  size : Nat

variable [FlagSpace]

abbrev FlagId := Fin FlagSpace.size

def flagText (isSet : Bool) : String :=
  "TransactionFlag(" ++ (if isSet then "1" else "0") ++ ")"

inductive Instruction where
  | read (address : Nat)
  | write (address : Nat) (value : UInt8)
  | testFlag (flag : FlagId)
  | testSetFlag (flag : FlagId)
  | clearFlag (flag : FlagId)
  | commit
  | abort (reason : BitVec 8)
  | isOpen
  | note (note : Note)
  /-- Undoes the open transaction, if there is one, and goes on without it. -/
  | discard

def Instruction.Answer : Instruction → Type
  | read _ => UInt8
  | testFlag _ | testSetFlag _ | isOpen => Bool
  | _ => Unit

inductive Program (α : Type) where
  | done (value : α)
  | fail (violation : Violation)
  /-- Waits for a change that nobody is left to make. -/
  | spin
  | act (instruction : Instruction) (next : instruction.Answer → Program α)
  /-- Begins a transaction; `next` is entered with the answer word. -/
  | begin (next : BitVec 32 → Program α)

namespace Program

variable {α β γ : Type}

def bind : Program α → (α → Program β) → Program β
  | done a, f => f a
  | fail v, _ => fail v
  | spin, _ => spin
  | act i next, f => act i fun answer => (next answer).bind f
  | begin next, f => begin fun word => (next word).bind f

instance : Monad Program where
  pure := done
  bind := bind

def attempt : Program α → Program (Except Violation α)
  | done a => done (.ok a)
  | fail v => done (.error v)
  | spin => spin
  | act i next => act i fun answer => (next answer).attempt
  | begin next => begin fun word => (next word).attempt

def read (address : Nat) : Program UInt8 := act (.read address) done
def write (address : Nat) (value : UInt8) : Program Unit := act (.write address value) done
def testFlag (flag : FlagId) : Program Bool := act (.testFlag flag) done
def testSetFlag (flag : FlagId) : Program Bool := act (.testSetFlag flag) done
def clearFlag (flag : FlagId) : Program Unit := act (.clearFlag flag) done
def commit : Program Unit := act .commit done
def abort (reason : BitVec 8) : Program Unit := act (.abort reason) done
def isOpen : Program Bool := act .isOpen done
def note (step : String) (reply : Reply) : Program Unit := act (.note ⟨step, reply⟩) done
def discard : Program Unit := act .discard done

def require (condition : Bool) (violation : Violation) : Program Unit :=
  if condition then done () else fail violation

def acquire (flag : FlagId) : Program Unit := do
  if ← testSetFlag flag then spin

theorem bind_eq (p : Program α) (f : α → Program β) : p >>= f = p.bind f := rfl

theorem bind_done (p : Program α) : p.bind done = p := by
  induction p with
  | done | fail | spin => rfl
  | act i next ih => exact congrArg (act i) (funext ih)
  | begin next ih => exact congrArg begin (funext ih)

theorem bind_assoc (p : Program α) (f : α → Program β) (g : β → Program γ) :
    (p.bind f).bind g = p.bind fun a => (f a).bind g := by
  induction p with
  | done | fail | spin => rfl
  | act i next ih => exact congrArg (act i) (funext ih)
  | begin next ih => exact congrArg begin (funext ih)

instance : LawfulMonad Program :=
  LawfulMonad.mk' Program bind_done (fun _ _ => rfl) bind_assoc

end Program

end AtomicTables
