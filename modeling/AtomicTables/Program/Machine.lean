import AtomicTables.Memory
import AtomicTables.Program.Basic

/-!
# The machine

Memory and flags, the open transaction, and how a program runs on them. Transactions nest flat: only
the outermost begin saves the state, and every abort goes back to it. What the hardware does to a
transaction is given from outside, one `Fate` for each outermost begin.

Main statement: `run` is defined by recursion on the program, for an abort enters a part of the program
that stands under its begin.
-/

namespace AtomicTables

variable [FlagSpace]

structure Store where
  memory : Memory
  flags : Vector Bool FlagSpace.size

def Store.setFlag (s : Store) (flag : FlagId) (value : Bool) : Store :=
  { s with flags := s.flags.set flag value }

/-- What happens to one outermost transaction besides what the program does. -/
structure Fate where
  refusal : Option (BitVec 32)
  /-- The transaction aborts after so many of its instructions. -/
  interruption : Option (Nat × BitVec 32)
  commitRefusal : Option (BitVec 32)
  raised : Option FlagId
  lowered : Option FlagId

namespace Fate

def calm : Fate := ⟨none, none, none, none, none⟩

def interfere (fate : Fate) (s : Store) : Store :=
  let s := match fate.raised with
    | some flag => s.setFlag flag true
    | none => s
  match fate.lowered with
  | some flag => s.setFlag flag false
  | none => s

end Fate

abbrev Schedule := Nat → Fate

def Schedule.ofList (fates : List Fate) : Schedule := fun n => fates.getD n .calm

structure OpenTransaction where
  nested : Nat
  origin : Store
  fate : Fate
  executed : Nat

structure Entry where
  note : Note
  store : Store

structure Machine where
  store : Store
  transaction : Option OpenTransaction
  begun : Nat
  /-- The notes made, the latest first. No abort takes one back. -/
  log : List Entry

namespace Machine

def initial (memory : Memory) : Machine := ⟨⟨memory, Vector.replicate FlagSpace.size false⟩, none, 0, []⟩

def depth (m : Machine) : Nat :=
  match m.transaction with
  | some t => t.nested + 1
  | none => 0

def entries (m : Machine) : List Entry := m.log.reverse

def write (m : Machine) (a : Nat) (v : UInt8) : Machine :=
  match m with
  | ⟨⟨memory, flags⟩, transaction, begun, log⟩ => ⟨⟨memory.write a v, flags⟩, transaction, begun, log⟩

def setFlag (m : Machine) (flag : FlagId) (value : Bool) : Machine :=
  { m with store := m.store.setFlag flag value }

end Machine

inductive Effect (α : Type) where
  | next (answer : α) (m : Machine)
  | abort (word : BitVec 32) (m : Machine)
  | fault (m : Machine)

namespace Instruction

def perform : (i : Instruction) → Machine → Effect i.Answer
  | read a, m => .next (m.store.memory.read a) m
  | write a v, m => .next () (m.write a v)
  | testFlag flag, m => .next (m.store.flags.get flag) m
  | testSetFlag flag, m => .next (m.store.flags.get flag) (m.setFlag flag true)
  | clearFlag flag, m => .next () (m.setFlag flag false)
  | commit, m =>
    match m.transaction with
    | none => .fault m
    | some t =>
      match t.nested with
      | n + 1 => .next () { m with transaction := some { t with nested := n } }
      | 0 =>
        match t.fate.commitRefusal with
        | some word => .abort word m
        | none => .next () { m with transaction := none }
  | abort reason, m =>
    match m.transaction with
    | none => .next () m
    | some t => .abort (Status.explicitWord reason (t.nested != 0)) m
  | isOpen, m => .next m.transaction.isSome m
  | note n, m => .next () { m with log := ⟨n, m.store⟩ :: m.log }
  | discard, m =>
    match m.transaction with
    | none => .next () m
    | some t => .next () { m with store := t.origin, transaction := none }

def step (i : Instruction) (m : Machine) : Effect i.Answer :=
  match m.transaction with
  | none => i.perform m
  | some t =>
    match t.fate.interruption with
    | some (limit, word) =>
      if limit ≤ t.executed then .abort word m
      else i.perform { m with transaction := some { t with executed := t.executed + 1 } }
    | none => i.perform m

end Instruction

inductive Ending (α : Type) where
  | returned (value : α)
  | failed (violation : Violation)
  | aborted (word : BitVec 32)
  | faulted
  | spinning
deriving DecidableEq

namespace Program

variable {α : Type}

/-- Runs a program. When the transaction that a begin has opened is aborted, the state of that begin
comes back, others do what they do, and the program goes on from the begin with the word of the abort. -/
def run (hardware : Schedule) : Program α → Machine → Ending α × Machine
  | done a, m => (.returned a, m)
  | fail v, m => (.failed v, m)
  | spin, m => (.spinning, m)
  | act i next, m =>
    match i.step m with
    | .next answer m' => (next answer).run hardware m'
    | .abort word m' => (.aborted word, m')
    | .fault m' => (.faulted, m')
  | begin next, m =>
    match m.transaction with
    | some t =>
      (next Status.started).run hardware { m with transaction := some { t with nested := t.nested + 1 } }
    | none =>
      let fate := hardware m.begun
      let after := fate.interfere m.store
      match fate.refusal with
      | some word => (next word).run hardware { m with store := after, begun := m.begun + 1 }
      | none =>
        let opened : OpenTransaction := ⟨0, m.store, fate, 0⟩
        match (next Status.started).run hardware
            { m with transaction := some opened, begun := m.begun + 1 } with
        | (.aborted word, m') =>
          (next word).run hardware { m' with store := after, transaction := none }
        | result => result

end Program

end AtomicTables
