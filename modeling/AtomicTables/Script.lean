import AtomicTables.Backend.Basic
import AtomicTables.Program.Machine

/-!
# Scripts

Lists of steps that call the operations of a table and write bytes, as a caller would. Every step leaves
a note of what it was answered; a step that violates a precondition ends, and what it had open is
discarded.
-/

namespace AtomicTables

variable [FlagSpace]

namespace Program

def writeBytes (address : Nat) : List UInt8 → Program Unit
  | [] => pure ()
  | byte :: bytes => do
    write address byte
    writeBytes (address + 1) bytes

def invoke {F : Type} (name : String) (slot : Option F) (call : F → Program Reply) : Program Unit :=
  match slot with
  | none => note name .unfilled
  | some operation => do
    note name (← call operation)

end Program

open Program

def Reply.ofTruth : Option Bool → Reply
  | some value => .truth value
  | none => .nothing

inductive ObjectStep (γ : Type) where
  | write (address : Nat) (bytes : List UInt8)
  | call (slot : ObjectSlot) (operands : Operands) (given : γ)

namespace ObjectStep

variable {γ : Type}

def name : ObjectStep γ → String
  | write .. => "write"
  | call slot .. => slot.name

def run (table : (s : ObjectSlot) → Option (Operands → γ → Program s.Answer)) :
    ObjectStep γ → Program Unit
  | write address bytes => do
    writeBytes address bytes
    note "write" .nothing
  | call slot operands given =>
    invoke slot.name (table slot) fun operation => do
      return .ofTruth (ObjectSlot.truth? (← operation operands given))

end ObjectStep

inductive TransactionStep where
  | write (address : Nat) (bytes : List UInt8)
  | object (slot : ObjectSlot) (operands : Operands) (config : Config)
  | doubleCompareExchange (first second : Span.Leg) (config : Config)
  | multiCompareExchange (legs : List Span.Leg) (config : Config)
  | generic (body : List TransactionStep) (config : Config)
  | genericWithFallback (body fallback : List TransactionStep) (config : Config)
  | testFlag (flag : FlagId)
  | testSetFlag (flag : FlagId)
  | clearFlag (flag : FlagId)
  /-- Goes on with `body` in the transaction, and with `otherwise` after an abort. Neither commits of
  itself. -/
  | begin (body otherwise : List TransactionStep)
  | abortAll (reason : BitVec 8)
  | abortSingle (reason : BitVec 8)
  | commit
  | isOpen
  | depth

namespace TransactionStep

def slot? : TransactionStep → Option TransactionSlot
  | write .. => none
  | object s .. => some (.object s)
  | doubleCompareExchange .. => some .doubleCompareExchange
  | multiCompareExchange .. => some .multiCompareExchange
  | generic .. => some .generic
  | genericWithFallback .. => some .genericWithFallback
  | testFlag _ => some .testFlag
  | testSetFlag _ => some .testSetFlag
  | clearFlag _ => some .clearFlag
  | begin .. => some .begin
  | abortAll _ => some .abortAll
  | abortSingle _ => some .abortSingle
  | commit => some .commit
  | isOpen => some .isOpen
  | depth => some .depth

def name (step : TransactionStep) : String :=
  match step.slot? with
  | some slot => slot.name
  | none => "write"

mutual

def run (table : Table TransactionOperation) : TransactionStep → Program Unit
  | write address bytes => do
    writeBytes address bytes
    note "write" .nothing
  | object s operands config =>
    invoke s.name (table (.object s)) fun operation => do
      let (answer, outcome) ← operation operands config
      return .outcome (ObjectSlot.truth? answer) outcome
  | doubleCompareExchange first second config =>
    invoke TransactionSlot.doubleCompareExchange.name (table .doubleCompareExchange) fun operation => do
      let (exchanged, outcome) ← operation first second config
      return .outcome (some exchanged) outcome
  | multiCompareExchange legs config =>
    invoke TransactionSlot.multiCompareExchange.name (table .multiCompareExchange) fun operation => do
      let (exchanged, outcome) ← operation legs config
      return .outcome (some exchanged) outcome
  | generic body config =>
    invoke TransactionSlot.generic.name (table .generic) fun operation => do
      return .outcome none (← operation (runAll table body) config)
  | genericWithFallback body fallback config =>
    invoke TransactionSlot.genericWithFallback.name (table .genericWithFallback) fun operation => do
      let (committed, outcome) ← operation (runAll table body) (runAll table fallback) config
      return .outcome (some committed) outcome
  | testFlag flag =>
    invoke TransactionSlot.testFlag.name (table .testFlag) fun operation => do
      return .truth (← operation flag)
  | testSetFlag flag =>
    invoke TransactionSlot.testSetFlag.name (table .testSetFlag) fun operation => do
      return .truth (← operation flag)
  | clearFlag flag =>
    invoke TransactionSlot.clearFlag.name (table .clearFlag) fun operation => do
      operation flag
      return .nothing
  | begin body otherwise =>
    match table .begin with
    | none => note TransactionSlot.begin.name .unfilled
    | some operation => do
      let status ← operation
      note TransactionSlot.begin.name (.status status)
      if status.isSuccess then runAll table body else runAll table otherwise
  | abortAll reason =>
    invoke TransactionSlot.abortAll.name (table .abortAll) fun operation => do
      operation reason
      return .nothing
  | abortSingle reason =>
    invoke TransactionSlot.abortSingle.name (table .abortSingle) fun operation => do
      operation reason
      return .nothing
  | commit =>
    invoke TransactionSlot.commit.name (table .commit) fun operation => do
      operation
      return .nothing
  | isOpen =>
    invoke TransactionSlot.isOpen.name (table .isOpen) fun operation => do
      return .truth (← operation)
  | depth =>
    invoke TransactionSlot.depth.name (table .depth) fun operation => do
      return .number (← operation)

def runAll (table : Table TransactionOperation) : List TransactionStep → Program Unit
  | [] => pure ()
  | step :: steps => do
    run table step
    runAll table steps

end

end TransactionStep

/-- Runs named steps one after the other. After a violation the open transaction is discarded, the
violation is noted under the name of the step, and the next step runs. -/
def runScript : List (String × Program Unit) → Program Unit
  | [] => pure ()
  | (name, step) :: steps => do
    match ← step.attempt with
    | .ok _ => pure ()
    | .error violation =>
      discard
      note name (.violation violation)
    runScript steps

structure Report where
  entries : List Entry
  depth : Nat
  begun : Nat

def execute (hardware : Schedule) (memory : Memory) (steps : List (String × Program Unit)) : Report :=
  let (_, m) := (runScript steps).run hardware (.initial memory)
  ⟨m.entries, m.depth, m.begun⟩

def ImplicitSuite.execute (suite : ImplicitSuite) (memory : Memory) (steps : List (ObjectStep Unit)) :
    Report :=
  let table := fun s => (suite.table s).map fun operation operands (_ : Unit) => operation operands
  AtomicTables.execute (fun _ => .calm) memory (steps.map fun step => (step.name, step.run table))

def ExplicitSuite.execute (suite : ExplicitSuite) (memory : Memory) (steps : List (ObjectStep Orders)) :
    Report :=
  AtomicTables.execute (fun _ => .calm) memory (steps.map fun step => (step.name, step.run suite.table))

def TransactionalSuite.execute (suite : TransactionalSuite) (hardware : Schedule) (memory : Memory)
    (steps : List TransactionStep) : Report :=
  AtomicTables.execute hardware memory (steps.map fun step => (step.name, step.run suite.table))

/-- Scripts name one of four flags. -/
instance : FlagSpace := ⟨4⟩

end AtomicTables
