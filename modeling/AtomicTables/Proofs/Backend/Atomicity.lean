import AtomicTables.Backend.Speculative
import AtomicTables.Proofs.Program.Span
import AtomicTables.Proofs.Transaction.Attempts
import AtomicTables.Script

/-!
# Atomicity of transactional calls

Whatever the hardware aborts, a call takes the effect of its body on memory and flags once, and reports a
success, or it takes none (`effectOnce`). What a body that only reads and writes does to memory is so what its call
does (`run_of_onMemory`).
-/

namespace AtomicTables.Speculative

open Program

section

variable [FlagSpace]

theorem plain_body (o : Operands) (width : UInt64) (s : ObjectSlot) : (body o width s).Plain := by
  have reports (fetch : Bool) : (report fetch o width.toNat).Plain := by
    cases fetch with
    | true => exact Span.plain_copy ..
    | false => exact plain_pure ()
  cases s with
  | store => exact Span.plain_copy ..
  | load => exact Span.plain_copy ..
  | exchange => exact (Span.plain_copy ..).bind fun _ => Span.plain_copy ..
  | compareExchange => exact Span.plain_compareExchange ..
  | testBit => exact Span.plain_testBit ..
  | changeBit change => exact Span.plain_changeBit ..
  | binary op fetch => exact (reports fetch).bind fun _ => Span.plain_binary ..
  | unary op fetch => exact (reports fetch).bind fun _ => Span.plain_unary ..

inductive Call where
  | object (slot : ObjectSlot) (operands : Operands)
  | doubleCompareExchange (a b : Span.Leg)
  | multiCompareExchange (legs : List Span.Leg)
  | generic (action : Program Unit)

namespace Call

def slot : Call → TransactionSlot
  | object s _ => .object s
  | doubleCompareExchange .. => .doubleCompareExchange
  | multiCompareExchange _ => .multiCompareExchange
  | generic _ => .generic

def Answer : Call → Type
  | object s _ => s.Answer
  | doubleCompareExchange .. | multiCompareExchange _ => Bool
  | generic _ => Unit

def noAnswer : (call : Call) → call.Answer
  | object s _ => s.noAnswer
  | doubleCompareExchange .. | multiCompareExchange _ => false
  | generic _ => ()

def body (width : UInt64) : (call : Call) → Program call.Answer
  | object s o => Speculative.body o width s
  | doubleCompareExchange a b => Span.compareExchangeAll [a, b] width.toNat
  | multiCompareExchange legs => Span.compareExchangeAll legs width.toNat
  | generic action => action

def invoke (config : Config) :
    (call : Call) → TransactionOperation call.slot → Program (call.Answer × Outcome)
  | object _ o, operation => operation o config
  | doubleCompareExchange a b, operation => operation a b config
  | multiCompareExchange legs, operation => operation legs config
  | generic action, operation => do
    let outcome ← operation action config
    return ((), outcome)

def Balanced (s : Store) : Call → Prop
  | generic action => (action.isolated 0 s).Balanced
  | _ => True

theorem Balanced.body {call : Call} {s : Store} (balanced : call.Balanced s) (width : UInt64) :
    ((call.body width).isolated 0 s).Balanced := by
  cases call with
  | object slot o => exact (plain_body o width slot).balanced s
  | doubleCompareExchange a b => exact (Span.plain_compareExchangeAll [a, b] _).balanced s
  | multiCompareExchange legs => exact (Span.plain_compareExchangeAll legs _).balanced s
  | generic action => exact balanced

def answer (call : Call) (result : Option call.Answer × Outcome) : call.Answer × Outcome :=
  (result.1.getD call.noAnswer, result.2)

theorem invoke_table (call : Call) (config : Config) :
    ∃ operation, table call.slot = some operation ∧
      call.invoke config operation = do
        let result ← transact config (call.body config.width)
        return call.answer result := by
  cases call with
  | object slot o => exact ⟨_, rfl, rfl⟩
  | doubleCompareExchange a b => exact ⟨_, rfl, rfl⟩
  | multiCompareExchange legs => exact ⟨_, rfl, rfl⟩
  | generic action => exact ⟨_, rfl, seq_assoc ..⟩

theorem run_invoke (call : Call) (config : Config) {hardware : Schedule} {m : Machine}
    (honest : hardware.Honest) (undisturbed : hardware.Undisturbed) (closed : m.transaction = none)
    (balanced : call.Balanced m.store) :
    ∃ operation, table call.slot = some operation ∧ ∃ ending m',
      (call.invoke config operation).run hardware m = (ending.map call.answer, m') ∧
      (call.body config.width).AllOrNothing m.store (ending, m') := by
  obtain ⟨operation, filled, same⟩ := call.invoke_table config
  refine ⟨operation, filled, _, _, ?_, transact_allOrNothing hardware config (call.body config.width) closed
    (balanced.body config.width) honest undisturbed⟩
  rw [same, ← run_bind_pure]

theorem commits (call : Call) (config : Config) {hardware : Schedule} {m : Machine}
    (honest : hardware.Honest) (undisturbed : hardware.Undisturbed) (closed : m.transaction = none)
    (through : hardware.LetsThrough m.begun config.attempts.toNat) (clear : m.store.isSet config.flag = false)
    {answer : call.Answer} {s : Store} (isolated : (call.body config.width).isolated 0 m.store = .finished answer 0 s) :
    ∃ operation, table call.slot = some operation ∧ ∃ outcome begun log, outcome.isSuccess ∧
      (call.invoke config operation).run hardware m = (.returned (answer, outcome), ⟨s, none, begun, log⟩) := by
  obtain ⟨operation, filled, same⟩ := call.invoke_table config
  obtain ⟨outcome, begun, log, success, ran⟩ :=
    transact_commits hardware config (call.body config.width) closed honest undisturbed through clear isolated
  refine ⟨operation, filled, outcome, begun, log, success, ?_⟩
  rw [same, run_bind_pure, ran]
  rfl

theorem run_of_onMemory (call : Call) (config : Config) {hardware : Schedule} {m : Machine}
    (honest : hardware.Honest) (undisturbed : hardware.Undisturbed) (closed : m.transaction = none)
    (balanced : call.Balanced m.store) {answer : call.Answer} {memory : Memory}
    (onMemory : (call.body config.width).onMemory m.store.memory = some (.ok answer, memory)) :
    ∃ operation, table call.slot = some operation ∧ ∃ answer' outcome m',
      (call.invoke config operation).run hardware m = (.returned (answer', outcome), m') ∧
      (outcome.isSuccess →
        answer' = answer ∧ m'.transaction = none ∧ m'.store = { m.store with memory := memory }) := by
  obtain ⟨operation, filled, ending, m', ran, taken⟩ :=
    call.run_invoke config honest undisturbed closed balanced
  refine ⟨operation, filled, ?_⟩
  have body := isolated_of_onMemory (s := m.store) onMemory 0
  cases taken with
  | all begun log success isolated =>
      obtain ⟨rfl, -, rfl⟩ := Isolated.finished.inj (isolated.symm.trans body)
      exact ⟨_, _, _, ran, fun _ => ⟨rfl, rfl, rfl⟩⟩
  | nothing begun log failure => exact ⟨_, _, _, ran, fun success => absurd success failure⟩
  | violation isolated => cases isolated.symm.trans body

/-- The state is that after the body, run once where nothing aborts it (`run_calm`), if the outcome is a
success, and the state before the call if not. -/
def EffectOnce (call : Call) (width : UInt64) (s : Store) : Ending (call.Answer × Outcome) × Machine → Prop
  | (.returned (answer, outcome), m) =>
    m.transaction = none ∧
      if outcome.isSuccess then (call.body width).isolated 0 s = .finished answer 0 m.store
      else m.store = s ∧ answer = call.noAnswer
  | (.failed v, _) => ∃ s', (call.body width).isolated 0 s = .failed v s'
  | _ => False

theorem effectOnce (call : Call) (config : Config) {hardware : Schedule} {m : Machine}
    (honest : hardware.Honest) (undisturbed : hardware.Undisturbed) (closed : m.transaction = none)
    (balanced : call.Balanced m.store) :
    ∃ operation, table call.slot = some operation ∧
      call.EffectOnce config.width m.store ((call.invoke config operation).run hardware m) ∧
      (hardware.LetsThrough m.begun config.attempts.toNat → m.store.isSet config.flag = false →
        ∀ answer s, (call.body config.width).isolated 0 m.store = .finished answer 0 s →
          ∃ outcome m', (call.invoke config operation).run hardware m = (.returned (answer, outcome), m') ∧
            outcome.isSuccess) := by
  obtain ⟨operation, filled, ending, m', ran, taken⟩ :=
    call.run_invoke config honest undisturbed closed balanced
  have effect : call.EffectOnce config.width m.store ((call.invoke config operation).run hardware m) := by
    rw [ran]
    cases taken with
    | all begun log success isolated =>
        refine ⟨rfl, ?_⟩
        rw [if_pos success]
        exact isolated
    | nothing begun log failure =>
        refine ⟨rfl, ?_⟩
        rw [if_neg failure]
        exact ⟨rfl, rfl⟩
    | violation isolated => exact ⟨_, isolated⟩
  refine ⟨operation, filled, effect, fun through clear answer s isolated => ?_⟩
  obtain ⟨operation', filled', outcome, begun, log, success, committed⟩ :=
    call.commits config honest undisturbed closed through clear isolated
  cases filled.symm.trans filled'
  exact ⟨outcome, _, committed, success⟩

end Call

end

namespace Call

theorem effectOnce_interrupted :
    let hardware := Schedule.ofList [⟨none, some (1, 0), none, none, none⟩]
    let m := Machine.initial ⟨#[1, 2]⟩
    let call := generic (Program.begin fun _ => do
      write 0 3
      write 1 4
      Program.commit)
    (hardware.Honest ∧ hardware.Undisturbed ∧ m.transaction = none ∧ call.Balanced m.store ∧
      hardware.LetsThrough m.begun 2 ∧ m.store.isSet none = false) ∧
    ∃ operation, table call.slot = some operation ∧
      call.EffectOnce 1 m.store ((call.invoke ⟨1, 2, none⟩ operation).run hardware m) ∧
      ∃ outcome m', (call.invoke ⟨1, 2, none⟩ operation).run hardware m = (.returned ((), outcome), m') ∧
        outcome.isSuccess := by
  intro hardware m call
  have honest : hardware.Honest := Schedule.honest_ofList (by simp [Fate.words, Status.started])
  have undisturbed : hardware.Undisturbed := Schedule.undisturbed_ofList (by simp)
  have through : hardware.LetsThrough m.begun 2 := Schedule.letsThrough_ofList (by decide) (by simp [Fate.words])
  obtain ⟨operation, filled, effect, succeeds⟩ :=
    effectOnce call ⟨1, 2, none⟩ (m := m) honest undisturbed rfl rfl
  exact ⟨⟨honest, undisturbed, rfl, rfl, through, rfl⟩, operation, filled, effect,
    succeeds through rfl () _ rfl⟩

end Call

end AtomicTables.Speculative
