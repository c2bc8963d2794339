import AtomicTables.Backend.Speculative
import AtomicTables.Proofs.Program.Closed
import AtomicTables.Proofs.Transaction.Attempts
import AtomicTables.Script

/-!
# Calls with a fallback

A call with a fallback commits its action or runs the fallback, never both (`onePath`). The fallback runs
on the state of the call, with the flag of the call set, and the flag is clear after it (`run_holding`).
-/

namespace AtomicTables

section

variable [FlagSpace]

def Store.mark (s : Store) (flag : Option FlagId) (value : Bool) : Store :=
  match flag with
  | some flag => s.setFlag flag value
  | none => s

theorem Store.isSet_mark (s : Store) (flag : Option FlagId) (value : Bool) :
    (s.mark flag value).isSet flag = (flag.isSome && value) := by
  cases flag with
  | none => rfl
  | some flag => exact Vector.getElem_set_self flag.isLt

namespace Program

variable {α β : Type} (hardware : Schedule)

def holding (flag : Option FlagId) (fallback : Program Unit) : Program Unit :=
  match flag with
  | some flag => do
    acquire flag
    fallback
    clearFlag flag
  | none => fallback

theorem transactElse_eq (config : Config) (body fallback : Program Unit) :
    transactElse config body fallback = do
      let (value, outcome) ← transact config body
      if value.isSome then return (true, outcome)
      holding config.flag fallback
      return (false, outcome) := by
  rw [transactElse]
  congr 1
  funext (value, outcome)
  cases value with
  | some => rfl
  | none =>
      cases config.flag with
      | none => rfl
      | some flag => simp [holding]

theorem run_bind_returned {p : Program α} {m m' : Machine} {a : α} (rest : α → Program β)
    (ran : p.run hardware m = (.returned a, m')) (closed : m'.transaction = none) :
    (p >>= rest).run hardware m = (rest a).run hardware m' := by
  rw [run_bind_closed hardware p rest (by rw [ran]; rintro _ _ ⟨⟩; exact closed), ran]
  rfl

theorem run_acquire {flag : FlagId} {m : Machine} (closed : m.transaction = none)
    (clear : m.store.flags.get flag = false) :
    (acquire flag).run hardware m = (.returned (), m.setFlag flag true) := by
  rw [acquire, testSetFlag]
  exact (run_act hardware (.testSetFlag flag) _ (Instruction.step_closed _ closed)).trans (by rw [clear]; rfl)

theorem run_holding {flag : Option FlagId} {fallback : Program Unit} {s s' : Store} {begun begun' : Nat}
    {log log' : List Entry} (clear : s.isSet flag = false)
    (ran : fallback.run hardware ⟨s.mark flag true, none, begun, log⟩ =
      (.returned (), ⟨s', none, begun', log'⟩)) :
    (holding flag fallback).run hardware ⟨s, none, begun, log⟩ =
      (.returned (), ⟨s'.mark flag false, none, begun', log'⟩) := by
  cases flag with
  | none => exact ran
  | some flag =>
      have acquired := run_acquire hardware (m := ⟨s, none, begun, log⟩) rfl clear
      rw [holding, run_bind_returned hardware _ acquired rfl]
      exact run_bind_returned hardware (fun _ => clearFlag flag) ran rfl

/-- One of the two paths of a call with a fallback, from its first to its last step. -/
inductive OnePath (action : Program Unit) (flag : Option FlagId) (m : Machine)
    (call : Program Unit → Program (Bool × Outcome)) : Prop where
  | action {outcome : Outcome} {s : Store} (begun : Nat) (log : List Entry) (success : outcome.isSuccess)
      (isolated : action.isolated 0 m.store = .finished () 0 s)
      (ran : ∀ fallback, (call fallback).run hardware m =
        (.returned (true, outcome), ⟨s, none, begun, log⟩)) :
      OnePath action flag m call
  | fallback {outcome : Outcome} (begun : Nat) (log : List Entry) (failure : ¬ outcome.isSuccess)
      (ran : ∀ fallback s begun' log',
        fallback.run hardware ⟨m.store.mark flag true, none, begun, log⟩ =
          (.returned (), ⟨s, none, begun', log'⟩) →
        (call fallback).run hardware m =
          (.returned (false, outcome), ⟨s.mark flag false, none, begun', log'⟩) ∧
        (s.mark flag false).isSet flag = false) :
      OnePath action flag m call

theorem transactElse_onePath (config : Config) (action : Program Unit) {m : Machine}
    (honest : hardware.Honest) (undisturbed : hardware.Undisturbed) (closed : m.transaction = none)
    (clear : m.store.isSet config.flag = false) (balanced : (action.isolated 0 m.store).Balanced)
    (sound : ∀ v s, action.isolated 0 m.store ≠ .failed v s) :
    OnePath hardware action config.flag m (transactElse config action) := by
  have taken := transact_allOrNothing hardware config action closed balanced honest undisturbed
  generalize ran : (transact config action).run hardware m = result at taken
  cases taken with
  | @all a s outcome begun log success isolated =>
      refine .action begun log success isolated fun fallback => ?_
      rw [transactElse_eq, run_bind_returned hardware _ ran rfl]
      rfl
  | @nothing outcome begun log failure =>
      refine .fallback begun log failure fun fallback s begun' log' returned => ⟨?_, ?_⟩
      · rw [transactElse_eq, run_bind_returned hardware _ ran rfl]
        exact run_bind_returned hardware _ (run_holding hardware clear returned) rfl
      · rw [Store.isSet_mark, Bool.and_false]
  | violation isolated => exact absurd isolated (sound _ _)

end Program

namespace Speculative
open Program

theorem onePath (config : Config) (action : Program Unit) {hardware : Schedule} {m : Machine}
    (honest : hardware.Honest) (undisturbed : hardware.Undisturbed) (closed : m.transaction = none)
    (clear : m.store.isSet config.flag = false) (balanced : (action.isolated 0 m.store).Balanced)
    (sound : ∀ v s, action.isolated 0 m.store ≠ .failed v s) :
    ∃ operation, table .genericWithFallback = some operation ∧
      OnePath hardware action config.flag m fun fallback => operation action fallback config :=
  ⟨_, rfl, transactElse_onePath hardware config action honest undisturbed closed clear balanced sound⟩

end Speculative

end

namespace Speculative
open Program

theorem onePath_interrupted :
    let hardware := Schedule.ofList [⟨none, some (1, 0), none, none, none⟩]
    let m := Machine.initial ⟨#[1, 2]⟩
    let action := do
      write 0 3
      write 1 4
    let config : Config := ⟨1, 1, some 0⟩
    (hardware.Honest ∧ hardware.Undisturbed ∧ m.transaction = none ∧ m.store.isSet config.flag = false ∧
      (action.isolated 0 m.store).Balanced ∧ ∀ v s, action.isolated 0 m.store ≠ .failed v s) ∧
    ∃ operation, table .genericWithFallback = some operation ∧
      OnePath hardware action config.flag m fun fallback => operation action fallback config := by
  intro hardware m action config
  have honest : hardware.Honest := Schedule.honest_ofList (by simp [Fate.words, Status.started])
  have undisturbed : hardware.Undisturbed := Schedule.undisturbed_ofList (by simp)
  have sound (v : Violation) (s : Store) : action.isolated 0 m.store ≠ .failed v s := by rintro ⟨⟩
  exact ⟨⟨honest, undisturbed, rfl, rfl, rfl, sound⟩,
    onePath config action honest undisturbed rfl rfl rfl sound⟩

end Speculative

end AtomicTables
