import AtomicTables.Backend.Native
import AtomicTables.Proofs.Transaction.Fallback
import AtomicTables.Script

/-!
# The flag after a call with a fallback

The flag of a call is clear when the call returns. A fallback that fails ends the call where it stands, with
the flag as it is there: the call releases its flag unless a fallback fails with the flag set (`released_iff`).
-/

namespace AtomicTables

section

variable [FlagSpace]

def Machine.unwound (m : Machine) : Machine :=
  match m.transaction with
  | some t => { m with store := t.origin, transaction := none }
  | none => m

def Released {α : Type} (flag : FlagId) : Ending α × Machine → Prop
  | (.returned _, m) => m.store.flags.get flag = false
  | (.failed _, m) => m.unwound.store.flags.get flag = false
  | _ => True

namespace Program

variable (hardware : Schedule)

theorem run_holding_some {flag : FlagId} {fallback : Program Unit} {m : Machine}
    (closed : m.transaction = none) (clear : m.store.flags.get flag = false)
    (closes : ∀ m', fallback.run hardware (m.setFlag flag true) = (.returned (), m') → m'.transaction = none) :
    (holding (some flag) fallback).run hardware m =
      Ending.follow (fun _ m' => (.returned (), m'.setFlag flag false))
        (fallback.run hardware (m.setFlag flag true)) := by
  rw [holding, run_bind_returned hardware _ (run_acquire hardware closed clear) closed,
    run_bind_closed hardware fallback _ fun _ => closes]
  generalize fallback.run hardware (m.setFlag flag true) = fell at closes ⊢
  obtain ⟨ending, m'⟩ := fell
  cases ending with
  | returned => exact run_act hardware (.clearFlag flag) _ (Instruction.step_closed _ (closes m' rfl))
  | failed | aborted | faulted | spinning => rfl

theorem released_follow_iff {α : Type} {flag : FlagId} {value : α} (fell : Ending Unit × Machine) :
    Released flag (Ending.follow (fun _ m => (.returned value, m.setFlag flag false)) fell) ↔
      ∀ v m, fell = (.failed v, m) → m.unwound.store.flags.get flag = false := by
  obtain ⟨ending, m⟩ := fell
  cases ending with
  | returned =>
      refine iff_of_true ?_ (by rintro _ _ ⟨⟩)
      exact m.store.isSet_mark (some flag) false
  | failed v =>
      refine ⟨?_, fun released => released v m rfl⟩
      rintro released _ _ ⟨⟩
      exact released
  | aborted | faulted | spinning => exact iff_of_true trivial (by rintro _ _ ⟨⟩)

theorem transactElse_released_iff (config : Config) (action fallback : Program Unit) {flag : FlagId}
    {m : Machine} (named : config.flag = some flag) (honest : hardware.Honest)
    (undisturbed : hardware.Undisturbed) (closed : m.transaction = none)
    (clear : m.store.flags.get flag = false) (balanced : (action.isolated 0 m.store).Balanced)
    (sound : ∀ v s, action.isolated 0 m.store ≠ .failed v s)
    (releases : ∀ s, action.isolated 0 m.store = .finished () 0 s → s.flags.get flag = false)
    (closes : ∀ m₁ m₂, m₁.transaction = none → fallback.run hardware m₁ = (.returned (), m₂) →
      m₂.transaction = none) :
    Released flag ((transactElse config action fallback).run hardware m) ↔
      ∀ outcome m₁ v m₂, (transact config action).run hardware m = (.returned (none, outcome), m₁) →
        fallback.run hardware (m₁.setFlag flag true) = (.failed v, m₂) →
        m₂.unwound.store.flags.get flag = false := by
  have taken := transact_allOrNothing hardware config action closed balanced honest undisturbed
  generalize ran : (transact config action).run hardware m = result at taken
  cases taken with
  | @all a s outcome begun log success isolated =>
      rw [transactElse_eq, run_bind_returned hardware _ ran rfl]
      exact iff_of_true (releases s isolated) (by rintro _ _ _ _ ⟨⟩)
  | @nothing outcome begun log failure =>
      have fell := run_holding_some hardware (m := ⟨m.store, none, begun, log⟩) rfl clear
        fun m' => closes _ m' rfl
      have call : (transactElse config action fallback).run hardware m =
          Ending.follow (fun _ m' => (.returned (false, outcome), m'.setFlag flag false))
            (fallback.run hardware (Machine.setFlag ⟨m.store, none, begun, log⟩ flag true)) := by
        rw [transactElse_eq, run_bind_returned hardware _ ran rfl, named]
        change (holding (some flag) fallback >>= fun _ => pure (false, outcome)).run hardware _ = _
        rw [run_bind_pure, fell]
        rcases fallback.run hardware _ with ⟨ending, m'⟩
        cases ending <;> rfl
      rw [call, released_follow_iff]
      refine ⟨?_, fun released v m₂ => released outcome _ v m₂ rfl⟩
      rintro released _ _ v m₂ ⟨⟩
      exact released v m₂
  | violation isolated => exact absurd isolated (sound _ _)

end Program

namespace Speculative
open Program

theorem released_iff (config : Config) (action fallback : Program Unit) {flag : FlagId}
    {hardware : Schedule} {m : Machine} (named : config.flag = some flag) (honest : hardware.Honest)
    (undisturbed : hardware.Undisturbed) (closed : m.transaction = none)
    (clear : m.store.flags.get flag = false) (balanced : (action.isolated 0 m.store).Balanced)
    (sound : ∀ v s, action.isolated 0 m.store ≠ .failed v s)
    (releases : ∀ s, action.isolated 0 m.store = .finished () 0 s → s.flags.get flag = false)
    (closes : ∀ m₁ m₂, m₁.transaction = none → fallback.run hardware m₁ = (.returned (), m₂) →
      m₂.transaction = none) :
    ∃ operation, table .genericWithFallback = some operation ∧
      (Released flag ((operation action fallback config).run hardware m) ↔
        ∀ outcome m₁ v m₂, (transact config action).run hardware m = (.returned (none, outcome), m₁) →
          fallback.run hardware (m₁.setFlag flag true) = (.failed v, m₂) →
          m₂.unwound.store.flags.get flag = false) :=
  ⟨_, rfl, transactElse_released_iff hardware config action fallback named honest undisturbed closed clear
    balanced sound releases closes⟩

end Speculative

end

namespace Speculative
open Program

theorem released_iff_outside :
    let hardware := Schedule.ofList []
    let m := Machine.initial ⟨#[0]⟩
    let action := write 0 3
    let fallback : Program Unit := do
      let _ ← Native.operation 1 ⟨.seqCst, .seqCst⟩ (.changeBit .set) ⟨0, 0, 0, 0, 8⟩
    let config : Config := ⟨1, 0, some 0⟩
    (config.flag = some 0 ∧ hardware.Honest ∧ hardware.Undisturbed ∧ m.transaction = none ∧
      m.store.flags.get 0 = false ∧ (action.isolated 0 m.store).Balanced ∧
      (∀ v s, action.isolated 0 m.store ≠ .failed v s) ∧
      (∀ s, action.isolated 0 m.store = .finished () 0 s → s.flags.get 0 = false) ∧
      ∀ m₁ m₂, m₁.transaction = none → fallback.run hardware m₁ = (.returned (), m₂) →
        m₂.transaction = none) ∧
    ∃ operation, table .genericWithFallback = some operation ∧
      (Released 0 ((operation action fallback config).run hardware m) ↔
        ∀ outcome m₁ v m₂, (transact config action).run hardware m = (.returned (none, outcome), m₁) →
          fallback.run hardware (m₁.setFlag 0 true) = (.failed v, m₂) →
          m₂.unwound.store.flags.get 0 = false) := by
  intro hardware m action fallback config
  have honest : hardware.Honest := Schedule.honest_ofList (by simp)
  have undisturbed : hardware.Undisturbed := Schedule.undisturbed_ofList (by simp)
  have sound (v : Violation) (s : Store) : action.isolated 0 m.store ≠ .failed v s := by rintro ⟨⟩
  have releases (s : Store) (done : action.isolated 0 m.store = .finished () 0 s) :
      s.flags.get 0 = false := by
    cases done
    rfl
  have closes (m₁ m₂ : Machine) (_ : m₁.transaction = none)
      (ran : fallback.run hardware m₁ = (.returned (), m₂)) : m₂.transaction = none := by
    have fails : fallback.run hardware m₁ = (.failed (.bitOutOfRange 8), m₁) := rfl
    cases fails.symm.trans ran
  exact ⟨⟨rfl, honest, undisturbed, rfl, rfl, rfl, sound, releases, closes⟩,
    released_iff config action fallback rfl honest undisturbed rfl rfl rfl sound releases closes⟩

/-- The flag of a call is still set after its fallback has failed, here on the bit of a word and outside of any
transaction. No later call on the flag can go on: one with attempts makes them all in vain, and one without
waits for the flag. -/
theorem not_released_of_failure :
    let hardware := Schedule.ofList []
    let m := Machine.initial ⟨#[0]⟩
    let fallback : Program Unit := do
      let _ ← Native.operation 1 ⟨.seqCst, .seqCst⟩ (.changeBit .set) ⟨0, 0, 0, 0, 8⟩
    ∃ operation, table .genericWithFallback = some operation ∧
      let result := (operation (write 0 3) fallback ⟨1, 0, some 0⟩).run hardware m
      result.1 = .failed (.bitOutOfRange 8) ∧ result.2.transaction = none ∧ ¬ Released 0 result ∧
      ((transact ⟨1, 2, some 0⟩ (write 0 3)).run hardware result.2).1 =
        .returned (none, ⟨.pack .abortExplicit flagReason .flagSet, 2⟩) ∧
      ((operation (write 0 3) (write 0 4) ⟨1, 0, some 0⟩).run hardware result.2).1 = .spinning := by
  refine ⟨_, rfl, ?_, ?_, ?_, ?_, ?_⟩
  · rfl
  · rfl
  · exact fun released => Bool.noConfusion (show true = false from released)
  · decide +kernel
  · rfl

end Speculative

end AtomicTables
