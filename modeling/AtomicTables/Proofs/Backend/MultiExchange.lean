import AtomicTables.Proofs.Backend.Atomicity
import AtomicTables.Proofs.Program.Legs
import AtomicTables.Script

/-!
# Compare-exchange of several objects

A transaction that commits replaces all objects, or reports them all, and then the next one finds them as expected
(`exchangesObjects`). The operations on one object and on two are this operation, wherever their spans are.
-/

namespace AtomicTables

section

variable [FlagSpace]

def Operands.leg (o : Operands) : Span.Leg := ⟨o.object, o.expected, o.argument⟩

theorem Span.compareExchangeAll_singleton (leg : Leg) (n : Nat) :
    compareExchangeAll [leg] n = compareExchange leg.object leg.expected leg.desired n := by
  rw [compareExchangeAll, allEqual, Program.seq_assoc, compareExchange]
  congr 1
  funext same
  cases same with
  | true => exact Program.seq_assoc (copy leg.object leg.desired n) _ _
  | false => exact Program.seq_assoc (copy leg.expected leg.object n) _ _

namespace Speculative
open Program

/-- The call ends. If it reports a success, then it has replaced the objects, or reported them, and nothing else
has changed. Objects that it has reported are as the next call expects them, if that reports a success too. -/
def ExchangesObjects (operation : TransactionOperation .multiCompareExchange) (legs : List Span.Leg) (config : Config)
    (hardware : Schedule) (m : Machine) : Prop :=
  match (operation legs config).run hardware m with
  | (.returned (answer, outcome), m') => outcome.isSuccess →
      m'.store.flags = m.store.flags ∧
      Span.ExchangesAll legs config.width.toNat m.store.memory answer m'.store.memory ∧
      (answer = false → ∀ again : Config, again.width = config.width →
        match (operation legs again).run hardware m' with
        | (.returned (answer', outcome'), _) => outcome'.isSuccess → answer' = true
        | _ => False)
  | _ => False

variable {hardware : Schedule} {m : Machine} {legs : List Span.Leg} {config : Config}

theorem run_compareExchangeAll (honest : hardware.Honest) (undisturbed : hardware.Undisturbed)
    (closed : m.transaction = none) (separate : Span.Separate legs config.width.toNat m.store.memory.size) :
    ∃ answer outcome m', (transactBool config (Span.compareExchangeAll legs config.width.toNat)).run hardware m =
        (.returned (answer, outcome), m') ∧
      (outcome.isSuccess → m'.transaction = none ∧ m'.store.flags = m.store.flags ∧
        Span.ExchangesAll legs config.width.toNat m.store.memory answer m'.store.memory) := by
  obtain ⟨answer, memory, onMemory, exchanges⟩ := Span.onMemory_compareExchangeAll separate
  obtain ⟨operation, filled, answer', outcome, m', ran, committed⟩ :=
    (Call.multiCompareExchange legs).run_of_onMemory config honest undisturbed closed trivial onMemory
  cases filled
  refine ⟨answer', outcome, m', ran, fun success => ?_⟩
  obtain ⟨rfl, closed', store⟩ := committed success
  rw [store]
  exact ⟨closed', rfl, exchanges⟩

theorem exchangesObjects (honest : hardware.Honest) (undisturbed : hardware.Undisturbed)
    (closed : m.transaction = none) (separate : Span.Separate legs config.width.toNat m.store.memory.size) :
    ∃ operation, table .multiCompareExchange = some operation ∧
      ExchangesObjects operation legs config hardware m ∧
      (∃ double, table .doubleCompareExchange = some double ∧
        ∀ a b config, double a b config = operation [a, b] config) ∧
      ∀ strength, ∃ single, table (.object (.compareExchange strength)) = some single ∧
        ∀ o config, single o config = operation [o.leg] config := by
  refine ⟨_, rfl, ?_, ⟨_, rfl, fun _ _ _ => rfl⟩, fun strength => ⟨_, rfl, fun o config => ?_⟩⟩
  · obtain ⟨answer, outcome, m', ran, committed⟩ := run_compareExchangeAll honest undisturbed closed separate
    rw [ExchangesObjects, ran]
    intro success
    obtain ⟨closed', flags, exchanges⟩ := committed success
    refine ⟨flags, exchanges, fun differs again sameWidth => ?_⟩
    -- The next call begins where all objects are as it expects them.
    subst differs
    have separate' : Span.Separate legs again.width.toNat m'.store.memory.size := by
      rw [sameWidth, (exchanges.reports rfl).outside.size]
      exact separate
    obtain ⟨answer', outcome', m'', ran', committed'⟩ :=
      run_compareExchangeAll honest undisturbed closed' separate'
    rw [ran']
    intro success'
    have found := exchanges.found
    rw [← sameWidth] at found
    exact (committed' success').2.2.compares.2 found
  · rw [Span.compareExchangeAll_singleton]
    rfl

end Speculative

end

namespace Speculative
open Program

theorem exchangesObjects_interrupted :
    let hardware := Schedule.ofList [⟨none, some (10, 0), none, none, none⟩]
    let m := Machine.initial ⟨#[1, 1, 1, 1, 2, 2, 3, 3, 4, 4, 5, 5]⟩
    let legs : List Span.Leg := [⟨0, 2, 4⟩, ⟨6, 8, 10⟩]
    let config : Config := ⟨2, 2, none⟩
    (hardware.Honest ∧ hardware.Undisturbed ∧ m.transaction = none ∧
      Span.Separate legs config.width.toNat m.store.memory.size) ∧
    ∃ operation, table .multiCompareExchange = some operation ∧
      ExchangesObjects operation legs config hardware m ∧
      (∃ double, table .doubleCompareExchange = some double ∧
        ∀ a b config, double a b config = operation [a, b] config) ∧
      (∀ strength, ∃ single, table (.object (.compareExchange strength)) = some single ∧
        ∀ o config, single o config = operation [o.leg] config) ∧
      ((operation legs config).run hardware m).1 = .returned (false, ⟨.success, 2⟩) := by
  intro hardware m legs config
  have honest : hardware.Honest := Schedule.honest_ofList (by simp [Fate.words, Status.started])
  have undisturbed : hardware.Undisturbed := Schedule.undisturbed_ofList (by simp)
  have separate : Span.Separate legs config.width.toNat m.store.memory.size := by decide
  obtain ⟨operation, filled, exchanges, double, single⟩ := exchangesObjects honest undisturbed rfl separate
  refine ⟨⟨honest, undisturbed, rfl, separate⟩, operation, filled, exchanges, double, single, ?_⟩
  cases filled
  cbv

end Speculative

end AtomicTables
