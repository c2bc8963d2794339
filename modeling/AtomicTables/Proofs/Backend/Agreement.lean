import AtomicTables.Proofs.Backend.Atomicity
import AtomicTables.Proofs.Backend.Words
import AtomicTables.Script

/-!
# Agreement of the domains

An operation of the implicit domain, one of the explicit domain and a transaction that commits do the same
to memory and answer the same (`agree`).
-/

namespace AtomicTables

section

variable [FlagSpace]

namespace Speculative
open Program

theorem onMemory_report {o : Operands} {n : Nat} {fetch : Bool} (apart : fetch → Apart o.result o.object n)
    (m : Memory) :
    (report fetch o n).onMemory m = some (.ok (), m.report fetch o.result (m.word o.object n)) := by
  cases fetch with
  | true => exact Span.onMemory_copy (.inr (apart rfl)) m
  | false => rfl

theorem onMemory_body_of_counted {o : Operands} {width : UInt64} {s : ObjectSlot}
    (counted : s.category = .bit → 8 * width.toNat < UInt64.size) (proper : o.Proper width.toNat s) (m : Memory) :
    (body o width s).onMemory m =
      some (.ok (s.effect o width.toNat m).1, (s.effect o width.toNat m).2) := by
  cases s with
  | store => exact Span.onMemory_copy proper m
  | load => exact Span.onMemory_copy (.inr proper) m
  | exchange =>
      obtain ⟨argument, object, apart⟩ := proper
      refine onMemory_seq (Span.onMemory_copy (.inr object) m) ?_
      refine (Span.onMemory_copy argument _).trans ?_
      rw [Memory.word_putWord apart, Memory.putWord_comm object]
      rfl
  | compareExchange =>
      obtain ⟨argument, object, -⟩ := proper
      refine onMemory_seq (Span.onMemory_equal _ _ _ m) ?_
      by_cases same : m.word o.object width.toNat = m.word o.expected width.toNat
      · simp only [same, ObjectSlot.effect, if_true, decide_true]
        exact onMemory_seq (Span.onMemory_copy argument m) rfl
      · simp only [same, ObjectSlot.effect, if_false, decide_false]
        exact onMemory_seq (Span.onMemory_copy (.inr object) m) rfl
  | testBit => exact Span.onMemory_testBit _ (counted rfl) proper m
  | changeBit change => exact Span.onMemory_changeBit change _ (counted rfl) proper m
  | binary op fetch =>
      obtain ⟨argument, apart⟩ := proper
      refine onMemory_seq (onMemory_report (fun fetched => (apart fetched).1) m) ?_
      refine (Span.onMemory_binary op argument _).trans ?_
      rw [Memory.word_report fun fetched => (apart fetched).1,
        Memory.word_report fun fetched => (apart fetched).2,
        Memory.putWord_report fun fetched => (apart fetched).1]
      rfl
  | unary op fetch =>
      refine onMemory_seq (onMemory_report proper m) ?_
      refine (Span.onMemory_unary op _ _ _).trans ?_
      rw [Memory.word_report proper, Memory.putWord_report proper]
      rfl

theorem onMemory_body {o : Operands} {width : UInt64} (small : 8 * width.toNat < UInt64.size) {s : ObjectSlot}
    (proper : o.Proper width.toNat s) (m : Memory) :
    (body o width s).onMemory m =
      some (.ok (s.effect o width.toNat m).1, (s.effect o width.toNat m).2) :=
  onMemory_body_of_counted (fun _ => small) proper m

end Speculative

def Backend.HasWords (backend : Backend) (width : UInt64) : Prop :=
  (backend = Native.backend ∧ width.toNat ∈ Native.widths) ∨
    (backend = Wide.backend ∧ width.toNat = Wide.width)

namespace Backend.HasWords

variable {backend : Backend} {width : UInt64}

theorem le (words : backend.HasWords width) : width.toNat ≤ 16 := by
  rcases words with ⟨-, native⟩ | ⟨-, wide⟩
  · simp only [Native.widths, List.mem_cons, List.not_mem_nil, or_false] at native
    omega
  · exact wide.le

theorem tables_of_fit (words : backend.HasWords width) {s : ObjectSlot} {order : MemoryOrder}
    (admits : s.admits order) {orders : Orders} (fit : orders.Fit s) {o : Operands}
    (bitInside : o.BitInside width.toNat s) :
    ∃ implicit explicit, (backend.implicit width order).table s = some implicit ∧
      (backend.explicit width).table s = some explicit ∧
      ∀ m, (implicit o).onMemory m =
          some (.ok (s.effect o width.toNat m).1, (s.effect o width.toNat m).2) ∧
        (explicit o orders).onMemory m =
          some (.ok (s.effect o width.toNat m).1, (s.effect o width.toNat m).2) := by
  rcases words with ⟨rfl, native⟩ | ⟨rfl, wide⟩
  · obtain ⟨implicit, explicit, inImplicit, inExplicit, same⟩ := Native.tables native admits fit
    refine ⟨implicit, explicit, inImplicit, inExplicit, fun m => ?_⟩
    rw [(same o).1, (same o).2]
    exact ⟨Cell.onMemory_operation (Native.faithful_cell ..) bitInside m,
      Cell.onMemory_operation (Native.faithful_cell ..) bitInside m⟩
  · obtain ⟨implicit, explicit, inImplicit, inExplicit, same⟩ := Wide.tables wide admits fit
    refine ⟨implicit, explicit, inImplicit, inExplicit, fun m => ?_⟩
    rw [(same o).1, (same o).2, and_self, wide]
    rw [wide] at bitInside
    exact Cell.onMemory_operation (Wide.faithful_cell ..) bitInside m

theorem tables (words : backend.HasWords width) {s : ObjectSlot} {order : MemoryOrder}
    (admits : s.admits order) {o : Operands} (proper : o.Proper width.toNat s) :
    ∃ implicit explicit, (backend.implicit width order).table s = some implicit ∧
      (backend.explicit width).table s = some explicit ∧
      ∀ m, (implicit o).onMemory m =
          some (.ok (s.effect o width.toNat m).1, (s.effect o width.toNat m).2) ∧
        (explicit o ⟨order, order.failureOrder⟩).onMemory m =
          some (.ok (s.effect o width.toNat m).1, (s.effect o width.toNat m).2) :=
  words.tables_of_fit admits (Orders.fit_of_admits admits) proper.bitInside

/-- The slot is filled in the three domains. What fills it in the implicit domain and in the explicit one
answers the same and leaves the same state, and so does the transaction if it reports a success. -/
def Agree (backend : Backend) (s : ObjectSlot) (order : MemoryOrder) (o : Operands) (config : Config)
    (hardware : Schedule) (m : Machine) : Prop :=
  ∃ implicit explicit transactional,
    (backend.implicit config.width order).table s = some implicit ∧
    (backend.explicit config.width).table s = some explicit ∧
    Speculative.backend.transactional.table (.object s) = some transactional ∧
    ∃ answer store,
      (implicit o).run hardware m = (.returned answer, { m with store := store }) ∧
      (explicit o ⟨order, order.failureOrder⟩).run hardware m =
        (.returned answer, { m with store := store }) ∧
      match (transactional o config).run hardware m with
      | (.returned (answer', outcome), m') => outcome.isSuccess → answer' = answer ∧ m'.store = store
      | _ => False

theorem agree {config : Config} (words : backend.HasWords config.width) {s : ObjectSlot}
    {order : MemoryOrder} (admits : s.admits order) {o : Operands} (proper : o.Proper config.width.toNat s)
    {hardware : Schedule} (honest : hardware.Honest) (undisturbed : hardware.Undisturbed) {m : Machine}
    (closed : m.transaction = none) : Agree backend s order o config hardware m := by
  obtain ⟨implicit, explicit, inImplicit, inExplicit, onMemory⟩ := words.tables admits proper
  have small : 8 * config.width.toNat < UInt64.size := by
    have bound := words.le
    rw [UInt64.size]
    omega
  obtain ⟨transactional, inTable, ending, m', ran, taken⟩ :=
    (Speculative.Call.object s o).run_invoke config honest undisturbed closed trivial
  refine ⟨implicit, explicit, transactional, inImplicit, inExplicit, inTable, _, _,
    Program.run_of_onMemory (onMemory _).1 closed hardware,
    Program.run_of_onMemory (onMemory _).2 closed hardware, ?_⟩
  have body := Program.isolated_of_onMemory (s := m.store)
    (Speculative.onMemory_body small proper m.store.memory) 0
  change (transactional o config).run hardware m = _ at ran
  rw [ran]
  cases taken with
  | all begun log success isolated =>
      obtain ⟨rfl, -, rfl⟩ := Isolated.finished.inj (isolated.symm.trans body)
      exact fun _ => ⟨rfl, rfl⟩
  | nothing begun log failure => exact fun success => absurd success failure
  | violation isolated => cases isolated.symm.trans body

end Backend.HasWords

end

namespace Backend.HasWords

theorem agree_interrupted :
    let hardware := Schedule.ofList [⟨none, some (70, 0), none, none, none⟩]
    let m := Machine.initial ⟨Array.replicate 48 200⟩
    let o : Operands := ⟨0, 16, 32, 0, 0⟩
    let config : Config := ⟨16, 2, none⟩
    let s : ObjectSlot := .binary .add true
    (HasWords Wide.backend config.width ∧ s.admits .acqRel ∧ o.Proper config.width.toNat s ∧
      hardware.Honest ∧ hardware.Undisturbed ∧ m.transaction = none) ∧
    Agree Wide.backend s .acqRel o config hardware m ∧
    ∃ transactional, Speculative.backend.transactional.table (.object s) = some transactional ∧
      ((transactional o config).run hardware m).1 = .returned ((), ⟨.success, 2⟩) := by
  intro hardware m o config s
  have words : HasWords Wide.backend config.width := .inr ⟨rfl, rfl⟩
  have proper : o.Proper config.width.toNat s := by
    refine ⟨?_, fun _ => ⟨?_, ?_⟩⟩ <;> decide
  have honest : hardware.Honest := Schedule.honest_ofList (by simp [Fate.words, Status.started])
  have undisturbed : hardware.Undisturbed := Schedule.undisturbed_ofList (by simp)
  have committed : ((Speculative.objectOperation s o config).run hardware m).1 = .returned ((), ⟨.success, 2⟩) := by
    cbv
  exact ⟨⟨words, rfl, proper, honest, undisturbed, rfl⟩, agree words rfl proper honest undisturbed rfl,
    _, rfl, committed⟩

end Backend.HasWords

end AtomicTables
