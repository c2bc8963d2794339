import AtomicTables.Proofs.Backend.Agreement
import AtomicTables.Proofs.Slot.Numbers
import AtomicTables.Script

/-!
# Numbers of any width

The operations on spans compute with the numbers in them exactly, and so does every transaction on an object that
commits (`computes_exactly`). The bits of `2 ^ 61` bytes and more cannot be counted in 64 bits, and an operation on
one of them is refused.
-/

namespace AtomicTables

open Memory

section

variable [FlagSpace]

def Program.Yields {α : Type} (p : Program α) (hardware : Schedule) (m : Machine) (answer : α)
    (after : Memory → Prop) : Prop :=
  ∃ memory, p.run hardware m = (.returned answer, { m with store := { m.store with memory := memory } }) ∧
    after memory

theorem Program.yields_of_onMemory {α : Type} {p : Program α} {m : Machine} {answer : α} {memory : Memory}
    {after : Memory → Prop} (onMemory : p.onMemory m.store.memory = some (.ok answer, memory))
    (closed : m.transaction = none) (holds : after memory) (hardware : Schedule) :
    p.Yields hardware m answer after :=
  ⟨memory, run_of_onMemory onMemory closed hardware, holds⟩

namespace Span

structure Exact (hardware : Schedule) (m : Machine) (target argument n : Nat) : Prop where
  copy : (Span.copy target argument n).Yields hardware m ()
    (Leaves [(target, m.store.memory.value argument n)] n m.store.memory)
  equal : (Span.equal target argument n).run hardware m =
    (.returned (decide (m.store.memory.value target n = m.store.memory.value argument n)), m)
  binary (op : BinaryOp) : (Span.binary op target argument n).Yields hardware m ()
    (Leaves [(target, op.onNumbers n (m.store.memory.value target n) (m.store.memory.value argument n))] n
      m.store.memory)
  unary (op : UnaryOp) : (Span.unary op target n).Yields hardware m ()
    (Leaves [(target, op.onNumber n (m.store.memory.value target n))] n m.store.memory)
  testBit {bit width : UInt64} (same : width.toNat = n) (inside : bit.toNat < 8 * n) :
    (Span.testBit target bit width).run hardware m =
      (if 8 * n < UInt64.size then .returned ((m.store.memory.value target n).testBit bit.toNat)
        else .failed .spanTooWide, m)
  changeBit (change : BitChange) {bit width : UInt64} (same : width.toNat = n) (inside : bit.toNat < 8 * n) :
    if 8 * n < UInt64.size then
      (Span.changeBit change target bit width).Yields hardware m
        ((m.store.memory.value target n).testBit bit.toNat) fun memory =>
          ∃ x, change.Changes bit.toNat (m.store.memory.value target n) x ∧
            Leaves [(target, x)] n m.store.memory memory
    else (Span.changeBit change target bit width).run hardware m = (.failed .spanTooWide, m)

theorem exact (hardware : Schedule) {m : Machine} (closed : m.transaction = none) {target argument n : Nat}
    (spans : SameOrApart target argument n) (inside : target + n ≤ m.store.memory.size) :
    Exact hardware m target argument n where
  copy := by
    refine Program.yields_of_onMemory (onMemory_copy spans _) closed ?_ hardware
    exact leaves_putWord_word inside _
  equal := by
    rw [← decide_eq_decide.2 word_inj]
    exact Program.run_of_onMemory (onMemory_equal ..) closed hardware
  binary op := by
    rw [← toNat_word, ← toNat_word, ← op.toNat_apply]
    exact Program.yields_of_onMemory (onMemory_binary op spans _) closed (leaves_putWord inside _) hardware
  unary op := by
    rw [← toNat_word, ← op.toNat_apply]
    exact Program.yields_of_onMemory (onMemory_unary op ..) closed (leaves_putWord inside _) hardware
  testBit {bit width} same bitInside := by
    subst same
    split
    · rename_i small
      rw [← getLsbD_word_eq_testBit]
      exact Program.run_of_onMemory (onMemory_testBit target small bitInside _) closed hardware
    · rename_i wide
      exact Program.run_of_onMemory (onMemory_testBit_wide wide ..) closed hardware
  changeBit change {bit width} same bitInside := by
    subst same
    split
    · rename_i small
      rw [← getLsbD_word_eq_testBit, ← toNat_word]
      refine Program.yields_of_onMemory (onMemory_changeBit change target small bitInside _) closed ?_ hardware
      exact ⟨_, change.changes_apply _ bitInside, leaves_putWord inside _⟩
    · rename_i wide
      exact Program.run_of_onMemory (onMemory_changeBit_wide wide ..) closed hardware

end Span

namespace Speculative
open Program

theorem onMemory_body_cases {o : Operands} {width : UInt64} {s : ObjectSlot} (proper : o.Proper width.toNat s)
    (m : Memory) :
    (body o width s).onMemory m = some (.ok (s.effect o width.toNat m).1, (s.effect o width.toNat m).2) ∨
      UInt64.size ≤ 8 * width.toNat ∧ (body o width s).onMemory m = some (.error .spanTooWide, m) := by
  by_cases small : 8 * width.toNat < UInt64.size
  · exact .inl (onMemory_body small proper m)
  · have wide := Nat.not_lt.1 small
    cases s with
    | testBit => exact .inr ⟨wide, Span.onMemory_testBit_wide small ..⟩
    | changeBit => exact .inr ⟨wide, Span.onMemory_changeBit_wide small ..⟩
    | store | load | exchange | compareExchange =>
        exact .inl (onMemory_body_of_counted (fun bit => by cases bit) proper m)
    | binary | unary =>
        refine .inl (onMemory_body_of_counted (fun bit => ?_) proper m)
        exact absurd bit (Category.ofVariant_ne_bit _ _)

/-- The slot is filled. If the call reports a success, then it has computed with the numbers in its object and
buffers, and nothing else has changed. It can fail only because the bits of the object cannot be counted. -/
def CommitsExactly (s : ObjectSlot) (o : Operands) (config : Config) (hardware : Schedule) (m : Machine) : Prop :=
  ∃ operation, table (.object s) = some operation ∧
    match (operation o config).run hardware m with
    | (.returned (answer, outcome), m') => outcome.isSuccess →
        s.Computes o config.width.toNat m.store.memory answer m'.store.memory ∧ m'.store.flags = m.store.flags
    | (.failed v, _) => v = .spanTooWide ∧ UInt64.size ≤ 8 * config.width.toNat
    | _ => False

theorem commitsExactly {s : ObjectSlot} {o : Operands} {config : Config} {hardware : Schedule}
    (honest : hardware.Honest) (undisturbed : hardware.Undisturbed) {m : Machine} (closed : m.transaction = none)
    (proper : o.Proper config.width.toNat s)
    (inside : ∀ a ∈ o.targets s, a + config.width.toNat ≤ m.store.memory.size) :
    CommitsExactly s o config hardware m := by
  rcases onMemory_body_cases proper m.store.memory with onMemory | ⟨wide, onMemory⟩
  · obtain ⟨operation, filled, answer, outcome, m', ran, committed⟩ :=
      (Call.object s o).run_of_onMemory config honest undisturbed closed trivial onMemory
    refine ⟨operation, filled, ?_⟩
    change (operation o config).run hardware m = _ at ran
    rw [ran]
    intro success
    obtain ⟨rfl, -, store⟩ := committed success
    rw [store]
    exact ⟨ObjectSlot.computes_effect proper inside, rfl⟩
  · obtain ⟨operation, filled, ending, m', ran, taken⟩ :=
      (Call.object s o).run_invoke config honest undisturbed closed trivial
    refine ⟨operation, filled, ?_⟩
    change (operation o config).run hardware m = _ at ran
    rw [ran]
    -- The body counts the bits before it does anything else, so it cannot have committed.
    have body := isolated_of_onMemory (s := m.store) onMemory 0
    cases taken with
    | all begun log success isolated => cases isolated.symm.trans body
    | nothing begun log failure => exact fun success => absurd success failure
    | violation isolated =>
        obtain ⟨rfl, -⟩ := Isolated.failed.inj (isolated.symm.trans body)
        exact ⟨rfl, wide⟩

theorem computes_exactly {hardware : Schedule} (honest : hardware.Honest) (undisturbed : hardware.Undisturbed)
    {m : Machine} (closed : m.transaction = none) {target argument n : Nat}
    (spans : SameOrApart target argument n) (inside : target + n ≤ m.store.memory.size)
    {s : ObjectSlot} {o : Operands} {config : Config} (proper : o.Proper config.width.toNat s)
    (written : ∀ a ∈ o.targets s, a + config.width.toNat ≤ m.store.memory.size) :
    Span.Exact hardware m target argument n ∧ CommitsExactly s o config hardware m :=
  ⟨Span.exact hardware closed spans inside, commitsExactly honest undisturbed closed proper written⟩

end Speculative

end

namespace Speculative
open Program

theorem computes_exactly_carry :
    let hardware := Schedule.ofList [⟨none, some (12, 0), none, none, none⟩]
    let m := Machine.initial ⟨#[255, 255, 0, 1, 0, 0, 7, 7, 7]⟩
    let s : ObjectSlot := .binary .add true
    let o : Operands := ⟨0, 3, 6, 0, 0⟩
    let config : Config := ⟨3, 2, none⟩
    (hardware.Honest ∧ hardware.Undisturbed ∧ m.transaction = none ∧ SameOrApart 0 3 3 ∧
      0 + 3 ≤ m.store.memory.size ∧ o.Proper config.width.toNat s ∧
      ∀ a ∈ o.targets s, a + config.width.toNat ≤ m.store.memory.size) ∧
    (Span.Exact hardware m 0 3 3 ∧ CommitsExactly s o config hardware m) ∧
    ∃ operation, table (.object s) = some operation ∧
      ((operation o config).run hardware m).1 = .returned ((), ⟨.success, 2⟩) := by
  intro hardware m s o config
  have honest : hardware.Honest := Schedule.honest_ofList (by simp [Fate.words, Status.started])
  have undisturbed : hardware.Undisturbed := Schedule.undisturbed_ofList (by simp)
  have spans : SameOrApart 0 3 3 := by decide
  have inside : 0 + 3 ≤ m.store.memory.size := by decide
  have proper : o.Proper config.width.toNat s := by
    refine ⟨?_, fun _ => ⟨?_, ?_⟩⟩ <;> decide
  have written : ∀ a ∈ o.targets s, a + config.width.toNat ≤ m.store.memory.size := by decide
  have committed : ((objectOperation s o config).run hardware m).1 = .returned ((), ⟨.success, 2⟩) := by cbv
  exact ⟨⟨honest, undisturbed, rfl, spans, inside, proper, written⟩,
    computes_exactly honest undisturbed rfl spans inside proper written, _, rfl, committed⟩

end Speculative

end AtomicTables
