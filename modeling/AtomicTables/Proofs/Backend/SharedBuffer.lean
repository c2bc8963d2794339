import AtomicTables.Proofs.Backend.Agreement
import AtomicTables.Script

/-!
# One buffer for the argument and the result

An operation may be called with the same buffer for its argument and its result. Words read the argument before they
write the result. A transaction writes the result first, and so takes the old value of the object for its argument
(`exchanged_of_shared`).
-/

namespace AtomicTables

inductive ObjectSlot.Replaces (n : Nat) :
    ObjectSlot → (BitVec (8 * n) → BitVec (8 * n) → BitVec (8 * n)) → Prop where
  | exchange : Replaces n .exchange fun _ argument => argument
  | binary (op : BinaryOp) : Replaces n (.binary op true) op.apply

namespace Memory

variable {o : Operands} {n : Nat} {m : Memory}

def exchange (m : Memory) (o : Operands) {n : Nat} (new : BitVec (8 * n)) : Memory :=
  (m.putWord o.object new).putWord o.argument (m.word o.object n)

theorem leaves_exchange (apart : Apart o.object o.argument n) (object : o.object + n ≤ m.size)
    (argument : o.argument + n ≤ m.size) (new : BitVec (8 * n)) :
    Leaves [(o.object, new.toNat), (o.argument, (m.word o.object n).toNat)] n m (m.exchange o new) := by
  have second : o.argument + n ≤ (m.putWord o.object new).size := by
    rw [putWord, size_put]
    exact argument
  exact (leaves_putWord object new).trans (leaves_putWord second _) (by simpa using apart)

theorem exchange_inj (apart : Apart o.object o.argument n) (object : o.object + n ≤ m.size)
    {new new' : BitVec (8 * n)} : m.exchange o new = m.exchange o new' ↔ new = new' := by
  refine ⟨fun same => ?_, congrArg _⟩
  have words := congrArg (word · o.object n) same
  simpa only [exchange, word_putWord apart.symm, word_putWord_self object] using words

end Memory

namespace ObjectSlot.Replaces

variable {n : Nat} {s : ObjectSlot} {f : BitVec (8 * n) → BitVec (8 * n) → BitVec (8 * n)}

theorem admits (replaces : s.Replaces n f) (order : MemoryOrder) : s.admits order := by
  cases replaces <;> rfl

theorem fit (replaces : s.Replaces n f) (orders : Orders) : orders.Fit s := by
  cases replaces <;> trivial

theorem bitInside (replaces : s.Replaces n f) (o : Operands) : o.BitInside n s := by
  cases replaces <;> trivial

theorem effect {o : Operands} (replaces : s.Replaces n f) (shared : o.result = o.argument) (m : Memory) :
    (s.effect o n m).2 = m.exchange o (f (m.word o.object n) (m.word o.argument n)) := by
  cases replaces with
  | exchange => rw [ObjectSlot.effect, shared, Memory.exchange]
  | binary op =>
      rw [ObjectSlot.effect, shared]
      rfl

end ObjectSlot.Replaces

section

variable [FlagSpace]

namespace Speculative
open Program Memory

theorem onMemory_body_of_shared {o : Operands} {width : UInt64} {s : ObjectSlot}
    {f : BitVec (8 * width.toNat) → BitVec (8 * width.toNat) → BitVec (8 * width.toNat)}
    (replaces : s.Replaces width.toNat f) (shared : o.result = o.argument)
    (apart : Apart o.object o.argument width.toNat) {m : Memory} (inside : o.argument + width.toNat ≤ m.size) :
    (body o width s).onMemory m = some (.ok (s.effect o width.toNat m).1,
      m.exchange o (f (m.word o.object width.toNat) (m.word o.object width.toNat))) := by
  have reported : (Span.copy o.result o.object width.toNat).onMemory m =
      some (.ok (), m.putWord o.argument (m.word o.object width.toNat)) := by
    rw [shared]
    exact Span.onMemory_copy (.inr apart.symm) m
  cases replaces with
  | exchange =>
      refine onMemory_seq reported ?_
      refine (Span.onMemory_copy (.inr apart) _).trans ?_
      rw [word_putWord_self inside, putWord_comm apart.symm]
      rfl
  | binary op =>
      refine onMemory_seq reported ?_
      refine (Span.onMemory_binary op (.inr apart) _).trans ?_
      rw [word_putWord_self inside, word_putWord apart.symm, putWord_comm apart.symm]
      rfl

end Speculative

namespace Backend.HasWords
open Memory

variable {backend : Backend}

/-- The slot is filled in the three domains. What fills it in the implicit domain and in the explicit one leaves
what `f` makes of the object and the argument in the object, and the old object in the shared buffer. A transaction
that commits leaves there what `f` makes of the object and itself. -/
def ExchangesShared (backend : Backend) (s : ObjectSlot) (order : MemoryOrder) (orders : Orders) (o : Operands)
    (config : Config) (hardware : Schedule) (m : Machine)
    (f : BitVec (8 * config.width.toNat) → BitVec (8 * config.width.toNat) → BitVec (8 * config.width.toNat)) :
    Prop :=
  let x := m.store.memory.word o.object config.width.toNat
  let y := m.store.memory.word o.argument config.width.toNat
  ∃ implicit explicit transactional,
    (backend.implicit config.width order).table s = some implicit ∧
    (backend.explicit config.width).table s = some explicit ∧
    Speculative.backend.transactional.table (.object s) = some transactional ∧
    ∃ answer memory,
      Leaves [(o.object, (f x y).toNat), (o.argument, x.toNat)] config.width.toNat m.store.memory memory ∧
      (implicit o).run hardware m = (.returned answer, { m with store := { m.store with memory := memory } }) ∧
      (explicit o orders).run hardware m =
        (.returned answer, { m with store := { m.store with memory := memory } }) ∧
      match (transactional o config).run hardware m with
      | (.returned (answer', outcome), m') => outcome.isSuccess →
          answer' = answer ∧ m'.store.flags = m.store.flags ∧
          Leaves [(o.object, (f x x).toNat), (o.argument, x.toNat)] config.width.toNat m.store.memory
            m'.store.memory ∧
          (m'.store.memory = memory ↔ f x x = f x y)
      | _ => False

theorem exchanged_of_shared {config : Config} (words : backend.HasWords config.width) {s : ObjectSlot}
    {f : BitVec (8 * config.width.toNat) → BitVec (8 * config.width.toNat) → BitVec (8 * config.width.toNat)}
    (replaces : s.Replaces config.width.toNat f) (order : MemoryOrder) (orders : Orders) {o : Operands}
    (shared : o.result = o.argument) (apart : Apart o.object o.argument config.width.toNat)
    {hardware : Schedule} (honest : hardware.Honest) (undisturbed : hardware.Undisturbed) {m : Machine}
    (closed : m.transaction = none) (object : o.object + config.width.toNat ≤ m.store.memory.size)
    (argument : o.argument + config.width.toNat ≤ m.store.memory.size) :
    ExchangesShared backend s order orders o config hardware m f := by
  obtain ⟨implicit, explicit, inImplicit, inExplicit, onMemory⟩ :=
    words.tables_of_fit (replaces.admits order) (replaces.fit orders) (replaces.bitInside o)
  obtain ⟨onImplicit, onExplicit⟩ := onMemory m.store.memory
  rw [replaces.effect shared] at onImplicit onExplicit
  obtain ⟨transactional, inTable, answer, outcome, m', ran, committed⟩ :=
    (Speculative.Call.object s o).run_of_onMemory config honest undisturbed closed trivial
      (Speculative.onMemory_body_of_shared replaces shared apart argument)
  refine ⟨implicit, explicit, transactional, inImplicit, inExplicit, inTable, _, _,
    leaves_exchange apart object argument _, Program.run_of_onMemory onImplicit closed hardware,
    Program.run_of_onMemory onExplicit closed hardware, ?_⟩
  change (transactional o config).run hardware m = _ at ran
  rw [ran]
  intro success
  obtain ⟨rfl, -, store⟩ := committed success
  rw [store]
  exact ⟨rfl, rfl, leaves_exchange apart object argument _, exchange_inj apart object⟩

end Backend.HasWords

end

namespace Backend.HasWords
open Memory

theorem exchanged_of_shared_interrupted :
    let hardware := Schedule.ofList [⟨none, some (9, 0), none, none, none⟩]
    let m := Machine.initial ⟨Array.replicate 32 200⟩
    let o : Operands := ⟨0, 16, 16, 0, 0⟩
    let config : Config := ⟨16, 2, none⟩
    let s : ObjectSlot := .binary .add true
    let orders : Orders := ⟨.release, .seqCst⟩
    (HasWords Wide.backend config.width ∧ s.Replaces config.width.toNat BinaryOp.add.apply ∧
      o.result = o.argument ∧ Apart o.object o.argument config.width.toNat ∧ hardware.Honest ∧
      hardware.Undisturbed ∧ m.transaction = none ∧
      o.object + config.width.toNat ≤ m.store.memory.size ∧
      o.argument + config.width.toNat ≤ m.store.memory.size) ∧
    ExchangesShared Wide.backend s .relaxed orders o config hardware m BinaryOp.add.apply ∧
    ∃ transactional, Speculative.backend.transactional.table (.object s) = some transactional ∧
      ((transactional o config).run hardware m).1 = .returned ((), ⟨.success, 2⟩) := by
  intro hardware m o config s orders
  have words : HasWords Wide.backend config.width := .inr ⟨rfl, rfl⟩
  have apart : Apart o.object o.argument config.width.toNat := by decide
  have honest : hardware.Honest := Schedule.honest_ofList (by simp [Fate.words, Status.started])
  have undisturbed : hardware.Undisturbed := Schedule.undisturbed_ofList (by simp)
  have object : o.object + config.width.toNat ≤ m.store.memory.size := by decide
  have argument : o.argument + config.width.toNat ≤ m.store.memory.size := by decide
  have committed : ((Speculative.objectOperation s o config).run hardware m).1 = .returned ((), ⟨.success, 2⟩) := by
    cbv
  exact ⟨⟨words, .binary .add, rfl, apart, honest, undisturbed, rfl, object, argument⟩,
    exchanged_of_shared words (.binary .add) .relaxed orders rfl apart honest undisturbed rfl object argument,
    _, rfl, committed⟩

/-- A byte is exchanged through one buffer. Words leave the argument in the object. The transaction commits, and
leaves the object as it was. -/
theorem not_exchanged_of_committed :
    let hardware := Schedule.ofList []
    let m := Machine.initial ⟨#[1, 2]⟩
    let o : Operands := ⟨0, 1, 1, 0, 0⟩
    ∃ implicit explicit transactional,
      (Native.backend.implicit 1 .seqCst).table .exchange = some implicit ∧
      (Native.backend.explicit 1).table .exchange = some explicit ∧
      Speculative.backend.transactional.table (.object .exchange) = some transactional ∧
      ((implicit o).run hardware m).2.store.memory = ⟨#[2, 1]⟩ ∧
      ((explicit o ⟨.seqCst, .seqCst⟩).run hardware m).2.store.memory = ⟨#[2, 1]⟩ ∧
      let result := (transactional o ⟨1, 1, none⟩).run hardware m
      result.1 = .returned ((), ⟨.success, 1⟩) ∧ result.2.store.memory = ⟨#[1, 1]⟩ ∧
      ¬ Leaves [(0, 2), (1, 1)] 1 m.store.memory result.2.store.memory := by
  intro hardware m o
  let transactional := Speculative.objectOperation .exchange o ⟨1, 1, none⟩
  have ran : transactional.run hardware m =
      (.returned ((), ⟨.success, 1⟩), ⟨⟨⟨#[1, 1]⟩, m.store.flags⟩, none, 1, []⟩) := by cbv
  have unchanged := congrArg (fun result => result.2.store.memory) ran
  refine ⟨_, _, _, rfl, rfl, rfl, rfl, rfl, congrArg Prod.fst ran, unchanged, fun leaves => ?_⟩
  have object : (transactional.run hardware m).2.store.memory.value 0 1 = 2 := leaves.holds (.head _)
  rw [ran] at object
  exact absurd object (by decide)

end Backend.HasWords

end AtomicTables
