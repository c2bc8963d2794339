import AtomicTables.Proofs.Capabilities
import AtomicTables.Proofs.Registry.Registered

namespace AtomicTables

theorem Registration.isEnabled_iff (r : Registration) (capabilities : Capabilities) :
    r.isEnabled capabilities ↔ r.compiled ∧ ∀ b, r.requires.has b → capabilities.has b := by
  rw [isEnabled, Bool.and_eq_true, Capabilities.covers_iff]

theorem Registration.isEnabled_of_covers {r : Registration} {c d : Capabilities} (covers : c.covers d)
    (enabled : r.isEnabled d) : r.isEnabled c := by
  rw [Capabilities.covers_iff] at covers
  rw [isEnabled_iff] at enabled ⊢
  exact ⟨enabled.1, fun b required => covers b (enabled.2 b required)⟩

theorem contains_availableWith {c d : Capabilities} (covers : c.covers d) :
    (availableWith c).contains (availableWith d) := by
  refine (BitSet.contains_iff _ _).2 fun i has => ?_
  have inside : i < 32 := BitVec.lt_of_getLsbD has
  have available (capabilities : Capabilities) : (availableWith capabilities).has i ↔
      ∃ r ∈ registry, r.id = .bit ⟨i, inside⟩ ∧ r.isEnabled capabilities := by
    rw [← BackendId.isIn_availableWith, BackendId.isIn, Bool.and_eq_true, bne_iff_ne,
      and_iff_right (by simp), BackendId.contains_asSet_bit]
  rw [available] at has ⊢
  obtain ⟨r, mem, same, enabled⟩ := has
  exact ⟨r, mem, same, Registration.isEnabled_of_covers covers enabled⟩

/-- Sets of capabilities are the sets of numbers that they have, and the backends available under a set are
those that require no other number. -/
theorem sets_and_availability :
    (∀ (k : Capabilities.Construction) (b : UInt8), k.set.has b ↔ b ∈ k.inserted) ∧
    (∀ c : Capabilities, ∃ k : Capabilities.Construction, k.set = c) ∧
    (∀ c d : Capabilities, c.covers d ↔ ∀ b, d.has b → c.has b) ∧
    (∀ c : Capabilities, c.count = {b | c.has b}.ncard) ∧
    (∀ c d : Capabilities, c ∪ d = d ∪ c) ∧
    (∀ c d e : Capabilities, c ∪ d ∪ e = c ∪ (d ∪ e)) ∧
    (∀ c : Capabilities, c ∪ c = c) ∧
    (∀ c d : Capabilities, c = d ↔ ∀ b, c.has b = d.has b) ∧
    (∀ (c : Capabilities) (id : BackendId), id.isIn (availableWith c) ↔
      ∃ r ∈ registry, r.id = id ∧ r.compiled ∧ ∀ b, r.requires.has b → c.has b) ∧
    ∀ c d : Capabilities, c.covers d → (availableWith c).contains (availableWith d) := by
  refine ⟨Capabilities.Construction.has_set_iff, Capabilities.exists_set_eq, Capabilities.covers_iff,
    Capabilities.count_eq_ncard, fun c d => Capabilities.ext_has fun b => ?_,
    fun c d e => Capabilities.ext_has fun b => ?_, fun c => Capabilities.ext_has fun b => ?_,
    fun c d => ⟨?_, Capabilities.ext_has⟩, fun c id => ?_, fun c d => contains_availableWith⟩
  · simp [Bool.or_comm]
  · simp [Bool.or_assoc]
  · simp
  · rintro rfl b
    rfl
  · simp only [BackendId.isIn_availableWith, Registration.isEnabled_iff]

theorem sets_and_availability_transactions :
    let c : Capabilities := .transactions ∪ .single 200
    c.covers .transactions ∧ (availableWith c).contains (availableWith .transactions) := by
  intro c
  obtain ⟨-, -, -, -, -, -, -, -, -, mono⟩ := sets_and_availability
  have covers : c.covers .transactions := by decide
  exact ⟨covers, mono c .transactions covers⟩

end AtomicTables
