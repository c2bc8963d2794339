import AtomicTables.Registry.Id
import Mathlib.Data.List.Induction

namespace AtomicTables

namespace BitSet

variable {layout : BitLayout}

theorem ext_has {s t : BitSet layout} (same : ∀ i, s.has i = t.has i) : s = t := by
  obtain ⟨a⟩ := s
  obtain ⟨b⟩ := t
  exact congrArg mk (BitVec.eq_of_getLsbD_eq fun i _ => same i)

@[simp] theorem has_empty (i : Nat) : (∅ : BitSet layout).has i = false :=
  BitVec.getLsbD_zero

@[simp] theorem has_union (s t : BitSet layout) (i : Nat) :
    (s ∪ t).has i = (s.has i || t.has i) :=
  BitVec.getLsbD_or

@[simp] theorem has_inter (s t : BitSet layout) (i : Nat) :
    (s ∩ t).has i = (s.has i && t.has i) :=
  BitVec.getLsbD_and

@[simp] theorem has_diff (s t : BitSet layout) (i : Nat) :
    (s \ t).has i = (s.has i && !t.has i) := by
  change (s.bits &&& ~~~t.bits).getLsbD i = (s.bits.getLsbD i && !t.bits.getLsbD i)
  rw [BitVec.getLsbD_and, BitVec.getLsbD_not]
  by_cases inside : i < layout.width
  · simp [inside]
  · simp [BitVec.getLsbD_of_ge s.bits i (Nat.le_of_not_lt inside)]

theorem has_foldl_union (sets : List (BitSet layout)) (s : BitSet layout) (i : Nat) :
    (sets.foldl union s).has i ↔ s.has i ∨ ∃ t ∈ sets, t.has i := by
  induction sets generalizing s with
  | nil => simp
  | cons t sets ih =>
      have both : (s.union t).has i = (s.has i || t.has i) := has_union s t i
      simp [ih, both, or_assoc]

theorem has_unions (sets : List (BitSet layout)) (i : Nat) :
    (unions sets).has i ↔ ∃ s ∈ sets, s.has i := by
  rw [unions, has_foldl_union, has_empty, Bool.false_eq_true, false_or]

theorem has_single (i j : Nat) :
    (single i : BitSet layout).has j = (decide (i < layout.width) && decide (i = j)) :=
  BitVec.getLsbD_twoPow i j

theorem has_all (i : Nat) :
    (all : BitSet layout).has i = (decide (i < layout.width) && decide (i < layout.names.length)) := by
  change (BitVec.ofNat layout.width (2 ^ layout.names.length - 1)).getLsbD i = _
  rw [BitVec.getLsbD_ofNat, Nat.testBit_two_pow_sub_one]

theorem has_truncate (s : BitSet layout) (i : Nat) :
    s.truncate.has i = (s.has i && decide (i < layout.names.length)) := by
  rw [truncate, has_inter, has_all]
  cases has : s.has i with
  | false => rfl
  | true => simp [show i < layout.width from BitVec.lt_of_getLsbD has]

theorem contains_iff (s t : BitSet layout) :
    s.contains t ↔ ∀ i, t.has i → s.has i := by
  have empty_iff : t \ s = ∅ ↔ t.bits &&& ~~~s.bits = BitVec.ofNat _ 0 :=
    ⟨congrArg bits, fun h => congrArg mk h⟩
  rw [contains, beq_iff_eq, empty_iff, BitVec.eq_of_getLsbD_eq_iff]
  constructor
  · intro h i ht
    have inside : i < layout.width := BitVec.lt_of_getLsbD ht
    simpa [has, inside, show t.bits.getLsbD i = true from ht] using h i inside
  · intro h i inside
    cases ht : t.bits.getLsbD i
    · simp [ht]
    · simp [ht, show s.bits.getLsbD i = true from h i ht]

variable {α : Type} {s t : BitSet layout} {asSet : α → BitSet layout} {p q : α → Prop}

/-- The set has the bits of the values that satisfy `p`, and no other bit. -/
def Collects (s : BitSet layout) (asSet : α → BitSet layout) (p : α → Prop) : Prop :=
  ∀ i, s.has i ↔ ∃ a, (asSet a).has i ∧ p a

theorem collects_unions (asSet : α → BitSet layout) (l : List α) :
    (unions (l.map asSet)).Collects asSet (· ∈ l) := by
  intro i
  rw [has_unions]
  simp [and_comm]

namespace Collects

theorem congr (h : s.Collects asSet p) (same : ∀ a, p a ↔ q a) : s.Collects asSet q := by
  intro i
  rw [h i]
  simp only [same]

theorem ext (hs : s.Collects asSet p) (ht : t.Collects asSet p) : s = t :=
  ext_has fun i => Bool.eq_iff_iff.2 ((hs i).trans (ht i).symm)

theorem union (hs : s.Collects asSet p) (ht : t.Collects asSet q) :
    (s ∪ t).Collects asSet fun a => p a ∨ q a := by
  intro i
  rw [has_union, Bool.or_eq_true, hs i, ht i, ← exists_or]
  simp only [and_or_left]

theorem contains (hs : s.Collects asSet p) (ht : t.Collects asSet q) (weaker : ∀ a, q a → p a) :
    s.contains t := by
  refine (contains_iff s t).2 fun i has => ?_
  obtain ⟨a, bit, holds⟩ := (ht i).1 has
  exact (hs i).2 ⟨a, bit, weaker a holds⟩

theorem eq_empty_iff (h : s.Collects asSet p) (bits : ∀ a, ∃ i, (asSet a).has i) :
    s = ∅ ↔ ∀ a, ¬ p a := by
  constructor
  · rintro rfl a holds
    obtain ⟨i, bit⟩ := bits a
    exact absurd ((h i).2 ⟨a, bit, holds⟩) (by simp)
  · intro nothing
    refine ext_has fun i => ?_
    rw [has_empty, ← Bool.not_eq_true, h i]
    exact fun ⟨a, _, holds⟩ => nothing a holds

end Collects

theorem isEmpty_iff : s.isEmpty ↔ s = ∅ := by
  obtain ⟨bits⟩ := s
  exact beq_iff_eq.trans ⟨congrArg mk, congrArg BitSet.bits⟩

end BitSet

namespace BackendId

theorem has_asSet_bit (position : Fin 32) (i : Nat) :
    (bit position).asSet.has i = decide (position.val = i) := by
  rw [asSet, BitSet.has_single]
  simp [backendLayout]

theorem contains_asSet_bit (s : BackendSet) (position : Fin 32) :
    s.contains (bit position).asSet ↔ s.has position.val := by
  simp [BitSet.contains_iff, has_asSet_bit]

theorem contains_unions_asSet {ids : List BackendId} {id : BackendId} (nonNull : id ≠ .null) :
    (BitSet.unions (ids.map asSet)).contains id.asSet ↔ id ∈ ids := by
  cases id with
  | null => exact absurd rfl nonNull
  | bit position =>
      rw [contains_asSet_bit, BitSet.has_unions]
      simp only [List.mem_map, exists_exists_and_eq_and]
      constructor
      · rintro ⟨_ | i, mem, has⟩
        · simp [asSet] at has
        · rw [has_asSet_bit, decide_eq_true_iff, ← Fin.ext_iff] at has
          exact has ▸ mem
      · intro mem
        exact ⟨_, mem, by simp [has_asSet_bit]⟩

end BackendId

theorem BackendSet.ext_contains {s t : BackendSet}
    (same : ∀ id : BackendId, id ≠ .null → (s.contains id.asSet ↔ t.contains id.asSet)) : s = t := by
  refine BitSet.ext_has fun i => ?_
  by_cases inside : i < backendLayout.width
  · have bits := same (.bit ⟨i, inside⟩) nofun
    rwa [BackendId.contains_asSet_bit, BackendId.contains_asSet_bit, ← Bool.eq_iff_iff] at bits
  · have outside := Nat.le_of_not_lt inside
    exact (BitVec.getLsbD_of_ge s.bits i outside).trans (BitVec.getLsbD_of_ge t.bits i outside).symm

end AtomicTables
