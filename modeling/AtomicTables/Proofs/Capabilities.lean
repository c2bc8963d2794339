import AtomicTables.Capabilities
import Mathlib.Data.Set.Card
import Mathlib.Tactic.IntervalCases

namespace AtomicTables.Capabilities

theorem and_twoPow_ne_zero {w i : Nat} (x : BitVec w) (inside : i < w) :
    (x &&& BitVec.twoPow w i != 0) = x.getLsbD i := by
  have nonzero : BitVec.twoPow w i ≠ 0#w := by
    intro zero
    have bit := congrArg (fun y => y.getLsbD i) zero
    simp [inside] at bit
  rw [BitVec.and_twoPow]
  cases x.getLsbD i <;> simp [nonzero]

theorem has_eq (c : Capabilities) (b : UInt8) :
    c.has b = (c.word (b.toNat / 64)).getLsbD (b.toNat % 64) :=
  and_twoPow_ne_zero _ (Nat.mod_lt b.toNat (by decide))

theorem word_lt (b : UInt8) : b.toNat / 64 < 4 := by
  have := b.toNat_lt
  omega

theorem has_ofNat (c : Capabilities) {i j : Nat} (word : i < 4) (bit : j < 64) :
    c.has (UInt8.ofNat (64 * i + j)) = (c.word i).getLsbD j := by
  have number : (UInt8.ofNat (64 * i + j)).toNat = 64 * i + j :=
    UInt8.toNat_ofNat_of_lt' (show 64 * i + j < 256 by omega)
  rw [has_eq, number, show (64 * i + j) / 64 = i by omega, show (64 * i + j) % 64 = j by omega]

theorem forall_word {p : BitVec 64 → BitVec 64 → Prop} (c d : Capabilities) :
    (∀ i < 4, p (c.word i) (d.word i)) ↔ p c.word0 d.word0 ∧ p c.word1 d.word1 ∧
      p c.word2 d.word2 ∧ p c.word3 d.word3 := by
  constructor
  · intro all
    exact ⟨all 0 (by decide), all 1 (by decide), all 2 (by decide), all 3 (by decide)⟩
  · rintro ⟨first, second, third, fourth⟩ i inside
    interval_cases i <;> assumption

@[simp] theorem has_empty (b : UInt8) : empty.has b = false := by
  have word (i : Nat) : empty.word i = 0#64 := by
    unfold Capabilities.word
    split <;> rfl
  rw [has_eq, word, BitVec.getLsbD_zero]

@[simp] theorem has_union (c d : Capabilities) (b : UInt8) : (c ∪ d).has b = (c.has b || d.has b) := by
  have word (i : Nat) : (c ∪ d).word i = c.word i ||| d.word i := by
    unfold Capabilities.word
    split <;> rfl
  rw [has_eq, has_eq, has_eq, word, BitVec.getLsbD_or]

theorem word_single (b : UInt8) {i : Nat} (inside : i < 4) :
    (single b).word i = if i = b.toNat / 64 then BitVec.twoPow 64 (b.toNat % 64) else 0#64 := by
  -- All places past the third are one case of both matches, so they are bounded before they are compared.
  have place := word_lt b
  rw [single]
  generalize BitVec.twoPow 64 (b.toNat % 64) = mask
  generalize b.toNat / 64 = j at *
  interval_cases i <;> interval_cases j <;> rfl

@[simp] theorem has_single (b a : UInt8) : (single b).has a ↔ a = b := by
  rw [has_eq, word_single b (word_lt a), ← UInt8.toNat_inj]
  by_cases word : a.toNat / 64 = b.toNat / 64
  · have bit : b.toNat % 64 = a.toNat % 64 ↔ a.toNat = b.toNat := by omega
    rw [if_pos word, BitVec.getLsbD_twoPow]
    simp [bit, Nat.mod_lt]
  · have other : a.toNat ≠ b.toNat := fun same => word (congrArg (· / 64) same)
    rw [if_neg word, BitVec.getLsbD_zero]
    simp [other]

theorem covers_iff (c d : Capabilities) : c.covers d ↔ ∀ b, d.has b → c.has b := by
  have words : c.covers d ↔ ∀ i < 4, c.word i &&& d.word i = d.word i := by
    rw [forall_word (p := fun x y => x &&& y = y)]
    simp [covers, and_assoc]
  rw [words]
  constructor
  · intro all b has
    rw [has_eq] at has ⊢
    rw [← all _ (word_lt b), BitVec.getLsbD_and, Bool.and_eq_true] at has
    exact has.1
  · intro all i word
    refine BitVec.eq_of_getLsbD_eq fun j bit => ?_
    have kept := all (UInt8.ofNat (64 * i + j))
    rw [has_ofNat c word bit, has_ofNat d word bit] at kept
    rw [BitVec.getLsbD_and]
    exact Bool.and_eq_right_iff_imp.2 kept

theorem ext_has {c d : Capabilities} (same : ∀ b, c.has b = d.has b) : c = d := by
  have words : ∀ i < 4, c.word i = d.word i := by
    intro i word
    refine BitVec.eq_of_getLsbD_eq fun j bit => ?_
    rw [← has_ofNat c word bit, ← has_ofNat d word bit, same]
  obtain ⟨first, second, third, fourth⟩ := (forall_word c d).1 words
  obtain ⟨c0, c1, c2, c3⟩ := c
  obtain ⟨d0, d1, d2, d3⟩ := d
  exact congr (congr (congr (congrArg mk first) second) third) fourth

def numbers : List UInt8 := (List.range 256).map UInt8.ofNat

theorem mem_numbers (b : UInt8) : b ∈ numbers :=
  List.mem_map.2 ⟨b.toNat, List.mem_range.2 b.toNat_lt, UInt8.ofNat_toNat⟩

theorem nodup_numbers : numbers.Nodup := by
  refine List.nodup_range.map_on fun m hm n hn same => ?_
  have equal := congrArg UInt8.toNat same
  rwa [UInt8.toNat_ofNat_of_lt' (List.mem_range.1 hm), UInt8.toNat_ofNat_of_lt' (List.mem_range.1 hn)]
    at equal

theorem range_mul (m n : Nat) :
    List.range (m * n) = (List.range n).flatMap fun i => (List.range m).map (m * i + ·) := by
  induction n with
  | zero => rfl
  | succ n ih => rw [Nat.mul_succ, List.range_add, ih, List.range_succ, List.flatMap_append,
      List.flatMap_singleton]

theorem countP_word (c : Capabilities) {i : Nat} (word : i < 4) :
    ((List.range 64).map (64 * i + ·)).countP (c.has ∘ UInt8.ofNat) = bitCount (c.word i) := by
  rw [List.countP_map, bitCount]
  refine List.countP_congr fun j bit => ?_
  rw [Function.comp_apply, Function.comp_apply, has_ofNat c word (List.mem_range.1 bit)]

theorem count_eq_countP (c : Capabilities) : c.count = numbers.countP c.has := by
  have counts : (List.range 4).map (fun i => bitCount (c.word i)) = (List.range 4).map
      (List.countP (c.has ∘ UInt8.ofNat) ∘ fun i => (List.range 64).map (64 * i + ·)) :=
    List.map_congr_left fun i word => (countP_word c (List.mem_range.1 word)).symm
  rw [numbers, List.countP_map, range_mul 64 4, List.countP_flatMap, ← counts]
  simp [count, List.range_succ, Capabilities.word, Nat.add_assoc]

theorem count_eq_ncard (c : Capabilities) : c.count = {b | c.has b}.ncard := by
  have elements : {b | c.has b} = (numbers.filter c.has).toFinset := by
    ext b
    rw [List.coe_toFinset, Set.mem_ofPred_eq, Set.mem_ofPred_eq, List.mem_filter,
      and_iff_right (mem_numbers b)]
  rw [elements, Set.ncard_coe_finset, List.toFinset_card_of_nodup (nodup_numbers.filter _),
    ← List.countP_eq_length_filter, count_eq_countP]

inductive Construction where
  | empty
  | insert (before : Construction) (b : UInt8)
  | union (left right : Construction)

namespace Construction

def set : Construction → Capabilities
  | empty => .empty
  | insert before b => before.set ∪ .single b
  | union left right => left.set ∪ right.set

def inserted : Construction → List UInt8
  | empty => []
  | insert before b => b :: before.inserted
  | union left right => left.inserted ++ right.inserted

theorem has_set_iff (k : Construction) (b : UInt8) : k.set.has b ↔ b ∈ k.inserted := by
  induction k with
  | empty => simp [set, inserted]
  | insert before a ih => simp [set, inserted, ih, or_comm]
  | union left right ihl ihr => simp [set, inserted, ihl, ihr]

theorem exists_inserted (l : List UInt8) : ∃ k : Construction, k.inserted = l := by
  induction l with
  | nil => exact ⟨empty, rfl⟩
  | cons b l ih =>
      obtain ⟨k, rfl⟩ := ih
      exact ⟨k.insert b, rfl⟩

end Construction

theorem exists_set_eq (c : Capabilities) : ∃ k : Construction, k.set = c := by
  obtain ⟨k, all⟩ := Construction.exists_inserted (numbers.filter c.has)
  refine ⟨k, ext_has fun b => Bool.eq_iff_iff.2 ?_⟩
  rw [k.has_set_iff, all, List.mem_filter, and_iff_right (mem_numbers b)]

end AtomicTables.Capabilities
