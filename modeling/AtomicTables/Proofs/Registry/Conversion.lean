import AtomicTables.Proofs.Registry.Registered
import Mathlib.Data.List.FinRange
import Mathlib.Data.Set.Card

/-!
# Numbers, ids and sets

A number is an id if it is null or a power of two in range (`BackendId.ofRaw_eq_iff`), and a set is the ids that it
lists, in ascending order (`BackendSet.enumerates_ids`). Both ways lead back (`converts_exactly`).
-/

namespace AtomicTables

theorem bitCount_eq_ncard {w : Nat} (x : BitVec w) : bitCount x = {i | x.getLsbD i}.ncard := by
  have elements : {i | x.getLsbD i} = ((List.range w).filter x.getLsbD).toFinset := by
    ext i
    rw [List.coe_toFinset, Set.mem_ofPred_eq, Set.mem_ofPred_eq, List.mem_filter, List.mem_range,
      iff_and_self]
    exact BitVec.lt_of_getLsbD
  rw [elements, Set.ncard_coe_finset, List.toFinset_card_of_nodup (List.nodup_range.filter _),
    ← List.countP_eq_length_filter, bitCount]

def HasTwoBits (n : Nat) : Prop := ∃ i j, n.testBit i ∧ n.testBit j ∧ i ≠ j

theorem one_lt_bitCount_iff {w : Nat} (x : BitVec w) : 1 < bitCount x ↔ HasTwoBits x.toNat := by
  have bounded : {i | x.getLsbD i}.Finite := (Set.finite_lt_nat w).subset fun i => BitVec.lt_of_getLsbD
  rw [bitCount_eq_ncard]
  exact Set.one_lt_ncard_iff bounded

theorem not_hasTwoBits_two_pow (k : Nat) : ¬ HasTwoBits (2 ^ k) := by
  rintro ⟨i, j, first, second, differ⟩
  rw [Nat.testBit_two_pow, decide_eq_true_iff] at first second
  exact differ (first.symm.trans second)

theorem eq_two_pow_of_not_hasTwoBits {n : Nat} (few : ¬ HasTwoBits n) (nonzero : n ≠ 0) : ∃ k, n = 2 ^ k := by
  obtain ⟨k, bit⟩ := Nat.exists_testBit_of_ne_zero nonzero
  refine ⟨k, Nat.eq_of_testBit_eq fun i => ?_⟩
  rw [Nat.testBit_two_pow, Bool.eq_iff_iff, decide_eq_true_iff]
  constructor
  · intro other
    by_contra differ
    exact few ⟨k, i, bit, other, differ⟩
  · rintro rfl
    exact bit

theorem BackendSet.toNat_bits (s : BackendSet) : (UInt64.ofNat s.bits.toNat).toNat = s.bits.toNat := by
  have small : s.bits.toNat < 2 ^ 32 := s.bits.isLt
  exact UInt64.toNat_ofNat_of_lt' (Nat.lt_trans small (by decide))

namespace BackendId

theorem raw_bit (i : Fin 32) : (bit i).raw = 2 ^ i.val := by
  have small : 2 ^ i.val < 2 ^ 32 := Nat.pow_lt_pow_right (by decide) i.isLt
  exact (BitVec.toNat_twoPow 32 i.val).trans (Nat.mod_eq_of_lt small)

inductive Converts (raw : UInt64) : Except IdError BackendId → Prop where
  | null (zero : raw.toNat = 0) : Converts raw (.ok null)
  | bit {i : Fin 32} (power : raw.toNat = 2 ^ i.val) : Converts raw (.ok (bit i))
  | severalBits (several : HasTwoBits raw.toNat) : Converts raw (.error (.severalBits raw))
  | outOfRange {k : Nat} (above : 32 ≤ k) (power : raw.toNat = 2 ^ k) : Converts raw (.error (.outOfRange raw))

theorem ofRaw_of_power {raw : UInt64} {k : Nat} (power : raw.toNat = 2 ^ k) :
    ofRaw raw = if inside : k < 32 then .ok (bit ⟨k, inside⟩) else .error (.outOfRange raw) := by
  have few : ¬ 1 < bitCount raw.toBitVec := by
    rw [one_lt_bitCount_iff, UInt64.toNat_toBitVec, power]
    exact not_hasTwoBits_two_pow k
  have nonzero : raw ≠ 0 := by
    rintro rfl
    exact absurd power.symm (Nat.two_pow_pos k).ne'
  have log : raw.toNat.log2 = k := by rw [power, Nat.log2_two_pow]
  subst log
  rw [ofRaw, if_neg few, if_neg nonzero]

theorem ofRaw_eq_iff (raw : UInt64) (result : Except IdError BackendId) :
    ofRaw raw = result ↔ Converts raw result := by
  constructor
  · rintro rfl
    by_cases several : HasTwoBits raw.toNat
    · have bits : 1 < bitCount raw.toBitVec := (one_lt_bitCount_iff _).2 several
      rw [ofRaw, if_pos bits]
      exact .severalBits several
    · by_cases zero : raw = 0
      · subst zero
        exact .null rfl
      · obtain ⟨k, power⟩ := eq_two_pow_of_not_hasTwoBits several fun none => zero (UInt64.toNat_inj.1 none)
        rw [ofRaw_of_power power]
        split
        · exact .bit power
        · rename_i outside
          exact .outOfRange (Nat.le_of_not_lt outside) power
  · intro converts
    cases converts with
    | null zero =>
        obtain rfl : raw = 0 := UInt64.toNat_inj.1 zero
        rfl
    | @bit i power => rw [ofRaw_of_power power, dif_pos i.isLt]
    | severalBits several => exact if_pos ((one_lt_bitCount_iff _).2 several)
    | outOfRange above power => rw [ofRaw_of_power power, dif_neg (Nat.not_lt_of_le above)]

theorem ofRaw_eq_severalBits_iff (raw : UInt64) :
    ofRaw raw = .error (.severalBits raw) ↔ HasTwoBits raw.toNat := by
  rw [ofRaw_eq_iff]
  constructor
  · intro converts
    cases converts with
    | severalBits several => exact several
  · exact .severalBits

theorem ofRaw_eq_ok_iff (raw : UInt64) (id : BackendId) : ofRaw raw = .ok id ↔ id.raw = raw.toNat := by
  rw [ofRaw_eq_iff]
  constructor
  · intro converts
    cases converts with
    | null zero => exact zero.symm
    | bit power => exact (raw_bit _).trans power.symm
  · intro same
    cases id with
    | null => exact .null same.symm
    | bit i => exact .bit (same.symm.trans (raw_bit i))

theorem ofRaw_raw (id : BackendId) : ofRaw (UInt64.ofNat id.raw) = .ok id :=
  (ofRaw_eq_ok_iff _ id).2 (BackendSet.toNat_bits id.asSet).symm

end BackendId

theorem registered_kind_ne_unknown : ∀ r ∈ registry, r.kind ≠ .unknown := by decide

theorem BackendId.kind_eq_unknown_iff (id : BackendId) : id.kind = .unknown ↔ ¬ id.isRegistered := by
  rw [kind, isRegistered]
  cases found : id.registration? with
  | none => simp
  | some r => simp [registered_kind_ne_unknown r (List.mem_of_find?_eq_some found)]

namespace BackendKind

theorem ofRaw_eq_error_iff (raw : UInt64) (e : AmbiguousId) :
    ofRaw raw = .error e ↔ e = ⟨raw⟩ ∧ HasTwoBits raw.toNat := by
  rw [← UInt64.toNat_toBitVec, ← one_lt_bitCount_iff, ofRaw]
  split
  · rename_i few
    have one : ¬ 1 < bitCount raw.toBitVec := Nat.not_lt_of_le few
    cases BackendId.ofRaw raw <;> simp [one]
  · rename_i several
    simp [Nat.lt_of_not_le several, eq_comm]

theorem ofRaw_eq_ok_iff (raw : UInt64) (kind : BackendKind) :
    ofRaw raw = .ok kind ↔ (∃ id, BackendId.ofRaw raw = .ok id ∧ id.kind = kind) ∨
      BackendId.ofRaw raw = .error (.outOfRange raw) ∧ kind = .unknown := by
  by_cases several : HasTwoBits raw.toNat
  · have failed := (ofRaw_eq_error_iff raw ⟨raw⟩).2 ⟨rfl, several⟩
    have unconverted := (BackendId.ofRaw_eq_severalBits_iff raw).2 several
    simp [failed, unconverted]
  · have few : ¬ 1 < bitCount raw.toBitVec := mt (one_lt_bitCount_iff _).1 several
    have converts := (BackendId.ofRaw_eq_iff raw _).1 rfl
    rw [ofRaw, if_pos (Nat.le_of_not_lt few)]
    generalize BackendId.ofRaw raw = result at converts ⊢
    cases converts with
    | severalBits bits => exact absurd bits several
    | null | bit | outOfRange => simp [eq_comm]

end BackendKind

namespace BackendSet

variable (s : BackendSet)

theorem bit_mem_ids (i : Fin 32) : .bit i ∈ s.ids ↔ s.has i.val := by
  simp [ids]

theorem null_not_mem_ids : .null ∉ s.ids := by
  simp [ids]

theorem pairwise_ids : s.ids.Pairwise fun a b => a.raw < b.raw := by
  refine List.pairwise_map.2 (((List.pairwise_lt_finRange 32).filter _).imp fun {i j} before => ?_)
  rw [BackendId.raw_bit, BackendId.raw_bit]
  exact Nat.pow_lt_pow_right (by decide) before

theorem nodup_ids : s.ids.Nodup :=
  s.pairwise_ids.imp fun {a b} before (same : a = b) => Nat.lt_irrefl _ (same ▸ before)

theorem length_ids : s.ids.length = s.count := by
  rw [ids, List.length_map, ← List.countP_eq_length_filter, BitSet.count, bitCount]
  change _ = (List.range 32).countP s.has
  rw [← List.map_coe_finRange_eq_range, List.countP_map]
  rfl

theorem unions_ids : .unions (s.ids.map BackendId.asSet) = s := by
  refine BackendSet.ext_contains fun id nonNull => ?_
  rw [BackendId.contains_unions_asSet nonNull]
  cases id with
  | null => exact absurd rfl nonNull
  | bit i => rw [bit_mem_ids, BackendId.contains_asSet_bit]

structure Enumerates (ids : List BackendId) : Prop where
  ascending : ids.Pairwise fun a b => a.raw < b.raw
  powers : ∀ id ∈ ids, ∃ i < 32, id.raw = 2 ^ i
  once : ∀ i : Fin 32, ids.count (.bit i) = if s.has i.val then 1 else 0
  length : ids.length = s.count
  union : .unions (ids.map BackendId.asSet) = s
  convert : ∀ id ∈ ids, BackendId.ofRaw (UInt64.ofNat id.raw) = .ok id

theorem enumerates_ids : s.Enumerates s.ids where
  ascending := s.pairwise_ids
  powers := by
    intro id mem
    cases id with
    | null => exact absurd mem s.null_not_mem_ids
    | bit i => exact ⟨i.val, i.isLt, BackendId.raw_bit i⟩
  once := by
    intro i
    simp only [s.nodup_ids.count, bit_mem_ids]
  length := s.length_ids
  union := s.unions_ids
  convert := fun id _ => id.ofRaw_raw

theorem toId_eq (raw : UInt32) : toId ⟨raw.toBitVec⟩ = BackendId.ofRaw raw.toUInt64 := by
  have same : UInt64.ofNat raw.toBitVec.toNat = raw.toUInt64 := UInt64.toNat_inj.1 (toNat_bits ⟨raw.toBitVec⟩)
  exact congrArg BackendId.ofRaw same

theorem toId_eq_ok_iff (id : BackendId) : s.toId = .ok id ↔ id.asSet = s := by
  rw [toId, BackendId.ofRaw_eq_ok_iff, toNat_bits]
  exact BitVec.toNat_inj.trans ⟨congrArg BitSet.mk, congrArg BitSet.bits⟩

end BackendSet

theorem converts_exactly :
    (∀ raw result, BackendId.ofRaw raw = result ↔ BackendId.Converts raw result) ∧
    (∀ raw id, BackendId.ofRaw raw = .ok id ↔ id.raw = raw.toNat) ∧
    (∀ raw e, BackendKind.ofRaw raw = .error e ↔
      e = ⟨raw⟩ ∧ BackendId.ofRaw raw = .error (.severalBits raw)) ∧
    (∀ raw, BackendId.ofRaw raw = .error (.severalBits raw) ↔ HasTwoBits raw.toNat) ∧
    (∀ raw kind, BackendKind.ofRaw raw = .ok kind ↔
      (∃ id, BackendId.ofRaw raw = .ok id ∧ id.kind = kind) ∨
        BackendId.ofRaw raw = .error (.outOfRange raw) ∧ kind = .unknown) ∧
    (∀ id : BackendId, id.kind = .unknown ↔ ¬ id.isRegistered) ∧
    (∀ s : BackendSet, s.Enumerates s.ids) ∧
    (∀ raw : UInt32, BackendSet.toId ⟨raw.toBitVec⟩ = BackendId.ofRaw raw.toUInt64) ∧
    ∀ (s : BackendSet) (id : BackendId), s.toId = .ok id ↔ id.asSet = s :=
  ⟨BackendId.ofRaw_eq_iff, BackendId.ofRaw_eq_ok_iff,
    fun raw e => by rw [BackendKind.ofRaw_eq_error_iff, BackendId.ofRaw_eq_severalBits_iff],
    BackendId.ofRaw_eq_severalBits_iff, BackendKind.ofRaw_eq_ok_iff, BackendId.kind_eq_unknown_iff,
    BackendSet.enumerates_ids, BackendSet.toId_eq, BackendSet.toId_eq_ok_iff⟩

end AtomicTables
