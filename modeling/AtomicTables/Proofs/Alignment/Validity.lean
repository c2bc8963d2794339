import AtomicTables.Proofs.Alignment.Order
import Mathlib.Algebra.Order.Group.Nat
import Mathlib.Data.Nat.Init

namespace AtomicTables

theorem isPowerOfTwo_iff (x : UInt64) : isPowerOfTwo x ↔ x.toNat.isPowerOfTwo := by
  rw [← Nat.ne_zero_and_sub_one_eq_zero_iff_isPowerOfTwo, isPowerOfTwo, Bool.and_eq_true,
    bne_iff_ne, beq_iff_eq]
  rw [toNat_ne_zero, ← UInt64.toNat_inj, UInt64.toNat_and]
  refine and_congr_right fun nonzero => ?_
  rw [toNat_sub_one nonzero]
  rfl

theorem dvd_of_isPowerOfTwo {x y : Nat} (hx : x.isPowerOfTwo) (hy : y.isPowerOfTwo) (le : x ≤ y) :
    x ∣ y := by
  obtain ⟨i, rfl⟩ := hx
  obtain ⟨j, rfl⟩ := hy
  exact Nat.pow_dvd_pow 2 ((Nat.pow_le_pow_iff_right (by decide)).1 le)

namespace Alignment

theorem isMultiple_iff (address size : UInt64) :
    isMultiple address size ↔ size.toNat.isPowerOfTwo ∧ size.toNat ∣ address.toNat := by
  rw [isMultiple, Bool.and_eq_true, isPowerOfTwo_iff]
  refine and_congr_right fun power => ?_
  have nonzero : size ≠ 0 := by
    rintro rfl
    exact absurd (Nat.pos_of_isPowerOfTwo power) (by decide)
  obtain ⟨k, exponent⟩ := power
  rw [beq_iff_eq, ← UInt64.toNat_inj, UInt64.toNat_and, toNat_sub_one nonzero, exponent,
    Nat.and_two_pow_sub_one_eq_mod]
  exact (Nat.dvd_iff_mod_eq_zero).symm

def Accepted (a : Alignment) : Prop := create a.recommended a.minimum a.sizeWithin = .ok a

def Admits (a : Alignment) (address width : UInt64) : Prop :=
  a.meetsRecommended address ∨ a.meetsMinimum address width

def room (a : Alignment) (address : UInt64) : Nat :=
  a.sizeWithin.toNat - address.toNat % a.sizeWithin.toNat

theorem accepted_iff (a : Alignment) : a.Accepted ↔
    a.recommended.toNat.isPowerOfTwo ∧ a.minimum.toNat.isPowerOfTwo ∧ a.minimum ≤ a.recommended := by
  rw [Accepted, create, ← isPowerOfTwo_iff, ← isPowerOfTwo_iff, ← UInt64.not_lt]
  split
  · simp_all
  · split
    · simp_all
    · split <;> simp_all

theorem meetsRecommended_iff {a : Alignment} (accepted : a.Accepted) (address : UInt64) :
    a.meetsRecommended address ↔ a.recommended.toNat ∣ address.toNat := by
  rw [meetsRecommended, isMultiple_iff]
  exact and_iff_right ((accepted_iff a).1 accepted).1

theorem meetsMinimum_iff {a : Alignment} (accepted : a.Accepted) (address width : UInt64) :
    a.meetsMinimum address width ↔ a.minimum.toNat ∣ address.toNat ∧
      (a.sizeWithin = 0 ∨ width.toNat ≤ a.room address) := by
  rw [meetsMinimum, Bool.and_eq_true, isMultiple_iff]
  rw [and_iff_right ((accepted_iff a).1 accepted).2.1, Bool.or_eq_true, decide_eq_true_iff,
    decide_eq_true_iff, UInt64.toNat_mod]
  refine and_congr_right fun _ => ?_
  by_cases open' : a.sizeWithin = 0
  · simp [open']
  · have positive : 0 < a.sizeWithin.toNat := Nat.pos_of_ne_zero (toNat_ne_zero.2 open')
    have inside := Nat.mod_lt address.toNat positive
    simp only [open', false_or, room]
    omega

/-- Meeting the minimum of `m` is enough for `a`: it is a recommended address of `a`, or it meets the
minimum of `a` and leaves at most as much room in the window of `m` as in that of `a`. -/
def Covers (m a : Alignment) : Prop :=
  a.recommended ≤ m.minimum ∨
  a.minimum ≤ m.minimum ∧ (a.sizeWithin = 0 ∨ m.sizeWithin ≠ 0 ∧ ∀ address : UInt64,
    m.minimum.toNat ∣ address.toNat → ¬ a.recommended.toNat ∣ address.toNat →
      m.room address ≤ a.room address)

theorem Covers.admits {m a : Alignment} (hm : m.Accepted) (ha : a.Accepted)
    (stricter : a.recommended ≤ m.recommended) (covers : m.Covers a) {address width : UInt64}
    (valid : m.Admits address width) : a.Admits address width := by
  obtain ⟨mRecommended, mMinimum, -⟩ := (accepted_iff m).1 hm
  obtain ⟨aRecommended, aMinimum, -⟩ := (accepted_iff a).1 ha
  rw [Admits, meetsRecommended_iff hm, meetsMinimum_iff hm] at valid
  rw [Admits, meetsRecommended_iff ha, meetsMinimum_iff ha]
  rcases valid with multiple | ⟨multiple, fits⟩
  · exact .inl (Nat.dvd_trans (dvd_of_isPowerOfTwo aRecommended mRecommended stricter) multiple)
  · rcases covers with large | ⟨enough, window⟩
    · exact .inl (Nat.dvd_trans (dvd_of_isPowerOfTwo aRecommended mMinimum large) multiple)
    · by_cases recommended : a.recommended.toNat ∣ address.toNat
      · exact .inl recommended
      · refine .inr ⟨Nat.dvd_trans (dvd_of_isPowerOfTwo aMinimum mMinimum enough) multiple, ?_⟩
        refine window.imp_right fun ⟨bounded, room⟩ => ?_
        exact (fits.resolve_left bounded).trans (room address multiple recommended)

theorem room_lt {a : Alignment} {address limit : UInt64} (positive : 0 < address.toNat)
    (below : address.toNat < limit.toNat) (bounded : a.sizeWithin ≠ 0) :
    a.room address < 2 ^ 64 - 1 := by
  have size := a.sizeWithin.toNat_lt
  have top := limit.toNat_lt
  rw [room]
  by_cases boundary : address.toNat % a.sizeWithin.toNat = 0
  · have small := Nat.le_of_dvd positive (Nat.dvd_of_mod_eq_zero boundary)
    omega
  · have nonzero := toNat_ne_zero.2 bounded
    omega

theorem exists_admits_of_not_covers {m a : Alignment} (hm : m.Accepted) (ha : a.Accepted)
    (fails : ¬ m.Covers a) :
    ∃ address width, m.Admits address width ∧ ¬ a.Admits address width := by
  obtain ⟨-, mMinimum, -⟩ := (accepted_iff m).1 hm
  obtain ⟨-, -, ordered⟩ := (accepted_iff a).1 ha
  have positive := Nat.pos_of_isPowerOfTwo mMinimum
  have admits (address width : UInt64) := meetsMinimum_iff hm address width
  simp only [Covers, not_or, not_and, UInt64.not_le, UInt64.lt_iff_toNat_lt] at fails
  obtain ⟨small, fails⟩ := fails
  have notRecommended : ¬ a.recommended.toNat ∣ m.minimum.toNat := Nat.not_dvd_of_pos_of_lt positive small
  by_cases enough : a.minimum ≤ m.minimum
  · obtain ⟨bounded, rooms⟩ := fails enough
    by_cases window : m.sizeWithin = 0
    · -- No width is too large for `m`, and none of the widest objects fits into a window of `a`.
      refine ⟨m.minimum, UInt64.ofNat (2 ^ 64 - 1), .inr ((admits _ _).2 ⟨Nat.dvd_refl _, .inl window⟩), ?_⟩
      rw [Admits, meetsRecommended_iff ha, meetsMinimum_iff ha]
      rintro (recommended | ⟨-, free | fits⟩)
      · exact notRecommended recommended
      · exact bounded free
      · exact absurd fits (Nat.not_le.2 (room_lt positive small bounded))
    · push Not at rooms
      obtain ⟨address, multiple, off, tight⟩ := rooms window
      have width : (UInt64.ofNat (m.room address)).toNat = m.room address :=
        UInt64.toNat_ofNat_of_lt' (Nat.lt_of_le_of_lt (Nat.sub_le _ _) m.sizeWithin.toNat_lt_size)
      refine ⟨address, UInt64.ofNat (m.room address), .inr ((admits _ _).2 ⟨multiple, .inr width.le⟩), ?_⟩
      rw [Admits, meetsRecommended_iff ha, meetsMinimum_iff ha, width]
      rintro (recommended | ⟨-, free | fits⟩)
      · exact off recommended
      · exact bounded free
      · omega
  · refine ⟨m.minimum, 0, .inr ((admits _ _).2 ⟨Nat.dvd_refl _, .inr (Nat.zero_le _)⟩), ?_⟩
    rw [Admits, meetsRecommended_iff ha, meetsMinimum_iff ha]
    rw [UInt64.not_le, UInt64.lt_iff_toNat_lt] at enough
    rintro (recommended | ⟨multiple, -⟩)
    · exact notRecommended recommended
    · exact Nat.not_dvd_of_pos_of_lt positive enough multiple

end Alignment

end AtomicTables
