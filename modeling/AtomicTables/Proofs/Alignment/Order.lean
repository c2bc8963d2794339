import AtomicTables.Alignment
import Mathlib.Order.Lattice

namespace AtomicTables

theorem toNat_ne_zero {x : UInt64} : x.toNat ≠ 0 ↔ x ≠ 0 :=
  not_congr (UInt64.toNat_inj (b := 0))

theorem one_le_of_ne_zero {x : UInt64} (nonzero : x ≠ 0) : 1 ≤ x := by
  rw [UInt64.le_iff_toNat_le]
  exact Nat.one_le_iff_ne_zero.2 (toNat_ne_zero.2 nonzero)

theorem toNat_sub_one {x : UInt64} (nonzero : x ≠ 0) : (x - 1).toNat = x.toNat - 1 :=
  UInt64.toNat_sub_of_le x 1 (one_le_of_ne_zero nonzero)

namespace Alignment

theorem toNat_windowRank (size : UInt64) :
    (windowRank size).toNat = if size.toNat = 0 then 0 else UInt64.size - size.toNat := by
  have below : size.toNat < UInt64.size := size.toNat_lt
  by_cases none : size.toNat = 0
  · obtain rfl : size = 0 := UInt64.toNat_inj.1 none
    rfl
  · have window : size ≠ 0 := fun same => none (congrArg UInt64.toNat same)
    have top : (UInt64.ofNat (UInt64.size - 1)).toNat = UInt64.size - 1 := rfl
    rw [windowRank, if_neg window, if_neg none, UInt64.toNat_sub_of_le, top, toNat_sub_one window]
    · omega
    · rw [UInt64.le_iff_toNat_le, top, toNat_sub_one window]
      omega

theorem windowRank_inj {a b : UInt64} (same : windowRank a = windowRank b) : a = b := by
  have ranks := congrArg UInt64.toNat same
  have ha : a.toNat < UInt64.size := a.toNat_lt
  have hb : b.toNat < UInt64.size := b.toNat_lt
  rw [toNat_windowRank, toNat_windowRank] at ranks
  rw [← UInt64.toNat_inj]
  split at ranks <;> split at ranks <;> omega

theorem compare_eq_eq_iff (a b : Alignment) : compare a b = .eq ↔ a = b := by
  change ((compare a.recommended b.recommended).then (compare a.minimum b.minimum)).then
    (compare (windowRank a.sizeWithin) (windowRank b.sizeWithin)) = .eq ↔ _
  simp only [Ordering.then_eq_eq, Std.LawfulEqOrd.compare_eq_iff_eq]
  obtain ⟨r, m, s⟩ := a
  obtain ⟨r', m', s'⟩ := b
  simp only [mk.injEq, and_assoc]
  exact and_congr_right fun _ => and_congr_right fun _ => ⟨windowRank_inj, congrArg windowRank⟩

instance : Std.TransOrd Alignment :=
  inferInstanceAs (Std.TransCmp (compareLex (compareLex (compareOn recommended) (compareOn minimum))
    (compareOn fun a : Alignment => windowRank a.sizeWithin)))

instance : Std.LawfulEqOrd Alignment where
  eq_of_compare := (compare_eq_eq_iff _ _).1

theorem isLE_total (a b : Alignment) : (compare a b).isLE ∨ (compare b a).isLE := by
  rw [← Std.OrientedCmp.isGE_eq_isLE (a := a)]
  cases compare a b <;> simp

theorem compare_eq_ite (a b : Alignment) : compare a b =
    if (compare a b).isLE ∧ ¬ (compare b a).isLE then .lt else if a = b then .eq else .gt := by
  rw [← Std.OrientedCmp.isGE_eq_isLE (a := a)]
  simp only [← compare_eq_eq_iff]
  cases compare a b <;> rfl

instance : LinearOrder Alignment where
  le a b := (compare a b).isLE
  le_refl _ := Std.ReflCmp.isLE_rfl
  le_trans _ _ _ := Std.TransCmp.isLE_trans
  le_antisymm _ _ := fun below above =>
    Std.LawfulEqCmp.eq_of_compare (Std.OrientedCmp.isLE_antisymm below above)
  le_total := isLE_total
  toDecidableLE _ _ := inferInstanceAs (Decidable (_ = true))
  max := stricter
  max_def a b := by
    change (if compare a b = .gt then a else b) = if (compare a b).isLE then b else a
    cases compare a b <;> rfl
  compare := compare
  compare_eq_compareOfLessAndEq := compare_eq_ite

theorem recommended_le_of_le {a b : Alignment} (h : a ≤ b) : a.recommended ≤ b.recommended := by
  rw [← Std.isLE_compare]
  change (((compare a.recommended b.recommended).then _).then _).isLE at h
  cases first : compare a.recommended b.recommended
  · rfl
  · rfl
  · rw [first] at h
    cases h

end Alignment

end AtomicTables
