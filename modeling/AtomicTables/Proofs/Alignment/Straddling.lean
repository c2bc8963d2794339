import AtomicTables.Proofs.Alignment.Checked

/-!
# Objects across a boundary

Whether an object meets a minimum depends on which boundaries of windows lie inside of it. This holds of any
numbers, accepted as a requirement or not, and of objects that reach past the last address
(`meets_exactly`).
-/

namespace AtomicTables.Alignment

/-- A boundary between two windows lies inside of the object, with bytes of the object on both sides. -/
def Straddles (a : Alignment) (address width : UInt64) : Prop :=
  ∃ boundary : Int, (a.sizeWithin.toNat : Int) ∣ boundary ∧ address.toNat < boundary ∧
    boundary < address.toNat + width.toNat

theorem straddles_iff {a : Alignment} (window : a.sizeWithin ≠ 0) (address width : UInt64) :
    a.Straddles address width ↔
      a.sizeWithin.toNat < address.toNat % a.sizeWithin.toNat + width.toNat := by
  have inside := Nat.mod_lt address.toNat (Nat.pos_of_ne_zero (toNat_ne_zero.2 window))
  have start : (a.sizeWithin.toNat * (address.toNat / a.sizeWithin.toNat : Nat) +
      (address.toNat % a.sizeWithin.toNat : Nat) : Int) = address.toNat := by
    exact_mod_cast Nat.div_add_mod address.toNat a.sizeWithin.toNat
  rw [Straddles, ← start]
  generalize address.toNat % a.sizeWithin.toNat = offset at *
  generalize ((address.toNat / a.sizeWithin.toNat : Nat) : Int) = index
  generalize a.sizeWithin.toNat = size at *
  constructor
  · rintro ⟨_, ⟨k, rfl⟩, after, before⟩
    -- The boundary is a later multiple than the start of the window, so it is no earlier than the window's end.
    have later : index < k := Int.lt_of_mul_lt_mul_left (by omega) (Int.natCast_nonneg size)
    have bound := Int.mul_le_mul_of_nonneg_left (Int.add_one_le_of_lt later) (Int.natCast_nonneg size)
    rw [Int.mul_add, Int.mul_one] at bound
    omega
  · intro long
    refine ⟨size * (index + 1), Int.dvd_mul_right _ _, ?_, ?_⟩ <;> rw [Int.mul_add, Int.mul_one] <;> omega

theorem meetsMinimum_iff_straddles (a : Alignment) (address width : UInt64) :
    a.meetsMinimum address width ↔ a.minimum.toNat.isPowerOfTwo ∧ a.minimum.toNat ∣ address.toNat ∧
      (a.sizeWithin = 0 ∨ ¬ a.Straddles address width) := by
  rw [meetsMinimum, Bool.and_eq_true, isMultiple_iff, and_assoc, Bool.or_eq_true, decide_eq_true_iff,
    decide_eq_true_iff, UInt64.toNat_mod]
  refine and_congr_right fun _ => and_congr_right fun _ => ?_
  by_cases window : a.sizeWithin = 0
  · simp [window]
  · rw [straddles_iff window, Nat.not_lt]

theorem Straddles.mono {a : Alignment} {address narrow wide : UInt64} (le : narrow ≤ wide)
    (straddles : a.Straddles address narrow) : a.Straddles address wide := by
  obtain ⟨boundary, multiple, after, before⟩ := straddles
  rw [UInt64.le_iff_toNat_le] at le
  exact ⟨boundary, multiple, after, by omega⟩

theorem meetsMinimum_of_le {a : Alignment} {address narrow wide : UInt64} (le : narrow ≤ wide)
    (meets : a.meetsMinimum address wide) : a.meetsMinimum address narrow := by
  rw [meetsMinimum_iff_straddles] at meets ⊢
  obtain ⟨power, multiple, window⟩ := meets
  exact ⟨power, multiple, window.imp_right fun fits straddles => fits (straddles.mono le)⟩

theorem meetsMinimum_of_meetsRecommended {a : Alignment} (accepted : a.Accepted)
    (unbounded : a.sizeWithin = 0) {address : UInt64} (meets : a.meetsRecommended address)
    (width : UInt64) : a.meetsMinimum address width := by
  obtain ⟨recommended, minimum, ordered⟩ := (accepted_iff a).1 accepted
  rw [meetsRecommended_iff accepted] at meets
  have divides := dvd_of_isPowerOfTwo minimum recommended (UInt64.le_iff_toNat_le.1 ordered)
  exact (meetsMinimum_iff_straddles a address width).2
    ⟨minimum, Nat.dvd_trans divides meets, .inl unbounded⟩

theorem meets_exactly (a : Alignment) (address : UInt64) :
    (a.meetsRecommended address ↔
      a.recommended.toNat.isPowerOfTwo ∧ a.recommended.toNat ∣ address.toNat) ∧
    (∀ width, a.meetsMinimum address width ↔
      a.minimum.toNat.isPowerOfTwo ∧ a.minimum.toNat ∣ address.toNat ∧
        (a.sizeWithin = 0 ∨ ¬ a.Straddles address width)) ∧
    a.meetsRecommended? address = some (a.meetsRecommended address) ∧
    (∀ width, a.meetsMinimum? address width = some (a.meetsMinimum address width)) ∧
    (∀ narrow wide, narrow ≤ wide → a.meetsMinimum address wide → a.meetsMinimum address narrow) ∧
    (a.Accepted → a.sizeWithin = 0 → a.meetsRecommended address →
      ∀ width, a.meetsMinimum address width) :=
  ⟨isMultiple_iff address a.recommended, a.meetsMinimum_iff_straddles address,
    a.meetsRecommended?_eq address, a.meetsMinimum?_eq address,
    fun _ _ le meets => meetsMinimum_of_le le meets,
    fun accepted unbounded meets => meetsMinimum_of_meetsRecommended accepted unbounded meets⟩

theorem meets_exactly_last :
    let a : Alignment := ⟨16, 4, 0⟩
    let windowed : Alignment := ⟨16, 4, 24⟩
    let address : UInt64 := UInt64.ofNat (2 ^ 64 - 16)
    a.Accepted ∧ a.meetsRecommended address ∧ (∀ width, a.meetsMinimum address width) ∧
      ¬ windowed.Straddles address 24 ∧ windowed.Straddles address 25 ∧
      (4 : UInt64) ≤ 24 ∧ windowed.meetsMinimum address 24 ∧ windowed.meetsMinimum address 4 := by
  intro a windowed address
  have accepted : a.Accepted := (accepted_iff a).2 ⟨⟨4, rfl⟩, ⟨2, rfl⟩, by decide⟩
  have multiple : a.meetsRecommended address := by decide
  obtain ⟨-, -, -, -, -, unbounded⟩ := meets_exactly a address
  obtain ⟨-, exact, -, -, narrower, -⟩ := meets_exactly windowed address
  have fits : windowed.meetsMinimum address 24 := by decide
  have whole := ((exact 24).1 fits).2.2.resolve_left (by decide)
  have split : windowed.Straddles address 25 := by
    by_contra whole
    exact absurd ((exact 25).2 ⟨⟨2, rfl⟩, by decide, .inr whole⟩) (by decide)
  exact ⟨accepted, multiple, unbounded accepted rfl multiple, whole, split, by decide, fits,
    narrower 4 24 (by decide) fits⟩

end AtomicTables.Alignment
