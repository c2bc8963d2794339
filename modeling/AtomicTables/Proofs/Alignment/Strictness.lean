import AtomicTables.Proofs.Alignment.Checked
import AtomicTables.Proofs.Alignment.Order

/-!
# Strictness

All requirements, well-formed or not, lie in one line from the weakest to the strictest, and the stricter of
two is their least upper bound. Among the accepted ones no requirement at all is the weakest, and the
recommended addresses of a stricter one are recommended by a weaker one (`linear_strictness`).
-/

namespace AtomicTables

structure Linear {α : Type} (cmp : α → α → Ordering) : Prop where
  refl (a : α) : cmp a a = .eq
  reverse (a b : α) : cmp b a = (cmp a b).swap
  eq_of_eq (a b : α) : cmp a b = .eq → a = b
  trans (a b c : α) : (cmp a b).isLE → (cmp b c).isLE → (cmp a c).isLE
  total (a b : α) : (cmp a b).isLE ∨ (cmp b a).isLE

structure Join {α : Type} (cmp : α → α → Ordering) (join : α → α → α) : Prop where
  comm (a b : α) : join a b = join b a
  assoc (a b c : α) : join (join a b) c = join a (join b c)
  idem (a : α) : join a a = a
  choice (a b : α) : join a b = a ∨ join a b = b
  upper (a b : α) : (cmp a (join a b)).isLE ∧ (cmp b (join a b)).isLE
  least (a b c : α) : (cmp a c).isLE → (cmp b c).isLE → (cmp (join a b) c).isLE

namespace Alignment

theorem linear_compare : Linear (compare : Alignment → Alignment → Ordering) where
  refl _ := Std.ReflCmp.compare_self
  reverse _ _ := Std.OrientedCmp.eq_swap
  eq_of_eq a b := (compare_eq_eq_iff a b).1
  trans _ _ _ := Std.TransCmp.isLE_trans
  total := isLE_total

theorem join_stricter : Join compare stricter where
  comm := max_comm
  assoc := max_assoc
  idem := max_self
  choice := max_choice
  upper a b := ⟨le_max_left a b, le_max_right a b⟩
  least a b c ha hb := (max_le ha hb : max a b ≤ c)

theorem windowRank_lt_iff (s t : UInt64) : windowRank s < windowRank t ↔ t ≠ 0 ∧ (s = 0 ∨ t < s) := by
  have hs : s.toNat < UInt64.size := s.toNat_lt_size
  have ht : t.toNat < UInt64.size := t.toNat_lt_size
  rw [UInt64.lt_iff_toNat_lt, UInt64.lt_iff_toNat_lt, toNat_windowRank, toNat_windowRank, ne_eq,
    ← UInt64.toNat_inj, ← UInt64.toNat_inj, UInt64.toNat_zero]
  split <;> split <;> omega

theorem compare_windows (recommended minimum s t : UInt64) :
    compare (⟨recommended, minimum, s⟩ : Alignment) ⟨recommended, minimum, t⟩ = .lt ↔
      t ≠ 0 ∧ (s = 0 ∨ t < s) := by
  have same (x : UInt64) : compare x x = .eq := Std.ReflCmp.compare_self
  rw [← windowRank_lt_iff, ← Std.compare_eq_lt]
  change ((compare recommended recommended).then (compare minimum minimum)).then
    (compare (windowRank s) (windowRank t)) = .lt ↔ _
  rw [same, same]
  rfl

theorem accepted_permissive : permissive.Accepted := rfl

theorem permissive_le {a : Alignment} (accepted : a.Accepted) : permissive ≤ a := by
  obtain ⟨recommended, minimum, -⟩ := (accepted_iff a).1 accepted
  have first : (compare 1 a.recommended).isLE := by
    rw [Std.isLE_compare, UInt64.le_iff_toNat_le]
    exact Nat.pos_of_isPowerOfTwo recommended
  have second : (compare 1 a.minimum).isLE := by
    rw [Std.isLE_compare, UInt64.le_iff_toNat_le]
    exact Nat.pos_of_isPowerOfTwo minimum
  have third : (compare (windowRank 0) (windowRank a.sizeWithin)).isLE := by
    rw [Std.isLE_compare]
    exact UInt64.zero_le
  change (((compare 1 a.recommended).then (compare 1 a.minimum)).then
    (compare (windowRank 0) (windowRank a.sizeWithin))).isLE
  -- None of the three is `gt`, so neither is the one that decides.
  revert first second third
  cases compare 1 a.recommended <;> cases compare 1 a.minimum <;> simp

theorem meetsRecommended_of_le {a b : Alignment} (ha : a.Accepted) (hb : b.Accepted) (le : a ≤ b)
    {address : UInt64} (multiple : b.meetsRecommended address) : a.meetsRecommended address := by
  rw [meetsRecommended_iff hb] at multiple
  rw [meetsRecommended_iff ha]
  have divides := dvd_of_isPowerOfTwo ((accepted_iff a).1 ha).1 ((accepted_iff b).1 hb).1
    (recommended_le_of_le le)
  exact Nat.dvd_trans divides multiple

theorem linear_strictness :
    Linear (compare : Alignment → Alignment → Ordering) ∧
    (∀ recommended minimum s t,
      compare (⟨recommended, minimum, s⟩ : Alignment) ⟨recommended, minimum, t⟩ = .lt ↔
        t ≠ 0 ∧ (s = 0 ∨ t < s)) ∧
    (∀ size, windowRank? size = some (windowRank size)) ∧
    Join compare stricter ∧
    permissive.Accepted ∧
    ∀ a : Alignment, a.Accepted → (compare permissive a).isLE ∧
      ∀ b : Alignment, b.Accepted → (compare a b).isLE →
        ∀ address, b.meetsRecommended address → a.meetsRecommended address := by
  refine ⟨linear_compare, compare_windows, windowRank?_eq, join_stricter, accepted_permissive, ?_⟩
  intro a ha
  exact ⟨permissive_le ha, fun b hb le address => meetsRecommended_of_le ha hb le⟩

theorem linear_strictness_extremes :
    let a : Alignment := ⟨8, 4, UInt64.ofNat (2 ^ 64 - 1)⟩
    let b : Alignment := ⟨8, 4, 1⟩
    a.Accepted ∧ b.Accepted ∧ compare a b = .lt ∧ (compare permissive a).isLE ∧
      ∀ address, b.meetsRecommended address → a.meetsRecommended address := by
  intro a b
  have ha : a.Accepted := (accepted_iff a).2 ⟨⟨3, rfl⟩, ⟨2, rfl⟩, by decide⟩
  have hb : b.Accepted := (accepted_iff b).2 ⟨⟨3, rfl⟩, ⟨2, rfl⟩, by decide⟩
  obtain ⟨-, windows, -, -, -, accepted⟩ := linear_strictness
  have lt : compare a b = .lt := (windows 8 4 _ 1).2 (by decide)
  obtain ⟨weakest, recommended⟩ := accepted a ha
  exact ⟨ha, hb, lt, weakest, recommended b hb (by rw [lt]; rfl)⟩

end Alignment

end AtomicTables
