import AtomicTables.Proofs.Alignment.Validity

/-!
# Arithmetic that may fail

The arithmetic on requirements once more, with differences, remainders and sums that answer nothing where
there is none among the numbers of 64 bits. It always answers, and answers what the wrapping arithmetic does.
-/

namespace AtomicTables

namespace Checked

def sub (x y : UInt64) : Option UInt64 := if y ≤ x then some (x - y) else none

def mod (x y : UInt64) : Option UInt64 := if y = 0 then none else some (x % y)

def add (x y : UInt64) : Option UInt64 :=
  if x.toNat + y.toNat < UInt64.size then some (x + y) else none

theorem sub_of_le {x y : UInt64} (le : y ≤ x) : sub x y = some (x - y) := if_pos le

theorem sub_one_of_ne_zero {x : UInt64} (nonzero : x ≠ 0) : sub x 1 = some (x - 1) :=
  sub_of_le (one_le_of_ne_zero nonzero)

theorem mod_of_ne_zero {x y : UInt64} (nonzero : y ≠ 0) : mod x y = some (x % y) := if_neg nonzero

theorem any_add_le (x y limit : UInt64) :
    (add x y).any (· ≤ limit) = decide (x.toNat + y.toNat ≤ limit.toNat) := by
  have top := limit.toNat_lt_size
  rw [add]
  split
  · rename_i fits
    have sum : (x + y).toNat = x.toNat + y.toNat := by
      rw [UInt64.toNat_add]
      exact Nat.mod_eq_of_lt fits
    simp only [Option.any_some, UInt64.le_iff_toNat_le, sum]
  · rename_i large
    rw [Option.any_none]
    exact (decide_eq_false (by omega)).symm

end Checked

namespace Alignment

def windowRank? (size : UInt64) : Option UInt64 :=
  if size = 0 then some 0 else do
    Checked.sub (UInt64.ofNat (UInt64.size - 1)) (← Checked.sub size 1)

def isMultiple? (address size : UInt64) : Option Bool :=
  if isPowerOfTwo size then do
    let mask ← Checked.sub size 1
    return address &&& mask == 0
  else return false

def meetsRecommended? (a : Alignment) (address : UInt64) : Option Bool :=
  isMultiple? address a.recommended

def meetsMinimum? (a : Alignment) (address width : UInt64) : Option Bool := do
  if ← isMultiple? address a.minimum then
    if a.sizeWithin = 0 then return true
    let offset ← Checked.mod address a.sizeWithin
    return (Checked.add offset width).any (· ≤ a.sizeWithin)
  else return false

theorem windowRank?_eq (size : UInt64) : windowRank? size = some (windowRank size) := by
  rw [windowRank?, windowRank]
  split
  · rfl
  · rename_i window
    have below : size - 1 ≤ UInt64.ofNat (UInt64.size - 1) := by
      rw [UInt64.le_iff_toNat_le]
      exact Nat.le_sub_one_of_lt (size - 1).toNat_lt_size
    rw [Checked.sub_one_of_ne_zero window]
    exact Checked.sub_of_le below

theorem isMultiple?_eq (address size : UInt64) :
    isMultiple? address size = some (isMultiple address size) := by
  rw [isMultiple?, isMultiple]
  cases power : isPowerOfTwo size with
  | false => rfl
  | true =>
      have nonzero : size ≠ 0 := by
        rintro rfl
        cases power
      rw [if_pos rfl, Checked.sub_one_of_ne_zero nonzero]
      rfl

theorem meetsRecommended?_eq (a : Alignment) (address : UInt64) :
    a.meetsRecommended? address = some (a.meetsRecommended address) :=
  isMultiple?_eq address a.recommended

theorem meetsMinimum?_eq (a : Alignment) (address width : UInt64) :
    a.meetsMinimum? address width = some (a.meetsMinimum address width) := by
  rw [meetsMinimum?, meetsMinimum, isMultiple?_eq]
  cases isMultiple address a.minimum with
  | false => rfl
  | true =>
      by_cases window : a.sizeWithin = 0
      · simp [window]
      · simp [window, Checked.mod_of_ne_zero, Checked.any_add_le]

end Alignment

end AtomicTables
