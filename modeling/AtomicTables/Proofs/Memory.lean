import AtomicTables.Memory
import Mathlib.Algebra.Group.Nat.Even
import Mathlib.Tactic.Ring

namespace AtomicTables

def Apart (a b n : Nat) : Prop := a + n ≤ b ∨ b + n ≤ a

instance (a b n : Nat) : Decidable (Apart a b n) := inferInstanceAs (Decidable (_ ∨ _))

theorem Apart.symm {a b n : Nat} (h : Apart a b n) : Apart b a n := Or.symm h

def SameOrApart (a b n : Nat) : Prop := a = b ∨ Apart a b n

instance (a b n : Nat) : Decidable (SameOrApart a b n) := inferInstanceAs (Decidable (_ ∨ _))

theorem SameOrApart.step {a b n : Nat} (h : SameOrApart a b (n + 1)) :
    SameOrApart (a + 1) (b + 1) n ∧ (a < b + 1 ∨ b + 1 + n ≤ a) := by
  unfold SameOrApart Apart at *
  omega

namespace Memory

def put (m : Memory) (a value : Nat) : Nat → Memory
  | 0 => m
  | n + 1 => (m.write a (UInt8.ofNat value)).put (a + 1) (value / 256) n

theorem write_comm (m : Memory) {a b : Nat} (different : a ≠ b) (v w : UInt8) :
    (m.write a v).write b w = (m.write b w).write a v :=
  congrArg mk (Array.setIfInBounds_comm v w different)

theorem write_write (m : Memory) (a : Nat) (v w : UInt8) : (m.write a v).write a w = m.write a w :=
  congrArg mk (Array.setIfInBounds_setIfInBounds ..)

theorem ext_read {m m' : Memory} (size : m.size = m'.size) (reads : ∀ a, m.read a = m'.read a) :
    m = m' := by
  obtain ⟨bytes⟩ := m
  obtain ⟨bytes'⟩ := m'
  refine congrArg mk (Array.ext size fun i inside inside' => ?_)
  simpa [read, inside, inside'] using reads i

theorem write_read (m : Memory) (a : Nat) : m.write a (m.read a) = m := by
  refine ext_read (size_write ..) fun b => ?_
  rw [read_write]
  split
  · rename_i h
    rw [h.1]
  · rfl

theorem value_lt (m : Memory) (a n : Nat) : m.value a n < 256 ^ n := by
  induction n generalizing a with
  | zero => exact Nat.one_pos
  | succ n ih =>
      have byte := (m.read a).toNat_lt
      have rest := ih (a + 1)
      rw [value, pow_succ]
      omega

theorem value_write {m : Memory} {a b n : Nat} (outside : b < a ∨ a + n ≤ b) (v : UInt8) :
    (m.write b v).value a n = m.value a n := by
  induction n generalizing a with
  | zero => rfl
  | succ n ih =>
      have other : ¬ a = b := by omega
      rw [value, value, ih (by omega), read_write, if_neg (fun h => other h.1)]

theorem put_write {m : Memory} {a b n : Nat} (outside : b < a ∨ a + n ≤ b) (value : Nat) (v : UInt8) :
    (m.write b v).put a value n = (m.put a value n).write b v := by
  induction n generalizing m a value with
  | zero => rfl
  | succ n ih => rw [put, put, write_comm m (by omega), ih (by omega)]

theorem put_comm {m : Memory} {a b k n : Nat} (apart : a + k ≤ b ∨ b + n ≤ a) (v w : Nat) :
    (m.put a v k).put b w n = (m.put b w n).put a v k := by
  induction k generalizing m a v with
  | zero => rfl
  | succ k ih => rw [put, put, ih (by omega), put_write (by omega)]

theorem value_put {m : Memory} {a b k n : Nat} (apart : a + k ≤ b ∨ b + n ≤ a) (v : Nat) :
    (m.put a v k).value b n = m.value b n := by
  induction k generalizing m a v with
  | zero => rfl
  | succ k ih => rw [put, ih (by omega), value_write (by omega)]

theorem put_of_digits {v high : Nat} {low : UInt8} (lowest : UInt8.ofNat v = low)
    (others : v / 256 = high) (m : Memory) (a n : Nat) :
    m.put a v (n + 1) = (m.write a low).put (a + 1) high n := by
  rw [put, lowest, others]

theorem ofNat_digits (low : UInt8) (high : Nat) : UInt8.ofNat (low.toNat + 256 * high) = low := by
  have byte := low.toNat_lt
  apply UInt8.toNat_inj.1
  rw [UInt8.toNat_ofNat']
  omega

theorem digits_div (low : UInt8) (high : Nat) : (low.toNat + 256 * high) / 256 = high := by
  have byte := low.toNat_lt
  omega

theorem put_value (m : Memory) (a n : Nat) : m.put a (m.value a n) n = m := by
  induction n generalizing a with
  | zero => rfl
  | succ n ih =>
      rw [value, put_of_digits (ofNat_digits ..) (digits_div ..), write_read, ih]

theorem size_put (m : Memory) (a v n : Nat) : (m.put a v n).size = m.size := by
  induction n generalizing m a v with
  | zero => rfl
  | succ n ih => rw [put, ih, size_write]

theorem read_put (m : Memory) (a v n b : Nat) :
    (m.put a v n).read b =
      if a ≤ b ∧ b < a + n ∧ b < m.size then UInt8.ofNat (v / 256 ^ (b - a)) else m.read b := by
  induction n generalizing m a v with
  | zero => rw [put, if_neg (by omega)]
  | succ n ih =>
      rw [put, ih, read_write, size_write]
      rcases Nat.lt_trichotomy b a with below | rfl | above
      · rw [if_neg (by omega), if_neg (by omega), if_neg (by omega)]
      · by_cases inside : b < m.size <;> simp [inside]
      · have digit : 256 ^ (b - a) = 256 * 256 ^ (b - (a + 1)) := by
          rw [← pow_succ', show b - a = b - (a + 1) + 1 by omega]
        have same : (a + 1 ≤ b ∧ b < a + 1 + n ∧ b < m.size) ↔ (a ≤ b ∧ b < a + (n + 1) ∧ b < m.size) := by
          omega
        rw [digit, ← Nat.div_div_eq_div_mul, if_neg (fun h : b = a ∧ a < m.size => by omega)]
        simp only [same]

theorem put_congr {m : Memory} {a v w n : Nat} (same : v % 256 ^ n = w % 256 ^ n) :
    m.put a v n = m.put a w n := by
  induction n generalizing m a v w with
  | zero => rfl
  | succ n ih =>
      rw [pow_succ'] at same
      have low : UInt8.ofNat v = UInt8.ofNat w := by
        apply UInt8.toNat_inj.1
        rw [UInt8.toNat_ofNat', UInt8.toNat_ofNat', ← Nat.mod_mul_right_mod v 256 (256 ^ n), same,
          Nat.mod_mul_right_mod]
      have high : v / 256 % 256 ^ n = w / 256 % 256 ^ n := by
        rw [← Nat.mod_mul_right_div_self, same, Nat.mod_mul_right_div_self]
      rw [put, put, low, ih high]

theorem put_mod (m : Memory) (a v n : Nat) : m.put a (v % 256 ^ n) n = m.put a v n :=
  put_congr (Nat.mod_mod ..)

theorem put_outside {m : Memory} {a : Nat} (outside : m.size ≤ a) (v n : Nat) : m.put a v n = m := by
  refine ext_read (size_put ..) fun b => ?_
  rw [read_put, if_neg (by omega)]

theorem value_put_self {m : Memory} {a n : Nat} (inside : a + n ≤ m.size) (v : Nat) :
    (m.put a v n).value a n = v % 256 ^ n := by
  induction n generalizing m a v with
  | zero => exact (Nat.mod_one v).symm
  | succ n ih =>
      have low : (m.put a v (n + 1)).read a = UInt8.ofNat v := by
        rw [read_put, if_pos (by omega), Nat.sub_self, pow_zero, Nat.div_one]
      have high : (m.put a v (n + 1)).value (a + 1) n = v / 256 % 256 ^ n :=
        ih (by rw [size_write]; omega) (v / 256)
      rw [value, low, high, UInt8.toNat_ofNat', pow_succ' 256]
      exact Nat.mod_mul.symm

theorem put_put_value_add (m : Memory) (a v c n : Nat) :
    (m.put a v n).put a ((m.put a v n).value a n + c) n = m.put a (v + c) n := by
  induction n generalizing m a v c with
  | zero => rfl
  | succ n ih =>
      by_cases inside : a < m.size
      · have byte : (m.put a v (n + 1)).read a = UInt8.ofNat v := by
          rw [read_put, if_pos (by omega), Nat.sub_self, pow_zero, Nat.div_one]
        have moved (y : UInt8) : (m.put a v (n + 1)).write a y = (m.write a y).put (a + 1) (v / 256) n := by
          rw [put, ← put_write (by omega), write_write]
        let y := UInt8.ofNat (v + c)
        let carry := (v % 256 + c) / 256
        have rest : (m.put a v (n + 1)).value (a + 1) n =
            ((m.write a y).put (a + 1) (v / 256) n).value (a + 1) n := by
          rw [← moved y, value_write (by omega)]
        have low : UInt8.ofNat (v % 256 + 256 * (m.put a v (n + 1)).value (a + 1) n + c) = y := by
          apply UInt8.toNat_inj.1
          rw [UInt8.toNat_ofNat', UInt8.toNat_ofNat']
          omega
        have high : (v % 256 + 256 * (m.put a v (n + 1)).value (a + 1) n + c) / 256 =
            (m.put a v (n + 1)).value (a + 1) n + carry := by omega
        have digits : (v + c) / 256 = v / 256 + carry := by omega
        calc (m.put a v (n + 1)).put a ((m.put a v (n + 1)).value a (n + 1) + c) (n + 1)
            = ((m.put a v (n + 1)).write a y).put (a + 1)
                ((m.put a v (n + 1)).value (a + 1) n + carry) n := by
              rw [value, byte, UInt8.toNat_ofNat', put, low, high]
          _ = (m.write a y).put (a + 1) (v / 256 + carry) n := by rw [rest, moved, ih]
          _ = m.put a (v + c) (n + 1) := by rw [← digits, put]
      · have outside : m.size ≤ a := Nat.not_lt.1 inside
        simp only [put_outside outside]

theorem value_congr {m m' : Memory} {a n : Nat} (same : ∀ b, a ≤ b → b < a + n → m'.read b = m.read b) :
    m'.value a n = m.value a n := by
  induction n generalizing a with
  | zero => rfl
  | succ n ih =>
      rw [value, value, same a le_rfl (by omega), ih fun b above below => same b (by omega) (by omega)]

structure SameOutside (spans : List Nat) (n : Nat) (m m' : Memory) : Prop where
  size : m'.size = m.size
  read {b : Nat} (outside : ∀ a ∈ spans, b < a ∨ a + n ≤ b) : m'.read b = m.read b

namespace SameOutside

variable {spans spans' : List Nat} {n : Nat} {m m' m'' : Memory}

theorem refl (spans : List Nat) (n : Nat) (m : Memory) : SameOutside spans n m m := ⟨rfl, fun _ => rfl⟩

theorem trans (first : SameOutside spans n m m') (second : SameOutside spans n m' m'') :
    SameOutside spans n m m'' :=
  ⟨second.size.trans first.size, fun outside => (second.read outside).trans (first.read outside)⟩

theorem mono (same : SameOutside spans n m m') (more : spans ⊆ spans') : SameOutside spans' n m m' :=
  ⟨same.size, fun outside => same.read fun a member => outside a (more member)⟩

theorem value (same : SameOutside spans n m m') {a : Nat} (apart : ∀ b ∈ spans, Apart a b n) :
    m'.value a n = m.value a n := by
  refine value_congr fun c above below => same.read fun b member => ?_
  have := apart b member
  unfold Apart at this
  omega

end SameOutside

theorem sameOutside_put (m : Memory) (a v n : Nat) : SameOutside [a] n m (m.put a v n) := by
  refine ⟨size_put .., fun outside => ?_⟩
  have elsewhere := outside a (List.mem_singleton_self a)
  rw [read_put, if_neg (by omega)]

theorem two_pow_eight_mul (n : Nat) : 2 ^ (8 * n) = 256 ^ n := by rw [pow_mul]; rfl

def word (m : Memory) (a n : Nat) : BitVec (8 * n) := BitVec.ofNat _ (m.value a n)

def putWord (m : Memory) (a : Nat) {n : Nat} (v : BitVec (8 * n)) : Memory := m.put a v.toNat n

theorem toNat_word (m : Memory) (a n : Nat) : (m.word a n).toNat = m.value a n := by
  rw [word, BitVec.toNat_ofNat, two_pow_eight_mul, Nat.mod_eq_of_lt (value_lt ..)]

theorem word_inj {m m' : Memory} {a b n : Nat} :
    m.word a n = m'.word b n ↔ m.value a n = m'.value b n := by
  rw [← BitVec.toNat_inj, toNat_word, toNat_word]

theorem putWord_word (m : Memory) (a n : Nat) : m.putWord a (m.word a n) = m := by
  rw [putWord, toNat_word, put_value]

theorem word_putWord {m : Memory} {a b n : Nat} (apart : Apart a b n) (v : BitVec (8 * n)) :
    (m.putWord a v).word b n = m.word b n :=
  congrArg (BitVec.ofNat _) (value_put apart _)

theorem word_putWord_self {m : Memory} {a n : Nat} (inside : a + n ≤ m.size) (v : BitVec (8 * n)) :
    (m.putWord a v).word a n = v := by
  apply BitVec.toNat_inj.1
  rw [toNat_word, putWord, value_put_self inside, ← two_pow_eight_mul, Nat.mod_eq_of_lt v.isLt]

theorem putWord_comm {m : Memory} {a b n : Nat} (apart : Apart a b n) (v w : BitVec (8 * n)) :
    (m.putWord a v).putWord b w = (m.putWord b w).putWord a v :=
  put_comm apart _ _

/-- The spans hold the numbers listed with them, and nothing else has changed. -/
structure Leaves (numbers : List (Nat × Nat)) (n : Nat) (m m' : Memory) : Prop where
  holds {a v : Nat} (listed : (a, v) ∈ numbers) : m'.value a n = v
  outside : SameOutside (numbers.map Prod.fst) n m m'

theorem leaves_nil (n : Nat) (m : Memory) : Leaves [] n m m := ⟨nofun, .refl ..⟩

theorem Leaves.keeps {numbers : List (Nat × Nat)} {n : Nat} {m m' : Memory} (leaves : Leaves numbers n m m')
    {a : Nat} (apart : ∀ p ∈ numbers, Apart p.1 a n) : m'.value a n = m.value a n := by
  refine leaves.outside.value fun b member => ?_
  obtain ⟨p, listed, rfl⟩ := List.mem_map.1 member
  exact (apart p listed).symm

theorem Leaves.trans {numbers numbers' : List (Nat × Nat)} {n : Nat} {m m' m'' : Memory}
    (first : Leaves numbers n m m') (second : Leaves numbers' n m' m'')
    (apart : ∀ p ∈ numbers, ∀ q ∈ numbers', Apart p.1 q.1 n) : Leaves (numbers ++ numbers') n m m'' where
  holds listed := by
    rcases List.mem_append.1 listed with earlier | later
    · rw [← first.holds earlier]
      exact second.keeps fun q listed' => (apart _ earlier q listed').symm
    · exact second.holds later
  outside := by
    rw [List.map_append]
    exact (first.outside.mono (List.subset_append_left ..)).trans (second.outside.mono (List.subset_append_right ..))

theorem leaves_putWord {m : Memory} {a n : Nat} (inside : a + n ≤ m.size) (v : BitVec (8 * n)) :
    Leaves [(a, v.toNat)] n m (m.putWord a v) where
  holds listed := by
    cases List.mem_singleton.1 listed
    rw [← toNat_word, word_putWord_self inside]
  outside := sameOutside_put ..

theorem leaves_putWord_word {m : Memory} {a n : Nat} (inside : a + n ≤ m.size) (b : Nat) :
    Leaves [(a, m.value b n)] n m (m.putWord a (m.word b n)) := by
  rw [← toNat_word]
  exact leaves_putWord inside _

theorem testBit_value (m : Memory) (a : Nat) {k j n : Nat} (byte : k < n) (bit : j < 8) :
    (m.value a n).testBit (8 * k + j) = (m.read (a + k)).toNat.testBit j := by
  induction n generalizing a k with
  | zero => omega
  | succ n ih =>
      have digits : m.value a (n + 1) = 2 ^ 8 * m.value (a + 1) n + (m.read a).toNat := Nat.add_comm ..
      rw [digits, Nat.testBit_two_pow_mul_add _ (m.read a).toNat_lt]
      cases k with
      | zero => simp [bit]
      | succ k =>
          have above : 8 * (k + 1) + j - 8 = 8 * k + j := by omega
          have next : a + 1 + k = a + (k + 1) := by omega
          rw [if_neg (by omega), above, ih (a + 1) (by omega), next]

theorem getLsbD_word_eq_testBit (m : Memory) (a n i : Nat) : (m.word a n).getLsbD i = (m.value a n).testBit i := by
  rw [← toNat_word, BitVec.testBit_toNat]

theorem getLsbD_word (m : Memory) (a : Nat) {k j n : Nat} (byte : k < n) (bit : j < 8) :
    (m.word a n).getLsbD (8 * k + j) = (m.read (a + k)).toBitVec.getLsbD j := by
  rw [getLsbD_word_eq_testBit, testBit_value m a byte bit]
  rfl

theorem getLsbD_read_putWord {m : Memory} {a k n : Nat} (byte : k < n) (inside : a + k < m.size)
    (v : BitVec (8 * n)) {j : Nat} (bit : j < 8) :
    ((m.putWord a v).read (a + k)).toBitVec.getLsbD j = v.getLsbD (8 * k + j) := by
  have digit : v.toNat / 256 ^ k = v.toNat / 2 ^ (8 * k) := by rw [two_pow_eight_mul]
  rw [putWord, read_put, if_pos (by omega), Nat.add_sub_cancel_left, digit]
  change (BitVec.ofNat 8 _).getLsbD j = _
  rw [BitVec.getLsbD_ofNat, Nat.testBit_div_two_pow, Nat.add_comm j, decide_eq_true bit]
  rfl

end Memory

end AtomicTables
