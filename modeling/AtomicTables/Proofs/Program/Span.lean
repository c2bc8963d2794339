import AtomicTables.Program.Span
import AtomicTables.Proofs.Memory
import AtomicTables.Proofs.Program.OnMemory
import AtomicTables.Proofs.Slot.Numbers

namespace AtomicTables.Span

variable [FlagSpace]
open Program Memory

theorem onMemory_copy {t s n : Nat} (spans : SameOrApart t s n) (m : Memory) :
    (copy t s n).onMemory m = some (.ok (), m.putWord t (m.word s n)) := by
  rw [putWord, toNat_word]
  induction n generalizing t s m with
  | zero => rfl
  | succ n ih =>
      obtain ⟨above, outside⟩ := spans.step
      rw [copy, onMemory_read_bind, onMemory_write_bind, ih above, value_write outside, value,
        put_of_digits (ofNat_digits ..) (digits_div ..)]

theorem onMemory_equal (a b n : Nat) (m : Memory) :
    (equal a b n).onMemory m = some (.ok (decide (m.word a n = m.word b n)), m) := by
  simp only [word_inj]
  induction n generalizing a b with
  | zero => rfl
  | succ n ih =>
      have lowA := (m.read a).toNat_lt
      have lowB := (m.read b).toNat_lt
      rw [equal, onMemory_read_bind, onMemory_read_bind]
      split
      · rename_i same
        rw [ih, value, value, same]
        simp
      · rename_i different
        have numbers : ¬ (m.read a).toNat = (m.read b).toNat := fun h => different (UInt8.toNat_inj.1 h)
        have values : ¬ m.value a (n + 1) = m.value b (n + 1) := by
          rw [value, value]
          omega
        simp [values]

theorem onMemory_combine {f : UInt8 → UInt8 → UInt8} {g : Nat → Nat → Nat}
    (low : ∀ x y, UInt8.ofNat (g x y) = f (UInt8.ofNat x) (UInt8.ofNat y))
    (high : ∀ x y, g x y / 256 = g (x / 256) (y / 256)) {t a n : Nat} (spans : SameOrApart t a n)
    (m : Memory) :
    (combine f t a n).onMemory m = some (.ok (), m.put t (g (m.value t n) (m.value a n)) n) := by
  induction n generalizing t a m with
  | zero => rfl
  | succ n ih =>
      obtain ⟨above, outside⟩ := spans.step
      have lowest : UInt8.ofNat (g (m.value t (n + 1)) (m.value a (n + 1))) = f (m.read t) (m.read a) := by
        rw [low, value, value, ofNat_digits, ofNat_digits]
      have others : g (m.value t (n + 1)) (m.value a (n + 1)) / 256 =
          g (m.value (t + 1) n) (m.value (a + 1) n) := by
        rw [high, value, value, digits_div, digits_div]
      rw [combine, onMemory_read_bind, onMemory_read_bind, onMemory_write_bind, ih above,
        value_write outside, value_write (by omega), put_of_digits lowest others]

theorem onMemory_complement (t n : Nat) (m : Memory) :
    (complement t n).onMemory m = some (.ok (), m.put t (256 ^ n - 1 - m.value t n) n) := by
  induction n generalizing t m with
  | zero => rfl
  | succ n ih =>
      have byte := (m.read t).toNat_lt
      have rest := m.value_lt (t + 1) n
      have power : 256 ^ (n + 1) = 256 * 256 ^ n := pow_succ' ..
      have lowest : UInt8.ofNat (256 ^ (n + 1) - 1 - m.value t (n + 1)) = ~~~m.read t := by
        apply UInt8.toNat_inj.1
        rw [UInt8.toNat_ofNat', UInt8.toNat_not, UInt8.size, value, power]
        omega
      have others : (256 ^ (n + 1) - 1 - m.value t (n + 1)) / 256 =
          256 ^ n - 1 - m.value (t + 1) n := by
        rw [value, power]
        omega
      rw [complement, onMemory_read_bind, onMemory_write_bind, ih, value_write (by omega),
        put_of_digits lowest others]

theorem onMemory_add {t a n : Nat} (spans : SameOrApart t a n) (carry : Nat) (m : Memory) :
    (add t a carry n).onMemory m = some (.ok (), m.put t (m.value t n + m.value a n + carry) n) := by
  induction n generalizing t a carry m with
  | zero => rfl
  | succ n ih =>
      obtain ⟨above, outside⟩ := spans.step
      have lowest : UInt8.ofNat (m.value t (n + 1) + m.value a (n + 1) + carry) =
          UInt8.ofNat ((m.read t).toNat + (m.read a).toNat + carry) := by
        apply UInt8.toNat_inj.1
        rw [UInt8.toNat_ofNat', UInt8.toNat_ofNat', value, value]
        omega
      have others : (m.value t (n + 1) + m.value a (n + 1) + carry) / 256 =
          m.value (t + 1) n + m.value (a + 1) n + ((m.read t).toNat + (m.read a).toNat + carry) / 256 := by
        rw [value, value]
        omega
      rw [add, onMemory_read_bind, onMemory_read_bind, onMemory_write_bind, ih above,
        value_write outside, value_write (by omega), put_of_digits lowest others]

theorem onMemory_sub {t a n borrow : Nat} (spans : SameOrApart t a n) (small : borrow ≤ 1) (m : Memory) :
    (sub t a borrow n).onMemory m =
      some (.ok (), m.put t (256 ^ n + m.value t n - (m.value a n + borrow)) n) := by
  induction n generalizing t a borrow m with
  | zero => rfl
  | succ n ih =>
      obtain ⟨above, outside⟩ := spans.step
      have byteT := (m.read t).toNat_lt
      have byteA := (m.read a).toNat_lt
      have rest := m.value_lt (a + 1) n
      have power : 256 ^ (n + 1) = 256 * 256 ^ n := pow_succ' ..
      have lowest : UInt8.ofNat (256 ^ (n + 1) + m.value t (n + 1) - (m.value a (n + 1) + borrow)) =
          UInt8.ofNat (256 + (m.read t).toNat - ((m.read a).toNat + borrow)) := by
        apply UInt8.toNat_inj.1
        rw [UInt8.toNat_ofNat', UInt8.toNat_ofNat', value, value, power]
        omega
      have others : (256 ^ (n + 1) + m.value t (n + 1) - (m.value a (n + 1) + borrow)) / 256 =
          256 ^ n + m.value (t + 1) n -
            (m.value (a + 1) n + if (m.read t).toNat < (m.read a).toNat + borrow then 1 else 0) := by
        rw [value, value, power]
        split <;> omega
      rw [sub, onMemory_read_bind, onMemory_read_bind, onMemory_write_bind, ih above (by split <;> omega),
        value_write outside, value_write (by omega), put_of_digits lowest others]

theorem onMemory_inc (t n : Nat) (m : Memory) :
    (inc t n).onMemory m = some (.ok (), m.put t (m.value t n + 1) n) := by
  induction n generalizing t m with
  | zero => rfl
  | succ n ih =>
      have byte := (m.read t).toNat_lt
      have lowest : UInt8.ofNat (m.value t (n + 1) + 1) = m.read t + 1 := by
        apply UInt8.toNat_inj.1
        rw [UInt8.toNat_ofNat', UInt8.toNat_add, value]
        change _ = ((m.read t).toNat + 1) % 256
        omega
      rw [inc, onMemory_read_bind, onMemory_write_bind]
      split
      · rename_i last
        have others : (m.value t (n + 1) + 1) / 256 = m.value (t + 1) n + 1 := by
          rw [value, last]
          change (255 + _ + 1) / 256 = _
          omega
        rw [ih, value_write (by omega), put_of_digits lowest others]
      · rename_i before
        have smaller : (m.read t).toNat ≠ 255 := fun h => before (UInt8.toNat_inj.1 h)
        have others : (m.value t (n + 1) + 1) / 256 = m.value (t + 1) n := by
          rw [value]
          omega
        rw [put_of_digits lowest others, ← value_write (b := t) (by omega) (m.read t + 1), put_value]
        rfl

theorem onMemory_dec (t n : Nat) (m : Memory) :
    (dec t n).onMemory m = some (.ok (), m.put t (256 ^ n - 1 + m.value t n) n) := by
  induction n generalizing t m with
  | zero => rfl
  | succ n ih =>
      have byte := (m.read t).toNat_lt
      have power : 256 ^ (n + 1) = 256 * 256 ^ n := pow_succ' ..
      have positive : 0 < 256 ^ n := Nat.pow_pos (by decide)
      have lowest : UInt8.ofNat (256 ^ (n + 1) - 1 + m.value t (n + 1)) = m.read t - 1 := by
        apply UInt8.toNat_inj.1
        rw [UInt8.toNat_ofNat', UInt8.toNat_sub, value, power]
        change _ = (256 - 1 + (m.read t).toNat) % 256
        omega
      rw [dec, onMemory_read_bind, onMemory_write_bind]
      split
      · rename_i first
        have others : (256 ^ (n + 1) - 1 + m.value t (n + 1)) / 256 = 256 ^ n - 1 + m.value (t + 1) n := by
          rw [value, first, power]
          change (_ + (0 + _)) / 256 = _
          omega
        rw [ih, value_write (by omega), put_of_digits lowest others]
      · rename_i later
        have positive : (m.read t).toNat ≠ 0 := fun h => later (UInt8.toNat_inj.1 h)
        have others : (256 ^ (n + 1) - 1 + m.value t (n + 1)) / 256 = 256 ^ n + m.value (t + 1) n := by
          rw [value, power]
          omega
        rw [put_of_digits lowest others, put_congr (Nat.add_mod_left ..),
          ← value_write (b := t) (by omega) (m.read t - 1), put_value]
        rfl

theorem onMemory_neg (t n : Nat) (m : Memory) :
    (neg t n).onMemory m = some (.ok (), m.put t (256 ^ n - m.value t n) n) := by
  have bound := m.value_lt t n
  have same : 256 ^ n - 1 - m.value t n + 1 = 256 ^ n - m.value t n := by omega
  rw [neg, onMemory_bind_ok (onMemory_complement t n m), onMemory_inc, put_put_value_add, same]

theorem onMemory_binary (op : BinaryOp) {t a n : Nat} (spans : SameOrApart t a n) (m : Memory) :
    (binary op t a n).onMemory m =
      some (.ok (), m.putWord t (op.apply (m.word t n) (m.word a n))) := by
  cases op with
  | or =>
      rw [binary, onMemory_combine (g := (· ||| ·)) (fun _ _ => UInt8.ofNat_or ..)
        (fun _ _ => Nat.or_div_two_pow (n := 8)) spans, putWord, BinaryOp.apply, BitVec.toNat_or,
        toNat_word, toNat_word]
  | xor =>
      rw [binary, onMemory_combine (g := (· ^^^ ·)) (fun _ _ => UInt8.ofNat_xor ..)
        (fun _ _ => Nat.xor_div_two_pow (n := 8)) spans, putWord, BinaryOp.apply, BitVec.toNat_xor,
        toNat_word, toNat_word]
  | and =>
      rw [binary, onMemory_combine (g := (· &&& ·)) (fun _ _ => UInt8.ofNat_and ..)
        (fun _ _ => Nat.and_div_two_pow (n := 8)) spans, putWord, BinaryOp.apply, BitVec.toNat_and,
        toNat_word, toNat_word]
  | add =>
      rw [binary, onMemory_add spans, putWord, BinaryOp.apply, BitVec.toNat_add, two_pow_eight_mul,
        put_mod, toNat_word, toNat_word, Nat.add_zero]
  | sub =>
      have bound := m.value_lt a n
      have same : 256 ^ n + m.value t n - (m.value a n + 0) = 256 ^ n - m.value a n + m.value t n := by
        omega
      rw [binary, onMemory_sub spans (by decide), same, putWord, BinaryOp.apply, BitVec.toNat_sub,
        two_pow_eight_mul, put_mod, toNat_word, toNat_word]

theorem onMemory_unary (op : UnaryOp) (t n : Nat) (m : Memory) :
    (unary op t n).onMemory m = some (.ok (), m.putWord t (op.apply (m.word t n))) := by
  cases op with
  | not =>
      rw [unary, onMemory_complement, putWord, UnaryOp.apply, BitVec.toNat_not, two_pow_eight_mul, toNat_word]
  | inc => rw [unary, onMemory_inc, putWord, UnaryOp.toNat_apply, toNat_word, UnaryOp.onNumber, put_mod]
  | dec =>
      have positive : 0 < 256 ^ n := Nat.pow_pos (by decide)
      have same : ((256 ^ n - 1 + m.value t n : Nat) : Int) = (m.value t n : Int) - 1 + (256 ^ n : Nat) := by omega
      rw [unary, onMemory_dec, putWord, UnaryOp.toNat_apply, toNat_word, UnaryOp.onNumber, toNat_emod same, put_mod]
  | neg =>
      rw [unary, onMemory_neg, putWord, UnaryOp.apply, BitVec.toNat_neg, two_pow_eight_mul, put_mod, toNat_word]

omit [FlagSpace] in
theorem write_changeBit (m : Memory) (change : BitChange) (a : Nat) {n i : Nat} (inside : i < 8 * n) :
    m.write (a + i / 8)
        ⟨change.apply (m.read (a + i / 8)).toBitVec (BitVec.twoPow 8 (i % 8))⟩ =
      m.putWord a (change.apply (m.word a n) (BitVec.twoPow _ i)) := by
  refine ext_read (by rw [size_write, putWord, size_put]) fun b => ?_
  by_cases within : a ≤ b ∧ b < a + n ∧ b < m.size
  · obtain ⟨k, rfl⟩ := Nat.exists_eq_add_of_le within.1
    have byte : k < n := by omega
    refine UInt8.toBitVec_inj.1 (BitVec.eq_of_getLsbD_eq fun j bit => ?_)
    rw [getLsbD_read_putWord byte within.2.2 _ bit, read_write]
    by_cases here : k = i / 8
    · subst here
      rw [if_pos ⟨rfl, within.2.2⟩]
      by_cases hit : i % 8 = j
      · subst hit
        have position : 8 * (i / 8) + i % 8 = i := Nat.div_add_mod i 8
        have same := m.getLsbD_word a byte bit
        rw [position] at same ⊢
        exact change.getLsbD_apply_twoPow bit inside same.symm
      · change (change.apply _ _).getLsbD j = _
        rw [change.getLsbD_apply_twoPow_ne _ hit, change.getLsbD_apply_twoPow_ne _ (by omega),
          getLsbD_word m a byte bit]
    · rw [if_neg (by omega), change.getLsbD_apply_twoPow_ne _ (by omega), getLsbD_word m a byte bit]
  · rw [putWord, read_put, if_neg within, read_write, if_neg (by omega)]

theorem onMemory_checkBit {bit width : UInt64} (small : 8 * width.toNat < UInt64.size)
    (inside : bit.toNat < 8 * width.toNat) (m : Memory) :
    (checkBit bit width).onMemory m = some (.ok (), m) := by
  refine onMemory_seq (onMemory_require (decide_eq_true small) _ m) ?_
  exact onMemory_require (decide_eq_true inside) _ m

theorem onMemory_testBit (source : Nat) {bit width : UInt64} (small : 8 * width.toNat < UInt64.size)
    (inside : bit.toNat < 8 * width.toNat) (m : Memory) :
    (testBit source bit width).onMemory m =
      some (.ok ((m.word source width.toNat).getLsbD bit.toNat), m) := by
  have position : 8 * (bit.toNat / 8) + bit.toNat % 8 = bit.toNat := Nat.div_add_mod ..
  have word := m.getLsbD_word source (k := bit.toNat / 8) (j := bit.toNat % 8) (n := width.toNat)
    (by omega) (by omega)
  rw [testBit, onMemory_bind_ok (onMemory_checkBit small inside m), onMemory_read_bind, ← word, position]
  rfl

theorem onMemory_changeBit (change : BitChange) (target : Nat) {bit width : UInt64}
    (small : 8 * width.toNat < UInt64.size) (inside : bit.toNat < 8 * width.toNat) (m : Memory) :
    (changeBit change target bit width).onMemory m =
      some (.ok ((m.word target width.toNat).getLsbD bit.toNat),
        m.putWord target (change.apply (m.word target width.toNat) (BitVec.twoPow _ bit.toNat))) := by
  have position : 8 * (bit.toNat / 8) + bit.toNat % 8 = bit.toNat := Nat.div_add_mod ..
  have word := m.getLsbD_word target (k := bit.toNat / 8) (j := bit.toNat % 8) (n := width.toNat)
    (by omega) (by omega)
  rw [changeBit, onMemory_bind_ok (onMemory_checkBit small inside m), onMemory_read_bind,
    onMemory_write_bind, write_changeBit m change target inside, ← word, position]
  rfl

theorem onMemory_checkBit_wide {width : UInt64} (wide : ¬ 8 * width.toNat < UInt64.size) (bit : UInt64)
    (m : Memory) : (checkBit bit width).onMemory m = some (.error .spanTooWide, m) := by
  rw [checkBit, decide_eq_false wide]
  rfl

theorem onMemory_testBit_wide {width : UInt64} (wide : ¬ 8 * width.toNat < UInt64.size) (source : Nat)
    (bit : UInt64) (m : Memory) : (testBit source bit width).onMemory m = some (.error .spanTooWide, m) :=
  onMemory_bind_error (onMemory_checkBit_wide wide bit m) _

theorem onMemory_changeBit_wide {width : UInt64} (wide : ¬ 8 * width.toNat < UInt64.size) (change : BitChange)
    (target : Nat) (bit : UInt64) (m : Memory) :
    (changeBit change target bit width).onMemory m = some (.error .spanTooWide, m) :=
  onMemory_bind_error (onMemory_checkBit_wide wide bit m) _

theorem plain_copy (t s n : Nat) : (copy t s n).Plain := by
  induction n generalizing t s with
  | zero => exact plain_pure ()
  | succ n ih => exact (plain_read s).bind fun _ => (plain_write ..).bind fun _ => ih ..

theorem plain_equal (a b n : Nat) : (equal a b n).Plain :=
  .of_onMemory (onMemory_equal a b n)

theorem plain_combine (f : UInt8 → UInt8 → UInt8) (t a n : Nat) : (combine f t a n).Plain := by
  induction n generalizing t a with
  | zero => exact plain_pure ()
  | succ n ih =>
      exact (plain_read t).bind fun _ => (plain_read a).bind fun _ => (plain_write ..).bind fun _ => ih ..

theorem plain_add (t a carry n : Nat) : (add t a carry n).Plain := by
  induction n generalizing t a carry with
  | zero => exact plain_pure ()
  | succ n ih =>
      exact (plain_read t).bind fun _ => (plain_read a).bind fun _ => (plain_write ..).bind fun _ => ih ..

theorem plain_sub (t a borrow n : Nat) : (sub t a borrow n).Plain := by
  induction n generalizing t a borrow with
  | zero => exact plain_pure ()
  | succ n ih =>
      exact (plain_read t).bind fun _ => (plain_read a).bind fun _ => (plain_write ..).bind fun _ => ih ..

theorem plain_binary (op : BinaryOp) (t a n : Nat) : (binary op t a n).Plain := by
  cases op with
  | or | xor | and => exact plain_combine ..
  | add => exact plain_add ..
  | sub => exact plain_sub ..

theorem plain_unary (op : UnaryOp) (t n : Nat) : (unary op t n).Plain :=
  .of_onMemory (onMemory_unary op t n)

theorem plain_checkBit (bit width : UInt64) : (checkBit bit width).Plain :=
  (plain_require ..).bind fun _ => plain_require ..

theorem plain_testBit (source : Nat) (bit width : UInt64) : (testBit source bit width).Plain :=
  (plain_checkBit bit width).bind fun _ => (plain_read _).bind fun _ => plain_pure _

theorem plain_changeBit (change : BitChange) (target : Nat) (bit width : UInt64) :
    (changeBit change target bit width).Plain :=
  (plain_checkBit bit width).bind fun _ => (plain_read _).bind fun _ => (plain_write ..).bind fun _ =>
    plain_pure _

theorem plain_compareExchange (object expected desired n : Nat) :
    (compareExchange object expected desired n).Plain := by
  refine (plain_equal object expected n).bind fun same => ?_
  cases same with
  | true => exact (plain_copy object desired n).bind fun _ => plain_pure true
  | false => exact (plain_copy expected object n).bind fun _ => plain_pure false

theorem plain_allEqual (n : Nat) (legs : List Leg) : (allEqual n legs).Plain := by
  induction legs with
  | nil => exact plain_pure true
  | cons leg legs ih =>
      refine (plain_equal leg.object leg.expected n).bind fun same => ?_
      cases same with
      | true => exact ih
      | false => exact plain_pure false

theorem plain_forM {α : Type} (f : α → Program Unit) (plain : ∀ a, (f a).Plain) (as : List α) :
    (as.forM f).Plain := by
  induction as with
  | nil => exact plain_pure ()
  | cons a as ih => exact (plain a).bind fun _ => ih

theorem plain_compareExchangeAll (legs : List Leg) (n : Nat) : (compareExchangeAll legs n).Plain := by
  refine (plain_allEqual n legs).bind fun asExpected =>
    (plain_forM _ (fun leg => ?_) legs).bind fun _ => plain_pure asExpected
  cases asExpected with
  | true => exact plain_copy leg.object leg.desired n
  | false => exact plain_copy leg.expected leg.object n

end AtomicTables.Span
