import AtomicTables.Proofs.Slot.Object

/-!
# Operations on an object, by numbers

What the operation of a slot makes of the numbers in its object and buffers (`ObjectSlot.Computes`): integer
arithmetic modulo `256 ^ n`, and operations on single bits. Its effect on words is that (`computes_effect`).
-/

namespace AtomicTables

theorem toNat_emod {i : Int} {k modulus : Nat} (same : (k : Int) = i + modulus) :
    (i % modulus).toNat = k % modulus := by
  rw [← Int.add_emod_right, ← same, ← Int.natCast_emod, Int.toNat_natCast]

namespace BinaryOp

def onNumbers (op : BinaryOp) (n x y : Nat) : Nat :=
  match op with
  | or => x ||| y
  | xor => x ^^^ y
  | and => x &&& y
  | add => (x + y) % 256 ^ n
  | sub => (((x : Int) - y) % (256 ^ n : Nat)).toNat

theorem toNat_apply (op : BinaryOp) {n : Nat} (x y : BitVec (8 * n)) :
    (op.apply x y).toNat = op.onNumbers n x.toNat y.toNat := by
  cases op with
  | or => exact BitVec.toNat_or x y
  | xor => exact BitVec.toNat_xor x y
  | and => exact BitVec.toNat_and x y
  | add => rw [apply, onNumbers, BitVec.toNat_add, Memory.two_pow_eight_mul]
  | sub =>
      have bound := y.isLt
      rw [apply, onNumbers, BitVec.toNat_sub, ← Memory.two_pow_eight_mul]
      refine (toNat_emod ?_).symm
      omega

example : BinaryOp.sub.onNumbers 2 3 5 = 65534 := by decide

end BinaryOp

namespace UnaryOp

def onNumber (op : UnaryOp) (n x : Nat) : Nat :=
  match op with
  | not => x ^^^ (256 ^ n - 1)
  | inc => (x + 1) % 256 ^ n
  | dec => (((x : Int) - 1) % (256 ^ n : Nat)).toNat
  | neg => (-(x : Int) % (256 ^ n : Nat)).toNat

theorem toNat_apply (op : UnaryOp) {n : Nat} (x : BitVec (8 * n)) :
    (op.apply x).toNat = op.onNumber n x.toNat := by
  have bound := x.isLt
  have power : 2 ^ (8 * n) = 256 ^ n := Memory.two_pow_eight_mul n
  cases op with
  | not => rw [apply, onNumber, ← power, ← BitVec.xor_allOnes, BitVec.toNat_xor, BitVec.toNat_allOnes]
  | inc =>
      rw [apply, onNumber, ← power, BitVec.toNat_add]
      exact Nat.add_mod_mod ..
  | dec =>
      rw [apply, onNumber, ← power, BitVec.toNat_sub]
      -- Without any byte, the word for 1 is 0.
      cases n with
      | zero => simp [Nat.mod_one]
      | succ n =>
          have one : (1 : BitVec (8 * (n + 1))).toNat = 1 := BitVec.toNat_one (by omega)
          have positive : 0 < 2 ^ (8 * (n + 1)) := Nat.two_pow_pos _
          rw [one]
          refine (toNat_emod ?_).symm
          omega
  | neg =>
      rw [apply, onNumber, ← power, BitVec.toNat_neg]
      refine (toNat_emod ?_).symm
      omega

end UnaryOp

namespace BitChange

def onBit (change : BitChange) (bit : Bool) : Bool :=
  match change with
  | complement => !bit
  | set => true
  | reset => false

def Changes (change : BitChange) (i x y : Nat) : Prop :=
  ∀ j, y.testBit j = if j = i then change.onBit (x.testBit j) else x.testBit j

theorem changes_apply (change : BitChange) {w i : Nat} (x : BitVec w) (inside : i < w) :
    change.Changes i x.toNat (change.apply x (BitVec.twoPow w i)).toNat := by
  intro j
  rw [BitVec.testBit_toNat, BitVec.testBit_toNat]
  split
  · rename_i here
    subst here
    cases change <;> simp [apply, onBit, inside]
  · rename_i other
    exact change.getLsbD_apply_twoPow_ne x (Ne.symm other)

end BitChange

def Operands.targets (o : Operands) : ObjectSlot → List Nat
  | .store | .changeBit _ => [o.object]
  | .load => [o.result]
  | .exchange => [o.object, o.result]
  | .compareExchange _ => [o.object, o.expected]
  | .testBit => []
  | .binary _ fetch | .unary _ fetch => o.object :: if fetch then [o.result] else []

def Operands.numbers (o : Operands) (n : Nat) (m : Memory) (fetch : Bool) (x : Nat) : List (Nat × Nat) :=
  if fetch then [(o.object, x), (o.result, m.value o.object n)] else [(o.object, x)]

/-- What the operation answers and leaves, in terms of the numbers in its object and buffers. -/
def ObjectSlot.Computes (o : Operands) (n : Nat) (m : Memory) : (s : ObjectSlot) → s.Answer → Memory → Prop
  | .store, _, m' => Memory.Leaves [(o.object, m.value o.argument n)] n m m'
  | .load, _, m' => Memory.Leaves [(o.result, m.value o.object n)] n m m'
  | .exchange, _, m' => Memory.Leaves (o.numbers n m true (m.value o.argument n)) n m m'
  | .compareExchange _, answer, m' =>
    if m.value o.object n = m.value o.expected n then
      answer = true ∧ Memory.Leaves [(o.object, m.value o.argument n)] n m m'
    else answer = false ∧ Memory.Leaves [(o.expected, m.value o.object n)] n m m'
  | .testBit, answer, m' => answer = (m.value o.object n).testBit o.bit.toNat ∧ m' = m
  | .changeBit change, answer, m' =>
    answer = (m.value o.object n).testBit o.bit.toNat ∧
      ∃ x, change.Changes o.bit.toNat (m.value o.object n) x ∧ Memory.Leaves [(o.object, x)] n m m'
  | .binary op fetch, _, m' =>
    Memory.Leaves (o.numbers n m fetch (op.onNumbers n (m.value o.object n) (m.value o.argument n))) n m m'
  | .unary op fetch, _, m' => Memory.Leaves (o.numbers n m fetch (op.onNumber n (m.value o.object n))) n m m'

namespace Memory

theorem Leaves.report {o : Operands} {n x : Nat} {m m' : Memory} (leaves : Leaves [(o.object, x)] n m m')
    {fetch : Bool} (inside : fetch → o.result + n ≤ m.size) (apart : fetch → Apart o.result o.object n) :
    Leaves (o.numbers n m fetch x) n m (m'.report fetch o.result (m.word o.object n)) := by
  cases fetch with
  | true =>
      have result : o.result + n ≤ m'.size := by
        rw [leaves.outside.size]
        exact inside rfl
      rw [Operands.numbers, if_pos rfl, ← toNat_word]
      exact leaves.trans (leaves_putWord result _) (by simpa using (apart rfl).symm)
  | false => exact leaves

end Memory

namespace ObjectSlot
open Memory

theorem computes_effect {o : Operands} {n : Nat} {s : ObjectSlot} (proper : o.Proper n s) {m : Memory}
    (inside : ∀ a ∈ o.targets s, a + n ≤ m.size) :
    s.Computes o n m (s.effect o n m).1 (s.effect o n m).2 := by
  cases s with
  | store => exact leaves_putWord_word (inside _ (.head _)) _
  | load => exact leaves_putWord_word (inside _ (.head _)) _
  | exchange =>
      have object := leaves_putWord_word (inside o.object (.head _)) o.argument
      exact object.report (fun _ => inside _ (.tail _ (.head _))) fun _ => proper.2.1
  | compareExchange =>
      simp only [Computes, effect, word_inj]
      split
      · exact ⟨rfl, leaves_putWord_word (inside _ (.head _)) _⟩
      · exact ⟨rfl, leaves_putWord_word (inside _ (.tail _ (.head _))) _⟩
  | testBit => exact ⟨getLsbD_word_eq_testBit .., rfl⟩
  | changeBit change =>
      refine ⟨getLsbD_word_eq_testBit .., _, ?_, leaves_putWord (inside _ (.head _)) _⟩
      rw [← toNat_word]
      exact change.changes_apply _ proper
  | binary op fetch =>
      have result (fetched : fetch) : o.result + n ≤ m.size := inside _ (by simp [Operands.targets, fetched])
      have left := leaves_putWord (inside _ (.head _)) (op.apply (m.word o.object n) (m.word o.argument n))
      rw [op.toNat_apply, toNat_word, toNat_word] at left
      exact left.report result fun fetched => (proper.2 fetched).1
  | unary op fetch =>
      have result (fetched : fetch) : o.result + n ≤ m.size := inside _ (by simp [Operands.targets, fetched])
      have left := leaves_putWord (inside _ (.head _)) (op.apply (m.word o.object n))
      rw [op.toNat_apply, toNat_word] at left
      exact left.report result proper

end ObjectSlot

end AtomicTables
