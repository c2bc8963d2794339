import AtomicTables.Proofs.Memory
import AtomicTables.Slot.Object

namespace AtomicTables

namespace BitChange
variable {v w : Nat} (change : BitChange)

theorem getLsbD_apply_twoPow_ne (value : BitVec w) {i j : Nat} (other : i ≠ j) :
    (change.apply value (BitVec.twoPow w i)).getLsbD j = value.getLsbD j := by
  cases change <;> simp [apply, BitVec.getLsbD_twoPow, other]
  intro set
  exact BitVec.lt_of_getLsbD set

theorem getLsbD_apply_twoPow {x : BitVec v} {y : BitVec w} {i j : Nat} (inside : i < v) (inside' : j < w)
    (same : x.getLsbD i = y.getLsbD j) :
    (change.apply x (BitVec.twoPow v i)).getLsbD i = (change.apply y (BitVec.twoPow w j)).getLsbD j := by
  have bits : (BitVec.twoPow v i).getLsbD i = (BitVec.twoPow w j).getLsbD j := by
    simp [inside, inside']
  cases change with
  | complement => rw [apply, apply, BitVec.getLsbD_xor, BitVec.getLsbD_xor, same, bits]
  | set => rw [apply, apply, BitVec.getLsbD_or, BitVec.getLsbD_or, same, bits]
  | reset => simp [apply, inside, inside']

end BitChange

theorem Category.ofVariant_ne_bit (isArithmetic fetch : Bool) : Category.ofVariant isArithmetic fetch ≠ .bit := by
  cases isArithmetic <;> cases fetch <;> nofun

namespace Memory

def report (m : Memory) (fetch : Bool) (a : Nat) {n : Nat} (v : BitVec (8 * n)) : Memory :=
  if fetch then m.putWord a v else m

theorem word_report {m : Memory} {fetch : Bool} {a b n : Nat} (apart : fetch → Apart a b n)
    (v : BitVec (8 * n)) : (m.report fetch a v).word b n = m.word b n := by
  cases fetch with
  | true => exact word_putWord (apart rfl) v
  | false => rfl

theorem putWord_report {m : Memory} {fetch : Bool} {a b n : Nat} (apart : fetch → Apart a b n)
    (v w : BitVec (8 * n)) : (m.report fetch a v).putWord b w = (m.putWord b w).report fetch a v := by
  cases fetch with
  | true => exact putWord_comm (apart rfl) v w
  | false => rfl

end Memory

def ObjectSlot.effect (o : Operands) (n : Nat) (m : Memory) : (s : ObjectSlot) → s.Answer × Memory
  | .store => ((), m.putWord o.object (m.word o.argument n))
  | .load => ((), m.putWord o.result (m.word o.object n))
  | .exchange =>
    ((), (m.putWord o.object (m.word o.argument n)).putWord o.result (m.word o.object n))
  | .compareExchange _ =>
    if m.word o.object n = m.word o.expected n then (true, m.putWord o.object (m.word o.argument n))
    else (false, m.putWord o.expected (m.word o.object n))
  | .testBit => ((m.word o.object n).getLsbD o.bit.toNat, m)
  | .changeBit change =>
    ((m.word o.object n).getLsbD o.bit.toNat,
      m.putWord o.object (change.apply (m.word o.object n) (BitVec.twoPow _ o.bit.toNat)))
  | .binary op fetch =>
    ((), (m.putWord o.object (op.apply (m.word o.object n) (m.word o.argument n))).report fetch o.result
      (m.word o.object n))
  | .unary op fetch =>
    ((), (m.putWord o.object (op.apply (m.word o.object n))).report fetch o.result (m.word o.object n))

/-- The buffers that the operation uses do not overlap, except that the argument may be the object, and
the bit is one of the object's. -/
def Operands.Proper (o : Operands) (n : Nat) : ObjectSlot → Prop
  | .store => SameOrApart o.object o.argument n
  | .load => Apart o.result o.object n
  | .exchange =>
    SameOrApart o.object o.argument n ∧ Apart o.result o.object n ∧ Apart o.result o.argument n
  | .compareExchange _ =>
    SameOrApart o.object o.argument n ∧ Apart o.expected o.object n ∧ Apart o.expected o.argument n
  | .testBit | .changeBit _ => o.bit.toNat < 8 * n
  | .binary _ fetch =>
    SameOrApart o.object o.argument n ∧
      (fetch → Apart o.result o.object n ∧ Apart o.result o.argument n)
  | .unary _ fetch => fetch → Apart o.result o.object n

def Operands.BitInside (o : Operands) (n : Nat) : ObjectSlot → Prop
  | .testBit | .changeBit _ => o.bit.toNat < 8 * n
  | _ => True

def Operands.BitOutside (o : Operands) (n : Nat) (s : ObjectSlot) : Prop :=
  s.category = .bit ∧ 8 * n ≤ o.bit.toNat

theorem Operands.bitInside_of_not_bitOutside {o : Operands} {n : Nat} {s : ObjectSlot}
    (inside : ¬o.BitOutside n s) : o.BitInside n s := by
  cases s with
  | testBit | changeBit => exact Nat.lt_of_not_le fun outside => inside ⟨rfl, outside⟩
  | _ => trivial

theorem Operands.Proper.bitInside {o : Operands} {n : Nat} {s : ObjectSlot} (proper : o.Proper n s) :
    o.BitInside n s := by
  cases s with
  | testBit | changeBit => exact proper
  | _ => trivial

end AtomicTables
