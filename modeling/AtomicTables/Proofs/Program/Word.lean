import AtomicTables.Program.Word
import AtomicTables.Proofs.Program.OnMemory
import AtomicTables.Proofs.Slot.Object

namespace AtomicTables

variable [FlagSpace]

namespace Word
open Program

theorem onMemory_readNat (a n : Nat) (m : Memory) :
    (readNat a n).onMemory m = some (.ok (m.value a n), m) := by
  induction n generalizing a with
  | zero => rfl
  | succ n ih =>
      rw [readNat, onMemory_read_bind, onMemory_bind_ok (ih (a + 1))]
      rfl

theorem onMemory_writeNat (a v n : Nat) (m : Memory) :
    (writeNat a v n).onMemory m = some (.ok (), m.put a v n) := by
  induction n generalizing a v m with
  | zero => rfl
  | succ n ih => rw [writeNat, onMemory_write_bind, ih, Memory.put]

theorem onMemory_read (n a : Nat) (m : Memory) :
    (read n a).onMemory m = some (.ok (m.word a n), m) := by
  rw [read, onMemory_bind_ok (onMemory_readNat a n m)]
  rfl

theorem onMemory_write {n : Nat} (a : Nat) (v : BitVec (8 * n)) (m : Memory) :
    (write a v).onMemory m = some (.ok (), m.putWord a v) :=
  onMemory_writeNat a v.toNat n m

theorem onMemory_replaceIf (n object : Nat) (expected desired : BitVec (8 * n)) (m : Memory) :
    Program.onMemory (do
      let old ← read n object
      if old = expected then
        write object desired
        return (old, true)
      else
        return (old, false)) m =
      some (.ok (m.word object n, decide (m.word object n = expected)),
        if m.word object n = expected then m.putWord object desired else m) := by
  refine onMemory_seq (onMemory_read n object m) ?_
  by_cases same : m.word object n = expected
  · simp only [if_pos same, decide_eq_true same]
    exact onMemory_seq (onMemory_write object desired m) rfl
  · simp only [if_neg same, decide_eq_false same]
    rfl

end Word

namespace Cell
open Program

variable {n : Nat}

structure Faithful (cell : Cell n) (object : Nat) : Prop where
  load (m : Memory) : cell.load.onMemory m = some (.ok (m.word object n), m)
  store (v : BitVec (8 * n)) (m : Memory) :
    (cell.store v).onMemory m = some (.ok (), m.putWord object v)
  update (f : BitVec (8 * n) → BitVec (8 * n)) (m : Memory) :
    (cell.update f).onMemory m = some (.ok (m.word object n), m.putWord object (f (m.word object n)))
  compareExchange (expected desired : BitVec (8 * n)) (m : Memory) :
    (cell.compareExchange expected desired).onMemory m =
      some (.ok (m.word object n, decide (m.word object n = expected)),
        if m.word object n = expected then m.putWord object desired else m)

theorem onMemory_report (fetch : Bool) (a : Nat) (v : BitVec (8 * n)) (m : Memory) :
    (report fetch a v).onMemory m = some (.ok (), m.report fetch a v) := by
  cases fetch with
  | true => exact Word.onMemory_write a v m
  | false => rfl

theorem onMemory_operation {cell : Cell n} {o : Operands} (faithful : cell.Faithful o.object)
    {s : ObjectSlot} (bitInside : o.BitInside n s) (m : Memory) :
    (cell.operation o s).onMemory m = some (.ok (s.effect o n m).1, (s.effect o n m).2) := by
  have inside (bit : o.bit.toNat < 8 * n) (m : Memory) :
      (checkBit n o.bit).onMemory m = some (.ok (), m) :=
    onMemory_require (decide_eq_true bit) _ m
  cases s with
  | store =>
      refine onMemory_seq (Word.onMemory_read n _ m) ?_
      exact faithful.store _ m
  | load =>
      refine onMemory_seq (faithful.load m) ?_
      exact Word.onMemory_write _ _ m
  | exchange =>
      refine onMemory_seq (Word.onMemory_read n _ m) ?_
      refine onMemory_seq (faithful.update _ m) ?_
      exact Word.onMemory_write _ _ _
  | compareExchange =>
      refine onMemory_seq (Word.onMemory_read n _ m) ?_
      refine onMemory_seq (Word.onMemory_read n _ m) ?_
      refine onMemory_seq (faithful.compareExchange _ _ m) ?_
      refine onMemory_seq (onMemory_report _ _ _ _) ?_
      by_cases same : m.word o.object n = m.word o.expected n
      · simp only [same, ObjectSlot.effect, if_true, decide_true]
        rfl
      · simp only [same, ObjectSlot.effect, if_false, decide_false]
        rfl
  | testBit =>
      refine onMemory_seq (faithful.load m) ?_
      exact onMemory_seq (inside bitInside m) rfl
  | changeBit change =>
      refine onMemory_seq (inside bitInside m) ?_
      exact onMemory_seq (faithful.update _ m) rfl
  | binary op fetch =>
      refine onMemory_seq (Word.onMemory_read n _ m) ?_
      refine onMemory_seq (faithful.update _ m) ?_
      exact onMemory_report _ _ _ _
  | unary op fetch =>
      refine onMemory_seq (faithful.update _ m) ?_
      exact onMemory_report _ _ _ _

/-- A test reads the object before it checks the bit, and a change checks the bit before it does. -/
theorem onMemory_operation_of_bitOutside {cell : Cell n} {o : Operands} (faithful : cell.Faithful o.object)
    {s : ObjectSlot} (bitOutside : o.BitOutside n s) (m : Memory) :
    (cell.operation o s).onMemory m = some (.error (.bitOutOfRange o.bit), m) := by
  obtain ⟨onBits, outside⟩ := bitOutside
  have check : (checkBit n o.bit).onMemory m = some (.error (.bitOutOfRange o.bit), m) :=
    onMemory_require_of_not (by simpa using outside) _ m
  cases s with
  | testBit =>
      refine onMemory_seq (faithful.load m) ?_
      exact onMemory_bind_error check _
  | changeBit change => exact onMemory_bind_error check _
  | store | load | exchange | compareExchange => cases onBits
  | binary | unary => exact absurd onBits (Category.ofVariant_ne_bit _ _)

end Cell

end AtomicTables
