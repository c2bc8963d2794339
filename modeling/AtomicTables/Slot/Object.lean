import AtomicTables.MemoryOrder
import AtomicTables.Slot.Category

namespace AtomicTables

inductive Strength where
  | weak | strong
deriving DecidableEq

inductive BitChange where
  | complement | set | reset
deriving DecidableEq

inductive BinaryOp where
  | or | xor | and | add | sub
deriving DecidableEq

inductive UnaryOp where
  | not | inc | dec | neg
deriving DecidableEq

inductive ObjectSlot where
  | store
  | load
  | exchange
  | compareExchange (strength : Strength)
  | testBit
  | changeBit (change : BitChange)
  | binary (op : BinaryOp) (fetch : Bool)
  | unary (op : UnaryOp) (fetch : Bool)
deriving DecidableEq

/-- The slots of one domain, with the name, category and kind of each. Besides store and load they are
grouped in records. -/
class SlotFamily (σ : Type) where
  store : σ
  load : σ
  records : List (List σ)
  name : σ → String
  category : σ → Category
  kind : σ → OperationKind

def SlotFamily.slots {σ : Type} [SlotFamily σ] : List σ := store :: load :: (records : List (List σ)).flatten

namespace BitChange

def kind : BitChange → OperationKind
  | complement => .testComplement
  | set => .testSet
  | reset => .testReset

def apply {w : Nat} (change : BitChange) (value mask : BitVec w) : BitVec w :=
  match change with
  | complement => value ^^^ mask
  | set => value ||| mask
  | reset => value &&& ~~~mask

end BitChange

namespace BinaryOp

def kind : BinaryOp → OperationKind
  | or => .or
  | xor => .xor
  | and => .and
  | add => .add
  | sub => .sub

def isArithmetic : BinaryOp → Bool
  | add | sub => true
  | _ => false

def apply {w : Nat} (op : BinaryOp) (x y : BitVec w) : BitVec w :=
  match op with
  | or => x ||| y
  | xor => x ^^^ y
  | and => x &&& y
  | add => x + y
  | sub => x - y

end BinaryOp

namespace UnaryOp

def kind : UnaryOp → OperationKind
  | not => .not
  | inc => .inc
  | dec => .dec
  | neg => .neg

def isArithmetic : UnaryOp → Bool
  | not => false
  | _ => true

def apply {w : Nat} (op : UnaryOp) (x : BitVec w) : BitVec w :=
  match op with
  | not => ~~~x
  | inc => x + 1
  | dec => x - 1
  | neg => -x

end UnaryOp

namespace ObjectSlot

def records : List (List ObjectSlot) :=
  [[exchange, compareExchange .weak, compareExchange .strong],
    [testBit, changeBit .complement, changeBit .set, changeBit .reset],
    [binary .or false, binary .xor false, binary .and false, unary .not false,
      binary .or true, binary .xor true, binary .and true, unary .not true],
    [binary .add false, binary .sub false, unary .inc false, unary .dec false, unary .neg false,
      binary .add true, binary .sub true, unary .inc true, unary .dec true, unary .neg true]]

def category : ObjectSlot → Category
  | store | load => .loadStore
  | exchange | compareExchange _ => .exchange
  | testBit | changeBit _ => .bit
  | binary op fetch => .ofVariant op.isArithmetic fetch
  | unary op fetch => .ofVariant op.isArithmetic fetch

def kind : ObjectSlot → OperationKind
  | store => .store
  | load => .load
  | exchange => .exchange
  | compareExchange .weak => .weakCompareExchange
  | compareExchange .strong => .strongCompareExchange
  | testBit => .test
  | changeBit change => change.kind
  | binary op _ => op.kind
  | unary op _ => op.kind

def name : ObjectSlot → String
  | store => "store"
  | load => "load"
  | exchange => "xchg.exchange"
  | compareExchange .weak => "xchg.cmpxchg_weak"
  | compareExchange .strong => "xchg.cmpxchg_strong"
  | testBit => "bit.test"
  | changeBit .complement => "bit.test_compl"
  | changeBit .set => "bit.test_set"
  | changeBit .reset => "bit.test_reset"
  | binary op fetch =>
    (if op.isArithmetic then "ari." else "bin.") ++ (if fetch then "fetch_" else "") ++
      match op with
      | .or => "or"
      | .xor => "xor"
      | .and => "and"
      | .add => "add"
      | .sub => "sub"
  | unary op fetch =>
    (if op.isArithmetic then "ari." else "bin.") ++ (if fetch then "fetch_" else "") ++
      match op with
      | .not => "not"
      | .inc => "inc"
      | .dec => "dec"
      | .neg => "neg"

def Answer : ObjectSlot → Type
  | compareExchange _ | testBit | changeBit _ => Bool
  | _ => Unit

def noAnswer : (s : ObjectSlot) → s.Answer
  | compareExchange _ | testBit | changeBit _ => false
  | store | load | exchange | binary .. | unary .. => ()

def truth? : {s : ObjectSlot} → s.Answer → Option Bool
  | compareExchange _, answer | testBit, answer | changeBit _, answer => some answer
  | store, _ | load, _ | exchange, _ | binary .., _ | unary .., _ => none

/-- A fixed memory order leaves room for the operation: a store needs a store order, and what only
reads needs a load order. -/
def admits (s : ObjectSlot) (order : MemoryOrder) : Bool :=
  match s with
  | store => order.validForStore
  | load | testBit => order.validForLoad
  | _ => true

instance : SlotFamily ObjectSlot := ⟨store, load, records, name, category, kind⟩

end ObjectSlot

/-- Where an operation finds its object and buffers, and the bit that it is about. Each operation uses
the parts that it needs. -/
structure Operands where
  object : Nat
  argument : Nat
  result : Nat
  expected : Nat
  bit : UInt64

end AtomicTables
