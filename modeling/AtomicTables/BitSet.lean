/-!
# Sets of named bits

A `BitLayout` names the lowest bits of a word, from bit 0 upwards; a `BitSet` over it is any word of
that width. Unnamed bits are kept by the set operations and dropped only by `truncate` and
`complement`.
-/

namespace AtomicTables

def hexText (n : Nat) : String :=
  "0x" ++ String.ofList (Nat.toDigits 16 n)

def bitCount {w : Nat} (x : BitVec w) : Nat :=
  (List.range w).countP x.getLsbD

structure BitLayout where
  width : Nat
  title : String
  names : List String

structure BitSet (layout : BitLayout) where
  bits : BitVec layout.width
deriving DecidableEq

namespace BitSet

variable {layout : BitLayout}

def ofNat (n : Nat) : BitSet layout := ⟨BitVec.ofNat _ n⟩

def empty : BitSet layout := ⟨0⟩

def single (i : Nat) : BitSet layout := ⟨BitVec.twoPow _ i⟩

def all : BitSet layout := ofNat (Nat.pow 2 layout.names.length - 1)

def has (s : BitSet layout) (i : Nat) : Bool := s.bits.getLsbD i

def union (s t : BitSet layout) : BitSet layout := ⟨s.bits ||| t.bits⟩

def inter (s t : BitSet layout) : BitSet layout := ⟨s.bits &&& t.bits⟩

def diff (s t : BitSet layout) : BitSet layout := ⟨s.bits &&& ~~~t.bits⟩

def symmDiff (s t : BitSet layout) : BitSet layout := ⟨s.bits ^^^ t.bits⟩

instance : EmptyCollection (BitSet layout) := ⟨empty⟩
instance : Union (BitSet layout) := ⟨union⟩
instance : Inter (BitSet layout) := ⟨inter⟩
instance : SDiff (BitSet layout) := ⟨diff⟩

def truncate (s : BitSet layout) : BitSet layout := s ∩ all

def complement (s : BitSet layout) : BitSet layout := all \ s

def isEmpty (s : BitSet layout) : Bool := s.bits == 0

def contains (s t : BitSet layout) : Bool := t \ s == ∅

def intersects (s t : BitSet layout) : Bool := !(s ∩ t).isEmpty

def isNamed (s : BitSet layout) : Bool := all.contains s

def isAll (s : BitSet layout) : Bool := s.contains all

def count (s : BitSet layout) : Nat := bitCount s.bits

def unions (sets : List (BitSet layout)) : BitSet layout := sets.foldl union ∅

/-- The names of the named bits in order, then the unnamed rest as one hexadecimal number. -/
def parts (s : BitSet layout) : List String :=
  let named := layout.names.zipIdx.filterMap fun (name, i) => if s.has i then some name else none
  let rest := s \ all
  if rest.isEmpty then named else named ++ [hexText rest.bits.toNat]

def render (s : BitSet layout) : String :=
  let body := if s.isEmpty then "0x0" else String.intercalate " | " s.parts
  layout.title ++ "(" ++ body ++ ")"

end BitSet

end AtomicTables
