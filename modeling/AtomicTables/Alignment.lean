import AtomicTables.Merge

/-!
# Alignment requirements

How an object must lie in memory for an operation to work on it: at a multiple of `recommended`, or
at a multiple of `minimum` and, if `sizeWithin` is not zero, inside one window of that size. The
stricter of two requirements is the greater in a lexicographic order, taken whole.
-/

namespace AtomicTables

structure Alignment where
  recommended : UInt64
  minimum : UInt64
  sizeWithin : UInt64
deriving DecidableEq

inductive AlignmentError where
  | recommended (value : UInt64)
  | minimum (value : UInt64)
  | minimumExceedsRecommended (minimum recommended : UInt64)

def AlignmentError.message : AlignmentError → String
  | .recommended r => "recommended alignment " ++ toString r.toNat ++ " is not a power of two"
  | .minimum m => "minimum alignment " ++ toString m.toNat ++ " is not a power of two"
  | .minimumExceedsRecommended m r =>
    "minimum alignment " ++ toString m.toNat ++ " exceeds recommended alignment " ++ toString r.toNat

def isPowerOfTwo (x : UInt64) : Bool := x != 0 && x &&& (x - 1) == 0

namespace Alignment

def permissive : Alignment := ⟨1, 1, 0⟩

def natural (size : UInt64) : Alignment := ⟨size, size, 0⟩

def create (recommended minimum sizeWithin : UInt64) : Except AlignmentError Alignment :=
  if !isPowerOfTwo recommended then .error (.recommended recommended)
  else if !isPowerOfTwo minimum then .error (.minimum minimum)
  else if recommended < minimum then .error (.minimumExceedsRecommended minimum recommended)
  else .ok ⟨recommended, minimum, sizeWithin⟩

/-- Rank of a window: none first, then from the largest to the smallest. -/
def windowRank (size : UInt64) : UInt64 :=
  if size = 0 then 0 else UInt64.ofNat (UInt64.size - 1) - (size - 1)

instance : Ord Alignment where
  compare a b :=
    ((compare a.recommended b.recommended).then (compare a.minimum b.minimum)).then
      (compare (windowRank a.sizeWithin) (windowRank b.sizeWithin))

def stricter (a b : Alignment) : Alignment :=
  if compare a b = .gt then a else b

instance : Merge Alignment := ⟨permissive, stricter⟩

def sorted (requirements : List Alignment) : List Alignment :=
  requirements.mergeSort fun a b => (compare a b).isLE

def isMultiple (address size : UInt64) : Bool :=
  isPowerOfTwo size && address &&& (size - 1) == 0

def meetsRecommended (a : Alignment) (address : UInt64) : Bool :=
  isMultiple address a.recommended

/-- Windows lie at the multiples of their size; an object that ends past the last address fits in
none of them. -/
def meetsMinimum (a : Alignment) (address width : UInt64) : Bool :=
  isMultiple address a.minimum &&
    (a.sizeWithin = 0 || (address % a.sizeWithin).toNat + width.toNat ≤ a.sizeWithin.toNat)

def text (a : Alignment) : String :=
  let numbers := [a.recommended, a.minimum, a.sizeWithin].map fun x => toString x.toNat
  "\x7b" ++ String.intercalate ", " numbers ++ "\x7d"

def render (a : Alignment) : String :=
  "Alignment \x7b recommended: " ++ toString a.recommended.toNat ++
    ", minimum: " ++ toString a.minimum.toNat ++
    ", size_within: " ++ toString a.sizeWithin.toNat ++ " \x7d"

end Alignment

def cacheLineSize : UInt64 := 128

end AtomicTables
