import AtomicTables.BitSet

namespace AtomicTables

inductive BackendId where
  | null
  | bit (position : Fin 32)
deriving DecidableEq

def backendLayout : BitLayout := ⟨32, "ImplSet", ["STD", "CX16", "TSX"]⟩

abbrev BackendSet := BitSet backendLayout

inductive IdError where
  | severalBits (raw : UInt64)
  /-- The only bit lies above the ids. -/
  | outOfRange (raw : UInt64)

def IdError.message : IdError → String
  | .severalBits raw =>
    "implementation id " ++ hexText raw.toNat ++ " must have at most one bit set"
  | .outOfRange raw =>
    "implementation id " ++ hexText raw.toNat ++ " is outside the 32-bit id space"

namespace BackendId

instance : Inhabited BackendId := ⟨null⟩

def native : BackendId := bit 0

def wide : BackendId := bit 1

def speculative : BackendId := bit 2

def asSet : BackendId → BackendSet
  | null => ∅
  | bit i => .single i.val

def raw (id : BackendId) : Nat := id.asSet.bits.toNat

def ofRaw (raw : UInt64) : Except IdError BackendId :=
  if 1 < bitCount raw.toBitVec then .error (.severalBits raw)
  else if raw = 0 then .ok null
  else if h : raw.toNat.log2 < 32 then .ok (bit ⟨raw.toNat.log2, h⟩)
  else .error (.outOfRange raw)

end BackendId

namespace BackendSet

def ids (s : BackendSet) : List BackendId :=
  ((List.finRange 32).filter fun i => s.has i.val).map .bit

def toId (s : BackendSet) : Except IdError BackendId :=
  BackendId.ofRaw (UInt64.ofNat s.bits.toNat)

end BackendSet

end AtomicTables
