namespace AtomicTables

inductive MemoryOrder where
  | relaxed | consume | acquire | release | acqRel | seqCst
deriving DecidableEq

inductive Fence where
  | relaxed | acquire | release | acqRel | seqCst
deriving DecidableEq

namespace Fence

def title : Fence → String
  | .relaxed => "Relaxed"
  | .acquire => "Acquire"
  | .release => "Release"
  | .acqRel => "AcqRel"
  | .seqCst => "SeqCst"

def article : Fence → String
  | .relaxed => "a relaxed"
  | .acquire => "an acquire"
  | .release => "a release"
  | .acqRel => "an acquire-release"
  | .seqCst => "a sequentially consistent"

def storable : Fence → Bool
  | .acquire | .acqRel => false
  | _ => true

def loadable : Fence → Bool
  | .release | .acqRel => false
  | _ => true

end Fence

structure InvalidOrder where
  raw : UInt32

def InvalidOrder.message (e : InvalidOrder) : String :=
  toString e.raw.toNat ++ " is not a valid memory order"

namespace MemoryOrder

def all : List MemoryOrder := [relaxed, consume, acquire, release, acqRel, seqCst]

def raw : MemoryOrder → UInt32
  | relaxed => 0
  | consume => 1
  | acquire => 2
  | release => 3
  | acqRel => 4
  | seqCst => 5

def ofRaw? (raw : UInt32) : Option MemoryOrder :=
  all.find? (·.raw == raw)

def ofRaw (raw : UInt32) : Except InvalidOrder MemoryOrder :=
  match ofRaw? raw with
  | some order => .ok order
  | none => .error ⟨raw⟩

def name : MemoryOrder → String
  | relaxed => "relaxed"
  | consume => "consume"
  | acquire => "acquire"
  | release => "release"
  | acqRel => "acq_rel"
  | seqCst => "seq_cst"

def title : MemoryOrder → String
  | relaxed => "Relaxed"
  | consume => "Consume"
  | acquire => "Acquire"
  | release => "Release"
  | acqRel => "AcqRel"
  | seqCst => "SeqCst"

def validForStore : MemoryOrder → Bool
  | relaxed | release | seqCst => true
  | _ => false

def validForLoad : MemoryOrder → Bool
  | relaxed | consume | acquire | seqCst => true
  | _ => false

instance : Ord MemoryOrder := ⟨fun a b => compare a.raw b.raw⟩

/-- `failure` may be the failure order of a compare-exchange that succeeds with `success`: a load
order no stronger than it. -/
def validFailure (success failure : MemoryOrder) : Bool :=
  failure.validForLoad && failure.raw ≤ success.raw

/-- The failure order that a success order implies: what is left without its release half. -/
def failureOrder : MemoryOrder → MemoryOrder
  | release | acqRel => acquire
  | order => order

def updateFence : MemoryOrder → Fence
  | relaxed => .relaxed
  | consume | acquire => .acquire
  | release => .release
  | acqRel => .acqRel
  | seqCst => .seqCst

def storeFence : MemoryOrder → Fence
  | relaxed => .relaxed
  | release => .release
  | _ => .seqCst

def loadFence : MemoryOrder → Fence
  | relaxed => .relaxed
  | consume | acquire => .acquire
  | _ => .seqCst

def rawValid (raw : UInt32) : Bool := (ofRaw? raw).isSome

def rawValidForStore (raw : UInt32) : Bool := (ofRaw? raw).any validForStore

def rawValidForLoad (raw : UInt32) : Bool := (ofRaw? raw).any validForLoad

def rawValidFailure (success failure : UInt32) : Bool :=
  match ofRaw? success, ofRaw? failure with
  | some s, some f => s.validFailure f
  | _, _ => false

def rawFailureOrder (raw : UInt32) : UInt32 :=
  match ofRaw? raw with
  | some order => order.failureOrder.raw
  | none => raw

end MemoryOrder

end AtomicTables
