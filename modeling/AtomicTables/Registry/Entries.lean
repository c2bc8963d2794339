import AtomicTables.Capabilities
import AtomicTables.Registry.Id
import AtomicTables.Registry.Kind

namespace AtomicTables

structure Registration where
  id : BackendId
  name : String
  kind : BackendKind
  requires : Capabilities
  compiled : Bool

def Registration.isEnabled (r : Registration) (capabilities : Capabilities) : Bool :=
  r.compiled && capabilities.covers r.requires

def registry : List Registration :=
  [⟨.native, "std", .builtin, .empty, true⟩,
    ⟨.wide, "x86_64/cmpxchg16b", .assembly, .wideExchange, true⟩,
    ⟨.speculative, "x86_64/rtm", .assembly, .transactions, true⟩]

def availableWith (capabilities : Capabilities) : BackendSet :=
  .unions ((registry.filter (·.isEnabled capabilities)).map (·.id.asSet))

def backendsOfKind (kinds : KindSet) (available : BackendSet) : BackendSet :=
  .unions ((registry.filter fun r =>
    available.contains r.id.asSet && kinds.intersects r.kind.asSet).map (·.id.asSet))

namespace BackendId

def registration? (id : BackendId) : Option Registration :=
  registry.find? (·.id == id)

def kind (id : BackendId) : BackendKind :=
  match id.registration? with
  | some r => r.kind
  | none => .unknown

def name (id : BackendId) : String :=
  match id.registration? with
  | some r => r.name
  | none => if id = .null then "null" else "unregistered"

def render (id : BackendId) : String :=
  "ImplId(" ++ hexText id.raw ++ ", " ++ id.name ++ ")"

def parse? (s : String) : Option BackendId :=
  Text.named? (("null", .null) :: ("cx16", .wide) :: ("cmpxchg16b", .wide) :: ("tsx", .speculative) ::
    ("rtm", .speculative) :: registry.map fun r => (r.name, r.id)) s

def isIn (id : BackendId) (available : BackendSet) : Bool :=
  id != .null && available.contains id.asSet

end BackendId

structure AmbiguousId where
  raw : UInt64

def AmbiguousId.message (e : AmbiguousId) : String :=
  "get_kind_raw: implementation id " ++ hexText e.raw.toNat ++ " must have exactly one bit set"

/-- The kind of a number of one bit at most. One that lies above the ids is of unknown kind. -/
def BackendKind.ofRaw (raw : UInt64) : Except AmbiguousId BackendKind :=
  if bitCount raw.toBitVec ≤ 1 then
    match BackendId.ofRaw raw with
    | .ok id => .ok id.kind
    | .error _ => .ok .unknown
  else .error ⟨raw⟩

end AtomicTables
