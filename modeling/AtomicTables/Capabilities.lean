import AtomicTables.BitSet

namespace AtomicTables

inductive Architecture where
  | x86_64 | x86 | aarch64 | arm | riscv64 | riscv32 | other
deriving DecidableEq

namespace Architecture

def all : List Architecture := [x86_64, x86, aarch64, arm, riscv64, riscv32, other]

def current : Architecture := x86_64

instance : Inhabited Architecture := ⟨other⟩

def name : Architecture → String
  | x86_64 => "x86_64"
  | x86 => "x86"
  | aarch64 => "aarch64"
  | arm => "arm"
  | riscv64 => "riscv64"
  | riscv32 => "riscv32"
  | other => "other"

def title : Architecture → String
  | x86_64 => "X86_64"
  | x86 => "X86"
  | aarch64 => "Aarch64"
  | arm => "Arm"
  | riscv64 => "Riscv64"
  | riscv32 => "Riscv32"
  | other => "Other"

end Architecture

/-- Word `0` holds the capabilities 0 to 63, and so on. -/
structure Capabilities where
  word0 : BitVec 64
  word1 : BitVec 64
  word2 : BitVec 64
  word3 : BitVec 64
deriving DecidableEq

namespace Capabilities

def empty : Capabilities := ⟨0, 0, 0, 0⟩

def single (b : UInt8) : Capabilities :=
  let mask := BitVec.twoPow 64 (b.toNat % 64)
  match b.toNat / 64 with
  | 0 => ⟨mask, 0, 0, 0⟩
  | 1 => ⟨0, mask, 0, 0⟩
  | 2 => ⟨0, 0, mask, 0⟩
  | _ => ⟨0, 0, 0, mask⟩

def union (c d : Capabilities) : Capabilities :=
  ⟨c.word0 ||| d.word0, c.word1 ||| d.word1, c.word2 ||| d.word2, c.word3 ||| d.word3⟩

instance : Union Capabilities := ⟨union⟩

def covers (c d : Capabilities) : Bool :=
  c.word0 &&& d.word0 == d.word0 && c.word1 &&& d.word1 == d.word1 &&
    c.word2 &&& d.word2 == d.word2 && c.word3 &&& d.word3 == d.word3

def word (c : Capabilities) : Nat → BitVec 64
  | 0 => c.word0
  | 1 => c.word1
  | 2 => c.word2
  | _ => c.word3

def has (c : Capabilities) (b : UInt8) : Bool :=
  c.word (b.toNat / 64) &&& BitVec.twoPow 64 (b.toNat % 64) != 0

def count (c : Capabilities) : Nat :=
  bitCount c.word0 + bitCount c.word1 + bitCount c.word2 + bitCount c.word3

def wideExchange : Capabilities := single 1

def transactions : Capabilities := single 2

def named : List (UInt8 × String) := [(1, "cmpxchg16b"), (2, "rtm")]

def render (c : Capabilities) : String :=
  let names := named.filterMap fun (b, name) => if c.has b then some name else none
  let body := if names.isEmpty then "none" else "[" ++ String.intercalate ", " names ++ "]"
  "Caps(" ++ Architecture.current.name ++ ", " ++ body ++ ")"

end Capabilities

end AtomicTables
