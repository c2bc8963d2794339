import AtomicTables.BitSet
import AtomicTables.Text.Blank

namespace AtomicTables

inductive BackendKind where
  | unknown | dynamic | system | library | builtin | assembly
deriving DecidableEq

/-- Bit `i` stands for the kind after the first `i + 1`; the unknown kind has no bit. -/
def kindLayout : BitLayout := ⟨32, "KindSet", ["DYN", "OS", "LIB", "BLTN", "ASM"]⟩

abbrev KindSet := BitSet kindLayout

namespace BackendKind

instance : Inhabited BackendKind := ⟨unknown⟩

def byOverhead : List BackendKind := [assembly, builtin, library, system, dynamic, unknown]

def rank : BackendKind → Nat
  | assembly => 0
  | builtin => 1
  | library => 2
  | system => 3
  | dynamic => 4
  | unknown => 5

def asSet : BackendKind → KindSet
  | unknown => ∅
  | dynamic => .single 0
  | system => .single 1
  | library => .single 2
  | builtin => .single 3
  | assembly => .single 4

def name : BackendKind → String
  | unknown => "unknown"
  | dynamic => "dyn"
  | system => "os"
  | library => "lib"
  | builtin => "bltn"
  | assembly => "asm"

def title : BackendKind → String
  | unknown => "Unknown"
  | dynamic => "Dyn"
  | system => "Os"
  | library => "Lib"
  | builtin => "Bltn"
  | assembly => "Asm"

def parse? (s : String) : Option BackendKind :=
  Text.named? (byOverhead.map (fun k => (k.name, k)) ++ [("builtin", builtin), ("dynamic", dynamic)]) s

end BackendKind

end AtomicTables
