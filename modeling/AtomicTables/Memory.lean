/-!
# Byte memory

A memory of fixed size. Reading outside of it gives zero, and writing outside of it does nothing.
Numbers lie in memory with their lowest byte first.
-/

namespace AtomicTables

structure Memory where
  bytes : Array UInt8
deriving DecidableEq

namespace Memory

def size (m : Memory) : Nat := m.bytes.size

def read (m : Memory) (a : Nat) : UInt8 := m.bytes.getD a 0

def write (m : Memory) (a : Nat) (v : UInt8) : Memory := ⟨m.bytes.setIfInBounds a v⟩

def value (m : Memory) (a : Nat) : Nat → Nat
  | 0 => 0
  | n + 1 => (m.read a).toNat + 256 * m.value (a + 1) n

@[simp] theorem size_write (m : Memory) (a : Nat) (v : UInt8) : (m.write a v).size = m.size := by
  simp [size, write]

theorem read_write (m : Memory) (a b : Nat) (v : UInt8) :
    (m.write a v).read b = if b = a ∧ a < m.size then v else m.read b := by
  simp only [read, write, size, Array.getD_eq_getD_getElem?, Array.getElem?_setIfInBounds]
  by_cases h : a = b
  · subst h
    by_cases hb : a < m.bytes.size <;> simp [hb]
  · simp [h, Ne.symm h]

end Memory

end AtomicTables
