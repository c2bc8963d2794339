import AtomicTables.Alignment
import AtomicTables.Table.Basic
import AtomicTables.Transaction.Status

/-!
# Suites

What a backend offers for one domain, and what becomes of several offers: a table, the alignment its
objects need and, in the transactional domain, hints for its use. Everyone who is asked constrains the
alignment, whether a slot is taken from them or not.
-/

namespace AtomicTables

structure Suite {σ : Type} (F : σ → Type) where
  table : Table F
  alignment : Alignment

namespace Suite

variable {σ : Type} {F : σ → Type}

def empty : Suite F := ⟨.empty, .permissive⟩

variable [DecidableEq σ] [SlotFamily σ]

def merge (s lower : Suite F) : Suite F :=
  ⟨s.table.merge lower.table, s.alignment.stricter lower.alignment⟩

instance : Merge (Suite F) := ⟨empty, merge⟩

end Suite

structure TransactionSuite {σ : Type} (F : σ → Type) extends Suite F where
  hints : RetryHints
  /-- The greatest size that raw transactional code may copy safely. -/
  safeSize : UInt64

namespace TransactionSuite

variable {σ : Type} {F : σ → Type} [DecidableEq σ] [SlotFamily σ]

def empty : TransactionSuite F := ⟨.empty, .none, 0⟩

/-- The smaller safe size of those that fill a raw slot. -/
def mergedSize (s lower : TransactionSuite F) : UInt64 :=
  match s.table.lacks .raw, lower.table.lacks .raw with
  | true, true => 0
  | false, true => s.safeSize
  | true, false => lower.safeSize
  | false, false => min s.safeSize lower.safeSize

def merge (s lower : TransactionSuite F) : TransactionSuite F :=
  ⟨s.toSuite.merge lower.toSuite, s.hints.max lower.hints, mergedSize s lower⟩

instance : Merge (TransactionSuite F) := ⟨empty, merge⟩

end TransactionSuite

end AtomicTables
