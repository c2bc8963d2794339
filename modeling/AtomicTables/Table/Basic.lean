import AtomicTables.Merge
import AtomicTables.Slot.Object

/-!
# Operation tables

A table fills some slots of a family; `F s` is the type of what fills slot `s`. Tables are merged and
asked record by record.
-/

namespace AtomicTables

def Table {σ : Type} (F : σ → Type) : Type := (s : σ) → Option (F s)

namespace Table

variable {σ : Type} {F : σ → Type}

def empty : Table F := fun _ => none

def mergeRecord [DecidableEq σ] (lower t : Table F) (record : List σ) : Table F :=
  fun s => if s ∈ record then (t s).or (lower s) else t s

def isVacant (t : Table F) (record : List σ) : Bool := record.all fun s => (t s).isNone

variable [SlotFamily σ]

def merge [DecidableEq σ] (t lower : Table F) : Table F :=
  (SlotFamily.records : List (List σ)).foldl lower.mergeRecord
    (lower.mergeRecord t [SlotFamily.store, SlotFamily.load])

instance [DecidableEq σ] : Merge (Table F) := ⟨empty, merge⟩

def filled (t : Table F) : List σ := (SlotFamily.slots : List σ).filter fun s => (t s).isSome

def isEmpty (t : Table F) : Bool :=
  (t SlotFamily.store).isNone && (t SlotFamily.load).isNone &&
    (SlotFamily.records : List (List σ)).all t.isVacant

/-- The records with slots of the category are empty. -/
def lacks (t : Table F) (c : Category) : Bool :=
  ((SlotFamily.records : List (List σ)).filter (·.any (SlotFamily.category · == c))).all t.isVacant

end Table

end AtomicTables
