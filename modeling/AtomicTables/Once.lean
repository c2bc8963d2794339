namespace AtomicTables

structure Once (α : Type) where
  value? : Option α

namespace Once

variable {α : Type}

def empty : Once α := ⟨none⟩

/-- The value of the cell, which `compute` supplies if the cell is empty, and the cell afterwards. -/
def getOrInit {m : Type → Type} [Monad m] (cell : Once α) (compute : m α) : m (α × Once α) :=
  match cell.value? with
  | some value => pure (value, cell)
  | none => do
    let value ← compute
    return (value, ⟨some value⟩)

def render (text : α → String) (cell : Once α) : String :=
  match cell.value? with
  | some value => "OnceCache(Some(" ++ text value ++ "))"
  | none => "OnceCache(None)"

end Once

end AtomicTables
