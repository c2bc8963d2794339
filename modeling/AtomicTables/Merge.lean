namespace AtomicTables

class Merge (α : Type) where
  nothing : α
  /-- Combines a value with one of lower priority. -/
  merge : α → α → α

namespace Merge

variable {α : Type} [Merge α]

def all (items : List α) : α := items.foldl merge nothing

def allRight (items : List α) : α := items.foldr merge nothing

end Merge

end AtomicTables
