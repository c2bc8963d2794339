import AtomicTables.Backend.Native
import AtomicTables.Backend.Speculative
import AtomicTables.Backend.Wide
import AtomicTables.Host

namespace AtomicTables

variable [FlagSpace]

def BackendId.backend? (id : BackendId) : Option Backend :=
  if id = .native then some Native.backend
  else if id = .wide then some Wide.backend
  else if id = .speculative then some Speculative.backend
  else none

namespace Candidates

def backends (c : Candidates) : List Backend := c.toList.filterMap BackendId.backend?

def implicit (c : Candidates) (width : UInt64) (order : MemoryOrder) : ImplicitSuite :=
  Merge.all (c.backends.map fun b => b.implicit width order)

def explicit (c : Candidates) (width : UInt64) : ExplicitSuite :=
  Merge.all (c.backends.map fun b => b.explicit width)

def transactional (c : Candidates) : TransactionalSuite :=
  Merge.all (c.backends.map fun b => b.transactional)

end Candidates

namespace Host

def createImplicit (width : UInt64) (order : MemoryOrder) (preferences : Preferences)
    (selection : Selection) : Host ImplicitSuite := do
  let candidates ← resolve selection preferences
  let suite := candidates.implicit width order
  emit ⟨.debug, "composed implicit atomic",
    [("width", toString width.toNat), ("order", order.name), ("candidates", toString candidates.size),
      ("align", suite.alignment.render)]⟩
  return suite

def createExplicit (width : UInt64) (preferences : Preferences) (selection : Selection) :
    Host ExplicitSuite := do
  let candidates ← resolve selection preferences
  let suite := candidates.explicit width
  emit ⟨.debug, "composed explicit atomic",
    [("width", toString width.toNat), ("candidates", toString candidates.size),
      ("align", suite.alignment.render)]⟩
  return suite

def createTransactional (preferences : Preferences) (selection : Selection) :
    Host TransactionalSuite := do
  let candidates ← resolve selection preferences
  let suite := candidates.transactional
  emit ⟨.debug, "composed transactional atomic",
    [("candidates", toString candidates.size), ("align", suite.alignment.render),
      ("recommended", suite.hints.render), ("magic_size", toString suite.safeSize.toNat)]⟩
  return suite

end Host

end AtomicTables
