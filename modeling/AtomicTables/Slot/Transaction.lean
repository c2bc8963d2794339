import AtomicTables.Slot.Object

namespace AtomicTables

inductive TransactionSlot where
  | object (slot : ObjectSlot)
  | doubleCompareExchange
  | multiCompareExchange
  | generic
  | genericWithFallback
  | testFlag
  | testSetFlag
  | clearFlag
  | begin
  | abortAll
  | abortSingle
  | commit
  | isOpen
  | depth
deriving DecidableEq

namespace TransactionSlot

def records : List (List TransactionSlot) :=
  ObjectSlot.records.map (·.map object) ++
    [[doubleCompareExchange, multiCompareExchange, generic, genericWithFallback],
      [testFlag, testSetFlag, clearFlag],
      [begin, abortAll, abortSingle, commit, isOpen, depth]]

def category : TransactionSlot → Category
  | object s => s.category
  | doubleCompareExchange | multiCompareExchange | generic | genericWithFallback => .special
  | testFlag | testSetFlag | clearFlag => .flag
  | begin | abortAll | abortSingle | commit | isOpen | depth => .raw

def kind : TransactionSlot → OperationKind
  | object s => s.kind
  | doubleCompareExchange => .doubleCompareExchange
  | multiCompareExchange => .multiCompareExchange
  | generic => .generic
  | genericWithFallback => .genericWithFallback
  | testFlag => .test
  | testSetFlag => .testSet
  | clearFlag => .clear
  | begin => .begin
  | abortAll => .abortAll
  | abortSingle => .abortSingle
  | commit => .commit
  | isOpen => .isOpen
  | depth => .depth

def name : TransactionSlot → String
  | object s => s.name
  | doubleCompareExchange => "spec.double_cmpxchg"
  | multiCompareExchange => "spec.multi_cmpxchg"
  | generic => "spec.generic"
  | genericWithFallback => "spec.generic_wfb"
  | testFlag => "flag.test"
  | testSetFlag => "flag.test_set"
  | clearFlag => "flag.clear"
  | begin => "raw.tbegin"
  | abortAll => "raw.tabort_all"
  | abortSingle => "raw.tabort_single"
  | commit => "raw.tcommit"
  | isOpen => "raw.ttest"
  | depth => "raw.tdepth"

instance : SlotFamily TransactionSlot := ⟨object .store, object .load, records, name, category, kind⟩

end TransactionSlot

end AtomicTables
