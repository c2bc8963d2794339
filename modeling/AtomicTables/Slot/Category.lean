import AtomicTables.BitSet

namespace AtomicTables

inductive Category where
  | loadStore | exchange | bit | bitwise | fetchBitwise | arithmetic | fetchArithmetic
  | special | flag | raw
deriving DecidableEq

def categoryLayout : BitLayout :=
  ⟨32, "OpCategory",
    ["LDST", "XCHG", "BIT", "BIN_V", "BIN_F", "ARI_V", "ARI_F", "TSPEC", "TFLAG", "TRAW"]⟩

abbrev CategorySet := BitSet categoryLayout

namespace Category

def all : List Category :=
  [loadStore, exchange, bit, bitwise, fetchBitwise, arithmetic, fetchArithmetic, special, flag, raw]

def asSet (c : Category) : CategorySet := .single c.ctorIdx

def ofVariant : (isArithmetic fetch : Bool) → Category
  | false, false => bitwise
  | false, true => fetchBitwise
  | true, false => arithmetic
  | true, true => fetchArithmetic

end Category

namespace CategorySet

def categories (s : CategorySet) : List Category :=
  Category.all.filter fun c => s.contains c.asSet

def ofList (categories : List Category) : CategorySet := .unions (categories.map Category.asSet)

def object : CategorySet :=
  ofList [.loadStore, .exchange, .bit, .bitwise, .fetchBitwise, .arithmetic, .fetchArithmetic]

end CategorySet

inductive OperationKind where
  | load | store | exchange | weakCompareExchange | strongCompareExchange
  | test | testComplement | testSet | testReset
  | or | xor | and | not | add | sub | inc | dec | neg
  | doubleCompareExchange | multiCompareExchange | generic | genericWithFallback
  | clear | begin | abortAll | abortSingle | commit | isOpen | depth
deriving DecidableEq

def operationLayout : BitLayout :=
  ⟨32, "OpKind",
    ["LOAD", "STORE", "EXCHANGE", "CMPXCHG_WEAK", "CMPXCHG_STRONG", "TEST", "TEST_COMPL", "TEST_SET",
      "TEST_RESET", "OR", "XOR", "AND", "NOT", "ADD", "SUB", "INC", "DEC", "NEG", "DOUBLE_CMPXCHG",
      "MULTI_CMPXCHG", "GENERIC", "GENERIC_WFB", "CLEAR", "TBEGIN", "TABORT_ALL", "TABORT_SINGLE",
      "TCOMMIT", "TTEST", "TDEPTH"]⟩

abbrev OperationSet := BitSet operationLayout

def OperationKind.asSet (k : OperationKind) : OperationSet := .single k.ctorIdx

end AtomicTables
