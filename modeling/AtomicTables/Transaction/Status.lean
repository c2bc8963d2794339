import AtomicTables.BitSet

/-!
# Transaction status

How a transaction ended, packed into a word: the exit code in bits 0 to 7, the reason of an explicit
abort in bits 8 to 15, further information in bits 16 to 23. The hardware reports an abort in a word of
its own layout, which `ofHardware` decodes.
-/

namespace AtomicTables

inductive ExitCode where
  | success | abortUnknown | abortExplicit | abortConflict | abortCapacity | abortDebug
deriving DecidableEq

namespace ExitCode

instance : Inhabited ExitCode := ⟨success⟩

def all : List ExitCode :=
  [success, abortUnknown, abortExplicit, abortConflict, abortCapacity, abortDebug]

def raw : ExitCode → BitVec 8
  | success => 0
  | abortUnknown => 1
  | abortExplicit => 2
  | abortConflict => 3
  | abortCapacity => 4
  | abortDebug => 5

def ofRaw (raw : BitVec 8) : ExitCode :=
  match all.find? (·.raw == raw) with
  | some code => code
  | none => abortUnknown

def name : ExitCode → String
  | success => "success"
  | abortUnknown => "abort-unknown"
  | abortExplicit => "abort-explicit"
  | abortConflict => "abort-conflict"
  | abortCapacity => "abort-capacity"
  | abortDebug => "abort-debug"

def title : ExitCode → String
  | success => "Success"
  | abortUnknown => "AbortUnknown"
  | abortExplicit => "AbortExplicit"
  | abortConflict => "AbortConflict"
  | abortCapacity => "AbortCapacity"
  | abortDebug => "AbortDebug"

end ExitCode

def exitInfoLayout : BitLayout :=
  ⟨8, "ExitInfo", ["ZERO_ATTEMPTS", "FLAG_SET", "RETRY", "NESTED"]⟩

abbrev ExitInfo := BitSet exitInfoLayout

namespace ExitInfo

def zeroAttempts : ExitInfo := .single 0

def flagSet : ExitInfo := .single 1

def retry : ExitInfo := .single 2

def nested : ExitInfo := .single 3

end ExitInfo

structure Status where
  raw : BitVec 32
deriving DecidableEq

namespace Status

def success : Status := ⟨0⟩

def pack (code : ExitCode) (reason : BitVec 8) (info : ExitInfo) : Status :=
  let reason := if code = .abortExplicit then reason else 0
  ⟨code.raw.setWidth 32 ||| (reason.setWidth 32 <<< 8) ||| (info.bits.setWidth 32 <<< 16)⟩

def codeByte (s : Status) : BitVec 8 := s.raw.extractLsb' 0 8

def code (s : Status) : ExitCode := .ofRaw s.codeByte

def reason (s : Status) : BitVec 8 :=
  if s.codeByte = ExitCode.abortExplicit.raw then s.raw.extractLsb' 8 8 else 0

def info (s : Status) : ExitInfo := BitSet.truncate ⟨s.raw.extractLsb' 16 8⟩

def isSuccess (s : Status) : Bool := s.codeByte == ExitCode.success.raw

def withInfo (s : Status) (info : ExitInfo) : Status :=
  ⟨s.raw ||| (info.bits.setWidth 32 <<< 16)⟩

def render (s : Status) : String :=
  "TransactionStatus \x7b code: " ++ s.code.title ++ ", reason: " ++ toString s.reason.toNat ++
    ", info: " ++ s.info.render ++ " \x7d"

/-- What a begin answers when the transaction has started. No abort is reported by it. -/
def started : BitVec 32 := BitVec.allOnes 32

def explicitWord (reason : BitVec 8) (nested : Bool) : BitVec 32 :=
  1 ||| (reason.setWidth 32 <<< 24) ||| (if nested then BitVec.twoPow 32 5 else 0)

/-- Bit 0 tells an explicit abort, whose reason is in the top byte; else bit 2 tells a conflict, bit 3
a lack of capacity, bit 4 a debugger, the first of them deciding. Bit 1 advises another attempt, bit
5 tells a nested transaction. -/
def ofHardware (word : BitVec 32) : Status :=
  let code :=
    if word.getLsbD 0 then .abortExplicit
    else if word.getLsbD 2 then .abortConflict
    else if word.getLsbD 3 then .abortCapacity
    else if word.getLsbD 4 then .abortDebug
    else .abortUnknown
  let retry := if word.getLsbD 1 then ExitInfo.retry else ∅
  let nested := if word.getLsbD 5 then ExitInfo.nested else ∅
  pack code (word.extractLsb' 24 8) (retry ∪ nested)

end Status

/-- The reason with which a transaction aborts when it finds its flag set. -/
def flagReason : BitVec 8 := 0xFF

structure Outcome where
  status : Status
  attempts : UInt64
deriving DecidableEq

namespace Outcome

def zeroAttempts : Outcome := ⟨.pack .abortUnknown 0 .zeroAttempts, 0⟩

def isSuccess (o : Outcome) : Bool := o.status.isSuccess

end Outcome

structure RetryHints where
  update : UInt64
  load : UInt64
deriving DecidableEq

namespace RetryHints

def none : RetryHints := ⟨0, 0⟩

def max (a b : RetryHints) : RetryHints :=
  ⟨if b.update < a.update then a.update else b.update, if b.load < a.load then a.load else b.load⟩

def render (h : RetryHints) : String :=
  "RecommendedRetryConfig \x7b min_rmw: " ++ toString h.update.toNat ++
    ", min_load: " ++ toString h.load.toNat ++ " \x7d"

end RetryHints

end AtomicTables
