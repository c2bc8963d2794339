import AtomicTables.Program.Basic

/-!
# Attempts

A transactional call runs its body in up to a given number of transactions, until one commits. A
configured flag keeps every attempt from running its body while the flag is set. An explicit abort ends
the call, unless it comes from that flag; every other abort is followed by another attempt.
-/

namespace AtomicTables

variable [FlagSpace]

structure Config where
  width : UInt64
  attempts : UInt64
  flag : Option FlagId

namespace Config

def plain (width attempts : UInt64) : Config := ⟨width, attempts, none⟩

def withFlag (c : Config) (flag : FlagId) : Config := { c with flag := some flag }

end Config

namespace Program

variable {α : Type}

def flagIsSet : Option FlagId → Program Bool
  | some flag => testFlag flag
  | none => pure false

/-- The status to report for an abort, and whether another attempt may follow. An explicit abort with
the flag's reason comes from the flag only if the flag is set. -/
def classify (status : Status) (flag : Option FlagId) : Program (Status × Bool) := do
  if status.code ≠ .abortExplicit then return (status, true)
  else if status.reason ≠ flagReason then return (status, false)
  else if ← flagIsSet flag then return (status.withInfo .flagSet, true)
  else return (status, false)

def guarded (flag : Option FlagId) (body : Program α) : Program α := do
  if ← flagIsSet flag then abort flagReason
  let value ← body
  commit
  return value

def attempts (flag : Option FlagId) (body : Program α) :
    (left : Nat) → (made : UInt64) → Status → Program (Option α × Outcome)
  | 0, made, status => pure (none, ⟨status, made⟩)
  | left + 1, made, _ => begin fun word =>
    if word = Status.started then do
      let value ← guarded flag body
      return (some value, ⟨.success, made + 1⟩)
    else do
      let (status, again) ← classify (.ofHardware word) flag
      if again then attempts flag body left (made + 1) status
      else return (none, ⟨status, made + 1⟩)

/-- The value of the body, if an attempt has committed, and the outcome. -/
def transact (config : Config) (body : Program α) : Program (Option α × Outcome) :=
  if config.attempts = 0 then pure (none, .zeroAttempts)
  else attempts config.flag body config.attempts.toNat 0 .success

def transactUnit (config : Config) (body : Program Unit) : Program Outcome := do
  let (_, outcome) ← transact config body
  return outcome

def transactBool (config : Config) (body : Program Bool) : Program (Bool × Outcome) := do
  let (value, outcome) ← transact config body
  return (value.getD false, outcome)

/-- Runs the fallback once, outside of any transaction, if no attempt at the body commits. It holds the
flag meanwhile. Answers whether the body was committed. -/
def transactElse (config : Config) (body fallback : Program Unit) : Program (Bool × Outcome) := do
  let (value, outcome) ← transact config body
  if value.isSome then return (true, outcome)
  else
    match config.flag with
    | some flag =>
      acquire flag
      fallback
      clearFlag flag
    | none => fallback
    return (false, outcome)

end Program

end AtomicTables
