import AtomicTables.Proofs.Transaction.Nesting
import AtomicTables.Proofs.Transaction.Subscription
import AtomicTables.Script
import Mathlib.Tactic.IntervalCases

/-!
# The attempts of a call

A call reports how many transactions it has begun, and how the last of them ended. Every earlier one was undone by
an abort after which another attempt may follow (`transact_accounts`).
-/

namespace AtomicTables

inductive Attempt (α : Type) where
  | committed (value : α)
  | aborted (word : BitVec 32) (isSet : Bool)

namespace Attempt

variable {α : Type}

def isFromFlag : Attempt α → Bool
  | committed _ => false
  | aborted word isSet => word.getLsbD 0 && word.extractLsb' 24 8 == flagReason && isSet

def isFinal : Attempt α → Bool
  | committed _ => true
  | aborted word isSet => word.getLsbD 0 && !(aborted word isSet : Attempt α).isFromFlag

def value? : Attempt α → Option α
  | committed value => some value
  | aborted .. => none

def status : Attempt α → Status
  | committed _ => .success
  | aborted word isSet =>
    if (aborted word isSet : Attempt α).isFromFlag then (Status.ofHardware word).withInfo .flagSet
    else .ofHardware word

theorem isSuccess_status (attempt : Attempt α) : attempt.status.isSuccess = attempt.value?.isSome := by
  cases attempt with
  | committed value => rfl
  | aborted word isSet =>
      rw [status]
      split
      · rw [Status.isSuccess, Status.codeByte_withInfo]
        exact Status.isSuccess_ofHardware word
      · exact Status.isSuccess_ofHardware word

theorem value?_of_not_final {attempt : Attempt α} (goesOn : attempt.isFinal = false) :
    attempt.value? = none := by
  cases attempt with
  | committed => cases goesOn
  | aborted => rfl

theorem classified_ofHardware (word : BitVec 32) (isSet : Bool) :
    (Status.ofHardware word).classified isSet =
      ((aborted word isSet : Attempt α).status, !(aborted word isSet : Attempt α).isFinal) := by
  unfold Status.classified
  split
  · rename_i tacit
    rw [ne_eq, Status.code_ofHardware_iff, Bool.not_eq_true] at tacit
    simp only [status, isFinal, isFromFlag, tacit, Bool.false_and, Bool.false_eq_true, if_false, Bool.not_false]
  · rename_i explicit
    rw [ne_eq, Status.code_ofHardware_iff, Decidable.not_not] at explicit
    rw [Status.reason_ofHardware explicit]
    split
    · rename_i other
      simp [status, isFinal, isFromFlag, explicit, other]
    · rename_i same
      rw [ne_eq, Decidable.not_not] at same
      cases isSet <;> simp [status, isFinal, isFromFlag, explicit, same]

theorem final_explicitWord {reason : BitVec 8} {isSet : Bool} (nested : Bool)
    (differs : reason ≠ flagReason ∨ isSet = false) :
    let attempt : Attempt α := aborted (Status.explicitWord reason nested) isSet
    attempt.isFinal ∧ attempt.status.code = .abortExplicit ∧ attempt.status.reason = reason ∧
      ¬ attempt.status.info.contains ExitInfo.flagSet := by
  intro attempt
  have explicit := Status.getLsbD_explicitWord reason nested
  have tacit : attempt.isFromFlag = false := by
    rcases differs with other | clear
    · simp [attempt, isFromFlag, Status.extractLsb'_explicitWord, other]
    · simp [attempt, isFromFlag, clear]
  have status_eq : attempt.status = .ofHardware (Status.explicitWord reason nested) := by
    rw [status, tacit]
    rfl
  rw [status_eq, isFinal, tacit, explicit, Status.reason_ofHardware explicit, Status.extractLsb'_explicitWord]
  exact ⟨rfl, (Status.code_ofHardware_iff _).2 explicit, rfl, Status.flagSet_not_mem_ofHardware _⟩

def ofResult (result : Except (BitVec 32) α) (isSet : Bool) : Attempt α :=
  match result with
  | .ok value => committed value
  | .error word => aborted word isSet

end Attempt

namespace Speculative

theorem dispatch_eq {α : Type} {half : BitVec 8} (small : half.toNat < 16) (arm : Nat → α) :
    dispatch half arm = arm half.toNat := by
  unfold dispatch
  generalize half.toNat = n at small
  interval_cases n <;> rfl

theorem abortDynamic_eq [FlagSpace] (reason : BitVec 8) : abortDynamic reason = Program.abort reason := by
  have high : (reason >>> 4).toNat = reason.toNat / 16 := by
    rw [BitVec.toNat_ushiftRight, Nat.shiftRight_eq_div_pow]
  have low : (reason &&& 0x0F).toNat = reason.toNat % 16 := by
    rw [BitVec.toNat_and]
    exact Nat.and_two_pow_sub_one_eq_mod reason.toNat 4
  have joined : reason.toNat / 16 * 16 + reason.toNat % 16 = reason.toNat := by omega
  rw [abortDynamic, dispatch_eq (by omega), dispatch_eq (by omega), high, low, joined, BitVec.ofNat_toNat,
    BitVec.setWidth_eq]

end Speculative

section

variable [FlagSpace]

namespace Program

variable {α : Type} (hardware : Schedule)

def entered (flag : Option FlagId) (body : Program α) (word : BitVec 32) : Program (Except (BitVec 32) α) :=
  if word = Status.started then guarded flag body >>= fun value => pure (.ok value)
  else pure (.error word)

def single (flag : Option FlagId) (body : Program α) : Program (Except (BitVec 32) α) :=
  begin (entered flag body)

/-- The body ends, and commits exactly the transactions that it begins, as long as the memory is the same. Others
may have touched the flags. -/
def Orderly (body : Program α) (memory : Memory) : Prop :=
  ∀ s, s.memory = memory → (body.isolated 0 s).Balanced ∧ (body.isolated 0 s).Sound

theorem run_single (flag : Option FlagId) {body : Program α} {m : Machine} (closed : m.transaction = none)
    (honest : hardware.Honest) (orderly : body.Orderly m.store.memory) :
    ∃ result m', (single flag body).run hardware m = (.returned result, m') ∧ m'.transaction = none ∧
      m'.begun = m.begun + 1 ∧ ∀ word, result = .error word → m'.store.memory = m.store.memory := by
  obtain ⟨balanced, sound⟩ := orderly m.store rfl
  have tries := run_attempt hardware flag body (Except.ok (ε := BitVec 32)) (fun word => pure (.error word))
    closed balanced honest
  change Tries hardware _ _ _ m ((single flag body).run hardware m) at tries
  generalize (single flag body).run hardware m = result at tries ⊢
  cases tries with
  | @commit a s log isolated => exact ⟨_, _, rfl, rfl, rfl, nofun⟩
  | @abort word log aborts => exact ⟨_, _, rfl, rfl, rfl, fun _ _ => Fate.memory_interfere ..⟩
  | fail isolated =>
      rw [isolated_of_subscribed isolated nofun] at sound
      exact sound.elim

theorem attempts_succ_eq (flag : Option FlagId) (body : Program α) (left : Nat) (made : UInt64)
    (status : Status) :
    attempts flag body (left + 1) made status = single flag body >>= fun
      | .ok value => pure (some value, ⟨.success, made + 1⟩)
      | .error word => afterAbort flag body left (made + 1) word := by
  rw [attempts_succ]
  change begin _ = begin fun word => (entered flag body word).bind _
  congr 1
  funext word
  rw [entered]
  split
  · rw [← bind_eq, seq_assoc]
    rfl
  · rfl

theorem run_attempts_succ {flag : Option FlagId} {body : Program α} {m m' : Machine}
    {result : Except (BitVec 32) α} (ran : (single flag body).run hardware m = (.returned result, m'))
    (closed : m'.transaction = none) (left : Nat) (made : UInt64) (status : Status) :
    let attempt := Attempt.ofResult result (m'.store.isSet flag)
    (attempts flag body (left + 1) made status).run hardware m =
      if attempt.isFinal then (.returned (attempt.value?, ⟨attempt.status, made + 1⟩), m')
      else (attempts flag body left (made + 1) attempt.status).run hardware m' := by
  intro attempt
  rw [attempts_succ_eq, run_bind_returned hardware _ ran closed]
  cases result with
  | ok value => rfl
  | error word =>
      dsimp only
      rw [afterAbort, run_classify_bind hardware _ flag _ closed, Attempt.classified_ofHardware (α := α)]
      change (if (!attempt.isFinal) = true then _ else _ : Program _).run hardware m' = _
      cases attempt.isFinal <;> rfl

inductive History (flag : Option FlagId) (body : Program α) : Machine → List (Attempt α) → Machine → Prop where
  | nil (m : Machine) : History flag body m [] m
  | cons {m m₁ m' : Machine} {result : Except (BitVec 32) α} {later : List (Attempt α)}
      (ran : (single flag body).run hardware m = (.returned result, m₁))
      (rest : History flag body m₁ later m') :
      History flag body m (.ofResult result (m₁.store.isSet flag) :: later) m'

/-- The call with a budget of attempts makes the earlier ones in vain, and ends with the last one. -/
structure Attempted (flag : Option FlagId) (body : Program α) (budget : Nat) (m : Machine)
    (earlier : List (Attempt α)) (last : Attempt α) (m' : Machine) : Prop where
  history : History hardware flag body m (earlier ++ [last]) m'
  begun : m'.begun = m.begun + (earlier.length + 1)
  within : earlier.length + 1 ≤ budget
  goesOn : ∀ attempt ∈ earlier, attempt.isFinal = false
  ends : earlier.length + 1 < budget → last.isFinal

variable {hardware} {flag : Option FlagId} {body : Program α} {m m₁ : Machine} {result : Except (BitVec 32) α}

theorem Attempted.of_last {budget : Nat} (ran : (single flag body).run hardware m = (.returned result, m₁))
    (begun : m₁.begun = m.begun + 1)
    (ends : 0 < budget → (Attempt.ofResult result (m₁.store.isSet flag)).isFinal) :
    Attempted hardware flag body (budget + 1) m [] (.ofResult result (m₁.store.isSet flag)) m₁ :=
  ⟨.cons ran (.nil m₁), begun, Nat.succ_le_succ budget.zero_le, nofun,
    fun more => ends (Nat.lt_of_succ_lt_succ more)⟩

theorem Attempted.cons {budget : Nat} {earlier : List (Attempt α)} {last : Attempt α} {m' : Machine}
    (ran : (single flag body).run hardware m = (.returned result, m₁)) (begun : m₁.begun = m.begun + 1)
    (goesOn : (Attempt.ofResult result (m₁.store.isSet flag)).isFinal = false)
    (further : Attempted hardware flag body budget m₁ earlier last m') :
    Attempted hardware flag body (budget + 1) m (.ofResult result (m₁.store.isSet flag) :: earlier) last m' where
  history := .cons ran further.history
  begun := by rw [further.begun, begun, List.length_cons, Nat.add_assoc, Nat.add_comm 1]
  within := Nat.succ_le_succ further.within
  goesOn := List.forall_mem_cons.2 ⟨goesOn, further.goesOn⟩
  ends more := further.ends (Nat.lt_of_succ_lt_succ more)

theorem memory_of_not_final (goesOn : (Attempt.ofResult result (m₁.store.isSet flag)).isFinal = false)
    (kept : ∀ word, result = .error word → m₁.store.memory = m.store.memory) :
    m₁.store.memory = m.store.memory := by
  cases result with
  | ok => cases goesOn
  | error word => exact kept word rfl

theorem attempts_attempted (closed : m.transaction = none) (honest : hardware.Honest)
    (orderly : body.Orderly m.store.memory) (left : Nat) (made : UInt64) (status : Status) :
    ∃ earlier last m', Attempted hardware flag body (left + 1) m earlier last m' ∧
      (attempts flag body (left + 1) made status).run hardware m =
        (.returned (last.value?, ⟨last.status, made + UInt64.ofNat (earlier.length + 1)⟩), m') := by
  induction left generalizing made status m with
  | zero =>
      obtain ⟨result, m₁, ran, closed₁, begun, -⟩ := run_single hardware flag closed honest orderly
      refine ⟨[], .ofResult result (m₁.store.isSet flag), m₁, .of_last ran begun nofun, ?_⟩
      rw [run_attempts_succ hardware ran closed₁]
      split
      · rfl
      · rename_i goesOn
        rw [Attempt.value?_of_not_final (Bool.not_eq_true _ ▸ goesOn)]
        rfl
  | succ left ih =>
      obtain ⟨result, m₁, ran, closed₁, begun, kept⟩ := run_single hardware flag closed honest orderly
      have runs := run_attempts_succ hardware ran closed₁ (left + 1) made status
      cases final : (Attempt.ofResult result (m₁.store.isSet flag)).isFinal with
      | true =>
          refine ⟨[], _, m₁, .of_last ran begun fun _ => final, ?_⟩
          rw [runs, if_pos final]
          rfl
      | false =>
          -- The abort has restored the memory, so the body is orderly in the next attempt too.
          rw [← memory_of_not_final final kept] at orderly
          obtain ⟨earlier, last, m', further, ran'⟩ :=
            ih closed₁ orderly (made + 1) (Attempt.ofResult result (m₁.store.isSet flag)).status
          refine ⟨_, last, m', further.cons ran begun final, ?_⟩
          rw [runs, if_neg (by rw [final]; exact Bool.false_ne_true), ran', count_succ, List.length_cons]

/-- In its next attempt the call comes to an abort with the reason, and the hardware does not come first. -/
inductive AbortsItself (hardware : Schedule) (flag : Option FlagId) (body : Program α) (m : Machine)
    (reason : BitVec 8) : Prop where
  | intro {operation : TransactionOperation .abortAll} {rest : Unit → Program α} {m₁ m₂ : Machine} {nested : Bool}
      (filled : Speculative.table .abortAll = some operation) (admitted : (hardware m.begun).refusal = none)
      (leads : Leads hardware (guarded flag body) (m.opened hardware) (operation reason >>= rest) m₁)
      (aborts : Instruction.step (.abort reason) m₁ = .abort (Status.explicitWord reason nested) m₂)

theorem run_single_of_abortsItself {reason : BitVec 8} (aborts : AbortsItself hardware flag body m reason)
    (closed : m.transaction = none) :
    ∃ nested m', (single flag body).run hardware m = (.returned (.error (Status.explicitWord reason nested)), m') ∧
      m'.transaction = none ∧ m'.store = (hardware m.begun).interfere m.store := by
  obtain @⟨_, _, _, _, nested, filled, admitted, leads, aborts⟩ := aborts
  cases filled
  rw [Speculative.abortDynamic_eq] at leads
  have inside := (leads.bind fun value => pure (Except.ok (ε := BitVec 32) value)).run_eq.trans
    (run_act_abort hardware (.abort reason) _ aborts)
  have undone := run_begin_aborted hardware (entered flag body) closed admitted
    (by rw [entered, if_pos rfl]; exact inside)
  rw [entered, if_neg (Status.explicitWord_ne_started reason nested)] at undone
  exact ⟨nested, _, undone, rfl, rfl⟩

theorem run_attempts_history {earlier : List (Attempt α)} (history : History hardware flag body m earlier m₁)
    (goesOn : ∀ attempt ∈ earlier, attempt.isFinal = false) (closed : m.transaction = none)
    (honest : hardware.Honest) (orderly : body.Orderly m.store.memory) :
    m₁.transaction = none ∧ ∀ left made status, ∃ status',
      (attempts flag body (left + earlier.length) made status).run hardware m =
        (attempts flag body left (made + UInt64.ofNat earlier.length) status').run hardware m₁ := by
  induction history with
  | nil m =>
      refine ⟨closed, fun left made status => ⟨status, ?_⟩⟩
      rw [List.length_nil, show UInt64.ofNat 0 = 0 from rfl, UInt64.add_zero]
      rfl
  | @cons m m₂ m' result later ran rest ih =>
      obtain ⟨final, goesOn⟩ := List.forall_mem_cons.1 goesOn
      obtain ⟨_, _, ran', closed₂, -, kept⟩ := run_single hardware flag closed honest orderly
      cases ran'.symm.trans ran
      rw [← memory_of_not_final final kept] at orderly
      obtain ⟨closed', runs⟩ := ih goesOn closed₂ orderly
      refine ⟨closed', fun left made status => ?_⟩
      obtain ⟨status', same⟩ := runs left (made + 1) (Attempt.ofResult result (m₂.store.isSet flag)).status
      refine ⟨status', ?_⟩
      rw [List.length_cons, ← count_succ, ← same, ← Nat.add_assoc, run_attempts_succ hardware ran closed₂,
        if_neg (by rw [final]; exact Bool.false_ne_true)]

theorem attempts_abortsItself {earlier : List (Attempt α)} {reason : BitVec 8}
    (history : History hardware flag body m earlier m₁) (goesOn : ∀ attempt ∈ earlier, attempt.isFinal = false)
    (closed : m.transaction = none) (honest : hardware.Honest) (orderly : body.Orderly m.store.memory)
    (aborts : AbortsItself hardware flag body m₁ reason)
    (differs : reason ≠ flagReason ∨ ((hardware m₁.begun).interfere m₁.store).isSet flag = false)
    (left : Nat) (made : UInt64) (status : Status) :
    ∃ status' m', (attempts flag body (left + 1 + earlier.length) made status).run hardware m =
        (.returned (none, ⟨status', made + UInt64.ofNat (earlier.length + 1)⟩), m') ∧
      status'.code = .abortExplicit ∧ status'.reason = reason ∧
      ¬ status'.info.contains ExitInfo.flagSet := by
  obtain ⟨closed₁, runs⟩ := run_attempts_history history goesOn closed honest orderly
  obtain ⟨status₁, same⟩ := runs (left + 1) made status
  obtain ⟨nested, m', ran, closed', store⟩ := run_single_of_abortsItself aborts closed₁
  rw [← store] at differs
  obtain ⟨final, code, reason_eq, untold⟩ := Attempt.final_explicitWord (α := α) nested differs
  refine ⟨_, m', ?_, code, reason_eq, untold⟩
  rw [same, run_attempts_succ hardware ran closed']
  refine (if_pos final).trans ?_
  rw [UInt64.ofNat_add, ← UInt64.add_assoc]
  rfl

structure Accounts (hardware : Schedule) (config : Config) (body : Program α) (m : Machine) : Prop where
  unattempted : config.attempts = 0 →
    (transact config body).run hardware m = (.returned (none, .zeroAttempts), m) ∧
    Outcome.zeroAttempts.status.code = .abortUnknown ∧
    Outcome.zeroAttempts.status.info = ExitInfo.zeroAttempts ∧ Outcome.zeroAttempts.attempts = 0
  attempted : config.attempts ≠ 0 → ∃ earlier last outcome m',
    Attempted hardware config.flag body config.attempts.toNat m earlier last m' ∧
    (transact config body).run hardware m = (.returned (last.value?, outcome), m') ∧
    outcome.attempts.toNat = earlier.length + 1 ∧ outcome.status = last.status ∧
    outcome.isSuccess = last.value?.isSome
  aborted {earlier : List (Attempt α)} {m₁ : Machine} {reason : BitVec 8}
    (history : History hardware config.flag body m earlier m₁)
    (goesOn : ∀ attempt ∈ earlier, attempt.isFinal = false) (within : earlier.length < config.attempts.toNat)
    (aborts : AbortsItself hardware config.flag body m₁ reason)
    (differs : reason ≠ flagReason ∨ ((hardware m₁.begun).interfere m₁.store).isSet config.flag = false) :
    ∃ outcome m', (transact config body).run hardware m = (.returned (none, outcome), m') ∧
      outcome.attempts.toNat = earlier.length + 1 ∧ outcome.status.code = .abortExplicit ∧
      outcome.status.reason = reason ∧ ¬ outcome.status.info.contains ExitInfo.flagSet

omit [FlagSpace] in
theorem toNat_count {n : Nat} {budget : UInt64} (within : n ≤ budget.toNat) :
    (0 + UInt64.ofNat n).toNat = n := by
  rw [UInt64.zero_add]
  exact UInt64.toNat_ofNat_of_lt' (within.trans_lt budget.toNat_lt)

theorem transact_accounts (config : Config) (body : Program α) {m : Machine} (closed : m.transaction = none)
    (honest : hardware.Honest) (orderly : body.Orderly m.store.memory) : Accounts hardware config body m where
  unattempted zero := by
    rw [transact, if_pos zero]
    exact ⟨rfl, by decide, by decide, rfl⟩
  attempted tries := by
    obtain ⟨left, count⟩ := Nat.exists_eq_succ_of_ne_zero fun none => tries (UInt64.toNat_inj.1 none)
    obtain ⟨earlier, last, m', attempted, ran⟩ := attempts_attempted closed honest orderly left 0 .success
    rw [← Nat.succ_eq_add_one, ← count] at attempted ran
    rw [transact, if_neg tries]
    exact ⟨earlier, last, _, m', attempted, ran, toNat_count attempted.within, rfl, last.isSuccess_status⟩
  aborted {earlier m₁ reason} history goesOn within aborts differs := by
    obtain ⟨left, count⟩ := Nat.exists_eq_add_of_lt within
    have tries : config.attempts ≠ 0 := fun none => by simp [none] at within
    have budget : left + 1 + earlier.length = config.attempts.toNat := by omega
    obtain ⟨status, m', ran, told⟩ :=
      attempts_abortsItself history goesOn closed honest orderly aborts differs left 0 .success
    rw [budget] at ran
    rw [transact, if_neg tries]
    exact ⟨_, m', ran, toNat_count within, told⟩

end Program

end

namespace Program

theorem transact_accounts_refused :
    let hardware := Schedule.ofList [⟨some 6, none, none, none, none⟩]
    let m := Machine.initial ⟨#[1]⟩
    let body : Program Unit := do
      write 0 5
      abort 7
    let config : Config := ⟨1, 3, some 0⟩
    (m.transaction = none ∧ hardware.Honest ∧ body.Orderly m.store.memory) ∧
    Accounts hardware config body m ∧
    ∃ outcome m', (transact config body).run hardware m = (.returned (none, outcome), m') ∧
      outcome.attempts.toNat = 2 ∧ outcome.status.reason = 7 := by
  intro hardware m body config
  have honest : hardware.Honest := Schedule.honest_ofList (by simp [Fate.words, Status.started])
  have orderly : body.Orderly m.store.memory := fun _ _ => ⟨trivial, trivial⟩
  have accounts := transact_accounts config body (m := m) rfl honest orderly
  let m₁ : Machine := { m with begun := 1 }
  have refused : (single config.flag body).run hardware m = (.returned (.error 6), m₁) := by
    rw [single, run]
    exact congrArg (fun p => Program.run hardware p m₁) (if_neg (by decide))
  let opened := m₁.opened hardware
  let written := opened.write 0 5
  have isClear : Instruction.step (.testFlag 0) opened = .next false opened := rfl
  have writes : Instruction.step (.write 0 5) opened = .next () written := rfl
  have ends : Instruction.step (.abort 7) written = .abort (Status.explicitWord 7 false) written := rfl
  have leads : Leads hardware (guarded config.flag body) opened (abort 7 >>= fun _ => commit) written :=
    .act isClear (.act writes (.here ..))
  have aborts : AbortsItself hardware config.flag body m₁ 7 := .intro rfl rfl leads ends
  obtain ⟨outcome, m', ran, made, -, reason, -⟩ :=
    accounts.aborted (.cons refused (.nil m₁)) (by decide) (by decide) aborts (.inl (by decide))
  exact ⟨⟨rfl, honest, orderly⟩, accounts, outcome, m', ran, made, reason⟩

end Program

end AtomicTables
