import AtomicTables.Proofs.Backend.Atomicity
import AtomicTables.Proofs.Program.Closed
import AtomicTables.Script

/-!
# Subscription to a flag

A flag that is set keeps every attempt of a call from its body, and the call reports the flag. A flag that is
clear is never reported, whatever the body does with it (`subscribes`).
-/

namespace AtomicTables

section

variable [FlagSpace]

theorem Fate.memory_interfere (fate : Fate) (s : Store) : (fate.interfere s).memory = s.memory := by
  unfold interfere
  cases fate.raised <;> cases fate.lowered <;> rfl

theorem Store.get_setFlag (s : Store) (flag other : FlagId) (value : Bool) :
    (s.setFlag flag value).flags.get other = if flag = other then value else s.flags.get other := by
  change (s.flags.set flag value)[other.val] = _
  rw [Vector.getElem_set]
  exact if_congr Fin.ext_iff.symm rfl rfl

theorem Fate.get_interfere (fate : Fate) (s : Store) (flag : FlagId) :
    (fate.interfere s).flags.get flag =
      if fate.lowered = some flag then false
      else if fate.raised = some flag then true
      else s.flags.get flag := by
  unfold interfere
  cases fate.raised <;> cases fate.lowered <;> simp [Store.get_setFlag]

namespace Schedule

variable (hardware : Schedule)

def During (start n : Nat) (kind : Fate → Prop) : Prop := ∀ i < n, kind (hardware (start + i))

variable {hardware}

theorem During.head {start n : Nat} {kind : Fate → Prop} (all : hardware.During start (n + 1) kind) :
    kind (hardware start) :=
  all 0 n.succ_pos

theorem During.tail {start n : Nat} {kind : Fate → Prop} (all : hardware.During start (n + 1) kind) :
    hardware.During (start + 1) n kind := by
  intro i bound
  rw [Nat.add_assoc, Nat.add_comm 1]
  exact all (i + 1) (Nat.succ_lt_succ bound)

variable (hardware)

def interfered : (start n : Nat) → Store → Store
  | _, 0, s => s
  | start, n + 1, s => interfered (start + 1) n ((hardware start).interfere s)

theorem memory_interfered (start n : Nat) (s : Store) :
    (hardware.interfered start n s).memory = s.memory := by
  induction n generalizing start s with
  | zero => rfl
  | succ n ih => rw [interfered, ih, Fate.memory_interfere]

theorem get_interfered {start n : Nat} {s : Store} {flag : FlagId}
    (untouched : hardware.During start n fun fate => fate.raised ≠ some flag ∧ fate.lowered ≠ some flag) :
    (hardware.interfered start n s).flags.get flag = s.flags.get flag := by
  induction n generalizing start s with
  | zero => rfl
  | succ n ih => rw [interfered, ih untouched.tail, Fate.get_interfere, if_neg untouched.head.2,
      if_neg untouched.head.1]

end Schedule

theorem Fate.isSet_interfere {fate : Fate} {s : Store} {flag : Option FlagId} (clear : s.isSet flag = false)
    (quiet : flag.isSome → fate.raised ≠ flag) : (fate.interfere s).isSet flag = false := by
  cases flag with
  | none => rfl
  | some flag =>
      rw [Store.isSet, get_interfere, if_neg (quiet rfl)]
      split
      · rfl
      · exact clear

def Schedule.NeverExplicit (hardware : Schedule) : Prop :=
  ∀ n, ∀ word ∈ (hardware n).words, word.getLsbD 0 = false

theorem Schedule.neverExplicit_ofList {fates : List Fate}
    (tacit : ∀ fate ∈ fates, ∀ word ∈ fate.words, word.getLsbD 0 = false) : (ofList fates).NeverExplicit :=
  fun n => List.forall_mem_cons.2 ⟨nofun, tacit⟩ _ (ofList_mem fates n)

/-- The word with which the hardware aborts a transaction before it has executed `n` instructions. -/
def Fate.early (fate : Fate) (n : Nat) : Option (BitVec 32) :=
  match fate.refusal, fate.interruption with
  | some word, _ => some word
  | none, some (limit, word) => if limit < n then some word else none
  | none, none => none

theorem Fate.early_mem {fate : Fate} {n : Nat} {word : BitVec 32} (early : fate.early n = some word) :
    word ∈ fate.words := by
  simp only [Fate.early] at early
  split at early
  · rename_i refusal
    cases early
    simp [words, refusal]
  · rename_i interruption
    split at early
    · cases early
      simp [words, interruption]
    · cases early
  · cases early

def Fate.blockedStatus (fate : Fate) : Status :=
  match fate.early 2 with
  | some word => .ofHardware word
  | none => .pack .abortExplicit flagReason ExitInfo.flagSet

namespace Status

structure TellsFlag (s : Status) : Prop where
  code : s.code = .abortExplicit
  reason : s.reason = flagReason
  info : s.info = ExitInfo.flagSet

omit [FlagSpace] in
theorem fst_classified_false (s : Status) : (s.classified false).1 = s := by
  unfold classified
  split
  · rfl
  · split <;> rfl

end Status

theorem Fate.classified_blocked {fate : Fate} (tacit : ∀ word ∈ fate.words, word.getLsbD 0 = false) :
    (Status.ofHardware ((fate.early 2).getD (Status.explicitWord flagReason false))).classified true =
      (fate.blockedStatus, true) := by
  unfold blockedStatus
  cases early : fate.early 2 with
  | none => decide
  | some word => exact if_pos (Status.code_ofHardware_ne (tacit word (early_mem early)))

theorem Fate.isSuccess_blockedStatus (fate : Fate) : fate.blockedStatus.isSuccess = false := by
  unfold blockedStatus
  cases fate.early 2 with
  | none => decide
  | some word => exact Status.isSuccess_ofHardware word

theorem Fate.blockedStatus_tellsFlag {fate : Fate} (late : fate.early 2 = none) :
    fate.blockedStatus.TellsFlag := by
  rw [blockedStatus, late]
  exact ⟨by decide, by decide, by decide⟩

namespace Program

variable {α β : Type} (hardware : Schedule)

theorem run_act_abort (i : Instruction) (next : i.Answer → Program α) {m m' : Machine} {word : BitVec 32}
    (aborts : i.step m = .abort word m') : (act i next).run hardware m = (.aborted word, m') := by
  rw [run, aborts]

theorem run_guarded_blocked {flag : FlagId} (body : Program α) (rest : α → Program β) {m : Machine}
    {s : Store} {fate : Fate} (opened : m.transaction = some ⟨0, s, fate, 0⟩) (admitted : fate.refusal = none)
    (set : m.store.flags.get flag = true) :
    ∃ m', (guarded (some flag) body >>= rest).run hardware m =
        (.aborted ((fate.early 2).getD (Status.explicitWord flagReason false)), m') ∧
      m'.begun = m.begun ∧ m'.log = m.log := by
  cases interruption : fate.interruption with
  | none =>
      have reads : (Instruction.testFlag flag).step m = .next true m := by
        simp [Instruction.step, Instruction.perform, opened, interruption, set]
      have aborts : (Instruction.abort flagReason).step m =
          .abort (Status.explicitWord flagReason false) m := by
        simp [Instruction.step, Instruction.perform, opened, interruption]
      refine ⟨m, ?_, rfl, rfl⟩
      rw [Fate.early, admitted, interruption]
      exact (run_act hardware (.testFlag flag) _ reads).trans (run_act_abort hardware (.abort flagReason) _ aborts)
  | some hit =>
      obtain ⟨limit, word⟩ := hit
      rw [Fate.early, admitted, interruption]
      -- The first instruction reads the flag, and the second one is the abort.
      cases limit with
      | zero =>
          have strikes : (Instruction.testFlag flag).step m = .abort word m := by
            simp [Instruction.step, opened, interruption]
          exact ⟨m, run_act_abort hardware (.testFlag flag) _ strikes, rfl, rfl⟩
      | succ limit =>
          let counted (n : Nat) : Machine := { m with transaction := some ⟨0, s, fate, n⟩ }
          have reads : (Instruction.testFlag flag).step m = .next true (counted 1) := by
            simp [Instruction.step, Instruction.perform, opened, interruption, set, counted]
          cases limit with
          | zero =>
              have strikes : (Instruction.abort flagReason).step (counted 1) = .abort word (counted 1) := by
                simp [Instruction.step, interruption, counted]
              exact ⟨counted 1, (run_act hardware (.testFlag flag) _ reads).trans
                (run_act_abort hardware (.abort flagReason) _ strikes), rfl, rfl⟩
          | succ limit =>
              have aborts : (Instruction.abort flagReason).step (counted 1) =
                  .abort (Status.explicitWord flagReason false) (counted 2) := by
                simp [Instruction.step, Instruction.perform, interruption, counted]
              exact ⟨counted 2, (run_act hardware (.testFlag flag) _ reads).trans
                (run_act_abort hardware (.abort flagReason) _ aborts), rfl, rfl⟩

theorem run_begin_blocked {flag : FlagId} {body : Program α} {rest : α → Program β}
    {next : BitVec 32 → Program β} (enters : next Status.started = guarded (some flag) body >>= rest)
    {m : Machine} (closed : m.transaction = none) (set : m.store.flags.get flag = true) :
    (begin next).run hardware m =
      (next (((hardware m.begun).early 2).getD (Status.explicitWord flagReason false))).run hardware
        ⟨(hardware m.begun).interfere m.store, none, m.begun + 1, m.log⟩ := by
  obtain ⟨s, transaction, begun, log⟩ := m
  obtain rfl : transaction = none := closed
  rw [run]
  dsimp only
  split
  · rename_i word refused
    rw [Fate.early, refused]
    rfl
  · rename_i admitted
    obtain ⟨m', aborted, begun_eq, log_eq⟩ := run_guarded_blocked hardware body rest
      (m := ⟨s, some ⟨0, s, hardware begun, 0⟩, begun + 1, log⟩) rfl admitted set
    rw [enters, aborted]
    dsimp only
    rw [begun_eq, log_eq]

def statusAfter (status : Status) (begun : Nat) : (left : Nat) → Status
  | 0 => status
  | left + 1 => (hardware (begun + left)).blockedStatus

theorem statusAfter_succ (status : Status) (begun left : Nat) :
    statusAfter hardware (hardware begun).blockedStatus (begun + 1) left =
      statusAfter hardware status begun (left + 1) := by
  cases left with
  | zero => rfl
  | succ left => rw [statusAfter, statusAfter, Nat.add_assoc, Nat.add_comm 1]

theorem ne_started_of_blocked {fate : Fate} (tacit : ∀ word ∈ fate.words, word.getLsbD 0 = false) :
    (fate.early 2).getD (Status.explicitWord flagReason false) ≠ Status.started := by
  cases early : fate.early 2 with
  | none => exact Status.explicitWord_ne_started flagReason false
  | some word => exact Status.ne_started_of_tacit (tacit word (Fate.early_mem early))

theorem attempts_blocked {flag : FlagId} (body : Program α) (left : Nat) (made : UInt64) (status : Status)
    {m : Machine} (closed : m.transaction = none) (set : m.store.flags.get flag = true)
    (tacit : hardware.NeverExplicit)
    (kept : hardware.During m.begun left fun fate => fate.lowered ≠ some flag) :
    (attempts (some flag) body left made status).run hardware m =
      (.returned (none, ⟨statusAfter hardware status m.begun left, made + UInt64.ofNat left⟩),
        ⟨hardware.interfered m.begun left m.store, none, m.begun + left, m.log⟩) := by
  induction left generalizing made status m with
  | zero =>
      obtain ⟨s, transaction, begun, log⟩ := m
      obtain rfl : transaction = none := closed
      rw [show UInt64.ofNat 0 = 0 from rfl, UInt64.add_zero]
      rfl
  | succ left ih =>
      have stays : ((hardware m.begun).interfere m.store).isSet (some flag) = true := by
        rw [Store.isSet, Fate.get_interfere, if_neg kept.head, set, ite_self]
      rw [attempts_succ, run_begin_blocked hardware (if_pos rfl) closed set,
        if_neg (ne_started_of_blocked (tacit m.begun)), afterAbort, run_classify_bind hardware _ _ _ rfl]
      dsimp only
      rw [stays, Fate.classified_blocked (tacit m.begun), if_pos rfl]
      have further := ih (made + 1) (hardware m.begun).blockedStatus
        (m := ⟨(hardware m.begun).interfere m.store, none, m.begun + 1, m.log⟩) rfl stays kept.tail
      refine further.trans ?_
      rw [statusAfter_succ, count_succ, Nat.add_assoc, Nat.add_comm 1]
      rfl

theorem status_of_guarded {flag : Option FlagId} {body : Program α} {made : UInt64} {m m' : Machine}
    {value : Option α} {outcome : Outcome}
    (ran : (guarded flag body >>= fun a => pure (some a, (⟨.success, made⟩ : Outcome))).run hardware m =
      (.returned (value, outcome), m')) : outcome.status = .success := by
  rw [run_bind_pure] at ran
  generalize (guarded flag body).run hardware m = guardedRun at ran
  obtain ⟨ending, m''⟩ := guardedRun
  cases ending <;> cases ran
  rfl

theorem attempts_unblocked {flag : Option FlagId} (body : Program α) {left : Nat} {made : UInt64}
    {status : Status} {m m' : Machine} {value : Option α} {outcome : Outcome} (closed : m.transaction = none)
    (clear : m.store.isSet flag = false)
    (quiet : hardware.During m.begun left fun fate => flag.isSome → fate.raised ≠ flag)
    (untold : ¬ status.info.contains ExitInfo.flagSet)
    (ran : (attempts flag body left made status).run hardware m = (.returned (value, outcome), m')) :
    ¬ outcome.status.info.contains ExitInfo.flagSet := by
  induction left generalizing made status m with
  | zero =>
      cases ran
      exact untold
  | succ left ih =>
      have success {m₁ : Machine} (inside : (guarded flag body >>= fun a =>
          pure (some a, (⟨.success, made + 1⟩ : Outcome))).run hardware m₁ =
            (.returned (value, outcome), m')) : ¬ outcome.status.info.contains ExitInfo.flagSet := by
        rw [status_of_guarded hardware inside]
        decide
      have begins := run_begin_closed hardware (fun word => if word = Status.started then
        guarded flag body >>= fun value => pure (some value, ⟨.success, made + 1⟩)
        else afterAbort flag body left (made + 1) word) closed
      rw [← attempts_succ flag body left made status, ran] at begins
      generalize result : (Ending.returned (value, outcome), m') = reached at begins
      cases begins with
      | @undone word log =>
          split at result
          · exact success result.symm
          · have stays := Fate.isSet_interfere clear quiet.head
            rw [afterAbort, run_classify_bind hardware _ _ _ rfl] at result
            dsimp only at result
            rw [stays, Status.fst_classified_false] at result
            split at result
            · exact ih rfl stays quiet.tail (Status.flagSet_not_mem_ofHardware word) result.symm
            · cases result
              exact Status.flagSet_not_mem_ofHardware word
      | kept inside stays => exact success ((if_pos rfl).symm ▸ inside.trans result.symm)

theorem transact_blocked {config : Config} {flag : FlagId} (named : config.flag = some flag)
    (tries : config.attempts ≠ 0) (body : Program α) {m : Machine} (closed : m.transaction = none)
    (set : m.store.flags.get flag = true) (tacit : hardware.NeverExplicit)
    (kept : hardware.During m.begun config.attempts.toNat fun fate => fate.lowered ≠ some flag) :
    (transact config body).run hardware m =
      (.returned (none, ⟨statusAfter hardware .success m.begun config.attempts.toNat, config.attempts⟩),
        ⟨hardware.interfered m.begun config.attempts.toNat m.store, none, m.begun + config.attempts.toNat,
          m.log⟩) := by
  rw [transact, if_neg tries, named, attempts_blocked hardware body _ _ _ closed set tacit kept,
    UInt64.ofNat_toNat, UInt64.zero_add]

theorem transact_unblocked {config : Config} {body : Program α} {m m' : Machine} {value : Option α}
    {outcome : Outcome} (closed : m.transaction = none) (clear : m.store.isSet config.flag = false)
    (quiet : hardware.During m.begun config.attempts.toNat fun fate =>
      config.flag.isSome → fate.raised ≠ config.flag)
    (ran : (transact config body).run hardware m = (.returned (value, outcome), m')) :
    ¬ outcome.status.info.contains ExitInfo.flagSet := by
  rw [transact] at ran
  split at ran
  · cases ran
    decide
  · exact attempts_unblocked hardware body closed clear quiet (by decide) ran

end Program

namespace Speculative.Call
open Program

structure Untouched (hardware : Schedule) (n : Nat) (m m' : Machine) : Prop where
  closed : m'.transaction = none
  begun : m'.begun = m.begun + n
  log : m'.log = m.log
  memory : m'.store.memory = m.store.memory
  flags {flag : FlagId}
    (untouched : hardware.During m.begun n fun fate => fate.raised ≠ some flag ∧ fate.lowered ≠ some flag) :
    m'.store.flags.get flag = m.store.flags.get flag

/-- A call that finds its flag set makes all its attempts in vain, whatever its body is, and tells of the flag
unless the hardware has come first in the last attempt. A call that finds its flag clear, or has none, never
tells of a flag, as long as nobody else sets it. -/
theorem subscribes (config : Config) {hardware : Schedule} {m : Machine} (closed : m.transaction = none) :
    (m.store.isSet config.flag → config.attempts ≠ 0 → hardware.NeverExplicit →
      (hardware.During m.begun config.attempts.toNat fun fate => fate.lowered ≠ config.flag) →
      ∃ status m', ¬ status.isSuccess ∧ Untouched hardware config.attempts.toNat m m' ∧
        ((hardware (m.begun + (config.attempts.toNat - 1))).early 2 = none → status.TellsFlag) ∧
        ∀ call : Call, ∃ operation, table call.slot = some operation ∧
          (call.invoke config operation).run hardware m =
            (.returned (call.noAnswer, ⟨status, config.attempts⟩), m')) ∧
    (m.store.isSet config.flag = false →
      (hardware.During m.begun config.attempts.toNat fun fate =>
        config.flag.isSome → fate.raised ≠ config.flag) →
      ∀ call : Call, ∃ operation, table call.slot = some operation ∧
        ∀ answer outcome m', (call.invoke config operation).run hardware m =
          (.returned (answer, outcome), m') → ¬ outcome.status.info.contains ExitInfo.flagSet) := by
  constructor
  · intro set tries tacit kept
    cases named : config.flag with
    | none =>
        rw [named] at set
        cases set
    | some flag =>
        rw [named] at set kept
        obtain ⟨left, count⟩ := Nat.exists_eq_succ_of_ne_zero fun none => tries (UInt64.toNat_inj.1 none)
        refine ⟨(hardware (m.begun + left)).blockedStatus,
          ⟨hardware.interfered m.begun config.attempts.toNat m.store, none, m.begun + config.attempts.toNat,
            m.log⟩, by simp [Fate.isSuccess_blockedStatus],
          ⟨rfl, rfl, rfl, hardware.memory_interfered .., hardware.get_interfered⟩, ?_, fun call => ?_⟩
        · rw [count]
          exact Fate.blockedStatus_tellsFlag
        · obtain ⟨operation, filled, same⟩ := call.invoke_table config
          refine ⟨operation, filled, ?_⟩
          rw [same, run_bind_pure, transact_blocked hardware named tries _ closed set tacit kept, count]
          rfl
  · intro clear quiet call
    obtain ⟨operation, filled, same⟩ := call.invoke_table config
    refine ⟨operation, filled, fun answer outcome m' ran => ?_⟩
    rw [same, run_bind_pure] at ran
    generalize tried : (transact config (call.body config.width)).run hardware m = result at ran
    obtain ⟨ending, m''⟩ := result
    cases ending with
    | returned taken =>
        cases ran
        exact transact_unblocked hardware closed clear quiet tried
    | failed | aborted | faulted | spinning => cases ran

end Speculative.Call

end

namespace Speculative.Call
open Program

theorem subscribes_mimicked :
    let hardware := Schedule.ofList [⟨none, some (0, 8), none, none, none⟩]
    let m := (Machine.initial ⟨#[0]⟩).setFlag 0 true
    let call := generic do
      let _ ← testSetFlag 1
      abort flagReason
    (m.transaction = none ∧ m.store.isSet (some 0) ∧ m.store.isSet (some 1) = false ∧
      hardware.NeverExplicit) ∧
    (∃ status m', status.TellsFlag ∧ Untouched hardware 2 m m' ∧
      ∃ operation, table call.slot = some operation ∧
        (call.invoke ⟨1, 2, some 0⟩ operation).run hardware m = (.returned ((), ⟨status, 2⟩), m')) ∧
    ∃ operation, table call.slot = some operation ∧
      ∃ outcome m', (call.invoke ⟨1, 2, some 1⟩ operation).run hardware m = (.returned ((), outcome), m') ∧
        outcome.status.reason = flagReason ∧ ¬ outcome.status.info.contains ExitInfo.flagSet := by
  intro hardware m call
  have tacit : hardware.NeverExplicit := Schedule.neverExplicit_ofList (by simp [Fate.words])
  have undisturbed : hardware.Undisturbed := Schedule.undisturbed_ofList (by simp)
  have kept : hardware.During 0 2 fun fate => fate.lowered ≠ some 0 := by
    intro i _
    rw [(undisturbed _).2]
    exact (Option.some_ne_none 0).symm
  have quiet : hardware.During 0 2 fun fate => (some (1 : FlagId)).isSome → fate.raised ≠ some 1 := by
    intro i _ _
    rw [(undisturbed _).1]
    exact (Option.some_ne_none 1).symm
  have closed : m.transaction = none := rfl
  refine ⟨⟨closed, by decide, by decide, tacit⟩, ?_, ?_⟩
  · obtain ⟨status, m', -, untouched, tells, blocked⟩ :=
      (subscribes ⟨1, 2, some 0⟩ closed).1 (by decide) (by decide) tacit kept
    exact ⟨status, m', tells rfl, untouched, blocked call⟩
  · obtain ⟨operation, filled, untold⟩ :=
      (subscribes ⟨1, 2, some 1⟩ closed).2 (by decide) quiet call
    cases filled
    let action : Program Unit := do
      let _ ← testSetFlag 1
      abort flagReason
    let result := (transactUnit ⟨1, 2, some 1⟩ action).run hardware m
    let outcome : Outcome := ⟨.pack .abortExplicit flagReason ∅, 2⟩
    have ends : result.1 = .returned outcome := by decide +kernel
    have ran : (call.invoke ⟨1, 2, some 1⟩ fun action config => transactUnit config action).run hardware m =
        (.returned ((), outcome), result.2) := by
      refine (run_bind_pure hardware (transactUnit _ action) (fun outcome => ((), outcome)) m).trans ?_
      exact congrArg (fun ending => (Ending.map _ ending, result.2)) ends
    exact ⟨_, rfl, outcome, result.2, ran, by decide, untold () outcome result.2 ran⟩

end Speculative.Call

end AtomicTables
