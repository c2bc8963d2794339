import AtomicTables.Proofs.Program.Isolation
import AtomicTables.Proofs.Transaction.Status
import AtomicTables.Transaction.Attempts

/-!
# Attempts at a transaction

One attempt commits what its body does in isolation, or is undone (`run_attempt`). Hence a call with any
number of attempts takes the whole effect of its body or none (`transact_allOrNothing`).
-/

namespace AtomicTables

variable [FlagSpace]

/-- No abort is reported as a start. -/
def Schedule.Honest (hardware : Schedule) : Prop :=
  ∀ n, ∀ word ∈ (hardware n).words, word ≠ Status.started

/-- Nobody else touches the flags after an abort. -/
def Schedule.Undisturbed (hardware : Schedule) : Prop :=
  ∀ n, (hardware n).raised = none ∧ (hardware n).lowered = none

/-- Of so many attempts from a first one on, one is not interfered with, and what undoes those before it does not look
like the program. -/
def Schedule.LetsThrough (hardware : Schedule) (first budget : Nat) : Prop :=
  ∃ k < budget, (hardware (first + k)).words = [] ∧
    ∀ i < k, ∀ word ∈ (hardware (first + i)).words, word.getLsbD 0 = false

theorem Schedule.LetsThrough.later {hardware : Schedule} {first budget : Nat} {word : BitVec 32}
    (through : hardware.LetsThrough first (budget + 1)) (undone : word ∈ (hardware first).words) :
    word.getLsbD 0 = false ∧ hardware.LetsThrough (first + 1) budget := by
  obtain ⟨k, within, calm, tacit⟩ := through
  cases k with
  | zero =>
      rw [Nat.add_zero] at calm
      rw [calm] at undone
      cases undone
  | succ k =>
      refine ⟨tacit 0 k.succ_pos word undone, k, Nat.lt_of_succ_lt_succ within, ?_, fun i before => ?_⟩
      · rw [Nat.add_assoc, Nat.add_comm 1]
        exact calm
      · rw [Nat.add_assoc, Nat.add_comm 1]
        exact tacit (i + 1) (Nat.succ_lt_succ before)

theorem Schedule.ofList_mem (fates : List Fate) (n : Nat) : ofList fates n ∈ Fate.calm :: fates := by
  rw [ofList, List.getD_eq_getElem?_getD]
  cases listed : fates[n]? with
  | none => exact List.mem_cons_self
  | some fate => exact List.mem_cons_of_mem _ (List.mem_of_getElem? listed)

theorem Schedule.honest_ofList {fates : List Fate}
    (honest : ∀ fate ∈ fates, ∀ word ∈ fate.words, word ≠ Status.started) : (ofList fates).Honest :=
  fun n => List.forall_mem_cons.2 ⟨nofun, honest⟩ _ (ofList_mem fates n)

theorem Schedule.undisturbed_ofList {fates : List Fate}
    (undisturbed : ∀ fate ∈ fates, fate.raised = none ∧ fate.lowered = none) : (ofList fates).Undisturbed :=
  fun n => List.forall_mem_cons.2 ⟨⟨rfl, rfl⟩, undisturbed⟩ _ (ofList_mem fates n)

theorem Schedule.letsThrough_ofList {fates : List Fate} {budget : Nat} (within : fates.length < budget)
    (tacit : ∀ fate ∈ fates, ∀ word ∈ fate.words, word.getLsbD 0 = false) : (ofList fates).LetsThrough 0 budget := by
  refine ⟨fates.length, within, ?_, fun i _ => List.forall_mem_cons.2 ⟨nofun, tacit⟩ _ (ofList_mem fates _)⟩
  rw [Nat.zero_add, ofList, List.getD_eq_getElem?_getD, List.getElem?_eq_none (Nat.le_refl _)]
  rfl

theorem Schedule.Undisturbed.interfere {hardware : Schedule} (h : hardware.Undisturbed) (n : Nat)
    (s : Store) : (hardware n).interfere s = s := by
  obtain ⟨raised, lowered⟩ := h n
  simp [Fate.interfere, raised, lowered]

theorem Schedule.Honest.ne_started {hardware : Schedule} (h : hardware.Honest) {n : Nat} {word : BitVec 32}
    (given : (hardware n).Gives word) : word ≠ Status.started := by
  rcases given with mem | ⟨reason, nested, rfl⟩
  · exact h n word mem
  · exact Status.explicitWord_ne_started _ _

def Store.isSet (s : Store) : Option FlagId → Bool
  | some flag => s.flags.get flag
  | none => false

def Status.classified (status : Status) (isSet : Bool) : Status × Bool :=
  if status.code ≠ .abortExplicit then (status, true)
  else if status.reason ≠ flagReason then (status, false)
  else if isSet then (status.withInfo .flagSet, true)
  else (status, false)

omit [FlagSpace] in
theorem Status.isSuccess_classified (word : BitVec 32) (isSet : Bool) :
    ((Status.ofHardware word).classified isSet).1.isSuccess = false := by
  have failure := isSuccess_ofHardware word
  unfold classified
  split
  · exact failure
  · split
    · exact failure
    · split
      · rw [isSuccess, codeByte_withInfo]
        exact failure
      · exact failure

namespace Program

variable {α β γ : Type} (hardware : Schedule)

theorem seq_assoc (p : Program α) (f : α → Program β) (g : β → Program γ) :
    p >>= f >>= g = p >>= fun a => f a >>= g :=
  bind_assoc p f g

theorem run_flagIsSet_bind (flag : Option FlagId) (rest : Bool → Program β) {m : Machine}
    (closed : m.transaction = none) :
    (flagIsSet flag >>= rest).run hardware m = (rest (m.store.isSet flag)).run hardware m := by
  cases flag with
  | none => rfl
  | some flag => exact run_act hardware (.testFlag flag) rest (Instruction.step_closed _ closed)

theorem run_classify_bind (status : Status) (flag : Option FlagId) (rest : Status × Bool → Program β)
    {m : Machine} (closed : m.transaction = none) :
    (classify status flag >>= rest).run hardware m =
      (rest (status.classified (m.store.isSet flag))).run hardware m := by
  unfold classify Status.classified
  split
  · rfl
  · split
    · rfl
    · rw [seq_assoc, run_flagIsSet_bind hardware flag _ closed]
      split <;> rfl

def subscribed (flag : Option FlagId) (body : Program α) : Program α := do
  if ← flagIsSet flag then abort flagReason
  body

theorem guarded_eq (flag : Option FlagId) (body : Program α) :
    guarded flag body = subscribed flag body >>= fun value => commit >>= fun _ => pure value := by
  rw [guarded, subscribed, seq_assoc]
  congr 1
  funext isSet
  cases isSet
  · rfl
  · exact (seq_assoc _ _ _).symm

theorem isolated_subscribed (flag : Option FlagId) (body : Program α) (n : Nat) (s : Store) :
    (subscribed flag body).isolated n s =
      if s.isSet flag then .aborted flagReason n else body.isolated n s := by
  cases flag with
  | none => rfl
  | some flag =>
      rw [subscribed, isolated_bind]
      change (if s.flags.get flag then abort flagReason >>= fun _ => body else body).isolated n s = _
      cases set : s.flags.get flag
      · rw [if_neg Bool.false_ne_true, Store.isSet, set, if_neg Bool.false_ne_true]
      · rw [if_pos rfl, Store.isSet, set, if_pos rfl]
        rfl

theorem isolated_of_subscribed {flag : Option FlagId} {body : Program α} {n : Nat} {s : Store}
    {x : Isolated α} (isolated : (subscribed flag body).isolated n s = x)
    (ran : ∀ reason nested, x ≠ .aborted reason nested) : body.isolated n s = x := by
  rw [isolated_subscribed] at isolated
  split at isolated
  · exact absurd isolated.symm (ran _ _)
  · exact isolated

theorem balanced_subscribed {flag : Option FlagId} {body : Program α} {s : Store}
    (balanced : (body.isolated 0 s).Balanced) : ((subscribed flag body).isolated 0 s).Balanced := by
  rw [isolated_subscribed]
  split
  · trivial
  · exact balanced

inductive Ends (x : Isolated α) (onCommit : α → β) (fate : Fate) (begun : Nat) :
    Ending β × Machine → Prop where
  | commit {a : α} {s : Store} (log : List Entry) (isolated : x = .finished a 0 s) :
      Ends x onCommit fate begun (.returned (onCommit a), ⟨s, none, begun, log⟩)
  | abort {word : BitVec 32} {m' : Machine} (same : m'.begun = begun) (aborts : x.AbortsWith fate word) :
      Ends x onCommit fate begun (.aborted word, m')
  | fail {v : Violation} {s : Store} {m' : Machine} (isolated : x = .failed v s) :
      Ends x onCommit fate begun (.failed v, m')

theorem run_guarded (flag : Option FlagId) (body : Program α) (onCommit : α → β) {m : Machine}
    {t : OpenTransaction} (opened : m.transaction = some t) (outermost : t.nested = 0)
    (balanced : (body.isolated 0 m.store).Balanced) :
    Ends ((subscribed flag body).isolated 0 m.store) onCommit t.fate m.begun
      ((guarded flag body >>= fun a => pure (onCommit a)).run hardware m) := by
  have inside : ((subscribed flag body).isolated 0 m.store).Balanced := balanced_subscribed balanced
  have rest : guarded flag body >>= (fun a => pure (onCommit a)) =
      subscribed flag body >>= fun a => commit >>= fun _ => pure (onCommit a) := by
    rw [guarded_eq, seq_assoc]
    rfl
  rw [rest]
  have runs := run_bind_open hardware (subscribed flag body)
    (fun a => commit >>= fun _ => pure (onCommit a)) opened
  rw [← outermost] at inside ⊢
  generalize run hardware (subscribed flag body >>= _) m = result at runs ⊢
  cases runs with
  | @next a n s t' log isolated reaches =>
      rw [isolated] at inside ⊢
      obtain rfl : n = 0 := inside
      have fate : t'.fate = t.fate := by obtain ⟨_, rfl⟩ := reaches; rfl
      have nested : t'.nested = 0 := by obtain ⟨_, rfl⟩ := reaches; rfl
      rcases run_commit_bind hardware (pure (onCommit a)) (m := ⟨s, some t', m.begun, log⟩) rfl nested with
        ⟨word, m', refused, begun, mem⟩ | committed
      · exact refused ▸ .abort begun (.inl (fate ▸ mem))
      · exact committed ▸ .commit log rfl
  | abort begun aborts => exact .abort begun aborts
  | fail log isolated reaches => exact .fail isolated
  | spin isolated => rw [isolated] at inside; exact inside.elim
  | escape escaped => rw [escaped] at inside; exact inside.elim

/-- What can become of an attempt that does `x` in isolation, when `onAbort` goes on after an abort. -/
inductive Tries (x : Isolated α) (onCommit : α → β) (onAbort : BitVec 32 → Program β) (m : Machine) :
    Ending β × Machine → Prop where
  | commit {a : α} {s : Store} (log : List Entry) (isolated : x = .finished a 0 s) :
      Tries x onCommit onAbort m (.returned (onCommit a), ⟨s, none, m.begun + 1, log⟩)
  | abort {word : BitVec 32} (log : List Entry) (aborts : x.AbortsWith (hardware m.begun) word) :
      Tries x onCommit onAbort m ((onAbort word).run hardware
        ⟨(hardware m.begun).interfere m.store, none, m.begun + 1, log⟩)
  | fail {v : Violation} {s : Store} {m' : Machine} (isolated : x = .failed v s) :
      Tries x onCommit onAbort m (.failed v, m')

theorem run_attempt (flag : Option FlagId) (body : Program α) (onCommit : α → β)
    (onAbort : BitVec 32 → Program β) {m : Machine} (closed : m.transaction = none)
    (balanced : (body.isolated 0 m.store).Balanced) (honest : hardware.Honest) :
    Tries hardware ((subscribed flag body).isolated 0 m.store) onCommit onAbort m
      ((begin fun word => if word = Status.started then
          guarded flag body >>= fun a => pure (onCommit a)
        else onAbort word).run hardware m) := by
  obtain ⟨s, transaction, begun, log⟩ := m
  obtain rfl : transaction = none := closed
  rw [run]
  dsimp only
  split
  · rename_i word refused
    have aborts : ((subscribed flag body).isolated 0 s).AbortsWith (hardware begun) word :=
      .inl (by simp [Fate.words, refused])
    rw [if_neg (honest.ne_started aborts.gives)]
    exact .abort log aborts
  · have ends := run_guarded hardware flag body onCommit
      (m := ⟨s, some ⟨0, s, hardware begun, 0⟩, begun + 1, log⟩) rfl rfl balanced
    rw [if_pos rfl]
    generalize run hardware (guarded flag body >>= _) _ = result at ends ⊢
    cases ends with
    | commit log isolated => exact .commit log isolated
    | @abort word m' same aborts =>
        obtain ⟨s', transaction', begun', log'⟩ := m'
        obtain rfl : begun' = begun + 1 := same
        simp only [if_neg (honest.ne_started aborts.gives)]
        exact .abort log' aborts
    | fail isolated => exact .fail isolated

inductive AllOrNothing (body : Program α) (s : Store) : Ending (Option α × Outcome) × Machine → Prop where
  | all {a : α} {s' : Store} {outcome : Outcome} (begun : Nat) (log : List Entry)
      (success : outcome.isSuccess) (isolated : body.isolated 0 s = .finished a 0 s') :
      AllOrNothing body s (.returned (some a, outcome), ⟨s', none, begun, log⟩)
  | nothing {outcome : Outcome} (begun : Nat) (log : List Entry) (failure : ¬ outcome.isSuccess) :
      AllOrNothing body s (.returned (none, outcome), ⟨s, none, begun, log⟩)
  | violation {v : Violation} {s' : Store} {m' : Machine} (isolated : body.isolated 0 s = .failed v s') :
      AllOrNothing body s (.failed v, m')

def afterAbort (flag : Option FlagId) (body : Program α) (left : Nat) (made : UInt64) (word : BitVec 32) :
    Program (Option α × Outcome) := do
  let (status, again) ← classify (.ofHardware word) flag
  if again then attempts flag body left made status
  else return (none, ⟨status, made⟩)

theorem attempts_succ (flag : Option FlagId) (body : Program α) (left : Nat) (made : UInt64)
    (status : Status) :
    attempts flag body (left + 1) made status =
      begin fun word => if word = Status.started then
        guarded flag body >>= fun value => pure (some value, ⟨.success, made + 1⟩)
      else afterAbort flag body left (made + 1) word := rfl

omit [FlagSpace] in
theorem count_succ (made : UInt64) (n : Nat) : made + 1 + UInt64.ofNat n = made + UInt64.ofNat (n + 1) := by
  rw [UInt64.ofNat_add, UInt64.add_assoc, UInt64.add_comm 1]
  rfl

theorem attempts_allOrNothing (flag : Option FlagId) (body : Program α) (left : Nat) (made : UInt64)
    (status : Status) {m : Machine} (closed : m.transaction = none)
    (balanced : (body.isolated 0 m.store).Balanced) (honest : hardware.Honest)
    (undisturbed : hardware.Undisturbed) (failure : left = 0 → ¬ status.isSuccess) :
    AllOrNothing body m.store ((attempts flag body left made status).run hardware m) := by
  induction left generalizing made status m with
  | zero =>
      obtain ⟨s, transaction, begun, log⟩ := m
      obtain rfl : transaction = none := closed
      exact .nothing begun log (failure rfl)
  | succ left ih =>
      have tries := run_attempt hardware flag body
        (fun value => (some value, (⟨.success, made + 1⟩ : Outcome)))
        (afterAbort flag body left (made + 1)) closed balanced honest
      rw [attempts_succ]
      generalize run hardware (begin _) m = result at tries ⊢
      cases tries with
      | commit log isolated => exact .all _ log rfl (isolated_of_subscribed isolated nofun)
      | @abort word log aborts =>
          rw [undisturbed.interfere, afterAbort, run_classify_bind hardware _ flag _ rfl]
          have failed := Status.isSuccess_classified word (m.store.isSet flag)
          generalize (Status.ofHardware word).classified (m.store.isSet flag) = verdict at failed ⊢
          obtain ⟨status, again⟩ := verdict
          cases again
          · exact .nothing _ log (by simpa [Outcome.isSuccess] using failed)
          · exact ih (m := ⟨m.store, none, m.begun + 1, log⟩) _ status rfl balanced
              fun _ => by simpa using failed
      | fail isolated => exact .violation (isolated_of_subscribed isolated nofun)

theorem transact_allOrNothing (config : Config) (body : Program α) {m : Machine}
    (closed : m.transaction = none) (balanced : (body.isolated 0 m.store).Balanced)
    (honest : hardware.Honest) (undisturbed : hardware.Undisturbed) :
    AllOrNothing body m.store ((transact config body).run hardware m) := by
  rw [transact]
  split
  · obtain ⟨s, transaction, begun, log⟩ := m
    obtain rfl : transaction = none := closed
    exact .nothing begun log (by decide)
  · rename_i some
    refine attempts_allOrNothing hardware config.flag body _ 0 .success closed balanced honest undisturbed ?_
    exact fun none => absurd (UInt64.toNat_inj.1 none) some

theorem attempts_commits (flag : Option FlagId) (body : Program α) (left : Nat) (made : UInt64) (status : Status)
    {m : Machine} {a : α} {s : Store} (closed : m.transaction = none) (honest : hardware.Honest)
    (undisturbed : hardware.Undisturbed) (through : hardware.LetsThrough m.begun left)
    (clear : m.store.isSet flag = false) (isolated : body.isolated 0 m.store = .finished a 0 s) :
    ∃ outcome begun log, outcome.isSuccess ∧
      (attempts flag body left made status).run hardware m = (.returned (some a, outcome), ⟨s, none, begun, log⟩) := by
  have subscribes : (subscribed flag body).isolated 0 m.store = .finished a 0 s := by
    rw [isolated_subscribed, clear, if_neg Bool.false_ne_true, isolated]
  induction left generalizing made status m with
  | zero =>
      obtain ⟨k, within, -⟩ := through
      cases within
  | succ left ih =>
      have tries := run_attempt hardware flag body
        (fun value => (some value, (⟨.success, made + 1⟩ : Outcome)))
        (afterAbort flag body left (made + 1)) closed (isolated ▸ rfl) honest
      rw [attempts_succ]
      generalize run hardware (begin _) m = result at tries ⊢
      cases tries with
      | commit log committed =>
          obtain ⟨rfl, -, rfl⟩ := Isolated.finished.inj (committed.symm.trans subscribes)
          exact ⟨_, _, log, rfl, rfl⟩
      | @abort word log aborts =>
          rcases aborts with undone | ⟨_, _, aborted, -⟩
          · obtain ⟨tacit, through⟩ := through.later undone
            have code : (Status.ofHardware word).code ≠ .abortExplicit := by
              rw [ne_eq, Status.code_ofHardware_iff, tacit]
              exact Bool.false_ne_true
            rw [undisturbed.interfere, afterAbort, run_classify_bind hardware _ flag _ rfl, Status.classified,
              if_pos code]
            exact ih (m := ⟨m.store, none, m.begun + 1, log⟩) _ _ rfl through clear isolated subscribes
          · cases aborted.symm.trans subscribes
      | fail failed => cases failed.symm.trans subscribes

theorem transact_commits (config : Config) (body : Program α) {m : Machine} {a : α} {s : Store}
    (closed : m.transaction = none) (honest : hardware.Honest) (undisturbed : hardware.Undisturbed)
    (through : hardware.LetsThrough m.begun config.attempts.toNat) (clear : m.store.isSet config.flag = false)
    (isolated : body.isolated 0 m.store = .finished a 0 s) :
    ∃ outcome begun log, outcome.isSuccess ∧
      (transact config body).run hardware m = (.returned (some a, outcome), ⟨s, none, begun, log⟩) := by
  have tries : config.attempts ≠ 0 := by
    rintro none
    obtain ⟨k, within, -⟩ := through
    rw [none] at within
    cases within
  rw [transact, if_neg tries]
  exact attempts_commits hardware config.flag body _ 0 .success closed honest undisturbed through clear isolated

end Program

end AtomicTables
