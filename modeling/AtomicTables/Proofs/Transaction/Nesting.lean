import AtomicTables.Proofs.Backend.Atomicity
import AtomicTables.Proofs.Program.Path
import AtomicTables.Proofs.Transaction.Fallback
import AtomicTables.Script

/-!
# Nested calls

A call in an open transaction is a part of it: the call commits at its first attempt and hands on at the depth
at which it was called, or the whole transaction is undone (`joins`). That the depth is kept needs balanced
bodies, which is a matter of their form (`Nests`).
-/

namespace AtomicTables

section

variable [FlagSpace]

namespace Isolated

variable {α β : Type}

def AtDepth (nested : Nat) : Isolated α → Prop
  | finished _ n _ => n = nested
  | failed .. | spinning | aborted .. => True
  | escaped => False

theorem AtDepth.bind {x : Isolated α} {f : α → Nat → Store → Isolated β} {n l : Nat} (first : x.AtDepth n)
    (rest : ∀ a s, (f a n s).AtDepth l) : (x.bind f).AtDepth l := by
  cases x with
  | finished a n' s =>
      obtain rfl : n' = n := first
      exact rest a s
  | failed | spinning | aborted => trivial
  | escaped => exact first.elim

def Sound : Isolated α → Prop
  | failed .. | spinning => False
  | _ => True

end Isolated

namespace Program

variable {α β : Type} {k l r : Nat}

/-- A program that finds `before` begins of its own open in a transaction, and leaves `after` open. -/
def Balances (before after : Nat) (p : Program α) : Prop :=
  ∀ n s, (p.isolated (n + before) s).AtDepth (n + after)

theorem balances_pure (a : α) : (pure a : Program α).Balances k k := fun _ _ => rfl

theorem balances_fail (v : Violation) : (fail v : Program α).Balances k l := fun _ _ => trivial

theorem balances_act {i : Instruction} (stays : i ≠ .commit ∧ i ≠ .discard) : (act i done).Balances k k := by
  intro n s
  cases i with
  | read | write | testFlag | testSetFlag | clearFlag | isOpen | note => rfl
  | abort => trivial
  | commit => exact (stays.1 rfl).elim
  | discard => exact (stays.2 rfl).elim

theorem Balances.bind {p : Program α} {f : α → Program β} (first : p.Balances k l)
    (rest : ∀ a, (f a).Balances l r) : (p >>= f).Balances k r := by
  intro n s
  rw [isolated_bind]
  exact (first n s).bind fun a s => rest a n s

theorem Balances.begin {next : BitVec 32 → Program α} (inside : (next Status.started).Balances (k + 1) l) :
    (begin next).Balances k l :=
  fun n s => inside n s

theorem balances_commit : commit.Balances (k + 1) k := fun _ _ => rfl

theorem Balances.deeper {p : Program α} (balances : p.Balances 0 0) (k : Nat) : p.Balances k k :=
  fun n s => balances (n + k) s

theorem Plain.balances {p : Program α} (plain : p.Plain) : p.Balances k k := by
  intro n s
  obtain ⟨s', result, same⟩ := plain.isolated (n + k) s
  rw [same]
  cases result with
  | ok => rfl
  | error => trivial

theorem balances_guarded (flag : Option FlagId) {body : Program α} (balances : body.Balances 0 0) :
    (guarded flag body).Balances (k + 1) k := by
  have inside : (subscribed flag body).Balances (k + 1) (k + 1) := by
    intro n s
    rw [isolated_subscribed]
    split
    · trivial
    · exact balances.deeper (k + 1) n s
  rw [guarded_eq]
  exact inside.bind fun a => balances_commit.bind fun _ => balances_pure a

theorem isolated_guarded (flag : Option FlagId) {body : Program α} (balances : body.Balances 0 0) {n : Nat}
    {s : Store} (sound : (body.isolated (n + 1) s).Sound) :
    (∃ reason nested, (guarded flag body).isolated (n + 1) s = .aborted reason nested) ∨
      ∃ a s', body.isolated (n + 1) s = .finished a (n + 1) s' ∧
        (guarded flag body).isolated (n + 1) s = .finished a n s' := by
  rw [guarded_eq, isolated_bind, isolated_subscribed]
  split
  · exact .inl ⟨flagReason, n + 1, rfl⟩
  · have depth := balances (n + 1) s
    rw [Nat.add_zero] at depth
    generalize body.isolated (n + 1) s = x at depth sound ⊢
    cases x with
    | finished a n' s' =>
        obtain rfl : n' = n + 1 := depth
        exact .inr ⟨a, s', rfl, rfl⟩
    | failed | spinning => exact sound.elim
    | aborted reason nested => exact .inl ⟨reason, nested, rfl⟩
    | escaped => exact depth.elim

theorem balances_transact (config : Config) {body : Program α} (balances : body.Balances 0 0) :
    (transact config body).Balances k k := by
  rw [transact]
  split
  · exact balances_pure _
  · cases config.attempts.toNat with
    | zero => exact balances_pure _
    | succ left =>
        -- In an open transaction a begin starts, so the attempts that are left do not matter.
        rw [attempts_succ]
        refine Balances.begin ?_
        rw [if_pos rfl]
        exact (balances_guarded config.flag balances).bind fun a => balances_pure _

theorem balances_holding (flag : Option FlagId) {fallback : Program Unit} (balances : fallback.Balances 0 0) :
    (holding flag fallback).Balances k k := by
  cases flag with
  | none => exact balances.deeper k
  | some flag =>
      have tests : (testSetFlag flag).Balances k k := balances_act ⟨nofun, nofun⟩
      have acquires : (acquire flag).Balances k k := tests.bind fun isSet => by
        cases isSet with
        | true => exact fun _ _ => trivial
        | false => exact balances_pure ()
      have clears : (clearFlag flag).Balances k k := balances_act ⟨nofun, nofun⟩
      exact acquires.bind fun _ => (balances.deeper k).bind fun _ => clears

theorem balances_transactElse (config : Config) {body fallback : Program Unit}
    (balances : body.Balances 0 0) (balances' : fallback.Balances 0 0) :
    (transactElse config body fallback).Balances k k := by
  rw [transactElse_eq]
  refine (balances_transact config balances).bind fun (value, outcome) => ?_
  cases value with
  | some => exact balances_pure _
  | none => exact (balances_holding config.flag balances').bind fun _ => balances_pure _

end Program

namespace Program

variable {α β : Type} {hardware : Schedule} {m : Machine} {t : OpenTransaction}

theorem guarded_map (flag : Option FlagId) (body : Program α) (f : α → β) :
    guarded flag (body >>= fun a => pure (f a)) = guarded flag body >>= fun a => pure (f a) := by
  simp only [guarded, seq_assoc]
  congr 1
  funext isSet
  cases isSet <;> simp only [if_true, if_false, Bool.false_eq_true, seq_assoc, pure_bind]

theorem leads_transact {config : Config} (tries : config.attempts ≠ 0) (body : Program α)
    (rest : Option α × Outcome → Program β) (opened : m.transaction = some t) :
    Leads hardware (transact config body >>= rest) m
      (guarded config.flag body >>= fun a => rest (some a, ⟨.success, 1⟩)) (m.nest t) := by
  obtain ⟨left, count⟩ := Nat.exists_eq_succ_of_ne_zero fun none => tries (UInt64.toNat_inj.1 none)
  have entered : guarded config.flag body >>= (fun a => pure (some a, (⟨.success, 0 + 1⟩ : Outcome))) >>= rest =
      guarded config.flag body >>= fun a => rest (some a, ⟨.success, 1⟩) := seq_assoc ..
  rw [transact, if_neg tries, count, Nat.succ_eq_add_one, attempts_succ]
  refine .begin opened ?_
  dsimp only
  rw [if_pos rfl, ← bind_eq, entered]
  exact .here ..

theorem leads_transactElse {config : Config} (tries : config.attempts ≠ 0) (body fallback : Program Unit)
    (rest : Bool × Outcome → Program β) (opened : m.transaction = some t) :
    Leads hardware (transactElse config body fallback >>= rest) m
      (guarded config.flag (body >>= fun _ => pure true) >>= fun value => rest (value, ⟨.success, 1⟩))
      (m.nest t) := by
  rw [guarded_map, seq_assoc, transactElse_eq, seq_assoc]
  exact leads_transact tries body _ opened

end Program

namespace Speculative
open Program

theorem Call.leads_guarded (call : Call) {config : Config} (tries : config.attempts ≠ 0)
    {operation : TransactionOperation call.slot} (filled : table call.slot = some operation) {β : Type}
    (rest : call.Answer × Outcome → Program β) {hardware : Schedule} {m : Machine} {t : OpenTransaction}
    (opened : m.transaction = some t) :
    Leads hardware (call.invoke config operation >>= rest) m
      (guarded config.flag (call.body config.width) >>= fun answer => rest (answer, ⟨.success, 1⟩))
      (m.nest t) := by
  obtain ⟨operation', filled', same⟩ := call.invoke_table config
  cases filled'.symm.trans filled
  rw [same, seq_assoc]
  exact leads_transact tries (call.body config.width) _ opened

inductive Trial where
  | plain (call : Call)
  | withFallback (action fallback : Program Unit)

namespace Trial

def slot : Trial → TransactionSlot
  | plain call => call.slot
  | withFallback .. => .genericWithFallback

def Answer : Trial → Type
  | plain call => call.Answer
  | withFallback .. => Bool

def body (width : UInt64) : (trial : Trial) → Program trial.Answer
  | plain call => call.body width
  | withFallback action _ => do
    action
    return true

def invoke (config : Config) :
    (trial : Trial) → TransactionOperation trial.slot → Program (trial.Answer × Outcome)
  | plain call, operation => call.invoke config operation
  | withFallback action fallback, operation => operation action fallback config

def actions : Trial → List (Program Unit)
  | plain (.generic action) => [action]
  | plain _ => []
  | withFallback action fallback => [action, fallback]

theorem balances_body (trial : Trial) (balances : ∀ action ∈ trial.actions, action.Balances 0 0)
    (width : UInt64) : (trial.body width).Balances 0 0 := by
  cases trial with
  | plain call =>
      cases call with
      | object slot o => exact (plain_body o width slot).balances
      | doubleCompareExchange a b => exact (Span.plain_compareExchangeAll [a, b] _).balances
      | multiCompareExchange legs => exact (Span.plain_compareExchangeAll legs _).balances
      | generic action => exact balances action (List.mem_singleton_self action)
  | withFallback action fallback =>
      exact (balances action List.mem_cons_self).bind fun _ => balances_pure true

theorem balances_invoke {trial : Trial} (balances : ∀ action ∈ trial.actions, action.Balances 0 0)
    (config : Config) {operation : TransactionOperation trial.slot} (filled : table trial.slot = some operation)
    {k : Nat} : (trial.invoke config operation).Balances k k := by
  cases trial with
  | plain call =>
      obtain ⟨operation', filled', same⟩ := call.invoke_table config
      cases filled'.symm.trans filled
      have body : (call.body config.width).Balances 0 0 := balances_body (plain call) balances _
      have keeps : (call.invoke config operation).Balances k k := by
        rw [same]
        exact (balances_transact config body).bind fun _ => balances_pure _
      exact keeps
  | withFallback action fallback =>
      cases filled
      exact balances_transactElse config (balances action List.mem_cons_self)
        (balances fallback (List.mem_cons_of_mem _ (List.mem_singleton_self fallback)))

theorem leads_guarded (trial : Trial) {config : Config} (tries : config.attempts ≠ 0)
    {operation : TransactionOperation trial.slot} (filled : table trial.slot = some operation) {β : Type}
    (rest : trial.Answer × Outcome → Program β) {hardware : Schedule} {m : Machine} {t : OpenTransaction}
    (opened : m.transaction = some t) :
    Leads hardware (trial.invoke config operation >>= rest) m
      (guarded config.flag (trial.body config.width) >>= fun answer => rest (answer, ⟨.success, 1⟩))
      (m.nest t) := by
  cases trial with
  | plain call => exact call.leads_guarded tries filled rest opened
  | withFallback action fallback =>
      cases filled
      exact leads_transactElse tries action fallback rest opened

end Trial

/-- Programs of transactional operations that end the transactions which they begin, and no other: with `before`
begins of their own open at the start, and `after` at the end. What follows a begin has to do so only if the
transaction has started. -/
inductive Nests : (before after : Nat) → {α : Type} → Program α → Prop where
  | pure {k : Nat} {α : Type} (a : α) : Nests k k (pure a : Program α)
  | fail {k l : Nat} {α : Type} (v : Violation) : Nests k l (fail v : Program α)
  | instruction {k : Nat} {i : Instruction} (stays : i ≠ .commit ∧ i ≠ .discard) : Nests k k (act i done)
  | bind {k l r : Nat} {α β : Type} {p : Program α} {f : α → Program β} (first : Nests k l p)
      (rest : ∀ a, Nests l r (f a)) : Nests k r (p >>= f)
  | begin {k l : Nat} {α : Type} {operation : TransactionOperation .begin} {next : Status → Program α}
      (filled : table .begin = some operation) (inside : Nests (k + 1) l (next .success)) :
      Nests k l (operation >>= next)
  | commit {k : Nat} {operation : TransactionOperation .commit} (filled : table .commit = some operation) :
      Nests (k + 1) k operation
  | trial {k : Nat} {trial : Trial} {config : Config} {operation : TransactionOperation trial.slot}
      (filled : table trial.slot = some operation) (actions : ∀ action ∈ trial.actions, Nests 0 0 action) :
      Nests k k (trial.invoke config operation)

theorem Nests.balances {k l : Nat} {α : Type} {p : Program α} (nests : Nests k l p) : p.Balances k l := by
  induction nests with
  | pure a => exact balances_pure a
  | fail v => exact balances_fail v
  | instruction stays => exact balances_act stays
  | bind _ _ first rest => exact first.bind rest
  | begin filled _ inside =>
      cases filled
      exact .begin inside
  | commit filled =>
      cases filled
      exact fun _ _ => rfl
  | trial filled _ actions => exact Trial.balances_invoke actions _ filled

namespace Trial

variable {α : Type}

inductive Ends (trial : Trial) (width : UInt64) (rest : trial.Answer × Outcome → Program α)
    (hardware : Schedule) (t : OpenTransaction) (m : Machine) : Ending α × Machine → Prop where
  | returned {answer : trial.Answer} {s : Store} {t' : OpenTransaction} (log : List Entry)
      (isolated : (trial.body width).isolated (t.nested + 1) m.store = .finished answer (t.nested + 1) s)
      (same : t.Reaches t' t.nested) :
      Ends trial width rest hardware t m
        ((rest (answer, ⟨.success, 1⟩)).run hardware ⟨s, some t', m.begun, log⟩)
  | aborted (word : BitVec 32) (m' : Machine) : Ends trial width rest hardware t m (.aborted word, m')

theorem run_guarded_ends (trial : Trial) (flag : Option FlagId) {width : UInt64}
    (balances : (trial.body width).Balances 0 0) (rest : trial.Answer × Outcome → Program α)
    {hardware : Schedule} {t : OpenTransaction} {m : Machine}
    (sound : ((trial.body width).isolated (t.nested + 1) m.store).Sound) :
    trial.Ends width rest hardware t m
      ((guarded flag (trial.body width) >>= fun answer => rest (answer, ⟨.success, 1⟩)).run hardware
        (m.nest t)) := by
  have runs := run_bind_open hardware (guarded flag (trial.body width))
    (fun answer => rest (answer, ⟨.success, 1⟩)) (m := m.nest t) rfl
  have inside := isolated_guarded flag balances sound
  generalize run hardware (_ >>= _) (m.nest t) = result at runs ⊢
  cases runs with
  | next log isolated reaches =>
      rcases inside with ⟨reason, nested, aborts⟩ | ⟨a, s', ran, commits⟩
      · cases isolated.symm.trans aborts
      · cases isolated.symm.trans commits
        obtain ⟨executed, rfl⟩ := reaches
        exact .returned log ran ⟨executed, rfl⟩
  | @abort word m' => exact .aborted word m'
  | fail _ isolated | spin isolated | escape isolated =>
      rcases inside with ⟨reason, nested, aborts⟩ | ⟨a, s', ran, commits⟩
      · cases isolated.symm.trans aborts
      · cases isolated.symm.trans commits

/-- What a call is to the transaction that has been begun on `m` and is open as `t` when the call is made on
`m₁`. -/
structure Joins (trial : Trial) (config : Config) (call : Program (trial.Answer × Outcome))
    (rest : trial.Answer × Outcome → Program α) (hardware : Schedule) (next : BitVec 32 → Program α)
    (m m₁ : Machine) (t : OpenTransaction) : Prop where
  origin : t.origin = m.store
  once : Leads hardware (call >>= rest) m₁
    (guarded config.flag (trial.body config.width) >>= fun answer => rest (answer, ⟨.success, 1⟩)) (m₁.nest t)
  ends : trial.Ends config.width rest hardware t m₁ ((call >>= rest).run hardware m₁)
  resumes {word : BitVec 32} {m' : Machine} (aborted : (call >>= rest).run hardware m₁ = (.aborted word, m')) :
    Resumes hardware next m
  closes {q : Program α} {m' : Machine} (leads : Leads hardware (call >>= rest) m₁ q m')
    (closed : m'.transaction = none) : Leads.Closes hardware (call >>= rest) m₁ q m'

theorem joins (trial : Trial) (config : Config) (tries : config.attempts ≠ 0)
    (nests : ∀ action ∈ trial.actions, Nests 0 0 action) {hardware : Schedule} {next : BitVec 32 → Program α}
    {m : Machine} (closed : m.transaction = none) :
    ∃ operation, table trial.slot = some operation ∧
      ∀ rest m₁ t, Leads hardware (next Status.started) (m.opened hardware)
          (trial.invoke config operation >>= rest) m₁ → m₁.transaction = some t →
        ((trial.body config.width).isolated (t.nested + 1) m₁.store).Sound →
        trial.Joins config (trial.invoke config operation) rest hardware next m m₁ t := by
  have balances := balances_body trial (fun action given => (nests action given).balances) config.width
  have filled : ∃ operation, table trial.slot = some operation := by
    cases trial with
    | plain call => exact (call.invoke_table config).imp fun _ => And.left
    | withFallback => exact ⟨_, rfl⟩
  obtain ⟨operation, filled⟩ := filled
  refine ⟨operation, filled, fun rest m₁ t leads opened sound => ?_⟩
  have once : Leads hardware _ m₁ _ (m₁.nest t) := trial.leads_guarded tries filled rest opened
  obtain ⟨_, begun, reaches⟩ := leads.reaches opened
  cases begun
  refine ⟨reaches.origin, once, ?_, fun aborted => resumes_of_aborted closed leads aborted,
    fun further ended => further.closes opened ended⟩
  rw [once.run_eq]
  exact trial.run_guarded_ends config.flag balances rest sound

end Trial

end Speculative

end

namespace Speculative.Trial
open Program

theorem joins_refused :
    let hardware := Schedule.ofList [⟨none, none, some 8, none, none⟩]
    let m := Machine.initial ⟨#[1]⟩
    let action : Program Unit := do
      let _ ← Program.begin fun word => pure (beginStatus word)
      write 0 3
      if ← isOpen then Program.commit
    let trial := withFallback action (write 0 4)
    let config : Config := ⟨1, 1, some 0⟩
    let rest : Bool × Outcome → Program Bool := fun (answer, _) => do
      Program.commit
      return answer
    let next : BitVec 32 → Program Bool := fun word => do
      if word = Status.started then
        write 0 2
        rest (← transactElse config action (write 0 4))
      else return false
    let m₁ := (m.opened hardware).write 0 2
    let t : OpenTransaction := ⟨0, m.store, hardware 0, 0⟩
    (config.attempts ≠ 0 ∧ (∀ action ∈ trial.actions, Nests 0 0 action) ∧ m.transaction = none ∧
      Leads hardware (next Status.started) (m.opened hardware)
        (transactElse config action (write 0 4) >>= rest) m₁ ∧
      m₁.transaction = some t ∧ ((trial.body 1).isolated 1 m₁.store).Sound) ∧
    ∃ operation, table trial.slot = some operation ∧
      trial.Joins config (trial.invoke config operation) rest hardware next m m₁ t := by
  intro hardware m action trial config rest next m₁ t
  have writes (a : Nat) (v : UInt8) : Nests 0 0 (write a v) := .instruction ⟨nofun, nofun⟩
  have nested : Nests 0 0 action := .begin rfl (.bind (.instruction ⟨nofun, nofun⟩) fun _ => .commit rfl)
  have nests : ∀ action ∈ trial.actions, Nests 0 0 action :=
    List.forall_mem_cons.2 ⟨nested, List.forall_mem_singleton.2 (writes 0 4)⟩
  have leads : Leads hardware (next Status.started) (m.opened hardware)
      (transactElse config action (write 0 4) >>= rest) m₁ := .act rfl (.here ..)
  refine ⟨⟨nofun, nests, rfl, leads, rfl, trivial⟩, ?_⟩
  obtain ⟨operation, filled, joined⟩ := trial.joins config nofun nests (m := m) rfl
  cases filled
  exact ⟨_, rfl, joined rest m₁ t leads rfl trivial⟩

end Speculative.Trial

end AtomicTables
