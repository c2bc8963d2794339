import AtomicTables.Program.Machine

/-!
# Programs inside of a transaction

What a program does in an open transaction as long as nothing from outside aborts it, as a function of
the state alone. On the machine the program does just that, unless the transaction is aborted under it
(`run_bind_open`, `run_calm`).
-/

namespace AtomicTables

variable [FlagSpace]

inductive Isolated (α : Type) where
  | finished (value : α) (nested : Nat) (store : Store)
  | failed (violation : Violation) (store : Store)
  | spinning
  | aborted (reason : BitVec 8) (nested : Nat)
  /-- The program has ended the transaction that it did not begin. -/
  | escaped

namespace Isolated

variable {α β γ : Type}

def bind : Isolated α → (α → Nat → Store → Isolated β) → Isolated β
  | finished a n s, f => f a n s
  | failed v s, _ => failed v s
  | spinning, _ => spinning
  | aborted r n, _ => aborted r n
  | escaped, _ => escaped

theorem bind_assoc (x : Isolated α) (f : α → Nat → Store → Isolated β)
    (g : β → Nat → Store → Isolated γ) :
    (x.bind f).bind g = x.bind fun a n s => (f a n s).bind g := by
  cases x <;> rfl

/-- The program ends, and it has committed exactly the transactions that it began, unless it ends with an
abort or a violation. -/
def Balanced : Isolated α → Prop
  | finished _ n _ => n = 0
  | failed .. | aborted .. => True
  | spinning | escaped => False

end Isolated

def Instruction.isolated : (i : Instruction) → Nat → Store → Isolated i.Answer
  | read a, n, s => .finished (s.memory.read a) n s
  | write a v, n, s => .finished () n { s with memory := s.memory.write a v }
  | testFlag flag, n, s => .finished (s.flags.get flag) n s
  | testSetFlag flag, n, s => .finished (s.flags.get flag) n (s.setFlag flag true)
  | clearFlag flag, n, s => .finished () n (s.setFlag flag false)
  | commit, n + 1, s => .finished () n s
  | commit, 0, _ => .escaped
  | abort reason, n, _ => .aborted reason n
  | isOpen, n, s => .finished true n s
  | note _, n, s => .finished () n s
  | discard, _, _ => .escaped

namespace Program

variable {α β : Type}

/-- The program inside of a transaction with `nested` further begins open. -/
def isolated : Program α → (nested : Nat) → Store → Isolated α
  | done a, n, s => .finished a n s
  | fail v, _, s => .failed v s
  | spin, _, _ => .spinning
  | act i next, n, s => (i.isolated n s).bind fun answer n s => (next answer).isolated n s
  | begin next, n, s => (next Status.started).isolated (n + 1) s

theorem isolated_bind (p : Program α) (f : α → Program β) (n : Nat) (s : Store) :
    (p >>= f).isolated n s = (p.isolated n s).bind fun a n s => (f a).isolated n s := by
  change (p.bind f).isolated n s = _
  induction p generalizing n s with
  | done | fail | spin => rfl
  | act i next ih =>
      simp only [bind, isolated, Isolated.bind_assoc]
      congr 1
      funext answer n s
      exact ih answer n s
  | begin next ih => exact ih Status.started (n + 1) s

end Program

def Ending.map {α β : Type} (f : α → β) : Ending α → Ending β
  | .returned a => .returned (f a)
  | .failed v => .failed v
  | .aborted word => .aborted word
  | .faulted => .faulted
  | .spinning => .spinning

namespace Program

variable {α β : Type}

theorem run_bind_pure (hardware : Schedule) (p : Program α) (f : α → β) (m : Machine) :
    (p >>= fun a => pure (f a)).run hardware m = ((p.run hardware m).1.map f, (p.run hardware m).2) := by
  change (p.bind fun a => pure (f a)).run hardware m = _
  induction p generalizing m with
  | done | fail | spin => rfl
  | act i next ih =>
      simp only [bind, run]
      cases i.step m with
      | next answer m' => exact ih answer m'
      | abort word m' => rfl
      | fault m' => rfl
  | begin next ih =>
      simp only [bind, run]
      cases m.transaction with
      | some t => exact ih _ _
      | none =>
          dsimp only
          cases (hardware m.begun).refusal with
          | some word => exact ih word _
          | none =>
              simp only [ih]
              rcases (next Status.started).run hardware _ with ⟨ending, m'⟩
              cases ending <;> rfl

end Program

def Fate.words (fate : Fate) : List (BitVec 32) :=
  fate.refusal.toList ++ (fate.interruption.map Prod.snd).toList ++ fate.commitRefusal.toList

def Fate.Gives (fate : Fate) (word : BitVec 32) : Prop :=
  word ∈ fate.words ∨ ∃ reason nested, word = Status.explicitWord reason nested

def Isolated.AbortsWith {α : Type} (x : Isolated α) (fate : Fate) (word : BitVec 32) : Prop :=
  word ∈ fate.words ∨ ∃ reason nested, x = .aborted reason nested ∧
    word = Status.explicitWord reason (nested != 0)

theorem Isolated.AbortsWith.gives {α : Type} {x : Isolated α} {fate : Fate} {word : BitVec 32}
    (h : x.AbortsWith fate word) : fate.Gives word := by
  rcases h with hardware | ⟨reason, nested, -, same⟩
  · exact .inl hardware
  · exact .inr ⟨reason, _, same⟩

theorem Isolated.AbortsWith.bind {α β : Type} {x : Isolated α} {fate : Fate} {word : BitVec 32}
    (h : x.AbortsWith fate word) (f : α → Nat → Store → Isolated β) :
    (x.bind f).AbortsWith fate word := by
  rcases h with hardware | ⟨reason, nested, rfl, same⟩
  · exact .inl hardware
  · exact .inr ⟨reason, nested, rfl, same⟩

def OpenTransaction.Reaches (t t' : OpenTransaction) (nested : Nat) : Prop :=
  ∃ executed, t' = { t with nested := nested, executed := executed }

theorem OpenTransaction.Reaches.trans {t t₁ t₂ : OpenTransaction} {n₁ n₂ : Nat}
    (first : t.Reaches t₁ n₁) (second : t₁.Reaches t₂ n₂) : t.Reaches t₂ n₂ := by
  obtain ⟨_, rfl⟩ := first
  obtain ⟨executed, rfl⟩ := second
  exact ⟨executed, rfl⟩

namespace Instruction

inductive Steps (i : Instruction) (t : OpenTransaction) (m : Machine) : Effect i.Answer → Prop where
  | next {answer : i.Answer} {n : Nat} {s : Store} {t' : OpenTransaction} (log : List Entry)
      (isolated : i.isolated t.nested m.store = .finished answer n s) (reaches : t.Reaches t' n) :
      Steps i t m (.next answer ⟨s, some t', m.begun, log⟩)
  | abort {word : BitVec 32} {m' : Machine} (begun : m'.begun = m.begun)
      (aborts : (i.isolated t.nested m.store).AbortsWith t.fate word) : Steps i t m (.abort word m')
  | escape {effect : Effect i.Answer} (escaped : i.isolated t.nested m.store = .escaped) :
      Steps i t m effect

theorem step_closed (i : Instruction) {m : Machine} (closed : m.transaction = none) :
    i.step m = i.perform m := by
  rw [step, closed]

theorem perform_open (i : Instruction) {m : Machine} {t : OpenTransaction}
    (opened : m.transaction = some t) : i.Steps t m (i.perform m) := by
  obtain ⟨s, transaction, begun, log⟩ := m
  obtain rfl : transaction = some t := opened
  have stays : t.Reaches t t.nested := ⟨t.executed, rfl⟩
  cases i with
  | read a => exact .next log rfl stays
  | write a v => exact .next log rfl stays
  | testFlag flag => exact .next log rfl stays
  | testSetFlag flag => exact .next log rfl stays
  | clearFlag flag => exact .next log rfl stays
  | commit =>
      cases depth : t.nested with
      | zero => exact .escape (by rw [depth]; rfl)
      | succ n =>
          simp only [perform, depth]
          exact .next log (by rw [depth]; rfl) ⟨t.executed, rfl⟩
  | abort reason => exact .abort rfl (.inr ⟨reason, t.nested, rfl, rfl⟩)
  | isOpen => exact .next log rfl stays
  | note n => exact .next (⟨n, s⟩ :: log) rfl stays
  | discard => exact .escape rfl

theorem step_open (i : Instruction) {m : Machine} {t : OpenTransaction}
    (opened : m.transaction = some t) : i.Steps t m (i.step m) := by
  simp only [step, opened]
  split
  · rename_i limit word interruption
    split
    · refine .abort rfl (.inl ?_)
      simp [Fate.words, interruption]
    · -- Counting the instruction changes nothing that it can see.
      let counted : OpenTransaction := { t with executed := t.executed + 1 }
      have reached : t.Reaches counted t.nested := ⟨t.executed + 1, rfl⟩
      have performed := perform_open i (m := { m with transaction := some counted }) rfl
      generalize i.perform _ = effect at performed ⊢
      cases performed with
      | next log isolated reaches => exact .next log isolated (reached.trans reaches)
      | abort begun aborts => exact .abort begun aborts
      | escape escaped => exact .escape escaped
  · exact perform_open i opened

theorem perform_commit {m : Machine} {t : OpenTransaction} (opened : m.transaction = some t)
    (outermost : t.nested = 0) :
    (∃ word, commit.perform m = .abort word m ∧ word ∈ t.fate.words) ∨
      commit.perform m = .next () { m with transaction := none } := by
  simp only [perform, opened, outermost]
  split
  · rename_i word refused
    exact .inl ⟨word, rfl, by simp [Fate.words, refused]⟩
  · exact .inr rfl

theorem step_commit {m : Machine} {t : OpenTransaction} (opened : m.transaction = some t)
    (outermost : t.nested = 0) :
    (∃ word m', commit.step m = .abort word m' ∧ m'.begun = m.begun ∧ word ∈ t.fate.words) ∨
      commit.step m = .next () { m with transaction := none } := by
  simp only [step, opened]
  split
  · rename_i limit word interruption
    split
    · exact .inl ⟨word, m, rfl, rfl, by simp [Fate.words, interruption]⟩
    · let counted : OpenTransaction := { t with executed := t.executed + 1 }
      rcases perform_commit (m := { m with transaction := some counted }) rfl outermost with
        ⟨word, refused, mem⟩ | committed
      · exact .inl ⟨word, _, refused, rfl, mem⟩
      · exact .inr committed
  · rcases perform_commit opened outermost with ⟨word, refused, mem⟩ | committed
    · exact .inl ⟨word, m, refused, rfl, mem⟩
    · exact .inr committed

end Instruction

namespace Program

variable {α β : Type}

theorem run_act (hardware : Schedule) (i : Instruction) (next : i.Answer → Program α) {m m' : Machine}
    {answer : i.Answer} (steps : i.step m = .next answer m') :
    (act i next).run hardware m = (next answer).run hardware m' := by
  rw [run, steps]

theorem run_commit_bind (hardware : Schedule) (rest : Program α) {m : Machine} {t : OpenTransaction}
    (opened : m.transaction = some t) (outermost : t.nested = 0) :
    (∃ word m', (commit >>= fun _ => rest).run hardware m = (.aborted word, m') ∧
      m'.begun = m.begun ∧ word ∈ t.fate.words) ∨
    (commit >>= fun _ => rest).run hardware m = rest.run hardware { m with transaction := none } := by
  change (∃ word m', (act .commit fun _ => rest).run hardware m = (.aborted word, m') ∧ _) ∨
    (act .commit fun _ => rest).run hardware m = _
  rcases Instruction.step_commit opened outermost with ⟨word, m', refused, begun, mem⟩ | committed
  · exact .inl ⟨word, m', by rw [run, refused], begun, mem⟩
  · exact .inr (run_act hardware .commit _ committed)

/-- What can become of a program in the open transaction `t` with `rest` to be run after it. -/
inductive Runs (hardware : Schedule) (p : Program α) (rest : α → Program β) (t : OpenTransaction)
    (m : Machine) : Ending β × Machine → Prop where
  | next {a : α} {n : Nat} {s : Store} {t' : OpenTransaction} (log : List Entry)
      (isolated : p.isolated t.nested m.store = .finished a n s) (reaches : t.Reaches t' n) :
      Runs hardware p rest t m ((rest a).run hardware ⟨s, some t', m.begun, log⟩)
  | abort {word : BitVec 32} {m' : Machine} (begun : m'.begun = m.begun)
      (aborts : (p.isolated t.nested m.store).AbortsWith t.fate word) :
      Runs hardware p rest t m (.aborted word, m')
  | fail {v : Violation} {s : Store} {t' : OpenTransaction} {n : Nat} (log : List Entry)
      (isolated : p.isolated t.nested m.store = .failed v s) (reaches : t.Reaches t' n) :
      Runs hardware p rest t m (.failed v, ⟨s, some t', m.begun, log⟩)
  | spin {m' : Machine} (isolated : p.isolated t.nested m.store = .spinning) :
      Runs hardware p rest t m (.spinning, m')
  | escape {result : Ending β × Machine} (escaped : p.isolated t.nested m.store = .escaped) :
      Runs hardware p rest t m result

theorem Runs.of_rest {hardware : Schedule} {p q : Program α} {rest : α → Program β}
    {t t' : OpenTransaction} {m m' : Machine} {n : Nat} {result : Ending β × Machine}
    (left : q.Runs hardware rest t' m' result) (reaches : t.Reaches t' n) (begun : m'.begun = m.begun)
    (same : p.isolated t.nested m.store = q.isolated n m'.store) : p.Runs hardware rest t m result := by
  have nested : t'.nested = n := by obtain ⟨_, rfl⟩ := reaches; rfl
  have fate : t'.fate = t.fate := by obtain ⟨_, rfl⟩ := reaches; rfl
  rw [← nested] at same
  cases left with
  | next log isolated further => exact begun ▸ .next log (same.trans isolated) (reaches.trans further)
  | abort kept aborts => exact .abort (kept.trans begun) (by rwa [same, ← fate])
  | fail log isolated further => exact begun ▸ .fail log (same.trans isolated) (reaches.trans further)
  | spin isolated => exact .spin (same.trans isolated)
  | escape escaped => exact .escape (same.trans escaped)

theorem run_bind_open (hardware : Schedule) (p : Program α) (rest : α → Program β) {m : Machine}
    {t : OpenTransaction} (opened : m.transaction = some t) :
    p.Runs hardware rest t m ((p >>= rest).run hardware m) := by
  change p.Runs hardware rest t m ((p.bind rest).run hardware m)
  induction p generalizing m t with
  | done a =>
      obtain ⟨s, transaction, begun, log⟩ := m
      obtain rfl : transaction = some t := opened
      exact .next log rfl ⟨t.executed, rfl⟩
  | fail v =>
      obtain ⟨s, transaction, begun, log⟩ := m
      obtain rfl : transaction = some t := opened
      exact .fail log rfl ⟨t.executed, rfl⟩
  | spin => exact .spin rfl
  | act i next ih =>
      have stepped := i.step_open opened
      simp only [bind, run]
      generalize i.step m = effect at stepped
      cases stepped with
      | next log isolated reaches =>
          refine (ih _ rfl).of_rest reaches rfl ?_
          simp only [Program.isolated, isolated]
          rfl
      | abort begun aborts => exact .abort begun (aborts.bind _)
      | escape escaped => exact .escape (by simp only [Program.isolated, escaped]; rfl)
  | begin next ih =>
      simp only [bind, run, opened]
      exact (ih _ rfl).of_rest ⟨t.executed, rfl⟩ rfl rfl

theorem run_calm (hardware : Schedule) (p : Program α) {m : Machine} {t : OpenTransaction} {a : α} {n : Nat}
    {s : Store} (opened : m.transaction = some t) (calm : t.fate.words = [])
    (isolated : p.isolated t.nested m.store = .finished a n s) :
    ∃ t' log, t.Reaches t' n ∧ p.run hardware m = (.returned a, ⟨s, some t', m.begun, log⟩) := by
  have runs := run_bind_open hardware p pure opened
  rw [bind_pure] at runs
  generalize result : p.run hardware m = ran at runs ⊢
  cases runs with
  | @next _ _ _ t' log same reaches =>
      obtain ⟨rfl, rfl, rfl⟩ := Isolated.finished.inj (same.symm.trans isolated)
      exact ⟨t', log, reaches, rfl⟩
  | abort begun aborts =>
      rcases aborts with mem | ⟨reason, nested, same, -⟩
      · rw [calm] at mem
        cases mem
      · cases same.symm.trans isolated
  | fail log same reaches => cases same.symm.trans isolated
  | spin same => cases same.symm.trans isolated
  | escape same => cases same.symm.trans isolated

end Program

end AtomicTables
