import AtomicTables.Proofs.Program.Closed

/-!
# The way of a program

What a program comes to as long as no abort takes it back (`Leads`). An open transaction is left by its
outermost commit, or it is discarded (`closes`), and an abort leads back to the outermost begin
(`resumes_of_aborted`).
-/

namespace AtomicTables

variable [FlagSpace]

theorem OpenTransaction.Reaches.origin {t t' : OpenTransaction} {n : Nat} (reaches : t.Reaches t' n) :
    t'.origin = t.origin := by
  obtain ⟨_, rfl⟩ := reaches
  rfl

namespace Instruction

inductive Escapes (t : OpenTransaction) (m : Machine) : (i : Instruction) → Effect i.Answer → Prop where
  | abort {i : Instruction} {word : BitVec 32} {m' : Machine} : Escapes t m i (.abort word m')
  | commit (outermost : t.nested = 0) : Escapes t m .commit (.next () { m with transaction := none })
  | discard : Escapes t m .discard (.next () { m with store := t.origin, transaction := none })

theorem step_escaped (i : Instruction) {m : Machine} {t : OpenTransaction} (opened : m.transaction = some t)
    (escaped : i.isolated t.nested m.store = .escaped) : Escapes t m i (i.step m) := by
  cases i with
  | commit =>
      cases depth : t.nested with
      | zero =>
          rcases step_commit opened depth with ⟨word, m', refused, -, -⟩ | committed
          · exact refused ▸ .abort
          · exact committed ▸ .commit depth
      | succ n =>
          rw [depth] at escaped
          cases escaped
  | discard =>
      simp only [step, perform, opened]
      split
      · split
        · exact .abort
        · exact .discard
      · exact .discard
  | _ => cases escaped

theorem reaches_step {i : Instruction} {m m₁ : Machine} {t₁ : OpenTransaction} {answer : i.Answer}
    (steps : i.step m = .next answer m₁) (stays : m₁.transaction = some t₁) :
    ∃ t, m.transaction = some t ∧ t.Reaches t₁ t₁.nested := by
  cases before : m.transaction with
  | none =>
      rcases i.step_closed_cases before with ⟨_, _, stepped, closed⟩ | ⟨_, stepped⟩
      · cases stepped.symm.trans steps
        cases closed.symm.trans stays
      · cases stepped.symm.trans steps
  | some t =>
      have stepped := i.step_open before
      rw [steps] at stepped
      cases stepped with
      | next log isolated reaches =>
          cases stays
          obtain ⟨executed, rfl⟩ := reaches
          exact ⟨t, rfl, executed, rfl⟩
      | escape escaped =>
          have ends := i.step_escaped before escaped
          rw [steps] at ends
          cases ends <;> cases stays

end Instruction

def Machine.nest (m : Machine) (t : OpenTransaction) : Machine :=
  { m with transaction := some { t with nested := t.nested + 1 } }

namespace Program

variable {α : Type}

/-- On its way, and not back at an earlier begin, the program `p` on the machine `m` comes to what is left of
it and the machine there. -/
inductive Leads (hardware : Schedule) : (p : Program α) → (m : Machine) → Program α → Machine → Prop where
  | here (p : Program α) (m : Machine) : Leads hardware p m p m
  | act {i : Instruction} {next : i.Answer → Program α} {m m₁ m' : Machine} {answer : i.Answer}
      {q : Program α} (steps : i.step m = .next answer m₁)
      (leads : Leads hardware (next answer) m₁ q m') :
      Leads hardware (act i next) m q m'
  | begin {next : BitVec 32 → Program α} {m m' : Machine} {t : OpenTransaction} {q : Program α}
      (opened : m.transaction = some t) (leads : Leads hardware (next Status.started) (m.nest t) q m') :
      Leads hardware (begin next) m q m'

namespace Leads

variable {hardware : Schedule} {p q : Program α} {m m' : Machine}

theorem run_eq (leads : Leads hardware p m q m') : p.run hardware m = q.run hardware m' := by
  induction leads with
  | here => rfl
  | act steps _ ih => exact (run_act hardware _ _ steps).trans ih
  | begin opened _ ih =>
      rw [← ih, run, opened]
      rfl

theorem bind {β : Type} (leads : Leads hardware p m q m') (f : α → Program β) :
    Leads hardware (p >>= f) m (q >>= f) m' := by
  induction leads with
  | here => exact .here ..
  | act steps _ ih => exact .act steps ih
  | begin opened _ ih => exact .begin opened ih

theorem reaches {t' : OpenTransaction} (leads : Leads hardware p m q m') (stays : m'.transaction = some t') :
    ∃ t, m.transaction = some t ∧ t.Reaches t' t'.nested := by
  induction leads with
  | here => exact ⟨t', stays, t'.executed, rfl⟩
  | act steps _ ih =>
      obtain ⟨t₁, opened₁, later⟩ := ih stays
      obtain ⟨t, opened, sooner⟩ := Instruction.reaches_step steps opened₁
      exact ⟨t, opened, sooner.trans later⟩
  | @begin _ _ _ t _ opened _ ih =>
      obtain ⟨_, same, later⟩ := ih stays
      cases same
      exact ⟨t, opened, later⟩

inductive Closes (hardware : Schedule) (p : Program α) (m : Machine) (q : Program α) (m' : Machine) : Prop where
  | committed {next : Unit → Program α} {m₁ : Machine} {t : OpenTransaction}
      (before : Leads hardware p m (Program.act .commit next) m₁) (opened : m₁.transaction = some t)
      (outermost : t.nested = 0) (after : Leads hardware (next ()) { m₁ with transaction := none } q m')
  | discarded {next : Unit → Program α} {m₁ : Machine} {t : OpenTransaction}
      (before : Leads hardware p m (Program.act .discard next) m₁) (opened : m₁.transaction = some t)
      (after : Leads hardware (next ()) { m₁ with store := t.origin, transaction := none } q m')

theorem closes {t : OpenTransaction} (leads : Leads hardware p m q m') (opened : m.transaction = some t)
    (closed : m'.transaction = none) : Closes hardware p m q m' := by
  induction leads generalizing t with
  | here => cases opened.symm.trans closed
  | @act i next m m₁ _ answer _ steps onward ih =>
      cases after : m₁.transaction with
      | some t₁ =>
          cases ih after closed with
          | committed before opened outermost after =>
              exact .committed (.act steps before) opened outermost after
          | discarded before opened after => exact .discarded (.act steps before) opened after
      | none =>
          have stepped := i.step_open opened
          rw [steps] at stepped
          cases stepped with
          | next => cases after
          | escape escaped =>
              have ends := i.step_escaped opened escaped
              rw [steps] at ends
              cases ends with
              | commit outermost => exact .committed (.here ..) opened outermost onward
              | discard => exact .discarded (.here ..) opened onward
  | begin opened' _ ih =>
      cases ih rfl closed with
      | committed before opened outermost after =>
          exact .committed (.begin opened' before) opened outermost after
      | discarded before opened after => exact .discarded (.begin opened' before) opened after

end Leads

def Resumes (hardware : Schedule) (next : BitVec 32 → Program α) (m : Machine) : Prop :=
  ∃ word log, (begin next).run hardware m =
    (next word).run hardware ⟨(hardware m.begun).interfere m.store, none, m.begun + 1, log⟩

theorem resumes_of_aborted {hardware : Schedule} {next : BitVec 32 → Program α} {m m₁ m' : Machine}
    {q : Program α} {word : BitVec 32} (closed : m.transaction = none)
    (leads : Leads hardware (next Status.started) (m.opened hardware) q m₁)
    (aborted : q.run hardware m₁ = (.aborted word, m')) : Resumes hardware next m := by
  have begins := run_begin_closed hardware next closed
  generalize result : (begin next).run hardware m = reached at begins
  cases begins with
  | @undone word log => exact ⟨word, log, result⟩
  | kept ran stays => exact absurd ((ran.symm.trans leads.run_eq).trans aborted) (stays word m')

end Program

end AtomicTables
