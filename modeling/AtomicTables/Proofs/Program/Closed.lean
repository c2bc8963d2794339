import AtomicTables.Proofs.Program.Isolation

/-!
# Programs outside of a transaction

A program that starts outside of a transaction is never left by an abort (`run_ne_aborted`), and a program
after it runs as if it were alone, as long as no transaction is left open (`run_bind_closed`). A transaction
that it begins is undone by the first abort or not aborted at all (`run_begin_closed`).
-/

namespace AtomicTables

variable [FlagSpace]

def Ending.follow {α β : Type} (rest : α → Machine → Ending β × Machine) :
    Ending α × Machine → Ending β × Machine
  | (.returned a, m) => rest a m
  | (.failed v, m) => (.failed v, m)
  | (.aborted word, m) => (.aborted word, m)
  | (.faulted, m) => (.faulted, m)
  | (.spinning, m) => (.spinning, m)

namespace Instruction

theorem step_closed_cases (i : Instruction) {m : Machine} (closed : m.transaction = none) :
    (∃ answer m', i.step m = .next answer m' ∧ m'.transaction = none) ∨ ∃ m', i.step m = .fault m' := by
  rw [i.step_closed closed]
  cases i with
  | read | write | testFlag | testSetFlag | clearFlag | isOpen | note => exact .inl ⟨_, _, rfl, closed⟩
  | commit => exact .inr ⟨m, by simp [perform, closed]⟩
  | abort | discard => exact .inl ⟨(), m, by simp [perform, closed], closed⟩

end Instruction

namespace Program

variable {α β : Type} (hardware : Schedule)

theorem run_ne_aborted (p : Program α) {m : Machine} (closed : m.transaction = none) (word : BitVec 32) :
    (p.run hardware m).1 ≠ .aborted word := by
  induction p generalizing m with
  | done | fail | spin => simp [run]
  | act i next ih =>
      rw [run]
      rcases i.step_closed_cases closed with ⟨answer, m', stepped, closed⟩ | ⟨m', stepped⟩
      · rw [stepped]
        exact ih answer closed
      · simp [stepped]
  | begin next ih =>
      simp only [run, closed]
      split
      · exact ih _ rfl
      · split
        · exact ih _ rfl
        · -- An abort of the opened transaction has been answered at its begin.
          rename_i escaped
          exact fun aborted => escaped word _ (Prod.ext aborted rfl)

theorem run_bind_closed (p : Program α) (rest : α → Program β) {m : Machine}
    (closes : ∀ a m', p.run hardware m = (.returned a, m') → m'.transaction = none) :
    (p >>= rest).run hardware m =
      Ending.follow (fun a => (rest a).run hardware) (p.run hardware m) := by
  change (p.bind rest).run hardware m = _
  induction p generalizing m with
  | done | fail | spin => rfl
  | act i next ih =>
      simp only [bind, run] at closes ⊢
      cases stepped : i.step m with
      | next answer m' =>
          rw [stepped] at closes
          exact ih answer closes
      | abort word m' => rfl
      | fault m' => rfl
  | begin next ih =>
      simp only [bind, run] at closes ⊢
      cases opened : m.transaction with
      | some t =>
          simp only [opened] at closes
          exact ih _ closes
      | none =>
          simp only [opened] at closes
          dsimp only
          cases refusal : (hardware m.begun).refusal with
          | some word =>
              simp only [refusal] at closes
              exact ih word closes
          | none =>
              simp only [refusal] at closes
              dsimp only
              generalize opening : Machine.mk m.store _ _ m.log = opened at closes ⊢
              have inside := @ih Status.started opened
              -- An abort leads both runs back to this begin. After a commit nothing can lead back to it.
              rcases ran : (next Status.started).run hardware opened with ⟨ending, m'⟩
              rw [ran] at inside closes
              cases ending with
              | returned a =>
                  have closed : m'.transaction = none := closes a m' rfl
                  rw [inside (by rintro _ _ ⟨⟩; exact closed)]
                  dsimp only [Ending.follow]
                  split
                  · rename_i word m'' aborted
                    exact absurd (congrArg Prod.fst aborted) (run_ne_aborted hardware (rest a) closed word)
                  · rfl
              | aborted word =>
                  rw [inside (by rintro _ _ ⟨⟩)]
                  exact ih word closes
              | failed | faulted | spinning => rw [inside (by rintro _ _ ⟨⟩)]; rfl

end Program

def Effect.machine {α : Type} : Effect α → Machine
  | .next _ m | .abort _ m | .fault m => m

theorem Instruction.begun_perform (i : Instruction) (m : Machine) :
    (i.perform m).machine.begun = m.begun := by
  cases i with
  | commit =>
      simp only [perform]
      split
      · rfl
      · split
        · rfl
        · split <;> rfl
  | abort | discard => simp only [perform]; split <;> rfl
  | _ => rfl

theorem Instruction.begun_step (i : Instruction) (m : Machine) : (i.step m).machine.begun = m.begun := by
  simp only [step]
  split
  · exact i.begun_perform m
  · split
    · split
      · rfl
      · exact i.begun_perform _
    · exact i.begun_perform m

def Machine.opened (m : Machine) (hardware : Schedule) : Machine :=
  ⟨m.store, some ⟨0, m.store, hardware m.begun, 0⟩, m.begun + 1, m.log⟩

namespace Program

variable {α : Type} (hardware : Schedule)

theorem begun_of_aborted (p : Program α) {m m' : Machine} {word : BitVec 32}
    (aborted : p.run hardware m = (.aborted word, m')) : m'.begun = m.begun := by
  induction p generalizing m with
  | done | fail | spin => cases aborted
  | act i next ih =>
      have kept := i.begun_step m
      rw [run] at aborted
      cases stepped : i.step m with
      | next answer m₁ =>
          rw [stepped] at kept aborted
          exact (ih answer aborted).trans kept
      | abort word' m₁ =>
          rw [stepped] at kept aborted
          cases aborted
          exact kept
      | fault m₁ =>
          rw [stepped] at aborted
          cases aborted
  | begin next ih =>
      cases opened : m.transaction with
      | some t =>
          simp only [run, opened] at aborted
          have kept := ih _ aborted
          exact kept
      | none => exact absurd (congrArg Prod.fst aborted) (run_ne_aborted hardware (begin next) opened word)

inductive Begins (next : BitVec 32 → Program α) (m : Machine) : Ending α × Machine → Prop where
  | undone {word : BitVec 32} (log : List Entry) : Begins next m
      ((next word).run hardware ⟨(hardware m.begun).interfere m.store, none, m.begun + 1, log⟩)
  | kept {result : Ending α × Machine} (ran : (next Status.started).run hardware (m.opened hardware) = result)
      (stays : ∀ word m', result ≠ (.aborted word, m')) : Begins next m result

theorem run_begin_closed (next : BitVec 32 → Program α) {m : Machine} (closed : m.transaction = none) :
    Begins hardware next m ((begin next).run hardware m) := by
  obtain ⟨s, transaction, begun, log⟩ := m
  obtain rfl : transaction = none := closed
  rw [run]
  dsimp only
  split
  · exact .undone log
  · split
    · rename_i word m' aborted
      have same := begun_of_aborted hardware _ aborted
      obtain ⟨s', transaction', begun', log'⟩ := m'
      obtain rfl : begun' = begun + 1 := same
      exact .undone log'
    · rename_i stays
      exact .kept rfl fun word m' aborted => stays word m' aborted

theorem run_begin_aborted (next : BitVec 32 → Program α) {m m' : Machine} {word : BitVec 32}
    (closed : m.transaction = none) (admitted : (hardware m.begun).refusal = none)
    (aborted : (next Status.started).run hardware (m.opened hardware) = (.aborted word, m')) :
    (begin next).run hardware m =
      (next word).run hardware ⟨(hardware m.begun).interfere m.store, none, m'.begun, m'.log⟩ := by
  rw [Machine.opened] at aborted
  simp only [run, closed, admitted, aborted]

end Program

end AtomicTables
