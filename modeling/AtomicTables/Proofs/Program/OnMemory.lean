import AtomicTables.Proofs.Program.Isolation

namespace AtomicTables

variable [FlagSpace]

def Ending.ofExcept {α : Type} : Except Violation α → Ending α
  | .ok a => .returned a
  | .error v => .failed v

def Isolated.ofExcept {α : Type} (nested : Nat) (s : Store) : Except Violation α → Isolated α
  | .ok a => .finished a nested s
  | .error v => .failed v s

namespace Program

variable {α β : Type}

/-- The answer of the program, or its violation, and the memory afterwards. None for a program that comes
to other instructions than reads and writes. -/
def onMemory : Program α → Memory → Option (Except Violation α × Memory)
  | done a, m => some (.ok a, m)
  | fail v, m => some (.error v, m)
  | act (.read a) next, m => (next (m.read a)).onMemory m
  | act (.write a v) next, m => (next ()).onMemory (m.write a v)
  | _, _ => none

@[simp] theorem onMemory_pure (a : α) (m : Memory) :
    (pure a : Program α).onMemory m = some (.ok a, m) := rfl

@[simp] theorem onMemory_read_bind (a : Nat) (f : UInt8 → Program β) (m : Memory) :
    (read a >>= f).onMemory m = (f (m.read a)).onMemory m := rfl

@[simp] theorem onMemory_write_bind (a : Nat) (v : UInt8) (f : Unit → Program β) (m : Memory) :
    (write a v >>= f).onMemory m = (f ()).onMemory (m.write a v) := rfl

theorem onMemory_bind (p : Program α) (f : α → Program β) (m : Memory) :
    (p >>= f).onMemory m = (p.onMemory m).bind fun
      | (.ok a, m') => (f a).onMemory m'
      | (.error v, m') => some (.error v, m') := by
  change (p.bind f).onMemory m = _
  induction p generalizing m with
  | done | fail | spin => rfl
  | act i next ih =>
      cases i with
      | read a => exact ih (m.read a) m
      | write a v => exact ih () (m.write a v)
      | _ => rfl
  | begin next ih => rfl

theorem onMemory_bind_ok {p : Program α} {m m' : Memory} {a : α}
    (h : p.onMemory m = some (.ok a, m')) (f : α → Program β) :
    (p >>= f).onMemory m = (f a).onMemory m' := by
  rw [onMemory_bind, h]
  rfl

theorem onMemory_seq {α β : Type} {p : Program α} {f : α → Program β} {m m' : Memory} {a : α}
    {result : Option (Except Violation β × Memory)} (first : p.onMemory m = some (.ok a, m'))
    (rest : (f a).onMemory m' = result) : (p >>= f).onMemory m = result :=
  (onMemory_bind_ok first f).trans rest

theorem onMemory_bind_error {p : Program α} {m m' : Memory} {v : Violation}
    (h : p.onMemory m = some (.error v, m')) (f : α → Program β) :
    (p >>= f).onMemory m = some (.error v, m') := by
  rw [onMemory_bind, h]
  rfl

theorem onMemory_require {c : Bool} (holds : c) (v : Violation) (m : Memory) :
    (require c v).onMemory m = some (.ok (), m) := by
  rw [holds]
  rfl

theorem onMemory_require_of_not {c : Bool} (broken : ¬c) (v : Violation) (m : Memory) :
    (require c v).onMemory m = some (.error v, m) := by
  rw [eq_false_of_ne_true broken]
  rfl

theorem isolated_of_onMemory {p : Program α} {s : Store} {m' : Memory} {r : Except Violation α}
    (h : p.onMemory s.memory = some (r, m')) (n : Nat) :
    p.isolated n s = .ofExcept n { s with memory := m' } r := by
  induction p generalizing s with
  | done a => cases h; rfl
  | fail v => cases h; rfl
  | spin => cases h
  | act i next ih =>
      cases i with
      | read a => exact ih (s.memory.read a) h
      | write a v => exact ih () (s := { s with memory := s.memory.write a v }) h
      | _ => cases h
  | begin next ih => cases h

theorem run_of_onMemory {p : Program α} {m : Machine} {m' : Memory} {r : Except Violation α}
    (h : p.onMemory m.store.memory = some (r, m')) (closed : m.transaction = none)
    (hardware : Schedule) :
    p.run hardware m = (.ofExcept r, { m with store := { m.store with memory := m' } }) := by
  induction p generalizing m with
  | done a => cases h; rfl
  | fail v => cases h; rfl
  | spin => cases h
  | act i next ih =>
      cases i with
      | read a =>
          rw [run_act hardware _ _ (Instruction.step_closed _ closed)]
          exact ih (m.store.memory.read a) h closed
      | write a v =>
          rw [run_act hardware _ _ (Instruction.step_closed _ closed)]
          exact ih () (m := m.write a v) h closed
      | _ => cases h
  | begin next ih => cases h

structure Plain (p : Program α) : Prop where
  ends : ∀ m, (p.onMemory m).isSome

theorem Plain.of_onMemory {p : Program α} {result : Memory → Except Violation α × Memory}
    (h : ∀ m, p.onMemory m = some (result m)) : p.Plain :=
  ⟨fun m => by rw [h]; rfl⟩

theorem plain_pure (a : α) : (pure a : Program α).Plain := ⟨fun _ => rfl⟩

theorem plain_read (a : Nat) : (read a).Plain := ⟨fun _ => rfl⟩

theorem plain_write (a : Nat) (v : UInt8) : (write a v).Plain := ⟨fun _ => rfl⟩

theorem plain_require (c : Bool) (v : Violation) : (require c v).Plain := by
  cases c <;> exact ⟨fun _ => rfl⟩

theorem Plain.bind {p : Program α} {f : α → Program β} (hp : p.Plain) (hf : ∀ a, (f a).Plain) :
    (p >>= f).Plain := by
  refine ⟨fun m => ?_⟩
  rw [onMemory_bind]
  obtain ⟨⟨result, m'⟩, h⟩ := Option.isSome_iff_exists.1 (hp.ends m)
  rw [h]
  cases result with
  | ok a => exact (hf a).ends m'
  | error v => rfl

theorem Plain.isolated {p : Program α} (h : p.Plain) (n : Nat) (s : Store) :
    ∃ s' result, p.isolated n s = .ofExcept n s' result := by
  obtain ⟨⟨result, m'⟩, same⟩ := Option.isSome_iff_exists.1 (h.ends s.memory)
  exact ⟨{ s with memory := m' }, result, isolated_of_onMemory same n⟩

theorem Plain.balanced {p : Program α} (h : p.Plain) (s : Store) : (p.isolated 0 s).Balanced := by
  obtain ⟨s', result, same⟩ := h.isolated 0 s
  rw [same]
  cases result with
  | ok a => rfl
  | error v => trivial

end Program

end AtomicTables
