import AtomicTables.Backend.Speculative
import AtomicTables.Proofs.Program.Path
import AtomicTables.Proofs.Transaction.Attempts
import AtomicTables.Script

/-!
# What a status tells

A status has one layout and the word of the hardware another. What has been packed can be read off, and what the
hardware reports is kept, except for what has no place in a status (`decodes_exactly`). Since no word of an abort
reports a start, a begin returns a success on those ways only on which it has begun a transaction
(`depth_of_enters`).
-/

namespace AtomicTables

namespace Status

def causes : List (Nat × ExitCode) :=
  [(0, .abortExplicit), (2, .abortConflict), (3, .abortCapacity), (4, .abortDebug)]

def firstCause (word : BitVec 32) : ExitCode :=
  match causes.find? fun cause => word.getLsbD cause.1 with
  | some cause => cause.2
  | none => .abortUnknown

structure Tells (s : Status) (word : BitVec 32) : Prop where
  failure : s.isSuccess = false
  explicit : s.code = .abortExplicit ↔ word.getLsbD 0
  cause : s.code = firstCause word
  reason : s.reason.toNat = if word.getLsbD 0 then word.toNat >>> 24 else 0
  retry : s.info.contains ExitInfo.retry ↔ word.getLsbD 1
  nested : s.info.contains ExitInfo.nested ↔ word.getLsbD 5
  noOther : (ExitInfo.retry ∪ ExitInfo.nested).contains s.info
  packed : pack s.code s.reason s.info = s

theorem code_ofHardware (word : BitVec 32) : (ofHardware word).code = firstCause word := by
  rw [ofHardware, code_pack, firstCause]
  simp only [causes, List.find?]
  cases word.getLsbD 0 <;> cases word.getLsbD 2 <;> cases word.getLsbD 3 <;> cases word.getLsbD 4 <;> rfl

theorem toNat_reason_ofHardware (word : BitVec 32) :
    (ofHardware word).reason.toNat = if word.getLsbD 0 then word.toNat >>> 24 else 0 := by
  cases explicit : word.getLsbD 0 with
  | true =>
      have top : word.toNat >>> 24 < 2 ^ 8 := by
        have := word.isLt
        omega
      rw [reason_ofHardware explicit, BitVec.extractLsb'_toNat, Nat.mod_eq_of_lt top, if_pos rfl]
  | false =>
      rw [reason_of_code_ne (code_ofHardware_ne explicit)]
      rfl

theorem tells_ofHardware (word : BitVec 32) : (ofHardware word).Tells word := by
  refine ⟨isSuccess_ofHardware word, code_ofHardware_iff word, code_ofHardware word,
    toNat_reason_ofHardware word, ?retry, ?nested, ?noOther, ?packed⟩
  case packed =>
    refine pack_pack _ _ ?_
    cases word.getLsbD 1 <;> cases word.getLsbD 5 <;> decide
  all_goals
    rw [info_ofHardware]
    cases word.getLsbD 1 <;> cases word.getLsbD 5 <;> decide

end Status

section

variable [FlagSpace]

namespace Instruction

variable {i : Instruction} {m m' : Machine} {t : OpenTransaction} {word : BitVec 32}

theorem gives_of_perform (opened : m.transaction = some t) (aborts : i.perform m = .abort word m') :
    t.fate.Gives word := by
  cases i with
  | commit =>
      simp only [perform, opened] at aborts
      split at aborts
      · cases aborts
      · split at aborts
        · rename_i refusal
          cases aborts
          exact .inl (by simp [Fate.words, refusal])
        · cases aborts
  | abort reason =>
      simp only [perform, opened] at aborts
      cases aborts
      exact .inr ⟨reason, _, rfl⟩
  | discard =>
      simp only [perform, opened] at aborts
      cases aborts
  | _ => cases aborts

theorem gives_of_step (opened : m.transaction = some t) (aborts : i.step m = .abort word m') :
    t.fate.Gives word := by
  simp only [step, opened] at aborts
  split at aborts
  · rename_i limit word' interruption
    split at aborts
    · cases aborts
      exact .inl (by simp [Fate.words, interruption])
    · -- The transaction has its fate for all of its instructions.
      have given := gives_of_perform rfl aborts
      exact given
  · exact gives_of_perform opened aborts

end Instruction

namespace Program

variable {α : Type} {hardware : Schedule}

theorem gives_of_aborted {p : Program α} {m m' : Machine} {t : OpenTransaction} {word : BitVec 32}
    (opened : m.transaction = some t) (aborted : p.run hardware m = (.aborted word, m')) : t.fate.Gives word := by
  induction p generalizing m t with
  | done | fail | spin => cases aborted
  | act i next ih =>
      rw [run] at aborted
      cases stepped : i.step m with
      | next answer m₁ =>
          rw [stepped] at aborted
          cases after : m₁.transaction with
          | none => exact absurd (congrArg Prod.fst aborted) (run_ne_aborted hardware (next answer) after word)
          | some t₁ =>
              obtain ⟨t', opened', executed, same⟩ := Instruction.reaches_step stepped after
              cases opened'.symm.trans opened
              have given := ih answer after aborted
              rwa [same] at given
      | abort word' m₁ =>
          rw [stepped] at aborted
          cases aborted
          exact Instruction.gives_of_step opened stepped
      | fault m₁ =>
          rw [stepped] at aborted
          cases aborted
  | begin next ih =>
      simp only [run, opened] at aborted
      have given := ih Status.started rfl aborted
      exact given

/-- The ways on which a begin hands on to `next`, with the word that it answers and the machine there. -/
inductive Enters (hardware : Schedule) (next : BitVec 32 → Program α) (m : Machine) :
    BitVec 32 → Machine → Prop where
  | nested {t : OpenTransaction} (opened : m.transaction = some t) :
      Enters hardware next m Status.started (m.nest t)
  | outermost (closed : m.transaction = none) (admitted : (hardware m.begun).refusal = none) :
      Enters hardware next m Status.started (m.opened hardware)
  | refused {word : BitVec 32} (closed : m.transaction = none) (refusal : (hardware m.begun).refusal = some word) :
      Enters hardware next m word ⟨(hardware m.begun).interfere m.store, none, m.begun + 1, m.log⟩
  | undone {word : BitVec 32} {m' : Machine} (closed : m.transaction = none)
      (admitted : (hardware m.begun).refusal = none)
      (aborted : (next Status.started).run hardware (m.opened hardware) = (.aborted word, m')) :
      Enters hardware next m word ⟨(hardware m.begun).interfere m.store, none, m'.begun, m'.log⟩

theorem depth_of_enters {next : BitVec 32 → Program α} {m m' : Machine} {word : BitVec 32}
    (honest : hardware.Honest) (enters : Enters hardware next m word m') :
    word = Status.started ↔ m'.depth = m.depth + 1 := by
  cases enters with
  | nested opened => simp [Machine.depth, Machine.nest, opened]
  | outermost closed => simp [Machine.depth, Machine.opened, closed]
  | refused closed refusal =>
      have given : (hardware m.begun).Gives word := .inl (by simp [Fate.words, refusal])
      simp [Machine.depth, closed, honest.ne_started given]
  | undone closed _ aborted =>
      have given : (hardware m.begun).Gives word := gives_of_aborted rfl aborted
      simp [Machine.depth, closed, honest.ne_started given]

theorem exists_enters (hardware : Schedule) (next : BitVec 32 → Program α) (m : Machine) :
    ∃ word m', Enters hardware next m word m' ∧
      (begin next).run hardware m = (next word).run hardware m' := by
  cases opened : m.transaction with
  | some t => exact ⟨_, _, .nested opened, by rw [run, opened]; rfl⟩
  | none =>
      cases refusal : (hardware m.begun).refusal with
      | some word => exact ⟨_, _, .refused opened refusal, by simp only [run, opened, refusal]⟩
      | none =>
          rcases ran : (next Status.started).run hardware (m.opened hardware) with ⟨ending, m'⟩
          cases ending with
          | aborted word =>
              exact ⟨_, _, .undone opened refusal ran, run_begin_aborted hardware next opened refusal ran⟩
          | returned | failed | faulted | spinning =>
              refine ⟨_, _, .outermost opened refusal, ?_⟩
              rw [ran]
              rw [Machine.opened] at ran
              simp only [run, opened, refusal, ran]

end Program

namespace Speculative

variable {α : Type}

def Returns (hardware : Schedule) (next : Status → Program α) (m : Machine) (status : Status) (m' : Machine) :
    Prop :=
  ∃ word, Program.Enters hardware (fun word => next (beginStatus word)) m word m' ∧ beginStatus word = status

omit [FlagSpace] in
theorem isSuccess_beginStatus (word : BitVec 32) :
    (beginStatus word).isSuccess ↔ word = Status.started := by
  rw [beginStatus]
  split
  · rename_i started
    exact iff_of_true rfl started
  · rename_i other
    simp [Status.isSuccess_ofHardware, other]

end Speculative

namespace Status
open Speculative

/-- A status keeps what is packed or added and has a name, and of a word of the hardware all that it tells of an
abort. A begin returns a success if, and only if, one more transaction is open from there on. -/
theorem decodes_exactly {α : Type} :
    (∀ (code : ExitCode) (reason : BitVec 8) (info : ExitInfo),
      let s := pack code reason info
      s.code = code ∧ s.reason = (if code = .abortExplicit then reason else 0) ∧
      ∀ i, s.info.has i ↔ info.has i ∧ i < exitInfoLayout.names.length) ∧
    (∀ (s : Status) (info : ExitInfo),
      let added := s.withInfo info
      (∀ i, added.raw.getLsbD i ↔ s.raw.getLsbD i ∨ 16 ≤ i ∧ info.has (i - 16)) ∧
      added.code = s.code ∧ added.reason = s.reason ∧ added.isSuccess = s.isSuccess ∧
      ∀ i, added.info.has i ↔ s.info.has i ∨ info.has i ∧ i < exitInfoLayout.names.length) ∧
    (∀ word : BitVec 32, (ofHardware word).Tells word) ∧
    (∀ s : Status, (s.isSuccess ↔ s.code = .success) ∧ s.reason.toNat =
      if s.raw.toNat % 256 = ExitCode.abortExplicit.raw.toNat then s.raw.toNat / 256 % 256 else 0) ∧
    ∃ operation, Speculative.table .begin = some operation ∧
      ∀ hardware : Schedule, hardware.Honest → ∀ (next : Status → Program α) (m : Machine),
        (∃ status m', Returns hardware next m status m' ∧
          (operation >>= next).run hardware m = (next status).run hardware m') ∧
        ∀ status m', Returns hardware next m status m' → (status.isSuccess ↔ m'.depth = m.depth + 1) := by
  refine ⟨fun code reason info => ⟨code_pack .., reason_pack .., fun i => ?_⟩,
    fun s info => ⟨s.getLsbD_withInfo info, ?_, s.reason_withInfo info, ?_, fun i => ?_⟩,
    tells_ofHardware, fun s => ⟨s.isSuccess_iff, s.toNat_reason⟩, _, rfl,
    fun hardware honest next m => ⟨?_, ?_⟩⟩
  · rw [info_pack, BitSet.has_truncate, Bool.and_eq_true, decide_eq_true_iff]
  · rw [Status.code, codeByte_withInfo, Status.code]
  · rw [isSuccess, codeByte_withInfo, isSuccess]
  · rw [has_info, getLsbD_withInfo, has_info, Nat.add_sub_cancel_left, and_iff_right (Nat.le_add_right 16 i),
      or_and_right]
  · obtain ⟨word, m', enters, same⟩ := Program.exists_enters hardware (fun word => next (beginStatus word)) m
    exact ⟨_, m', ⟨word, enters, rfl⟩, same⟩
  · rintro status m' ⟨word, enters, rfl⟩
    rw [isSuccess_beginStatus]
    exact Program.depth_of_enters honest enters

end Status

end

namespace Status
open Speculative

theorem decodes_exactly_undone :
    let hardware := Schedule.ofList [⟨none, none, some 8, none, none⟩]
    let m := Machine.initial ⟨#[1]⟩
    let next : Status → Program Bool := fun status => do
      if status.isSuccess then
        Program.commit
        return true
      else return false
    let m' : Machine := ⟨m.store, none, 1, []⟩
    (hardware.Honest ∧ Returns hardware next m .success (m.opened hardware) ∧
      Returns hardware next m (ofHardware 8) m') ∧
    (success.isSuccess ↔ (m.opened hardware).depth = m.depth + 1) ∧
    ((ofHardware 8).isSuccess ↔ m'.depth = m.depth + 1) := by
  intro hardware m next m'
  have honest : hardware.Honest := Schedule.honest_ofList (by simp [Fate.words, Status.started])
  have begun : Returns hardware next m .success (m.opened hardware) := ⟨_, .outermost rfl rfl, rfl⟩
  have aborted : (next (beginStatus started)).run hardware (m.opened hardware) =
      (.aborted 8, m.opened hardware) := rfl
  have entered := @Program.Enters.undone _ _ hardware (fun word => next (beginStatus word)) m _ _ rfl rfl aborted
  have undone : Returns hardware next m (ofHardware 8) m' := ⟨8, entered, rfl⟩
  obtain ⟨-, -, -, -, operation, filled, returns⟩ := decodes_exactly (α := Bool)
  have iff := (returns hardware honest next m).2
  exact ⟨⟨honest, begun, undone⟩, iff _ _ begun, iff _ _ undone⟩

end Status

end AtomicTables
