import AtomicTables.Backend.Speculative
import AtomicTables.Proofs.Alignment.Strictness
import AtomicTables.Proofs.Table.Merged
import AtomicTables.Script

/-!
# Merging with nothing

In every domain the merge is associative, and `nothing` leaves each suite of the two domains with memory orders
as it is. A transactional suite keeps a safe size only beside a raw slot (`unital_domains`), so `nothing` is not
neutral to a suite that has a size and no such slot (`not_neutral_of_size`).
-/

namespace AtomicTables

/-- The merge is associative, and with `nothing` on either side an item that satisfies `p` becomes `rest` of it. -/
structure Merge.Unital {α : Type} [Merge α] (p : α → Prop) (rest : α → α) : Prop where
  assoc (a b c : α) : merge (merge a b) c = merge a (merge b c)
  nothing_merge (a : α) : p a → merge nothing a = rest a
  merge_nothing (a : α) : p a → merge a nothing = rest a

theorem Merge.unital_of_lawful {α : Type} [Merge α] [Lawful α] {p : α → Prop} {rest : α → α}
    (left : ∀ a, p a → merge nothing a = rest a) : Unital p rest where
  assoc := Lawful.assoc
  nothing_merge := left
  merge_nothing a holds := by rw [← Lawful.nothing_comm, left a holds]

namespace TransactionSuite

variable {σ : Type} {F : σ → Type} [SlotFamily σ] [SlotFamily.Grouped σ]

def settled (s : TransactionSuite F) : TransactionSuite F :=
  { s with safeSize := if s.table.Fills .raw then s.safeSize else 0 }

theorem getD_rawSize? (s : TransactionSuite F) :
    s.rawSize?.getD 0 = if s.table.Fills .raw then s.safeSize else 0 := by
  rw [rawSize?]
  cases lacks : s.table.lacks .raw <;> simp [← Table.lacks_raw_eq_false_iff, lacks]

theorem nothing_merge_settled [DecidableEq σ] {s : TransactionSuite F} (accepted : s.alignment.Accepted) :
    Merge.merge Merge.nothing s = s.settled := by
  rw [nothing_merge_eq (Alignment.permissive_le accepted), getD_rawSize?]
  rfl

theorem settled_eq_self_iff (s : TransactionSuite F) :
    s.settled = s ↔ s.table.Fills .raw ∨ s.safeSize = 0 := by
  obtain ⟨suite, hints, size⟩ := s
  rw [settled, mk.injEq]
  by_cases fills : suite.table.Fills .raw
  · simp [fills]
  · simp [fills, eq_comm]

end TransactionSuite

theorem Merge.unital_domains [FlagSpace] :
    Unital (fun s : ImplicitSuite => s.alignment.Accepted) id ∧
    Unital (fun s : ExplicitSuite => s.alignment.Accepted) id ∧
    Unital (fun s : TransactionalSuite => s.alignment.Accepted) TransactionSuite.settled ∧
    ∀ s : TransactionalSuite, s.settled = s ↔ s.table.Fills .raw ∨ s.safeSize = 0 := by
  refine ⟨unital_of_lawful fun s accepted => ?_, unital_of_lawful fun s accepted => ?_,
    unital_of_lawful fun s accepted => s.nothing_merge_settled accepted,
    TransactionSuite.settled_eq_self_iff⟩
  · exact Suite.nothing_merge (Alignment.permissive_le accepted)
  · exact Suite.nothing_merge (Alignment.permissive_le accepted)

theorem Merge.unital_domains_raw :
    let raw : TransactionalSuite := ⟨⟨Speculative.table, ⟨16, 8, 64⟩⟩, ⟨20, 10⟩, 4096⟩
    let bare : TransactionalSuite := ⟨⟨.empty, ⟨8, 8, 0⟩⟩, ⟨3, 5⟩, 0⟩
    raw.alignment.Accepted ∧ merge nothing raw = raw ∧
      bare.alignment.Accepted ∧ merge bare nothing = bare := by
  intro raw bare
  obtain ⟨-, -, unital, same⟩ := unital_domains
  have acceptedRaw : raw.alignment.Accepted :=
    (Alignment.accepted_iff _).2 ⟨⟨4, rfl⟩, ⟨3, rfl⟩, by decide⟩
  have acceptedBare : bare.alignment.Accepted :=
    (Alignment.accepted_iff _).2 ⟨⟨3, rfl⟩, ⟨3, rfl⟩, by decide⟩
  have left := unital.nothing_merge raw acceptedRaw
  have right := unital.merge_nothing bare acceptedBare
  rw [(same raw).2 (.inl ⟨.begin, rfl, rfl⟩)] at left
  rw [(same bare).2 (.inr rfl)] at right
  exact ⟨acceptedRaw, left, acceptedBare, right⟩

theorem not_neutral_of_size :
    let s : TransactionalSuite := ⟨⟨.empty, .permissive⟩, .none, 1⟩
    s.alignment.Accepted ∧ Merge.merge Merge.nothing s ≠ s ∧ Merge.merge s Merge.nothing ≠ s := by
  intro s
  have left : (Merge.merge Merge.nothing s).safeSize = 0 := by decide
  have right : (Merge.merge s Merge.nothing).safeSize = 0 := by decide
  refine ⟨Alignment.accepted_permissive, fun same => ?_, fun same => ?_⟩
  · rw [same] at left
    exact absurd left (by decide)
  · rw [same] at right
    exact absurd right (by decide)

end AtomicTables
