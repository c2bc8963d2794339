import AtomicTables.Compose
import AtomicTables.Proofs.Table.Merged
import AtomicTables.Script

/-!
# What the order of candidates leaves the same

All that is merged is determined by the set of what is merged, except which of several fillings a slot
has (`MergedFrom.alike`). So selections that offer the same ids compose to suites that are told apart only
by calling them (`Selection.alike_of_offers`).
-/

namespace AtomicTables

theorem max?_congr {xs ys : List UInt64} (same : ∀ a, a ∈ xs ↔ a ∈ ys) : xs.max? = ys.max? := by
  refine Option.ext fun a => ?_
  rw [List.max?_eq_some_iff, List.max?_eq_some_iff]
  simp only [same]

theorem min?_congr {xs ys : List UInt64} (same : ∀ a, a ∈ xs ↔ a ∈ ys) : xs.min? = ys.min? := by
  refine Option.ext fun a => ?_
  rw [List.min?_eq_some_iff, List.min?_eq_some_iff]
  simp only [same]

theorem mem_map_congr {α β : Type} {xs ys : List α} (same : ∀ a, a ∈ xs ↔ a ∈ ys) (f : α → β) (b : β) :
    b ∈ xs.map f ↔ b ∈ ys.map f := by
  simp only [List.mem_map, same]

theorem isSome_findSome?_congr {α β : Type} {xs ys : List α} (same : ∀ a, a ∈ xs ↔ a ∈ ys)
    (f : α → Option β) : (xs.findSome? f).isSome = (ys.findSome? f).isSome := by
  rw [Bool.eq_iff_iff, List.isSome_findSome?, List.isSome_findSome?, List.any_eq_true, List.any_eq_true]
  simp only [same]

namespace Suite

variable {σ : Type} {F : σ → Type} [SlotFamily σ]

/-- The suites differ at most in what fills a slot that both fill. -/
structure Alike (a b : Suite F) : Prop where
  alignment : a.alignment = b.alignment
  slots (s : σ) : (a.table s).isSome = (b.table s).isSome
  isEmpty : a.table.isEmpty = b.table.isEmpty
  supportedKinds (categories : CategorySet) :
    a.table.supportedKinds categories = b.table.supportedKinds categories
  someOf (categories : CategorySet) : a.table.someOf categories = b.table.someOf categories
  allOf (categories : CategorySet) : a.table.allOf categories = b.table.allOf categories

theorem MergedFrom.alike {a b : Suite F} {xs ys : List (Suite F)} (ha : a.MergedFrom xs)
    (hb : b.MergedFrom ys) (same : ∀ s, s ∈ xs ↔ s ∈ ys) : a.Alike b := by
  have requirements (r : Alignment) :
      r ∈ Alignment.permissive :: xs.map (·.alignment) ↔ r ∈ .permissive :: ys.map (·.alignment) := by
    rw [List.mem_cons, List.mem_cons, mem_map_congr same]
  have alignment : a.alignment = b.alignment := le_antisymm
    (hb.alignment_greatest _ ((requirements _).1 ha.alignment_mem))
    (ha.alignment_greatest _ ((requirements _).2 hb.alignment_mem))
  have slots : a.table.SameSlots b.table := by
    intro s
    rw [ha.slot, hb.slot]
    exact isSome_findSome?_congr same _
  exact ⟨alignment, slots, slots.isEmpty, slots.supportedKinds, slots.someOf, slots.allOf⟩

end Suite

namespace TransactionSuite

variable {σ : Type} {F : σ → Type} [SlotFamily σ] [SlotFamily.Grouped σ]

structure Alike (a b : TransactionSuite F) : Prop extends a.toSuite.Alike b.toSuite where
  hints : a.hints = b.hints
  safeSize : a.safeSize = b.safeSize

theorem MergedFrom.alike {a b : TransactionSuite F} {xs ys : List (TransactionSuite F)}
    (ha : a.MergedFrom xs) (hb : b.MergedFrom ys) (same : ∀ s, s ∈ xs ↔ s ∈ ys) : a.Alike b := by
  have update : a.hints.update = b.hints.update := by
    rw [ha.update, hb.update, max?_congr (mem_map_congr same _)]
  have load : a.hints.load = b.hints.load := by
    rw [ha.load, hb.load, max?_congr (mem_map_congr same _)]
  have sizes (size : UInt64) : size ∈ rawSizes xs ↔ size ∈ rawSizes ys :=
    mem_map_congr (fun s => by rw [List.mem_filter, List.mem_filter, same]) _ size
  have suites := ha.toMergedFrom.alike hb.toMergedFrom (mem_map_congr same _)
  exact ⟨suites, congrArg₂ RetryHints.mk update load, by rw [ha.safeSize, hb.safeSize, min?_congr sizes]⟩

end TransactionSuite

namespace Selection

theorem alike_of_offers [FlagSpace] {first second : Selection} {available : BackendSet}
    (same : ∀ id, first.Offers available id ↔ second.Offers available id) (p q : Preferences) :
    (∀ suiteOf : BackendId → ImplicitSuite,
      (Merge.all ((Candidates.resolve first p available).toList.map suiteOf)).Alike
        (Merge.all ((Candidates.resolve second q available).toList.map suiteOf))) ∧
    (∀ suiteOf : BackendId → ExplicitSuite,
      (Merge.all ((Candidates.resolve first p available).toList.map suiteOf)).Alike
        (Merge.all ((Candidates.resolve second q available).toList.map suiteOf))) ∧
    (∀ suiteOf : BackendId → TransactionalSuite,
      (Merge.all ((Candidates.resolve first p available).toList.map suiteOf)).Alike
        (Merge.all ((Candidates.resolve second q available).toList.map suiteOf))) := by
  have members (id : BackendId) : id ∈ (Candidates.resolve first p available).toList ↔
      id ∈ (Candidates.resolve second q available).toList := by
    rw [Candidates.mem_toList_resolve, Candidates.mem_toList_resolve, same]
  refine ⟨fun suiteOf => ?_, fun suiteOf => ?_, fun suiteOf => ?_⟩
  · exact (Suite.mergedFrom_all _).alike (Suite.mergedFrom_all _) (mem_map_congr members suiteOf)
  · exact (Suite.mergedFrom_all _).alike (Suite.mergedFrom_all _) (mem_map_congr members suiteOf)
  · exact (TransactionSuite.mergedFrom_all _).alike (TransactionSuite.mergedFrom_all _)
      (mem_map_congr members suiteOf)

theorem alike_of_offers_reordered :
    let available : BackendSet := BackendId.native.asSet ∪ BackendId.speculative.asSet
    let first : Selection := .ids [.speculative, .null, .native, .native]
    let second : Selection := .ids [.native, .wide, .speculative]
    let suite (selection : Selection) (preferences : Preferences) : TransactionalSuite :=
      Merge.all ((Candidates.resolve selection preferences available).toList.map fun id =>
        (id.backend?.map (·.transactional)).getD .empty)
    (∀ id, first.Offers available id ↔ second.Offers available id) ∧
      (suite first .callerOrder).Alike (suite second ∅) := by
  intro available first second suite
  have same : ∀ id, first.Offers available id ↔ second.Offers available id := by
    rintro (_ | position)
    · decide
    · revert position
      decide
  exact ⟨same, (alike_of_offers same .callerOrder ∅).2.2 _⟩

end Selection

end AtomicTables
