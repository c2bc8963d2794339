import AtomicTables.Backend.Basic
import AtomicTables.Proofs.Merge
import AtomicTables.Proofs.Registry.Candidates
import AtomicTables.Proofs.Table.Filled

/-!
# Priority of composition

In what is merged from the candidates of a selection, each slot comes from the one id that precedes
all others with that slot filled (`slot_of_preceding`).
-/

namespace AtomicTables

section

variable {σ : Type} [DecidableEq σ] [SlotFamily σ] [SlotFamily.Grouped σ] {F : σ → Type}

theorem Merge.table_all {α : Type} [Merge α] (table : α → Table F) (nothing : table Merge.nothing = .empty)
    (merge : ∀ a b, table (Merge.merge a b) = (table a).merge (table b)) (items : List α) (s : σ) :
    table (Merge.all items) s = items.findSome? fun item => table item s := by
  induction items using List.reverseRecOn with
  | nil => exact congrFun nothing s
  | append_singleton items item ih =>
      rw [all_concat, merge, Table.merge_apply, ih, List.findSome?_append, List.findSome?_singleton]

theorem Suite.table_all (suites : List (Suite F)) (s : σ) :
    (Merge.all suites).table s = suites.findSome? fun suite => suite.table s :=
  Merge.table_all (fun suite : Suite F => suite.table) rfl (fun _ _ => rfl) suites s

theorem TransactionSuite.table_all (suites : List (TransactionSuite F)) (s : σ) :
    (Merge.all suites).table s = suites.findSome? fun suite => suite.table s :=
  Merge.table_all (fun suite : TransactionSuite F => suite.table) rfl (fun _ _ => rfl) suites s

end

namespace Selection

variable (selection : Selection) (preferences : Preferences) (available : BackendSet)

/-- What a slot holds when `filling` tells what each id fills it with: nothing if no offered id fills
it, and otherwise the filling of the one offered id that precedes every other offered id with a filling. -/
def Decides {β : Type} (filling : BackendId → Option β) (slot : Option β) : Prop :=
  (slot = none ↔ ∀ id, selection.Offers available id → filling id = none) ∧
  (slot ≠ none → ∃! id, selection.Offers available id ∧ filling id ≠ none ∧ slot = filling id ∧
    ∀ other, selection.Offers available other → filling other ≠ none → other ≠ id →
      selection.Precedes preferences id other)

theorem decides_findSome {β : Type} (filling : BackendId → Option β) {ids : List BackendId}
    (offered : ∀ id, id ∈ ids ↔ selection.Offers available id)
    (inOrder : ids.Pairwise (selection.Precedes preferences)) :
    selection.Decides preferences available filling (ids.findSome? filling) := by
  constructor
  · simp only [List.findSome?_eq_none_iff, offered]
  · intro filled
    obtain ⟨value, found⟩ := Option.ne_none_iff_exists'.1 filled
    obtain ⟨before, id, after, rfl, fills, passed⟩ := List.findSome?_eq_some_iff.1 found
    have precedes : ∀ other, selection.Offers available other → filling other ≠ none → other ≠ id →
        selection.Precedes preferences id other := by
      intro other mem otherFills different
      have later : other ∈ after := by
        rcases List.mem_append.1 ((offered other).2 mem) with early | late
        · exact absurd (passed other early) otherFills
        · exact (List.mem_cons.1 late).resolve_left different
      exact (List.pairwise_cons.1 (List.pairwise_append.1 inOrder).2.1).1 other later
    refine ⟨id, ⟨(offered id).1 (by simp), by simp [fills], found.trans fills.symm, precedes⟩, ?_⟩
    rintro rival ⟨mem, rivalFills, -, rivalPrecedes⟩
    by_contra different
    have back := rivalPrecedes id ((offered id).1 (by simp)) (by simp [fills]) (Ne.symm different)
    exact back.asymm (precedes rival mem rivalFills different)

theorem slot_of_preceding [FlagSpace] :
    (∀ (suiteOf : BackendId → ImplicitSuite) (s : ObjectSlot),
      selection.Decides preferences available (fun id => (suiteOf id).table s)
        ((Merge.all ((Candidates.resolve selection preferences available).toList.map suiteOf)).table s)) ∧
    (∀ (suiteOf : BackendId → ExplicitSuite) (s : ObjectSlot),
      selection.Decides preferences available (fun id => (suiteOf id).table s)
        ((Merge.all ((Candidates.resolve selection preferences available).toList.map suiteOf)).table s)) ∧
    (∀ (suiteOf : BackendId → TransactionalSuite) (s : TransactionSlot),
      selection.Decides preferences available (fun id => (suiteOf id).table s)
        ((Merge.all ((Candidates.resolve selection preferences available).toList.map suiteOf)).table s)) := by
  have offered (id : BackendId) : id ∈ (Candidates.resolve selection preferences available).toList ↔
      selection.Offers available id := Candidates.mem_toList_resolve selection preferences available
  have inOrder := Candidates.pairwise_toList_resolve selection preferences available
  refine ⟨fun suiteOf s => ?_, fun suiteOf s => ?_, fun suiteOf s => ?_⟩
  · rw [Suite.table_all, List.findSome?_map]
    exact selection.decides_findSome preferences available _ offered inOrder
  · rw [Suite.table_all, List.findSome?_map]
    exact selection.decides_findSome preferences available _ offered inOrder
  · rw [TransactionSuite.table_all, List.findSome?_map]
    exact selection.decides_findSome preferences available _ offered inOrder

end Selection

end AtomicTables
