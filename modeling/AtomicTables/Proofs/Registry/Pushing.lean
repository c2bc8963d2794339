import AtomicTables.Proofs.Registry.Candidates
import AtomicTables.Proofs.Registry.Conversion

/-!
# Pushing candidates

Candidates are told apart by a set of bits and kept in a fixed number of places. Both agree after every push: there
is one bit for each place in use, so a place is free for every bit that is not in the set (`represents_pushes`).
-/

namespace AtomicTables.Candidates

theorem Lists.count_seen {c : Candidates} {ids : List BackendId} (h : c.Lists ids) : c.seen.count = c.size := by
  have members : ∀ id, id ∈ c.seen.ids ↔ id ∈ ids := by
    intro id
    cases id with
    | null => exact iff_of_false c.seen.null_not_mem_ids h.noNull
    | bit i =>
        have nonNull : BackendId.bit i ≠ .null := by simp
        rw [BackendSet.bit_mem_ids, ← BackendId.contains_asSet_bit, h.seen _ nonNull]
  have same : c.seen.ids.Perm ids := (List.perm_ext_iff_of_nodup c.seen.nodup_ids h.nodup).2 members
  rw [← BackendSet.length_ids, same.length_eq, h.size]

theorem Lists.unused {c : Candidates} {ids : List BackendId} (h : c.Lists ids) {i : Nat} (inside : i < maxCandidates)
    (after : c.size ≤ i) : c.places[i] = .null := by
  have beyond : ids.length ≤ i := h.size ▸ after
  have place : c.places.toList[i]? = some .null := by
    rw [h.places, List.getElem?_append_right beyond, List.getElem?_replicate, if_pos (by omega)]
  rw [Vector.getElem?_toList, Vector.getElem?_eq_getElem inside] at place
  exact Option.some.inj place

structure Represents (c : Candidates) (pushed : List BackendId) : Prop where
  toList : c.toList = (pushed.filter (· != .null)).eraseDups
  size : c.size = c.toList.length
  bounded : c.size ≤ maxCandidates
  seen : c.seen = .unions (c.toList.map (·.asSet))
  count : c.seen.count = c.size
  unused : ∀ (i : Nat) (inside : i < maxCandidates), c.size ≤ i → c.places[i] = .null
  fresh : ∀ id, id ≠ .null → id ∉ pushed → (c.push id).toList = c.toList ++ [id]

theorem represents_pushAll (pushed : List BackendId) : (empty.pushAll pushed).Represents pushed := by
  have lists := lists_pushAll pushed
  refine ⟨lists.toList, by rw [lists.toList, lists.size], ?bounded, lists.seen_eq, lists.count_seen,
    fun i inside after => lists.unused inside after, fun id nonNull fresh => ?fresh⟩
  case bounded => exact lists.size ▸ length_le_maxCandidates lists.nodup lists.noNull
  case fresh =>
    have unknown : ¬ (id = .null ∨ id ∈ (pushed.filter (· != .null)).eraseDups) := by
      simp [nonNull, fresh]
    have listed := lists.push id
    rw [if_neg unknown] at listed
    rw [listed.toList, lists.toList]

theorem represents_pushes :
    (∀ pushed, (empty.pushAll pushed).Represents pushed) ∧
    ∀ pushed pushed', empty.pushAll pushed = empty.pushAll pushed' ↔
      (empty.pushAll pushed).toList = (empty.pushAll pushed').toList :=
  ⟨represents_pushAll, fun pushed pushed' =>
    ⟨congrArg Candidates.toList, (lists_pushAll pushed).ext (lists_pushAll pushed')⟩⟩

end AtomicTables.Candidates
