import AtomicTables.Proofs.BitSet
import AtomicTables.Proofs.Occurrences
import AtomicTables.Registry.Candidates
import Mathlib.Data.List.Perm.Subperm

/-!
# What candidates hold

The candidates are a list without repetitions, for which there is always room (`Lists.push`). Those
that a selection resolves to are the available ids of the selection, each once
(`mem_toList_resolve`), in their order of precedence (`pairwise_toList_resolve`).
-/

namespace AtomicTables

namespace Candidates

structure Lists (c : Candidates) (ids : List BackendId) : Prop where
  nodup : ids.Nodup
  noNull : .null ∉ ids
  size : c.size = ids.length
  places : c.places.toList = ids ++ List.replicate (maxCandidates - ids.length) .null
  seen : ∀ id ≠ .null, c.seen.contains id.asSet ↔ id ∈ ids

theorem length_le_maxCandidates {ids : List BackendId} (nodup : ids.Nodup) (noNull : .null ∉ ids) :
    ids.length ≤ maxCandidates := by
  have bits : ids ⊆ (List.finRange 32).map .bit := by
    intro id mem
    cases id with
    | null => exact absurd mem noNull
    | bit position => exact List.mem_map_of_mem (List.mem_finRange position)
  simpa [maxCandidates] using (nodup.subperm bits).length_le

theorem lists_empty : empty.Lists [] := by
  refine ⟨List.nodup_nil, List.not_mem_nil, rfl, rfl, ?_⟩
  intro id nonNull
  cases id with
  | null => exact absurd rfl nonNull
  | bit position => simp [empty, BackendId.contains_asSet_bit]

theorem Lists.toList {c : Candidates} {ids : List BackendId} (h : c.Lists ids) : c.toList = ids := by
  rw [Candidates.toList, h.places, h.size, List.take_left']
  rfl

theorem Lists.unique {c d : Candidates} {ids : List BackendId} (hc : c.Lists ids) (hd : d.Lists ids) :
    c = d := by
  have places : c.places = d.places := Vector.toList_inj.1 (hc.places.trans hd.places.symm)
  have size : c.size = d.size := hc.size.trans hd.size.symm
  have seen : c.seen = d.seen := BackendSet.ext_contains fun id nonNull =>
    (hc.seen id nonNull).trans (hd.seen id nonNull).symm
  obtain ⟨_, _, _⟩ := c
  obtain ⟨_, _, _⟩ := d
  obtain rfl := places
  obtain rfl := size
  obtain rfl := seen
  rfl

theorem Lists.ext {c d : Candidates} {ids ids' : List BackendId} (hc : c.Lists ids) (hd : d.Lists ids')
    (same : c.toList = d.toList) : c = d := by
  rw [hc.toList, hd.toList] at same
  exact hc.unique (same ▸ hd)

theorem Lists.seen_eq {c : Candidates} {ids : List BackendId} (h : c.Lists ids) :
    c.seen = .unions (c.toList.map (·.asSet)) := by
  refine BackendSet.ext_contains fun id nonNull => ?_
  rw [h.seen id nonNull, BackendId.contains_unions_asSet nonNull, h.toList]

theorem Lists.push {c : Candidates} {ids : List BackendId} (h : c.Lists ids) (id : BackendId) :
    (c.push id).Lists (if id = .null ∨ id ∈ ids then ids else ids ++ [id]) := by
  by_cases known : id = .null ∨ id ∈ ids
  · have ignored : id = .null ∨ c.seen.contains id.asSet := by
      by_cases null : id = .null
      · exact .inl null
      · exact .inr ((h.seen id null).2 (known.resolve_left null))
    rw [if_pos known, Candidates.push, if_pos ignored]
    exact h
  · obtain ⟨nonNull, fresh⟩ := not_or.1 known
    have unseen : ¬ (id = .null ∨ c.seen.contains id.asSet) := by
      simp [nonNull, h.seen id nonNull, fresh]
    have nodup : (ids ++ [id]).Nodup := by
      simpa [List.nodup_append, h.nodup] using fun a mem (same : a = id) => fresh (same ▸ mem)
    have noNull : .null ∉ ids ++ [id] := by simp [h.noNull, Ne.symm nonNull]
    have room : ids.length + 1 ≤ maxCandidates := by
      simpa using length_le_maxCandidates nodup noNull
    have free : c.size < maxCandidates := h.size ▸ room
    rw [if_neg known, Candidates.push, if_neg unseen, dif_pos free]
    refine ⟨nodup, noNull, by simp [h.size], ?_, ?_⟩
    · have rest : maxCandidates - ids.length = maxCandidates - (ids.length + 1) + 1 := by omega
      rw [Vector.toList_set, h.places, h.size, rest, List.replicate_succ]
      simp
    · intro other otherNonNull
      cases id with
      | null => exact absurd rfl nonNull
      | bit i =>
          cases other with
          | null => exact absurd rfl otherNonNull
          | bit j =>
              have old := h.seen (.bit j) otherNonNull
              rw [BackendId.contains_asSet_bit] at old ⊢
              have swap : i.val = j.val ↔ j.val = i.val := eq_comm
              simp [BackendId.has_asSet_bit, old, Fin.ext_iff, swap]

theorem lists_pushAll (ids : List BackendId) :
    (empty.pushAll ids).Lists (ids.filter (· != .null)).eraseDups := by
  induction ids using List.reverseRecOn with
  | nil => exact lists_empty
  | append_singleton ids id ih =>
      have pushed : empty.pushAll (ids ++ [id]) = (empty.pushAll ids).push id := by simp [pushAll]
      rw [pushed]
      convert ih.push id using 1
      by_cases null : id = .null
      · simp [null]
      · simp [null, List.filter_append, Occurrences.eraseDups_concat]

end Candidates

def Selection.listed : Selection → List BackendId
  | .all => registry.map (·.id)
  | .ids list => list

def Selection.keepsOrder : Selection → Preferences → Bool
  | .all, _ => false
  | .ids _, preferences => preferences.contains Preferences.callerOrder

def Selection.Offers (selection : Selection) (available : BackendSet) (id : BackendId) : Prop :=
  id ∈ selection.listed ∧ id.isIn available

instance (selection : Selection) (available : BackendSet) (id : BackendId) :
    Decidable (selection.Offers available id) :=
  inferInstanceAs (Decidable (_ ∧ _))

/-- The cheaper kind comes first, and of one kind the id listed first; kinds do not count where the
order of the list is kept. -/
def Selection.Precedes (selection : Selection) (preferences : Preferences) (a b : BackendId) : Prop :=
  let earlier := selection.listed.idxOf a < selection.listed.idxOf b
  if selection.keepsOrder preferences then earlier
  else a.kind.rank < b.kind.rank ∨ (a.kind.rank = b.kind.rank ∧ earlier)

theorem Selection.Precedes.asymm {selection : Selection} {preferences : Preferences} {a b : BackendId}
    (h : selection.Precedes preferences a b) : ¬ selection.Precedes preferences b a := by
  unfold Selection.Precedes at *
  split at h <;> simp_all <;> omega

theorem BackendKind.mem_byOverhead (kind : BackendKind) : kind ∈ BackendKind.byOverhead := by
  cases kind <;> decide

theorem BackendKind.pairwise_byOverhead :
    BackendKind.byOverhead.Pairwise fun a b => a.rank < b.rank := by decide

namespace Candidates

variable (selection : Selection) (preferences : Preferences) (available : BackendSet)

theorem mem_rankedIds {ids : List BackendId} {id : BackendId} :
    id ∈ rankedIds ids available ↔ id ∈ ids ∧ id.isIn available := by
  simp [rankedIds, BackendKind.mem_byOverhead]

theorem kind_of_mem_registry : ∀ r ∈ registry, r.id.kind = r.kind := by decide

theorem consulted_all : consulted .all preferences available = rankedIds (registry.map (·.id)) available := by
  rw [consulted, rankedIds]
  refine congrArg (BackendKind.byOverhead.flatMap ·) (funext fun kind => ?_)
  rw [List.filter_map]
  refine congrArg _ (List.filter_congr fun r entry => ?_)
  rw [Function.comp_apply, kind_of_mem_registry r entry, Bool.and_comm]

theorem consulted_eq : consulted selection preferences available =
    if selection.keepsOrder preferences then selection.listed.filter (·.isIn available)
    else rankedIds selection.listed available := by
  cases selection with
  | all => exact consulted_all preferences available
  | ids => rfl

theorem mem_consulted {id : BackendId} :
    id ∈ consulted selection preferences available ↔ selection.Offers available id := by
  rw [consulted_eq, Selection.Offers]
  split
  · rw [List.mem_filter]
  · exact mem_rankedIds available

theorem eraseDups_consulted : (consulted selection preferences available).eraseDups =
    if selection.keepsOrder preferences then selection.listed.eraseDups.filter (·.isIn available)
    else rankedIds selection.listed.eraseDups available := by
  rw [consulted_eq]
  split
  · exact Occurrences.eraseDups_filter _ _
  · exact Occurrences.eraseDups_flatMap_classes _ _ _ (by decide)

theorem lists_resolve : (resolve selection preferences available).Lists
    (consulted selection preferences available).eraseDups := by
  have nonNull : (consulted selection preferences available).filter (· != .null) =
      consulted selection preferences available := by
    refine List.filter_eq_self.2 fun id mem => ?_
    have isIn := ((mem_consulted selection preferences available).1 mem).2
    exact (Bool.and_eq_true_iff.1 isIn).1
  have pushed := lists_pushAll (consulted selection preferences available)
  rwa [nonNull] at pushed

theorem toList_resolve : (resolve selection preferences available).toList =
    (consulted selection preferences available).eraseDups :=
  (lists_resolve selection preferences available).toList

theorem mem_toList_resolve {id : BackendId} :
    id ∈ (resolve selection preferences available).toList ↔ selection.Offers available id := by
  rw [toList_resolve, List.mem_eraseDups, mem_consulted]

theorem pairwise_toList_resolve :
    (resolve selection preferences available).toList.Pairwise (selection.Precedes preferences) := by
  have inOrder := Occurrences.pairwise_idxOf_eraseDups selection.listed
  rw [toList_resolve, eraseDups_consulted]
  split
  · rename_i keeps
    refine (inOrder.filter _).imp fun earlier => ?_
    simpa [Selection.Precedes, keeps] using earlier
  · rename_i ranks
    refine List.pairwise_flatMap.2 ⟨fun kind _ => ?_, ?_⟩
    · refine (inOrder.filter _).imp_of_mem fun {a b} ha hb earlier => ?_
      simp only [List.mem_filter, Bool.and_eq_true, beq_iff_eq] at ha hb
      simp [Selection.Precedes, ranks, ha.2.2, hb.2.2, earlier]
    · refine BackendKind.pairwise_byOverhead.imp fun cheaper a ha b hb => ?_
      simp only [List.mem_filter, Bool.and_eq_true, beq_iff_eq] at ha hb
      simp [Selection.Precedes, ranks, ha.2.2, hb.2.2, cheaper]

end Candidates

end AtomicTables
