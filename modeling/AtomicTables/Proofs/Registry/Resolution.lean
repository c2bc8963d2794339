import AtomicTables.Proofs.Registry.Candidates

/-!
# The order of candidates

Going through a list once for each kind is a stable sort. So the candidates of a list are its available ids
in the order of their first occurrences, or that sequence sorted by what a call costs (`resolves_exactly`).
-/

namespace AtomicTables

namespace Ranked
open List

variable {α : Type} (rank : α → Nat) (l : List α)

def sorted : List α := l.mergeSort fun a b => rank a ≤ rank b

theorem atMost_trans (a b c : α) : decide (rank a ≤ rank b) → decide (rank b ≤ rank c) →
    decide (rank a ≤ rank c) := by
  simpa using Nat.le_trans

theorem atMost_total (a b : α) : decide (rank a ≤ rank b) || decide (rank b ≤ rank a) := by
  simpa using Nat.le_total (rank a) (rank b)

theorem pairwise_sorted : (sorted rank l).Pairwise fun a b => rank a ≤ rank b :=
  (pairwise_mergeSort (atMost_trans rank) (atMost_total rank) l).imp of_decide_eq_true

theorem perm_sorted : (sorted rank l).Perm l := mergeSort_perm l _

theorem sorted_of_pairwise {l : List α} (inOrder : l.Pairwise fun a b => rank a ≤ rank b) :
    sorted rank l = l :=
  mergeSort_of_pairwise (by simpa using inOrder)

theorem filter_sorted (k : Nat) : (sorted rank l).filter (rank · == k) = l.filter (rank · == k) := by
  have alike : (l.filter (rank · == k)).Pairwise fun a b => decide (rank a ≤ rank b) := by
    refine Pairwise.imp_of_mem (fun {a b} ha hb _ => ?_) (pairwise_of_forall fun _ _ => trivial)
    simp only [mem_filter, beq_iff_eq] at ha hb
    simp [ha.2, hb.2]
  have kept : (l.filter (rank · == k)).Sublist (sorted rank l) :=
    sublist_mergeSort (atMost_trans rank) (atMost_total rank) alike filter_sublist
  have sub := kept.filter (rank · == k)
  rw [filter_filter] at sub
  simp only [Bool.and_self] at sub
  exact (sub.eq_of_length (((perm_sorted rank l).filter _).length_eq.symm)).symm

theorem pairwise_sorted_of_pairwise {R : α → α → Prop} {l : List α} (inOrder : l.Pairwise R) :
    (sorted rank l).Pairwise fun a b => rank a < rank b ∨ (rank a = rank b ∧ R a b) := by
  rw [pairwise_iff_forall_sublist] at inOrder ⊢
  intro a b pair
  have ranks : rank a ≤ rank b := pairwise_iff_forall_sublist.1 (pairwise_sorted rank l) pair
  refine (Nat.lt_or_eq_of_le ranks).imp_right fun same => ⟨same, inOrder ?_⟩
  have ofRank := pair.filter (rank · == rank a)
  rw [filter_sorted, filter_cons_of_pos (by simp), filter_cons_of_pos (by simp [same])] at ofRank
  exact ofRank.trans filter_sublist

end Ranked

namespace Preferences

theorem not_contains_diff (p : Preferences) : ¬ (p \ callerOrder).contains callerOrder := by
  have wish : callerOrder.has 0 = true := by decide
  intro contains
  have kept := (BitSet.contains_iff (p \ callerOrder) callerOrder).1 contains 0 wish
  simp [wish] at kept

end Preferences

namespace Candidates

def offered (ids : List BackendId) (available : BackendSet) : List BackendId :=
  (ids.filter (·.isIn available)).eraseDups

variable (selection : Selection) (preferences : Preferences) (available : BackendSet)

theorem nodup_toList_resolve : (resolve selection preferences available).toList.Nodup := by
  have lists := lists_resolve selection preferences available
  rw [lists.toList]
  exact lists.nodup

theorem toList_resolve_of_keepsOrder (keeps : selection.keepsOrder preferences) :
    (resolve selection preferences available).toList = offered selection.listed available := by
  rw [toList_resolve, consulted_eq, if_pos keeps, offered]

theorem toList_resolve_of_ranks (ranks : ¬ selection.keepsOrder preferences) :
    (resolve selection preferences available).toList =
      Ranked.sorted (·.kind.rank) (offered selection.listed available) := by
  have inOrder : (offered selection.listed available).Pairwise fun a b =>
      selection.listed.idxOf a < selection.listed.idxOf b := by
    rw [offered, Occurrences.eraseDups_filter]
    exact (Occurrences.pairwise_idxOf_eraseDups _).filter _
  have sorts : (Ranked.sorted (·.kind.rank) (offered selection.listed available)).Pairwise
      (selection.Precedes preferences) := by
    refine (Ranked.pairwise_sorted_of_pairwise _ inOrder).imp fun {a b} precedes => ?_
    simpa [Selection.Precedes, ranks] using precedes
  have same : (resolve selection preferences available).toList.Perm
      (Ranked.sorted (·.kind.rank) (offered selection.listed available)) := by
    refine List.Perm.trans ?_ (Ranked.perm_sorted _ _).symm
    have distinct : (offered selection.listed available).Nodup :=
      inOrder.imp fun {a b} before (same : a = b) => Nat.lt_irrefl _ (same ▸ before)
    refine (List.perm_ext_iff_of_nodup (nodup_toList_resolve ..) distinct).2 fun id => ?_
    rw [mem_toList_resolve, Selection.Offers, offered, List.mem_eraseDups, List.mem_filter]
  refine same.eq_of_pairwise (fun a b _ _ first second => absurd second first.asymm) ?_ sorts
  exact pairwise_toList_resolve selection preferences available

theorem resolve_congr {selection other : Selection} {preferences preferences' : Preferences}
    {available : BackendSet} (same : (resolve selection preferences available).toList =
      (resolve other preferences' available).toList) :
    resolve selection preferences available = resolve other preferences' available :=
  (lists_resolve ..).ext (lists_resolve ..) same

theorem resolve_all_eq (others : Preferences) : resolve .all preferences available =
    resolve (.ids (registry.map (·.id))) (others \ Preferences.callerOrder) available := by
  refine resolve_congr ?_
  rw [toList_resolve_of_ranks .all preferences available Bool.false_ne_true,
    toList_resolve_of_ranks (.ids _) _ available (Preferences.not_contains_diff others)]
  rfl

theorem offered_toList_resolve : offered (resolve selection preferences available).toList available =
    (resolve selection preferences available).toList := by
  have enabled : (resolve selection preferences available).toList.filter (·.isIn available) =
      (resolve selection preferences available).toList :=
    List.filter_eq_self.2 fun id mem => ((mem_toList_resolve ..).1 mem).2
  rw [offered, enabled]
  exact Occurrences.eraseDups_of_nodup (nodup_toList_resolve ..)

theorem resolve_again : resolve (.ids (resolve selection preferences available).toList) preferences available =
    resolve selection preferences available := by
  refine resolve_congr ?_
  by_cases caller : preferences.contains Preferences.callerOrder
  · rw [toList_resolve_of_keepsOrder (.ids _) _ _ caller]
    exact offered_toList_resolve ..
  · rw [toList_resolve_of_ranks (.ids _) _ _ caller, Selection.listed, offered_toList_resolve]
    refine Ranked.sorted_of_pairwise _ ?_
    have ranks : ¬ selection.keepsOrder preferences := by
      cases selection with
      | all => exact Bool.false_ne_true
      | ids list => exact caller
    rw [toList_resolve_of_ranks _ _ _ ranks]
    exact Ranked.pairwise_sorted ..

/-- The candidates of a list are its available ids, each once, in the order of their first occurrences or in
this order sorted by rank. All backends are resolved as the registry is without a wish for its order. The set
that goes with the candidates has just them, and they resolve to themselves. -/
theorem resolves_exactly :
    (∀ ids,
      let resolved := (resolve (.ids ids) preferences available).toList
      (∀ id, resolved.count id = if id ∈ ids ∧ id ≠ .null ∧ available.contains id.asSet then 1 else 0) ∧
      resolved = if preferences.contains Preferences.callerOrder then offered ids available
        else Ranked.sorted (·.kind.rank) (offered ids available)) ∧
    (∀ others : Preferences, resolve .all preferences available =
      resolve (.ids (registry.map (·.id))) (others \ Preferences.callerOrder) available) ∧
    (∀ selection,
      let c := resolve selection preferences available
      c.seen = .unions (c.toList.map (·.asSet)) ∧ resolve (.ids c.toList) preferences available = c) := by
  refine ⟨fun ids => ⟨fun id => ?_, ?_⟩, resolve_all_eq preferences available, fun selection => ?_⟩
  · rw [(nodup_toList_resolve ..).count]
    simp [mem_toList_resolve, Selection.Offers, Selection.listed, BackendId.isIn]
  · split
    · rename_i caller
      exact toList_resolve_of_keepsOrder (.ids ids) preferences available caller
    · rename_i ranks
      exact toList_resolve_of_ranks (.ids ids) preferences available ranks
  · exact ⟨(lists_resolve ..).seen_eq, resolve_again ..⟩

end Candidates

end AtomicTables
