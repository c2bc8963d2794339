import AtomicTables.Proofs.Registry.Candidates

/-!
# Ids without a registration

The registry has no entry for most ids. They are dropped like ids that are not available, but only because an
availability set that capabilities give does not hold them. A list is resolved by the set that it is given, so
an id of which this set holds the bit is kept whether it is registered or not
(`ignoresUnregistered_iff_offers`).
-/

namespace AtomicTables

def BackendId.isRegistered (id : BackendId) : Bool := id.registration?.isSome

theorem BackendId.isRegistered_iff (id : BackendId) : id.isRegistered ↔ ∃ r ∈ registry, r.id = id := by
  simp [isRegistered, registration?, List.find?_isSome]

theorem BackendId.isIn_availableWith (id : BackendId) (capabilities : Capabilities) :
    id.isIn (availableWith capabilities) ↔ ∃ r ∈ registry, r.id = id ∧ r.isEnabled capabilities := by
  have ids : (registry.filter (·.isEnabled capabilities)).map (·.id.asSet) =
      ((registry.filter (·.isEnabled capabilities)).map (·.id)).map asSet := by
    rw [List.map_map]
    rfl
  rw [isIn, Bool.and_eq_true, bne_iff_ne]
  by_cases null : id = .null
  · subst null
    simp [registry, native, wide, speculative]
  · rw [and_iff_right null, availableWith, ids, contains_unions_asSet null, List.mem_map]
    simp only [List.mem_filter, and_assoc]
    exact exists_congr fun r => and_congr_right fun _ => and_comm

theorem BackendId.isRegistered_of_isIn_availableWith {id : BackendId} {capabilities : Capabilities}
    (enabled : id.isIn (availableWith capabilities)) : id.isRegistered := by
  obtain ⟨r, mem, same, -⟩ := (id.isIn_availableWith capabilities).1 enabled
  exact (isRegistered_iff id).2 ⟨r, mem, same⟩

namespace Selection

def filter (p : BackendId → Bool) : Selection → Selection
  | .all => .all
  | .ids list => .ids (list.filter p)

theorem consulted_filter {selection : Selection} {available : BackendSet} {p : BackendId → Bool}
    (kept : ∀ id, selection.Offers available id → p id) (preferences : Preferences) :
    Candidates.consulted (selection.filter p) preferences available =
      Candidates.consulted selection preferences available := by
  cases selection with
  | all => rfl
  | ids list =>
      have same {q : BackendId → Bool} (enabled : ∀ id, q id → id.isIn available) :
          (list.filter p).filter q = list.filter q := by
        rw [List.filter_filter]
        refine List.filter_congr fun id mem => ?_
        cases passes : q id with
        | false => rfl
        | true => exact kept id ⟨mem, enabled id passes⟩
      have ranked : Candidates.rankedIds (list.filter p) available = Candidates.rankedIds list available :=
        congrArg (BackendKind.byOverhead.flatMap ·)
          (funext fun kind => same fun id passes => (Bool.and_eq_true_iff.1 passes).1)
      simp only [filter, Candidates.consulted, ranked, same fun id enabled => enabled]

structure IgnoresUnregistered (selection : Selection) (preferences : Preferences) (available : BackendSet) :
    Prop where
  registered : ∀ id ∈ (Candidates.resolve selection preferences available).toList, id.isRegistered
  dropped : Candidates.resolve selection preferences available =
    Candidates.resolve (selection.filter (·.isRegistered)) preferences available

variable (selection : Selection) (preferences : Preferences)

theorem ignoresUnregistered_iff (available : BackendSet) :
    selection.IgnoresUnregistered preferences available ↔
      ∀ id, selection.Offers available id → id.isRegistered := by
  constructor
  · intro ignores id offers
    exact ignores.registered id ((Candidates.mem_toList_resolve ..).2 offers)
  · intro registered
    refine ⟨fun id mem => registered id ((Candidates.mem_toList_resolve ..).1 mem), ?_⟩
    rw [Candidates.resolve, Candidates.resolve, consulted_filter registered]

theorem ignoresUnregistered_iff_offers (available : BackendSet) (capabilities : Capabilities) :
    (selection.IgnoresUnregistered preferences available ↔
      ∀ id, selection.Offers available id → id.isRegistered) ∧
    all.IgnoresUnregistered preferences available ∧
    selection.IgnoresUnregistered preferences (availableWith capabilities) := by
  refine ⟨selection.ignoresUnregistered_iff preferences available, ?_, ?_⟩
  · refine (all.ignoresUnregistered_iff preferences available).2 fun id offers => ?_
    obtain ⟨r, mem, same⟩ := List.mem_map.1 offers.1
    exact id.isRegistered_iff.2 ⟨r, mem, same⟩
  · refine (selection.ignoresUnregistered_iff preferences _).2 fun id offers => ?_
    exact BackendId.isRegistered_of_isIn_availableWith offers.2

/-- The set holds a bit that belongs to no backend, and a list with the id of this bit keeps it. -/
theorem not_ignoresUnregistered_of_stray :
    let stray : BackendId := .bit 12
    stray.isRegistered = false ∧
    (Candidates.resolve (.ids [stray]) ∅ stray.asSet).toList = [stray] ∧
    ¬ IgnoresUnregistered (.ids [stray]) ∅ stray.asSet := by
  intro stray
  have unregistered : stray.isRegistered = false := by decide
  have resolved : (Candidates.resolve (.ids [stray]) ∅ stray.asSet).toList = [stray] := by decide
  refine ⟨unregistered, resolved, fun ignores => ?_⟩
  have kept : stray ∈ (Candidates.resolve (.ids [stray]) ∅ stray.asSet).toList := by
    rw [resolved]
    exact List.mem_singleton_self stray
  exact absurd (unregistered.symm.trans (ignores.registered stray kept)) Bool.false_ne_true

end Selection

end AtomicTables
