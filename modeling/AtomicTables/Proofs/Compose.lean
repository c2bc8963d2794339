import AtomicTables.Compose
import AtomicTables.Proofs.Table.Merged

/-!
# What a process composes

Each width of words is served by one backend, and transactions by another one. What a process creates is
therefore known from which backends its selection offers (`creates_offered`).
-/

namespace AtomicTables

/-- The slots that a table leaves empty when one order is fixed for all calls. -/
def ObjectSlot.LeftOut (s : ObjectSlot) (order : MemoryOrder) : Prop :=
  s = .store ∧ ¬ order.validForStore ∨ (s = .load ∨ s = .testBit) ∧ ¬ order.validForLoad

instance (s : ObjectSlot) (order : MemoryOrder) : Decidable (s.LeftOut order) :=
  inferInstanceAs (Decidable (_ ∨ _))

theorem ObjectSlot.admits_iff (s : ObjectSlot) (order : MemoryOrder) : s.admits order ↔ ¬ s.LeftOut order := by
  cases s <;> simp [admits, LeftOut]

theorem Native.mem_widths (width : UInt64) : width.toNat ∈ widths ↔ width ∈ [1, 2, 4, 8] := by
  simp [widths, ← UInt64.toNat_inj]

theorem Wide.eq_width (bytes : UInt64) : bytes.toNat = width ↔ bytes = 16 := by
  simp [width, ← UInt64.toNat_inj]

theorem Alignment.permissive_le_natural {width : UInt64} (word : width ∈ [1, 2, 4, 8, 16]) :
    permissive ≤ ⟨width, width, 0⟩ := by
  simp only [List.mem_cons, List.not_mem_nil, or_false] at word
  rcases word with rfl | rfl | rfl | rfl | rfl <;> decide

variable [FlagSpace]

theorem BackendId.backend?_cases {id : BackendId} {b : Backend} (known : id.backend? = some b) :
    id = .native ∧ b = Native.backend ∨ id = .wide ∧ b = Wide.backend ∨
      id = .speculative ∧ b = Speculative.backend := by
  unfold backend? at known
  split at known
  · rename_i native
    exact .inl ⟨native, (Option.some.inj known).symm⟩
  · split at known
    · rename_i wide
      exact .inr (.inl ⟨wide, (Option.some.inj known).symm⟩)
    · split at known
      · rename_i speculative
        exact .inr (.inr ⟨speculative, (Option.some.inj known).symm⟩)
      · cases known

theorem Candidates.all_backends {α : Type} [Merge α] [Merge.Lawful α] (offer : Backend → α) (c : Candidates)
    (id : BackendId) {b : Backend} (known : id.backend? = some b)
    (others : ∀ other b', other ≠ id → other.backend? = some b' → offer b' = Merge.nothing)
    (neutral : Merge.merge Merge.nothing (offer b) = offer b) :
    Merge.all (c.backends.map offer) = if id ∈ c.toList then offer b else Merge.nothing := by
  have items (item : α) (mem : item ∈ c.backends.map offer) :
      item = Merge.nothing ∨ id ∈ c.toList ∧ item = offer b := by
    obtain ⟨b', consulted, rfl⟩ := List.mem_map.1 mem
    obtain ⟨other, listed, backend⟩ := List.mem_filterMap.1 consulted
    by_cases same : other = id
    · subst same
      exact .inr ⟨listed, congrArg offer (Option.some.inj (backend.symm.trans known))⟩
    · exact .inl (others other b' same backend)
  split
  · rename_i listed
    have mem : offer b ∈ c.backends.map offer :=
      List.mem_map_of_mem (List.mem_filterMap.2 ⟨id, listed, known⟩)
    exact Merge.all_eq_of_mem mem (fun item mem => (items item mem).imp_right And.right) neutral
  · rename_i unlisted
    exact Merge.all_eq_nothing fun item mem => (items item mem).resolve_right fun h => unlisted h.1

def ImplicitSuite.ofWidth (width : UInt64) (order : MemoryOrder)
    (operation : (s : ObjectSlot) → ImplicitOperation s) : ImplicitSuite :=
  ⟨fun s => if s.LeftOut order then none else some (operation s), ⟨width, width, 0⟩⟩

def ExplicitSuite.ofWidth (width : UInt64) (operation : (s : ObjectSlot) → ExplicitOperation s) :
    ExplicitSuite :=
  ⟨fun s => some (operation s), ⟨width, width, 0⟩⟩

namespace Native

theorem implicit_eq (width : UInt64) (order : MemoryOrder) : implicit width order =
    if width ∈ [1, 2, 4, 8] then .ofWidth width order (operation width.toNat ⟨order, order.failureOrder⟩)
    else Merge.nothing := by
  simp only [implicit, mem_widths, ObjectSlot.admits_iff, ite_not]
  rfl

theorem explicit_eq (width : UInt64) : explicit width =
    if width ∈ [1, 2, 4, 8] then .ofWidth width (explicitOperation width.toNat) else Merge.nothing := by
  simp only [explicit, mem_widths]
  rfl

end Native

namespace Wide

theorem implicit_eq (bytes : UInt64) (order : MemoryOrder) : implicit bytes order =
    if bytes = 16 then .ofWidth bytes order operation else Merge.nothing := by
  simp only [implicit, eq_width, ObjectSlot.admits_iff, ite_not]
  rfl

theorem explicit_eq (bytes : UInt64) : explicit bytes =
    if bytes = 16 then .ofWidth bytes explicitOperation else Merge.nothing := by
  simp only [explicit, eq_width]
  rfl

end Wide

namespace Candidates

theorem all_words {F : ObjectSlot → Type} (offer : Backend → Suite F) (c : Candidates) (width : UInt64)
    {native wide : Suite F}
    (nativeOffer : offer Native.backend = if width ∈ [1, 2, 4, 8] then native else Merge.nothing)
    (wideOffer : offer Wide.backend = if width = 16 then wide else Merge.nothing)
    (speculativeOffer : offer Speculative.backend = Merge.nothing)
    (natural : native.alignment = ⟨width, width, 0⟩ ∧ wide.alignment = ⟨width, width, 0⟩) :
    Merge.all (c.backends.map offer) =
      if width ∈ [1, 2, 4, 8] ∧ .native ∈ c.toList then native
      else if width = 16 ∧ .wide ∈ c.toList then wide
      else Merge.nothing := by
  by_cases word : width ∈ [1, 2, 4, 8]
  · have narrow : width ≠ 16 := by
      rintro rfl
      exact absurd word (by decide)
    rw [if_pos word] at nativeOffer
    rw [if_neg narrow] at wideOffer
    rw [c.all_backends offer .native rfl, nativeOffer]
    · simp only [word, narrow, true_and, false_and, if_false]
    · intro other b different known
      rcases BackendId.backend?_cases known with ⟨same, -⟩ | ⟨-, rfl⟩ | ⟨-, rfl⟩
      · exact absurd same different
      · exact wideOffer
      · exact speculativeOffer
    · rw [nativeOffer]
      exact Suite.nothing_merge
        (natural.1 ▸ Alignment.permissive_le_natural (List.mem_append_left [16] word))
  · rw [if_neg word] at nativeOffer
    rw [c.all_backends offer .wide rfl, wideOffer]
    · simp only [word, false_and, if_false, ← ite_and]
      exact if_congr And.comm rfl rfl
    · intro other b different known
      rcases BackendId.backend?_cases known with ⟨-, rfl⟩ | ⟨same, -⟩ | ⟨-, rfl⟩
      · exact nativeOffer
      · exact absurd same different
      · exact speculativeOffer
    · rw [wideOffer]
      split
      · rename_i broad
        exact Suite.nothing_merge (natural.2 ▸ Alignment.permissive_le_natural (by simp [broad]))
      · exact Merge.Lawful.nothing_idem

theorem implicit_eq (c : Candidates) (width : UInt64) (order : MemoryOrder) : c.implicit width order =
    if width ∈ [1, 2, 4, 8] ∧ .native ∈ c.toList then
      .ofWidth width order (Native.operation width.toNat ⟨order, order.failureOrder⟩)
    else if width = 16 ∧ .wide ∈ c.toList then .ofWidth width order Wide.operation
    else Merge.nothing :=
  all_words (fun b => b.implicit width order) c width (Native.implicit_eq width order)
    (Wide.implicit_eq width order) rfl ⟨rfl, rfl⟩

theorem explicit_eq (c : Candidates) (width : UInt64) : c.explicit width =
    if width ∈ [1, 2, 4, 8] ∧ .native ∈ c.toList then
      .ofWidth width (Native.explicitOperation width.toNat)
    else if width = 16 ∧ .wide ∈ c.toList then .ofWidth width Wide.explicitOperation
    else Merge.nothing :=
  all_words (fun b => b.explicit width) c width (Native.explicit_eq width) (Wide.explicit_eq width) rfl
    ⟨rfl, rfl⟩

theorem transactional_eq (c : Candidates) : c.transactional =
    if .speculative ∈ c.toList then Speculative.backend.transactional else Merge.nothing := by
  refine c.all_backends (fun b => b.transactional) .speculative rfl ?_ ?_
  · intro other b different known
    rcases BackendId.backend?_cases known with ⟨-, rfl⟩ | ⟨-, rfl⟩ | ⟨same, -⟩
    · rfl
    · rfl
    · exact absurd same different
  · exact TransactionSuite.nothing_merge le_rfl rfl

end Candidates

section Offered

variable (offers : BackendId → Prop) [DecidablePred offers]

def ImplicitSuite.offered (width : UInt64) (order : MemoryOrder) : ImplicitSuite :=
  if width ∈ [1, 2, 4, 8] ∧ offers .native then
    .ofWidth width order (Native.operation width.toNat ⟨order, order.failureOrder⟩)
  else if width = 16 ∧ offers .wide then .ofWidth width order Wide.operation
  else ⟨fun _ => none, ⟨1, 1, 0⟩⟩

def ExplicitSuite.offered (width : UInt64) : ExplicitSuite :=
  if width ∈ [1, 2, 4, 8] ∧ offers .native then .ofWidth width (Native.explicitOperation width.toNat)
  else if width = 16 ∧ offers .wide then .ofWidth width Wide.explicitOperation
  else ⟨fun _ => none, ⟨1, 1, 0⟩⟩

def TransactionalSuite.offered : TransactionalSuite :=
  if offers .speculative then ⟨⟨Speculative.table, ⟨1, 1, 0⟩⟩, ⟨20, 10⟩, 4096⟩
  else ⟨⟨fun _ => none, ⟨1, 1, 0⟩⟩, ⟨0, 0⟩, 0⟩

theorem ExplicitSuite.alignment_offered (width : UInt64) (order : MemoryOrder) :
    (ExplicitSuite.offered offers width).alignment = (ImplicitSuite.offered offers width order).alignment := by
  unfold offered ImplicitSuite.offered
  split
  · rfl
  · split <;> rfl

theorem ExplicitSuite.table_offered (width : UInt64) :
    (∀ s, ((ExplicitSuite.offered offers width).table s).isSome) ∨
      ∀ s, (ExplicitSuite.offered offers width).table s = none := by
  unfold offered
  split
  · exact .inl fun _ => rfl
  · split
    · exact .inl fun _ => rfl
    · exact .inr fun _ => rfl

theorem Speculative.table_eq_none_iff (s : TransactionSlot) :
    table s = none ↔ s = .abortSingle ∨ s = .depth := by
  cases s <;> simp [table]

end Offered

namespace Host

variable (p : HostState) (selection : Selection) (preferences : Preferences)

theorem createImplicit_run (width : UInt64) (order : MemoryOrder) :
    ((createImplicit width order preferences selection).run p).1 =
      .offered (selection.Offers (available.run p).1) width order := by
  have composed := (Candidates.resolve selection preferences (available.run p).1).implicit_eq width order
  simp only [Candidates.mem_toList_resolve] at composed
  exact composed

theorem createExplicit_run (width : UInt64) :
    ((createExplicit width preferences selection).run p).1 =
      .offered (selection.Offers (available.run p).1) width := by
  have composed := (Candidates.resolve selection preferences (available.run p).1).explicit_eq width
  simp only [Candidates.mem_toList_resolve] at composed
  exact composed

theorem createTransactional_run : ((createTransactional preferences selection).run p).1 =
    .offered (selection.Offers (available.run p).1) := by
  have composed := (Candidates.resolve selection preferences (available.run p).1).transactional_eq
  simp only [Candidates.mem_toList_resolve] at composed
  exact composed

/-- What a process creates is known from which backends its selection offers, whatever it holds available.
Preferences, order and repetition have no part in it. -/
theorem creates_offered :
    (∀ width order, ((createImplicit width order preferences selection).run p).1 =
      .offered (selection.Offers (available.run p).1) width order) ∧
    (∀ width, ((createExplicit width preferences selection).run p).1 =
      .offered (selection.Offers (available.run p).1) width) ∧
    (∀ width order, ((createExplicit width preferences selection).run p).1.alignment =
      ((createImplicit width order preferences selection).run p).1.alignment) ∧
    (∀ width, (∀ s, (((createExplicit width preferences selection).run p).1.table s).isSome) ∨
      ∀ s, ((createExplicit width preferences selection).run p).1.table s = none) ∧
    ((createTransactional preferences selection).run p).1 =
      .offered (selection.Offers (available.run p).1) ∧
    ∀ s, Speculative.table s = none ↔ s = .abortSingle ∨ s = .depth := by
  have implicitEq := createImplicit_run p selection preferences
  have explicitEq := createExplicit_run p selection preferences
  refine ⟨implicitEq, explicitEq, fun width order => ?_, fun width => ?_,
    createTransactional_run p selection preferences, Speculative.table_eq_none_iff⟩
  · rw [explicitEq, implicitEq]
    exact ExplicitSuite.alignment_offered _ width order
  · rw [explicitEq]
    exact ExplicitSuite.table_offered _ width

end Host

end AtomicTables
