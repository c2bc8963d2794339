import AtomicTables.Proofs.BitSet
import AtomicTables.Slot.Transaction
import AtomicTables.Table.Features

namespace AtomicTables

/-- Every slot is a store, a load, or in a record. -/
class SlotFamily.Grouped (σ : Type) [SlotFamily σ] : Prop where
  mem_slots (s : σ) : s ∈ (SlotFamily.slots : List σ)
  store : SlotFamily.category (SlotFamily.store : σ) = .loadStore ∧ SlotFamily.kind (SlotFamily.store : σ) = .store
  load : SlotFamily.category (SlotFamily.load : σ) = .loadStore ∧ SlotFamily.kind (SlotFamily.load : σ) = .load
  raw : ∀ record ∈ (SlotFamily.records : List (List σ)), (∃ s ∈ record, SlotFamily.category s = .raw) →
    ∀ s ∈ record, SlotFamily.category s = .raw

theorem ObjectSlot.mem_slots (s : ObjectSlot) : s ∈ (SlotFamily.slots : List ObjectSlot) := by
  cases s with
  | store | load | exchange | testBit => decide
  | compareExchange strength => cases strength <;> decide
  | changeBit change => cases change <;> decide
  | binary op fetch => cases op <;> cases fetch <;> decide
  | unary op fetch => cases op <;> cases fetch <;> decide

instance : SlotFamily.Grouped ObjectSlot := ⟨ObjectSlot.mem_slots, by decide, by decide, by decide⟩

theorem TransactionSlot.mem_slots (s : TransactionSlot) : s ∈ (SlotFamily.slots : List TransactionSlot) := by
  cases s with
  | object s =>
      have objects : (SlotFamily.slots : List ObjectSlot).map object <+: SlotFamily.slots := by decide
      exact objects.subset (List.mem_map_of_mem s.mem_slots)
  | _ => decide

instance : SlotFamily.Grouped TransactionSlot := ⟨TransactionSlot.mem_slots, by decide, by decide, by decide⟩

theorem SlotFamily.mem_slots_iff {σ : Type} [SlotFamily σ] (s : σ) :
    s ∈ (SlotFamily.slots : List σ) ↔
      s = SlotFamily.store ∨ s = SlotFamily.load ∨ ∃ record ∈ (SlotFamily.records : List (List σ)), s ∈ record := by
  simp [slots]

namespace Table

variable {σ : Type} {F : σ → Type}

theorem foldl_mergeRecord [DecidableEq σ] (lower t : Table F) (records : List (List σ)) (s : σ) :
    records.foldl lower.mergeRecord t s =
      if ∃ record ∈ records, s ∈ record then (t s).or (lower s) else t s := by
  induction records using List.reverseRecOn with
  | nil => simp
  | append_singleton records record ih =>
      rw [List.foldl_append, List.foldl_cons, List.foldl_nil, mergeRecord, ih]
      by_cases earlier : ∃ record ∈ records, s ∈ record
      · simp [earlier, Option.or_assoc, or_and_right, exists_or]
      · simp [earlier, or_and_right, exists_or]

theorem isVacant_iff (t : Table F) (record : List σ) : t.isVacant record ↔ ∀ s ∈ record, t s = none := by
  simp [isVacant]

variable [SlotFamily σ]

theorem isEmpty_eq (t : Table F) : t.isEmpty = t.filled.isEmpty := by
  have vacant : t.isEmpty ↔ ∀ s ∈ (SlotFamily.slots : List σ), t s = none := by
    simp only [isEmpty, Bool.and_eq_true, Option.isNone_iff_eq_none, List.all_eq_true, isVacant_iff,
      SlotFamily.slots, List.forall_mem_cons, List.mem_flatten, and_assoc]
    grind
  rw [Bool.eq_iff_iff, vacant, List.isEmpty_iff, filled, List.filter_eq_nil_iff]
  simp

def Fills (t : Table F) (c : Category) : Prop := ∃ s, SlotFamily.category s = c ∧ (t s).isSome

theorem lacks_iff (t : Table F) (c : Category) :
    t.lacks c ↔ ∀ record ∈ (SlotFamily.records : List (List σ)), (∃ s ∈ record, SlotFamily.category s = c) →
      ∀ s ∈ record, t s = none := by
  simp only [lacks, List.all_eq_true, List.mem_filter, List.any_eq_true, beq_iff_eq, isVacant_iff, and_imp]

theorem lacks_empty (c : Category) : (empty : Table F).lacks c = true :=
  (lacks_iff _ c).2 fun _ _ _ _ _ => rfl

def SameSlots (t u : Table F) : Prop := ∀ s, (t s).isSome = (u s).isSome

theorem SameSlots.filled {t u : Table F} (same : t.SameSlots u) : t.filled = u.filled :=
  List.filter_congr fun s _ => same s

theorem SameSlots.isEmpty {t u : Table F} (same : t.SameSlots u) : t.isEmpty = u.isEmpty := by
  rw [isEmpty_eq, isEmpty_eq, same.filled]

theorem SameSlots.supportedKinds {t u : Table F} (same : t.SameSlots u) (categories : CategorySet) :
    t.supportedKinds categories = u.supportedKinds categories :=
  congrArg (kindsWhere · categories) (funext same)

theorem SameSlots.someOf {t u : Table F} (same : t.SameSlots u) (categories : CategorySet) :
    t.someOf categories = u.someOf categories := by
  simp only [Table.someOf, same.supportedKinds]

theorem SameSlots.allOf {t u : Table F} (same : t.SameSlots u) (categories : CategorySet) :
    t.allOf categories = u.allOf categories := by
  simp only [Table.allOf, same.supportedKinds]

variable [SlotFamily.Grouped σ]

theorem merge_apply [DecidableEq σ] (t lower : Table F) (s : σ) : t.merge lower s = (t s).or (lower s) := by
  have grouped := (SlotFamily.mem_slots_iff s).1 (SlotFamily.Grouped.mem_slots s)
  rw [merge, foldl_mergeRecord, mergeRecord]
  by_cases outside : s ∈ [SlotFamily.store, SlotFamily.load]
  · simp [outside, Option.or_assoc]
  · have inRecord := (or_assoc.2 grouped).resolve_left (by simpa using outside)
    rw [if_neg outside, if_pos inRecord]

theorem lacks_merge [DecidableEq σ] (t lower : Table F) (c : Category) :
    (t.merge lower).lacks c = (t.lacks c && lower.lacks c) := by
  rw [Bool.eq_iff_iff, Bool.and_eq_true]
  simp only [lacks_iff, merge_apply, Option.or_eq_none_iff]
  grind

theorem lacks_raw_eq_false_iff (t : Table F) : t.lacks .raw = false ↔ t.Fills .raw := by
  rw [← Bool.not_eq_true, lacks_iff]
  constructor
  · intro found
    push Not at found
    obtain ⟨record, listed, raw, s, mem, filled⟩ := found
    exact ⟨s, SlotFamily.Grouped.raw record listed raw s mem, Option.isSome_iff_ne_none.2 filled⟩
  · rintro ⟨s, raw, filled⟩ vacant
    rcases (SlotFamily.mem_slots_iff s).1 (SlotFamily.Grouped.mem_slots s) with rfl | rfl | ⟨record, listed, mem⟩
    · cases SlotFamily.Grouped.store.1.symm.trans raw
    · cases SlotFamily.Grouped.load.1.symm.trans raw
    · rw [vacant record listed ⟨s, mem, raw⟩ s mem] at filled
      cases filled

instance (t : Table F) : Decidable (t.Fills .raw) :=
  decidable_of_iff _ t.lacks_raw_eq_false_iff

end Table

end AtomicTables
