import AtomicTables.Proofs.BitSet
import AtomicTables.Proofs.Table.Filled
import Mathlib.Data.List.Nodup

/-!
# What feature checks tell

Categories and kinds are reported as bits, so slots could hide behind one another. They do not, because no
two slots of one category have the same kind (`SlotFamily.Distinct`), and checks therefore tell exactly which
slots are filled (`checks_exactly`).
-/

namespace AtomicTables

namespace Category

theorem mem_all (c : Category) : c ∈ all := by
  cases c <;> decide

theorem has_asSet (c : Category) (i : Nat) : c.asSet.has i ↔ c.ctorIdx = i := by
  have inside : c.ctorIdx < 32 := by cases c <;> decide
  simp [asSet, BitSet.has_single, categoryLayout, inside]

theorem contains_asSet (categories : CategorySet) (c : Category) :
    categories.contains c.asSet ↔ categories.has c.ctorIdx := by
  simp [BitSet.contains_iff, has_asSet]

theorem contains_asSet_asSet (c d : Category) : c.asSet.contains d.asSet ↔ d = c := by
  rw [contains_asSet, has_asSet]
  constructor
  · intro same
    rw [← ofNat_ctorIdx d, ← same, ofNat_ctorIdx]
  · rintro rfl
    rfl

theorem single_contains_asSet (position : Fin 32) (c : Category) :
    (BitSet.single position : CategorySet).contains c.asSet ↔ c.asSet = .single position := by
  have inside : position.val < categoryLayout.width := position.isLt
  rw [contains_asSet, BitSet.has_single, decide_eq_true inside, Bool.true_and, decide_eq_true_iff]
  constructor
  · intro same
    rw [same]
    rfl
  · intro same
    have bit : (BitSet.single position : CategorySet).has position := by simp [BitSet.has_single, inside]
    exact ((c.has_asSet position).1 (same ▸ bit)).symm

end Category

namespace OperationKind

theorem has_asSet (k : OperationKind) (i : Nat) : k.asSet.has i ↔ k.ctorIdx = i := by
  have inside : k.ctorIdx < 32 := by cases k <;> decide
  simp [asSet, BitSet.has_single, operationLayout, inside]

theorem contains_asSet (kinds : OperationSet) (k : OperationKind) :
    kinds.contains k.asSet ↔ kinds.has k.ctorIdx := by
  simp [BitSet.contains_iff, has_asSet]

theorem contains_asSet_of_has {kinds : OperationSet} {k : OperationKind} {i : Nat} (bit : k.asSet.has i) :
    kinds.contains k.asSet ↔ kinds.has i := by
  rw [contains_asSet, (k.has_asSet i).1 bit]

theorem eq_of_has_asSet {k l : OperationKind} {i : Nat} (hk : k.asSet.has i) (hl : l.asSet.has i) : k = l := by
  rw [has_asSet] at hk hl
  rw [← ofNat_ctorIdx k, hk, ← hl, ofNat_ctorIdx]

end OperationKind

theorem BitSet.Collects.inter_kinds {found : OperationSet} {p : OperationKind → Prop}
    (h : found.Collects OperationKind.asSet p) (kinds : OperationSet) :
    (found ∩ kinds).Collects OperationKind.asSet fun k => kinds.contains k.asSet ∧ p k := by
  intro i
  rw [has_inter, Bool.and_eq_true, h i]
  constructor
  · rintro ⟨⟨k, bit, holds⟩, asked⟩
    exact ⟨k, bit, (OperationKind.contains_asSet_of_has bit).2 asked, holds⟩
  · rintro ⟨k, bit, asked, holds⟩
    exact ⟨⟨k, bit, holds⟩, (OperationKind.contains_asSet_of_has bit).1 asked⟩

theorem CategorySet.collects_filter (categories : CategorySet) (p : Category → Bool) :
    (ofList (categories.categories.filter p)).Collects Category.asSet fun c =>
      categories.contains c.asSet ∧ p c :=
  (BitSet.collects_unions _ _).congr fun c => by simp [CategorySet.categories, c.mem_all, and_comm]

class SlotFamily.Distinct (σ : Type) [SlotFamily σ] : Prop where
  eq_of_kind {s t : σ} (category : SlotFamily.category s = SlotFamily.category t)
    (kind : SlotFamily.kind s = SlotFamily.kind t) : s = t

theorem SlotFamily.distinct_of_nodup {σ : Type} [SlotFamily σ] [SlotFamily.Grouped σ]
    (nodup : ((SlotFamily.slots : List σ).map fun s => (SlotFamily.category s, SlotFamily.kind s)).Nodup) :
    SlotFamily.Distinct σ where
  eq_of_kind {s t} category kind :=
    List.inj_on_of_nodup_map nodup (Grouped.mem_slots s) (Grouped.mem_slots t) (Prod.ext category kind)

instance : SlotFamily.Distinct ObjectSlot := SlotFamily.distinct_of_nodup (by decide)

instance : SlotFamily.Distinct TransactionSlot := SlotFamily.distinct_of_nodup (by decide)

variable {σ : Type} [SlotFamily σ]

/-- The slots are told apart by their categories alone. -/
def SlotFamily.KeptApart (s t : σ) : Prop :=
  SlotFamily.kind s = SlotFamily.kind t ∧ SlotFamily.category s ≠ SlotFamily.category t

theorem ObjectSlot.keptApart_binary (op : BinaryOp) : SlotFamily.KeptApart (binary op false) (binary op true) := by
  refine ⟨rfl, ?_⟩
  cases op <;> decide

theorem ObjectSlot.keptApart_unary (op : UnaryOp) : SlotFamily.KeptApart (unary op false) (unary op true) := by
  refine ⟨rfl, ?_⟩
  cases op <;> decide

theorem collects_recordKinds (categories : CategorySet) (present : σ → Bool) (record : List σ) :
    (recordKinds categories present record).Collects OperationKind.asSet fun k =>
      ∃ s ∈ record, categories.contains (SlotFamily.category s).asSet ∧ SlotFamily.kind s = k ∧ present s := by
  have kinds : recordKinds categories present record = .unions (((record.filter fun s =>
      categories.contains (SlotFamily.category s).asSet && present s).map SlotFamily.kind).map
        OperationKind.asSet) := by
    rw [BitSet.unions, List.foldl_map, List.foldl_map, List.foldl_filter]
    rfl
  rw [kinds]
  refine (BitSet.collects_unions _ _).congr fun k => ?_
  simp only [List.mem_map, List.mem_filter, Bool.and_eq_true]
  exact exists_congr fun s => by rw [and_assoc, and_assoc, and_comm (b := SlotFamily.kind s = k)]

theorem collects_loadStoreKinds (categories : CategorySet) (store load : Bool) :
    (loadStoreKinds categories store load).Collects OperationKind.asSet fun k =>
      categories.contains Category.loadStore.asSet ∧ (k = .store ∧ store ∨ k = .load ∧ load) := by
  intro i
  unfold loadStoreKinds
  cases categories.contains Category.loadStore.asSet <;> cases store <;> cases load <;>
    simp [and_or_left, exists_or]

theorem collects_kindsWhere [SlotFamily.Grouped σ] (present : σ → Bool) (categories : CategorySet) :
    (kindsWhere present categories).Collects OperationKind.asSet fun k =>
      ∃ s, categories.contains (SlotFamily.category s).asSet ∧ SlotFamily.kind s = k ∧ present s := by
  have storeTags := SlotFamily.Grouped.store (σ := σ)
  have loadTags := SlotFamily.Grouped.load (σ := σ)
  intro i
  rw [kindsWhere, BitSet.has_foldl_union, collects_loadStoreKinds categories _ _ i]
  simp only [List.mem_map, exists_exists_and_eq_and, collects_recordKinds categories present _ i]
  constructor
  · rintro (⟨_, bit, asked, ⟨rfl, filled⟩ | ⟨rfl, filled⟩⟩ | ⟨record, -, k, bit, s, -, holds⟩)
    · exact ⟨_, bit, SlotFamily.store, storeTags.1 ▸ asked, storeTags.2, filled⟩
    · exact ⟨_, bit, SlotFamily.load, loadTags.1 ▸ asked, loadTags.2, filled⟩
    · exact ⟨k, bit, s, holds⟩
  · rintro ⟨_, bit, s, asked, rfl, filled⟩
    rcases (SlotFamily.mem_slots_iff s).1 (SlotFamily.Grouped.mem_slots s) with rfl | rfl | ⟨record, listed, mem⟩
    · exact .inl ⟨_, bit, storeTags.1 ▸ asked, .inl ⟨storeTags.2, filled⟩⟩
    · exact .inl ⟨_, bit, loadTags.1 ▸ asked, .inr ⟨loadTags.2, filled⟩⟩
    · exact .inr ⟨record, listed, _, bit, s, mem, asked, rfl, filled⟩

namespace Table

variable {F : σ → Type} (t u : Table F)

theorem kindsIn_single (position : Fin 32) (kinds : OperationSet) :
    t.kindsIn (.single position) kinds = .ok (t.supportedKinds (.single position) ∩ kinds) := by
  have one : ∀ position : Fin 32, (BitSet.single position : CategorySet).count = 1 := by decide
  rw [kindsIn, if_pos (one position)]

variable [SlotFamily.Grouped σ]

theorem mem_filled (s : σ) : s ∈ t.filled ↔ (t s).isSome := by
  simp [filled, SlotFamily.Grouped.mem_slots]

theorem collects_supportedKinds (categories : CategorySet) :
    (t.supportedKinds categories).Collects OperationKind.asSet fun k =>
      ∃ s, categories.contains (SlotFamily.category s).asSet ∧ SlotFamily.kind s = k ∧ (t s).isSome :=
  collects_kindsWhere _ _

theorem collects_definedKinds (categories : CategorySet) :
    (definedKinds σ categories).Collects OperationKind.asSet fun k =>
      ∃ s : σ, categories.contains (SlotFamily.category s).asSet ∧ SlotFamily.kind s = k :=
  (collects_kindsWhere _ _).congr fun k => exists_congr fun s => by rw [eq_self, and_true]

theorem isEmpty_supportedKinds (c : Category) : (t.supportedKinds c.asSet).isEmpty ↔ ¬ t.Fills c := by
  rw [BitSet.isEmpty_iff, (t.collects_supportedKinds _).eq_empty_iff fun k => ⟨_, (k.has_asSet _).2 rfl⟩]
  simp only [Category.contains_asSet_asSet, Fills]
  grind

theorem isEmpty_definedKinds (c : Category) :
    (definedKinds σ c.asSet).isEmpty ↔ ∀ s : σ, SlotFamily.category s ≠ c := by
  rw [BitSet.isEmpty_iff, (collects_definedKinds _).eq_empty_iff fun k => ⟨_, (k.has_asSet _).2 rfl⟩]
  simp only [Category.contains_asSet_asSet]
  grind

theorem supportedKinds_eq_definedKinds [SlotFamily.Distinct σ] (c : Category) :
    t.supportedKinds c.asSet = definedKinds σ c.asSet ↔
      ∀ s, SlotFamily.category s = c → (t s).isSome := by
  have supported := t.collects_supportedKinds c.asSet
  have defined : (definedKinds σ c.asSet).Collects _ _ := collects_definedKinds c.asSet
  simp only [Category.contains_asSet_asSet] at supported defined
  constructor
  · intro same s category
    obtain ⟨i, bit⟩ : ∃ i, (SlotFamily.kind s).asSet.has i := ⟨_, (OperationKind.has_asSet _ _).2 rfl⟩
    obtain ⟨k, bit', s', category', kind, fills⟩ :=
      (supported i).1 (same ▸ (defined i).2 ⟨_, bit, s, category, rfl⟩)
    have sameKind := kind.trans (OperationKind.eq_of_has_asSet bit' bit)
    exact SlotFamily.Distinct.eq_of_kind (category'.trans category.symm) sameKind ▸ fills
  · intro full
    refine supported.ext (defined.congr fun k => exists_congr fun s => ?_)
    exact ⟨fun ⟨category, kind⟩ => ⟨category, kind, full s category⟩, fun ⟨category, kind, _⟩ => ⟨category, kind⟩⟩

theorem collects_someOf (categories : CategorySet) :
    (t.someOf categories).Collects Category.asSet fun c => categories.contains c.asSet ∧ t.Fills c :=
  (CategorySet.collects_filter _ _).congr fun c => by
    rw [Bool.not_eq_true', ← Bool.not_eq_true, isEmpty_supportedKinds, not_not]

theorem collects_allOf [SlotFamily.Distinct σ] (categories : CategorySet) :
    (t.allOf categories).Collects Category.asSet fun c => categories.contains c.asSet ∧
      (∃ s : σ, SlotFamily.category s = c) ∧ ∀ s, SlotFamily.category s = c → (t s).isSome :=
  (CategorySet.collects_filter _ _).congr fun c => by
    rw [Bool.and_eq_true, Bool.not_eq_true', ← Bool.not_eq_true, isEmpty_definedKinds, beq_iff_eq,
      supportedKinds_eq_definedKinds]
    simp only [not_forall, not_not]

theorem isEmpty_iff : t.isEmpty ↔ t.someOf .all = ∅ := by
  have named (c : Category) : (BitSet.all : CategorySet).contains c.asSet := by cases c <;> decide
  rw [(t.collects_someOf _).eq_empty_iff fun c => ⟨_, (c.has_asSet _).2 rfl⟩, isEmpty_eq, List.isEmpty_iff,
    List.eq_nil_iff_forall_not_mem]
  simp only [mem_filled, named, true_and, Fills]
  grind

structure ChecksExactly : Prop where
  someOf (categories : CategorySet) : (t.someOf categories).Collects Category.asSet fun c =>
    categories.contains c.asSet ∧ ∃ s, SlotFamily.category s = c ∧ (t s).isSome
  allOf (categories : CategorySet) : (t.allOf categories).Collects Category.asSet fun c =>
    categories.contains c.asSet ∧
      (∃ s : σ, SlotFamily.category s = c) ∧ ∀ s, SlotFamily.category s = c → (t s).isSome
  kindsIn (position : Fin 32) (kinds : OperationSet) :
    ∃ found, t.kindsIn (.single position) kinds = .ok found ∧ found.Collects OperationKind.asSet fun k =>
      kinds.contains k.asSet ∧
        ∃ s, (SlotFamily.category s).asSet = .single position ∧ SlotFamily.kind s = k ∧ (t s).isSome
  isEmpty : t.isEmpty ↔ t.someOf .all = ∅

structure ChecksMerge [DecidableEq σ] : Prop where
  supportedKinds (categories : CategorySet) :
    (t.merge u).supportedKinds categories = t.supportedKinds categories ∪ u.supportedKinds categories
  someOf (categories : CategorySet) :
    (t.merge u).someOf categories = t.someOf categories ∪ u.someOf categories
  allOf (categories : CategorySet) :
    ((t.merge u).allOf categories).contains (t.allOf categories ∪ u.allOf categories)

theorem checksMerge [DecidableEq σ] [SlotFamily.Distinct σ] : t.ChecksMerge u where
  supportedKinds categories := by
    refine (collects_supportedKinds _ _).ext
      (((t.collects_supportedKinds _).union (u.collects_supportedKinds _)).congr fun k => ?_)
    simp only [merge_apply, Option.isSome_or, Bool.or_eq_true, and_or_left, exists_or]
  someOf categories := by
    refine (collects_someOf _ _).ext
      (((t.collects_someOf _).union (u.collects_someOf _)).congr fun c => ?_)
    simp only [Fills, merge_apply, Option.isSome_or, Bool.or_eq_true, and_or_left, exists_or]
  allOf categories := by
    refine (collects_allOf _ _).contains ((t.collects_allOf _).union (u.collects_allOf _)) fun c full => ?_
    simp only [merge_apply, Option.isSome_or, Bool.or_eq_true]
    rcases full with ⟨asked, defined, full⟩ | ⟨asked, defined, full⟩
    · exact ⟨asked, defined, fun s category => .inl (full s category)⟩
    · exact ⟨asked, defined, fun s category => .inr (full s category)⟩

theorem checksExactly [SlotFamily.Distinct σ] : t.ChecksExactly where
  someOf := t.collects_someOf
  allOf := t.collects_allOf
  kindsIn position kinds := by
    refine ⟨_, t.kindsIn_single position kinds, ?_⟩
    have supported := t.collects_supportedKinds (.single position)
    simp only [Category.single_contains_asSet] at supported
    exact supported.inter_kinds kinds
  isEmpty := t.isEmpty_iff

theorem checks_exactly :
    (∀ (F : ObjectSlot → Type) (t u : Table F), t.ChecksExactly ∧ t.ChecksMerge u) ∧
    (∀ (F : TransactionSlot → Type) (t u : Table F), t.ChecksExactly ∧ t.ChecksMerge u) ∧
    (∀ op, SlotFamily.KeptApart (ObjectSlot.binary op false) (.binary op true) ∧
      SlotFamily.KeptApart (TransactionSlot.object (.binary op false)) (.object (.binary op true))) ∧
    (∀ op, SlotFamily.KeptApart (ObjectSlot.unary op false) (.unary op true) ∧
      SlotFamily.KeptApart (TransactionSlot.object (.unary op false)) (.object (.unary op true))) ∧
    SlotFamily.KeptApart (TransactionSlot.object .testBit) .testFlag ∧
    SlotFamily.KeptApart (TransactionSlot.object (.changeBit .set)) .testSetFlag :=
  ⟨fun _ t u => ⟨t.checksExactly, t.checksMerge u⟩, fun _ t u => ⟨t.checksExactly, t.checksMerge u⟩,
    fun op => ⟨ObjectSlot.keptApart_binary op, ObjectSlot.keptApart_binary op⟩,
    fun op => ⟨ObjectSlot.keptApart_unary op, ObjectSlot.keptApart_unary op⟩, ⟨rfl, nofun⟩, ⟨rfl, nofun⟩⟩

end Table

end AtomicTables
