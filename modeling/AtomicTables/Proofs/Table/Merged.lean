import AtomicTables.Proofs.Alignment.Contributors
import AtomicTables.Proofs.Table.Filled
import AtomicTables.Proofs.Table.Priority

/-!
# What is merged

What suites are merged into is known field by field: first slots, greatest alignment, greatest hints, and
the least safe size of those that fill a raw slot. It is the same however the merge is bracketed
(`all_by_field`).
-/

namespace AtomicTables

theorem absorb_of_semilattice {α : Type} (op : α → α → α) [Std.Associative op] [Std.Commutative op]
    [Std.IdempotentOp op] (a b c : α) : op (op (op a b) c) b = op (op a b) c := by
  calc op (op (op a b) c) b = op (op a (op b b)) c := by ac_rfl
    _ = op (op a b) c := congrArg (fun x => op (op a x) c) (Std.IdempotentOp.idempotent b)

instance : Merge.Lawful Alignment where
  assoc := max_assoc
  nothing_comm := max_comm _
  nothing_idem := rfl
  absorb a b c := max_eq_left ((le_max_right a b).trans (le_max_left _ c))

section

variable {σ : Type} {F : σ → Type} [DecidableEq σ] [SlotFamily σ] [SlotFamily.Grouped σ]

theorem Table.empty_merge (t : Table F) : empty.merge t = t :=
  funext fun _ => merge_apply ..

instance : Merge.Lawful (Table F) where
  assoc _ _ _ := funext fun _ => by
    simp only [Merge.merge, Table.merge_apply, Option.or_assoc]
  nothing_comm _ := funext fun _ => by
    simp [Merge.merge, Table.merge_apply, Merge.nothing, Table.empty]
  nothing_idem := Table.empty_merge _
  absorb a b c := funext fun s => by
    simp only [Merge.merge, Table.merge_apply]
    cases a s <;> cases b s <;> cases c s <;> rfl

instance : Merge.Lawful (Suite F) where
  assoc a b c := congrArg₂ Suite.mk
    (Merge.Lawful.assoc a.table b.table c.table) (Merge.Lawful.assoc a.alignment b.alignment c.alignment)
  nothing_comm a := congrArg₂ Suite.mk
    (Merge.Lawful.nothing_comm a.table) (Merge.Lawful.nothing_comm a.alignment)
  nothing_idem := congrArg₂ Suite.mk Merge.Lawful.nothing_idem Merge.Lawful.nothing_idem
  absorb a b c := congrArg₂ Suite.mk
    (Merge.Lawful.absorb a.table b.table c.table) (Merge.Lawful.absorb a.alignment b.alignment c.alignment)

theorem Suite.nothing_merge {s : Suite F} (constrained : .permissive ≤ s.alignment) :
    Merge.merge Merge.nothing s = s := by
  obtain ⟨table, alignment⟩ := s
  exact congrArg₂ mk (Table.empty_merge table) (max_eq_right constrained)

end

instance lawfulOrderMax : Std.LawfulOrderMax UInt64 where
  max_eq_or a b := by
    change (if a ≤ b then b else a) = a ∨ (if a ≤ b then b else a) = b
    split
    · exact .inr rfl
    · exact .inl rfl
  max_le_iff a b c := by
    change (if a ≤ b then b else a) ≤ c ↔ a ≤ c ∧ b ≤ c
    split
    · rename_i ordered
      exact (and_iff_right_of_imp (UInt64.le_trans ordered)).symm
    · rename_i reversed
      exact (and_iff_left_of_imp (UInt64.le_trans (UInt64.le_of_lt (UInt64.not_le.1 reversed)))).symm

instance max_commutative : Std.Commutative (max : UInt64 → UInt64 → UInt64) where
  comm _ _ := Std.le_antisymm (Std.max_le_iff.2 ⟨Std.right_le_max, Std.left_le_max⟩)
    (Std.max_le_iff.2 ⟨Std.right_le_max, Std.left_le_max⟩)

namespace RetryHints

instance : Merge RetryHints := ⟨none, max⟩

theorem merge_eq (a b : RetryHints) :
    Merge.merge a b = ⟨Max.max a.update b.update, Max.max a.load b.load⟩ := by
  have larger (x y : UInt64) : (if y < x then x else y) = Max.max x y := by
    change _ = if x ≤ y then y else x
    by_cases h : y < x
    · rw [if_pos h, if_neg (UInt64.not_le.2 h)]
    · rw [if_neg h, if_pos (UInt64.not_lt.1 h)]
  simp only [Merge.merge, max, larger]

instance : Merge.Lawful RetryHints where
  assoc _ _ _ := by
    simp only [merge_eq]
    congr 1 <;> exact Std.Associative.assoc ..
  nothing_comm _ := by
    simp only [merge_eq]
    congr 1 <;> exact Std.Commutative.comm ..
  nothing_idem := rfl
  absorb _ _ _ := by
    simp only [merge_eq]
    congr 1 <;> exact absorb_of_semilattice ..

theorem nothing_merge (h : RetryHints) : Merge.merge Merge.nothing h = h := by
  have zero (x : UInt64) : Max.max 0 x = x := if_pos UInt64.zero_le
  rw [merge_eq]
  exact congrArg₂ mk (zero h.update) (zero h.load)

end RetryHints

namespace TransactionSuite

variable {σ : Type} {F : σ → Type} [SlotFamily σ] [DecidableEq σ]

def rawSize? (s : TransactionSuite F) : Option UInt64 :=
  if s.table.lacks .raw then none else some s.safeSize

theorem rawSize?_nothing : (Merge.nothing : TransactionSuite F).rawSize? = none :=
  if_pos (Table.lacks_empty _)

theorem merge_eq (a b : TransactionSuite F) : Merge.merge a b =
    ⟨Merge.merge a.toSuite b.toSuite, Merge.merge a.hints b.hints,
      (Option.merge min a.rawSize? b.rawSize?).getD 0⟩ := by
  have size : mergedSize a b = (Option.merge min a.rawSize? b.rawSize?).getD 0 := by
    unfold mergedSize rawSize?
    cases a.table.lacks .raw <;> cases b.table.lacks .raw <;> rfl
  rw [← size]
  rfl

theorem merge_congr {a b c d : TransactionSuite F}
    (suite : Merge.merge a.toSuite b.toSuite = Merge.merge c.toSuite d.toSuite)
    (hints : Merge.merge a.hints b.hints = Merge.merge c.hints d.hints)
    (size : Option.merge min a.rawSize? b.rawSize? = Option.merge min c.rawSize? d.rawSize?) :
    Merge.merge a b = Merge.merge c d := by
  rw [merge_eq, merge_eq, suite, hints, size]

variable [SlotFamily.Grouped σ]

theorem rawSize?_merge (a b : TransactionSuite F) :
    (Merge.merge a b).rawSize? = Option.merge min a.rawSize? b.rawSize? := by
  have lacks : (Merge.merge a b).table.lacks .raw = (a.table.lacks .raw && b.table.lacks .raw) :=
    Table.lacks_merge ..
  rw [rawSize?, lacks, merge_eq]
  unfold rawSize?
  cases a.table.lacks .raw <;> cases b.table.lacks .raw <;> rfl

instance : Merge.Lawful (TransactionSuite F) where
  assoc a b c := by
    refine merge_congr (Merge.Lawful.assoc a.toSuite b.toSuite c.toSuite)
      (Merge.Lawful.assoc a.hints b.hints c.hints) ?_
    rw [rawSize?_merge, rawSize?_merge]
    exact Std.Associative.assoc ..
  nothing_comm a :=
    merge_congr (Merge.Lawful.nothing_comm a.toSuite) (Merge.Lawful.nothing_comm a.hints)
      (Std.Commutative.comm ..)
  nothing_idem := by
    rw [merge_eq, rawSize?_nothing]
    exact congrArg₂ (mk · · 0) Merge.Lawful.nothing_idem Merge.Lawful.nothing_idem
  absorb a b c := by
    refine merge_congr (Merge.Lawful.absorb a.toSuite b.toSuite c.toSuite)
      (Merge.Lawful.absorb a.hints b.hints c.hints) ?_
    rw [rawSize?_merge, rawSize?_merge]
    exact absorb_of_semilattice ..

/-- With `nothing` a suite loses at most its safe size, and this only if it fills no raw slot. -/
theorem nothing_merge_eq {s : TransactionSuite F} (constrained : .permissive ≤ s.alignment) :
    Merge.merge Merge.nothing s = { s with safeSize := s.rawSize?.getD 0 } := by
  have suite : Merge.merge Merge.nothing s.toSuite = s.toSuite := Suite.nothing_merge constrained
  have hints : Merge.merge Merge.nothing s.hints = s.hints := RetryHints.nothing_merge s.hints
  rw [merge_eq, rawSize?_nothing, Option.merge_none_left]
  exact congrArg₂ (fun suite hints => mk suite hints (s.rawSize?.getD 0)) suite hints

theorem nothing_merge {s : TransactionSuite F} (constrained : .permissive ≤ s.alignment)
    (size : s.rawSize?.getD 0 = s.safeSize) : Merge.merge Merge.nothing s = s := by
  rw [nothing_merge_eq constrained, size]

end TransactionSuite

theorem max?_concat {α : Type} [Max α] (l : List α) (a : α) :
    (l ++ [a]).max? = Option.merge max l.max? (some a) := by
  cases l with
  | nil => rfl
  | cons b l => simp [List.max?_cons', List.foldl_append]

theorem min?_concat {α : Type} [Min α] (l : List α) (a : α) :
    (l ++ [a]).min? = Option.merge min l.min? (some a) := by
  cases l with
  | nil => rfl
  | cons b l => simp [List.min?_cons', List.foldl_append]

theorem RetryHints.all_eq (hints : List RetryHints) : Merge.all hints =
    ⟨(hints.map (·.update)).max?.getD 0, (hints.map (·.load)).max?.getD 0⟩ := by
  have larger (l : List UInt64) (a : UInt64) : (l ++ [a]).max?.getD 0 = Max.max (l.max?.getD 0) a := by
    rw [max?_concat]
    cases l.max? with
    | none => exact (if_pos (UInt64.zero_le)).symm
    | some b => rfl
  induction hints using List.reverseRecOn with
  | nil => rfl
  | append_singleton hints a ih =>
      rw [Merge.all_concat, ih, merge_eq, List.map_append, List.map_append]
      exact congrArg₂ mk (larger _ a.update).symm (larger _ a.load).symm

namespace Suite

variable {σ : Type} {F : σ → Type} [DecidableEq σ] [SlotFamily σ]

structure MergedFrom (merged : Suite F) (suites : List (Suite F)) : Prop where
  slot (s : σ) : merged.table s = suites.findSome? fun suite => suite.table s
  alignment_mem : merged.alignment ∈ .permissive :: suites.map (·.alignment)
  alignment_greatest : ∀ a ∈ .permissive :: suites.map (·.alignment), (compare a merged.alignment).isLE

theorem alignment_all (suites : List (Suite F)) :
    (Merge.all suites).alignment = Merge.all (suites.map (·.alignment)) :=
  Merge.map_all (fun suite : Suite F => suite.alignment) rfl (fun _ _ => rfl) suites

theorem mergedFrom_all [SlotFamily.Grouped σ] (suites : List (Suite F)) : (Merge.all suites).MergedFrom suites where
  slot := table_all suites
  alignment_mem := by
    rw [alignment_all]
    exact Alignment.all_mem _
  alignment_greatest a mem := by
    rw [alignment_all]
    exact Alignment.le_all mem

end Suite

namespace TransactionSuite

variable {σ : Type} {F : σ → Type} [DecidableEq σ] [SlotFamily σ]

theorem hints_all (suites : List (TransactionSuite F)) :
    (Merge.all suites).hints = Merge.all (suites.map (·.hints)) :=
  Merge.map_all (fun s : TransactionSuite F => s.hints) rfl (fun _ _ => rfl) suites

variable [SlotFamily.Grouped σ]

def rawSizes (suites : List (TransactionSuite F)) : List UInt64 :=
  (suites.filter fun suite => suite.table.Fills .raw).map (·.safeSize)

structure MergedFrom (merged : TransactionSuite F) (suites : List (TransactionSuite F)) : Prop
    extends Suite.MergedFrom merged.toSuite (suites.map (·.toSuite)) where
  update : merged.hints.update = (suites.map (·.hints.update)).max?.getD 0
  load : merged.hints.load = (suites.map (·.hints.load)).max?.getD 0
  safeSize : merged.safeSize = (rawSizes suites).min?.getD 0

omit [DecidableEq σ] in
theorem rawSizes_concat (suites : List (TransactionSuite F)) (s : TransactionSuite F) :
    rawSizes (suites ++ [s]) = rawSizes suites ++ s.rawSize?.toList := by
  rw [rawSizes, List.filter_append, List.map_append, rawSize?]
  congr 1
  cases lacks : s.table.lacks .raw <;> simp [← Table.lacks_raw_eq_false_iff, lacks]

theorem rawSize?_all (suites : List (TransactionSuite F)) :
    (Merge.all suites).rawSize? = (rawSizes suites).min? := by
  induction suites using List.reverseRecOn with
  | nil => exact rawSize?_nothing
  | append_singleton suites s ih =>
      rw [Merge.all_concat, rawSize?_merge, ih, rawSizes_concat]
      cases s.rawSize? with
      | none => simp
      | some size => exact (min?_concat _ size).symm

theorem safeSize_all (suites : List (TransactionSuite F)) :
    (Merge.all suites).safeSize = (rawSizes suites).min?.getD 0 := by
  rw [← rawSize?_all]
  cases suites using List.reverseRecOn with
  | nil => rw [Merge.all, List.foldl_nil, rawSize?_nothing]; rfl
  | append_singleton suites s => rw [Merge.all_concat, rawSize?_merge, merge_eq]

theorem mergedFrom_all (suites : List (TransactionSuite F)) : (Merge.all suites).MergedFrom suites where
  toMergedFrom := by
    have suite : (Merge.all suites).toSuite = Merge.all (suites.map (·.toSuite)) :=
      Merge.map_all (fun s : TransactionSuite F => s.toSuite) rfl (fun _ _ => rfl) suites
    rw [suite]
    exact Suite.mergedFrom_all _
  update := by simp only [hints_all, RetryHints.all_eq, List.map_map, Function.comp_def]
  load := by simp only [hints_all, RetryHints.all_eq, List.map_map, Function.comp_def]
  safeSize := safeSize_all suites

end TransactionSuite

theorem Merge.all_by_field [FlagSpace] :
    ((∀ suites : List ImplicitSuite, (all suites).MergedFrom suites) ∧ FoldsAlike ImplicitSuite) ∧
    ((∀ suites : List ExplicitSuite, (all suites).MergedFrom suites) ∧ FoldsAlike ExplicitSuite) ∧
    ((∀ suites : List TransactionalSuite, (all suites).MergedFrom suites) ∧ FoldsAlike TransactionalSuite) :=
  ⟨⟨Suite.mergedFrom_all, foldsAlike⟩, ⟨Suite.mergedFrom_all, foldsAlike⟩,
    ⟨TransactionSuite.mergedFrom_all, foldsAlike⟩⟩

end AtomicTables
