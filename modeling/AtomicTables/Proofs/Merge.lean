import AtomicTables.Merge
import Mathlib.Data.List.Induction

namespace AtomicTables.Merge

variable {α β : Type} [Merge α] [Merge β]

/-- Laws of a merge. Nothing commutes with every item, and an item has nothing to add to what it has
been merged into before. -/
class Lawful (α : Type) [Merge α] : Prop where
  assoc (a b c : α) : merge (merge a b) c = merge a (merge b c)
  nothing_comm (a : α) : merge nothing a = merge a nothing
  nothing_idem : merge nothing nothing = (nothing : α)
  absorb (a b c : α) : merge (merge (merge a b) c) b = merge (merge a b) c

theorem all_concat (items : List α) (a : α) : all (items ++ [a]) = merge (all items) a := by
  simp [all]

theorem map_all (f : α → β) (nothing : f Merge.nothing = Merge.nothing)
    (merge : ∀ a b, f (Merge.merge a b) = Merge.merge (f a) (f b)) (items : List α) :
    f (all items) = all (items.map f) := by
  induction items using List.reverseRecOn with
  | nil => exact nothing
  | append_singleton items a ih => rw [all_concat, merge, ih, List.map_append, List.map_singleton, all_concat]

structure FoldsAlike (α : Type) [Merge α] : Prop where
  right (items : List α) : all items = allRight items
  append (items more : List α) : all (items ++ more) = merge (all items) (all more)
  again (items : List α) : ∀ a ∈ items, all (items ++ [a]) = all items

variable [Lawful α]

theorem merge_all_nothing (items : List α) : merge (all items) nothing = all items := by
  induction items using List.reverseRecOn with
  | nil => exact Lawful.nothing_idem
  | append_singleton items a ih =>
      rw [all_concat, Lawful.assoc, ← Lawful.nothing_comm, ← Lawful.assoc, ih]

theorem all_append (items more : List α) : all (items ++ more) = merge (all items) (all more) := by
  induction more using List.reverseRecOn with
  | nil => rw [List.append_nil]; exact (merge_all_nothing items).symm
  | append_singleton more a ih =>
      rw [← List.append_assoc, all_concat, ih, all_concat, Lawful.assoc]

theorem all_cons (a : α) (items : List α) : all (a :: items) = merge a (all items) := by
  calc all (a :: items) = merge (all [a]) (all items) := all_append [a] items
    _ = merge (merge a nothing) (all items) := by rw [← Lawful.nothing_comm]; rfl
    _ = merge a (merge (all items) nothing) := by rw [Lawful.assoc, Lawful.nothing_comm]
    _ = merge a (all items) := by rw [merge_all_nothing]

theorem all_eq_allRight (items : List α) : all items = allRight items := by
  induction items with
  | nil => rfl
  | cons a items ih => rw [all_cons, ih]; rfl

theorem all_concat_of_mem {items : List α} {a : α} (mem : a ∈ items) :
    all (items ++ [a]) = all items := by
  obtain ⟨before, after, rfl⟩ := List.append_of_mem mem
  rw [all_concat, ← List.singleton_append, ← List.append_assoc, all_append, all_concat, Lawful.absorb]

theorem foldsAlike : FoldsAlike α :=
  ⟨all_eq_allRight, all_append, fun _ _ => all_concat_of_mem⟩

theorem all_eq_nothing {items : List α} (others : ∀ b ∈ items, b = nothing) : all items = nothing := by
  induction items using List.reverseRecOn with
  | nil => rfl
  | append_singleton items b ih =>
      have earlier := ih fun c mem => others c (List.mem_append_left _ mem)
      rw [all_concat, earlier, others b (by simp), Lawful.nothing_idem]

theorem all_eq_nothing_or {items : List α} {a : α} (others : ∀ b ∈ items, b = nothing ∨ b = a)
    (neutral : merge nothing a = a) (again : merge a a = a) : all items = nothing ∨ all items = a := by
  induction items using List.reverseRecOn with
  | nil => exact .inl rfl
  | append_singleton items b ih =>
      have earlier := ih fun c mem => others c (List.mem_append_left _ mem)
      rw [all_concat]
      rcases earlier with none | one <;> rcases others b (by simp) with rfl | rfl
      · exact .inl (by rw [none, Lawful.nothing_idem])
      · exact .inr (by rw [none, neutral])
      · exact .inr (by rw [one, ← Lawful.nothing_comm, neutral])
      · exact .inr (by rw [one, again])

theorem all_eq_of_mem {items : List α} {a : α} (mem : a ∈ items)
    (others : ∀ b ∈ items, b = nothing ∨ b = a) (neutral : merge nothing a = a) : all items = a := by
  have right : merge a nothing = a := by rw [← Lawful.nothing_comm, neutral]
  have again : merge a a = a := by
    have absorbed := Lawful.absorb nothing a nothing
    rwa [neutral, right] at absorbed
  obtain ⟨before, after, rfl⟩ := List.append_of_mem mem
  have first := all_eq_nothing_or (fun b mem => others b (List.mem_append_left _ mem)) neutral again
  have last := all_eq_nothing_or
    (fun b mem => others b (List.mem_append_right _ (List.mem_cons_of_mem a mem))) neutral again
  rw [all_append, all_cons]
  rcases first with none | one <;> rcases last with none' | one' <;> simp [*]

end AtomicTables.Merge
