import Mathlib.Data.List.Induction

namespace AtomicTables.Occurrences
open List

variable {α : Type} [DecidableEq α]

theorem eraseDups_concat (l : List α) (a : α) :
    (l ++ [a]).eraseDups = if a ∈ l then l.eraseDups else l.eraseDups ++ [a] := by
  rw [eraseDups_append]
  by_cases h : a ∈ l <;> simp [cons_removeAll, h, eraseDups_cons]

theorem eraseDups_of_nodup {l : List α} (distinct : l.Nodup) : l.eraseDups = l := by
  induction l using List.reverseRecOn with
  | nil => rfl
  | append_singleton l a ih =>
      obtain ⟨distinct, -, apart⟩ := nodup_append.1 distinct
      have fresh : a ∉ l := fun seen => apart a seen a (mem_singleton_self a) rfl
      rw [eraseDups_concat, if_neg fresh, ih distinct]

theorem eraseDups_filter (p : α → Bool) (l : List α) :
    (l.filter p).eraseDups = l.eraseDups.filter p := by
  induction l using List.reverseRecOn with
  | nil => simp
  | append_singleton l a ih =>
      cases holds : p a
      · by_cases seen : a ∈ l <;> simp [eraseDups_concat, filter_append, holds, seen, ih]
      · by_cases seen : a ∈ l <;>
          simp [eraseDups_concat, filter_append, holds, seen, ih, mem_filter]

theorem pairwise_idxOf_eraseDups (l : List α) :
    l.eraseDups.Pairwise fun a b => l.idxOf a < l.idxOf b := by
  induction l using List.reverseRecOn with
  | nil => simp
  | append_singleton l a ih =>
      have kept : l.eraseDups.Pairwise fun x y => (l ++ [a]).idxOf x < (l ++ [a]).idxOf y := by
        refine ih.imp_of_mem fun {x y} hx hy before => ?_
        rw [mem_eraseDups] at hx hy
        simpa [idxOf_append, hx, hy] using before
      rw [eraseDups_concat]
      split
      · exact kept
      · rename_i fresh
        refine pairwise_append.2 ⟨kept, by simp, fun x hx y hy => ?_⟩
        obtain rfl : y = a := by simpa using hy
        rw [mem_eraseDups] at hx
        have bound := idxOf_lt_length_iff.2 hx
        simp [idxOf_append, hx, fresh]
        omega

theorem eraseDups_flatMap_classes {κ : Type} [DecidableEq κ] (key : α → κ) (p : α → Bool)
    (l : List α) {keys : List κ} (distinct : keys.Nodup) :
    (keys.flatMap fun k => l.filter fun a => p a && key a == k).eraseDups =
      keys.flatMap fun k => l.eraseDups.filter fun a => p a && key a == k := by
  induction keys with
  | nil => rfl
  | cons k keys ih =>
      obtain ⟨fresh, distinct⟩ := nodup_cons.1 distinct
      have apart : (keys.flatMap fun k => l.filter fun a => p a && key a == k).removeAll
          (l.filter fun a => p a && key a == k) =
          keys.flatMap fun k => l.filter fun a => p a && key a == k := by
        refine filter_eq_self.2 fun a ha => ?_
        simp only [mem_flatMap, mem_filter, Bool.and_eq_true, beq_iff_eq] at ha
        obtain ⟨k', hk', -, -, rfl⟩ := ha
        have other : key a ≠ k := fun same => fresh (same ▸ hk')
        simp [other]
      rw [flatMap_cons, eraseDups_append, apart, ih distinct, eraseDups_filter, flatMap_cons]

end AtomicTables.Occurrences
