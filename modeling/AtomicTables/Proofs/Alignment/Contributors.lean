import AtomicTables.Proofs.Alignment.Order
import AtomicTables.Proofs.Alignment.Validity
import AtomicTables.Proofs.Merge

/-!
# Alignment of a merge

A merge of requirements keeps one of them whole. Its recommendation serves everyone who is merged; its
minimum does so under a condition on the numbers (`safe_iff_covers`), and not in general
(`not_safe_of_smaller_minimum`).
-/

namespace AtomicTables.Alignment

theorem all_mem (requirements : List Alignment) :
    Merge.all requirements ∈ permissive :: requirements := by
  induction requirements using List.reverseRecOn with
  | nil => exact List.mem_cons_self
  | append_singleton requirements a ih =>
      rw [Merge.all_concat]
      change max (Merge.all requirements) a ∈ _
      rcases max_choice (Merge.all requirements) a with same | same <;> rw [same]
      · exact List.mem_cons.2 ((List.mem_cons.1 ih).imp_right (List.mem_append_left _))
      · simp

theorem le_all {requirements : List Alignment} {a : Alignment} (mem : a ∈ permissive :: requirements) :
    a ≤ Merge.all requirements := by
  induction requirements using List.reverseRecOn with
  | nil => exact le_of_eq (List.mem_singleton.1 mem)
  | append_singleton requirements b ih =>
      rw [Merge.all_concat]
      rw [← List.cons_append, List.mem_append, List.mem_singleton] at mem
      rcases mem with earlier | rfl
      · exact (ih earlier).trans (le_max_left _ b)
      · exact le_max_right _ a

theorem recommended_le_all {requirements : List Alignment} {a : Alignment} (mem : a ∈ requirements) :
    a.recommended ≤ (Merge.all requirements).recommended :=
  recommended_le_of_le (le_all (List.mem_cons_of_mem _ mem))

theorem accepted_all {requirements : List Alignment} (accepted : ∀ a ∈ requirements, a.Accepted) :
    (Merge.all requirements).Accepted := by
  rcases List.mem_cons.1 (all_mem requirements) with none | mem
  · rw [none]
    rfl
  · exact accepted _ mem

/-- An address that meets the recommendation of the merge is recommended by every requirement. Beyond
that the merge admits only what every requirement admits if and only if it covers each of them. -/
theorem safe_iff_covers {requirements : List Alignment}
    (accepted : ∀ a ∈ requirements, a.Accepted) :
    (∀ address, (Merge.all requirements).meetsRecommended address →
      ∀ a ∈ requirements, a.meetsRecommended address) ∧
    ((∀ address width, (Merge.all requirements).Admits address width →
        ∀ a ∈ requirements, a.Admits address width) ↔
      ∀ a ∈ requirements, (Merge.all requirements).Covers a) := by
  have acceptedAll := accepted_all accepted
  refine ⟨fun address multiple a mem => ?_, fun safe a mem => ?_, fun covers address width valid a mem => ?_⟩
  · rw [meetsRecommended_iff acceptedAll] at multiple
    rw [meetsRecommended_iff (accepted a mem)]
    have smaller := dvd_of_isPowerOfTwo ((accepted_iff a).1 (accepted a mem)).1
      ((accepted_iff _).1 acceptedAll).1 (recommended_le_all mem)
    exact Nat.dvd_trans smaller multiple
  · by_contra fails
    obtain ⟨address, width, valid, invalid⟩ :=
      exists_admits_of_not_covers acceptedAll (accepted a mem) fails
    exact invalid (safe address width valid a mem)
  · exact (covers a mem).admits acceptedAll (accepted a mem) (recommended_le_all mem) valid

theorem safe_iff_covers_windows :
    let requirements : List Alignment := [⟨16, 8, 128⟩, ⟨16, 8, 64⟩, ⟨8, 4, 0⟩]
    (∀ a ∈ requirements, a.Accepted) ∧
    (∀ address, (Merge.all requirements).meetsRecommended address →
      ∀ a ∈ requirements, a.meetsRecommended address) ∧
    ((∀ address width, (Merge.all requirements).Admits address width →
        ∀ a ∈ requirements, a.Admits address width) ↔
      ∀ a ∈ requirements, (Merge.all requirements).Covers a) := by
  intro requirements
  have accepted : ∀ a ∈ requirements, a.Accepted := by
    simp only [requirements, List.forall_mem_cons]
    exact ⟨rfl, rfl, rfl, List.forall_mem_nil _⟩
  exact ⟨accepted, safe_iff_covers accepted⟩

/-- The requirement that recommends more wins whole, with its smaller minimum, and then admits an object
that the other requirement does not. -/
theorem not_safe_of_smaller_minimum :
    ¬ ∀ requirements : List Alignment, (∀ a ∈ requirements, a.Accepted) →
      ∀ address width, (Merge.all requirements).Admits address width →
        ∀ a ∈ requirements, a.Admits address width := by
  intro safe
  have accepted : ∀ a ∈ [(⟨16, 1, 0⟩ : Alignment), ⟨8, 8, 0⟩], a.Accepted := by
    simp only [List.forall_mem_cons]
    exact ⟨rfl, rfl, List.forall_mem_nil _⟩
  have valid : (Merge.all [(⟨16, 1, 0⟩ : Alignment), ⟨8, 8, 0⟩]).Admits 1 1 := .inr (by decide)
  rcases safe _ accepted 1 1 valid ⟨8, 8, 0⟩ (by simp) with recommended | minimum
  · exact absurd recommended (by decide)
  · exact absurd minimum (by decide)

end AtomicTables.Alignment
