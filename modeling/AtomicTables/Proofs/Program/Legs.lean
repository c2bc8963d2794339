import AtomicTables.Proofs.Program.Span

namespace AtomicTables.Span

open Program Memory

namespace Leg

def spans (leg : Leg) : List Nat := [leg.object, leg.expected, leg.desired]

theorem object_mem (leg : Leg) : leg.object ∈ leg.spans := .head _

theorem expected_mem (leg : Leg) : leg.expected ∈ leg.spans := .tail _ (.head _)

theorem desired_mem (leg : Leg) : leg.desired ∈ leg.spans := .tail _ (.tail _ (.head _))

end Leg

structure Separate (legs : List Leg) (n size : Nat) : Prop where
  apart : (legs.flatMap Leg.spans).Pairwise (Apart · · n)
  inside : ∀ leg ∈ legs, ∀ a ∈ leg.spans, a + n ≤ size

instance (legs : List Leg) (n size : Nat) : Decidable (Separate legs n size) :=
  decidable_of_iff
    ((legs.flatMap Leg.spans).Pairwise (Apart · · n) ∧ ∀ leg ∈ legs, ∀ a ∈ leg.spans, a + n ≤ size)
    ⟨fun ⟨apart, inside⟩ => ⟨apart, inside⟩, fun ⟨apart, inside⟩ => ⟨apart, inside⟩⟩

namespace Separate

variable {legs : List Leg} {n size : Nat}

theorem pairwise (separate : Separate legs n size) :
    legs.Pairwise fun a b => ∀ x ∈ a.spans, ∀ y ∈ b.spans, Apart x y n :=
  (List.pairwise_flatMap.1 separate.apart).2

theorem own (separate : Separate legs n size) {leg : Leg} (member : leg ∈ legs) :
    Apart leg.object leg.expected n ∧ Apart leg.object leg.desired n ∧ Apart leg.expected leg.desired n := by
  have apart := (List.pairwise_flatMap.1 separate.apart).1 leg member
  simpa [Leg.spans, and_assoc] using apart

variable {target source : Leg → Nat}

theorem targets (separate : Separate legs n size) (written : ∀ leg, target leg ∈ leg.spans) :
    legs.Pairwise fun a b => Apart (target a) (target b) n :=
  separate.pairwise.imp fun apart => apart _ (written _) _ (written _)

theorem cross (separate : Separate legs n size) (written : ∀ leg, target leg ∈ leg.spans)
    (read : ∀ leg, source leg ∈ leg.spans) (own : ∀ leg ∈ legs, Apart (target leg) (source leg) n) :
    ∀ a ∈ legs, ∀ b ∈ legs, Apart (target a) (source b) n :=
  List.Pairwise.forall_of_forall_of_flip own
    (separate.pairwise.imp fun apart => apart _ (written _) _ (read _))
    (separate.pairwise.imp fun apart => (apart _ (read _) _ (written _)).symm)

end Separate

theorem onMemory_allEqual [FlagSpace] (n : Nat) (legs : List Leg) (m : Memory) :
    (allEqual n legs).onMemory m =
      some (.ok (decide (∀ leg ∈ legs, m.value leg.object n = m.value leg.expected n)), m) := by
  induction legs with
  | nil => simp [allEqual]
  | cons leg legs ih =>
      rw [allEqual, onMemory_bind_ok (onMemory_equal leg.object leg.expected n m)]
      by_cases same : m.value leg.object n = m.value leg.expected n
      · simp [word_inj, same, ih]
      · simp [word_inj, same]

theorem onMemory_copies [FlagSpace] {target source : Leg → Nat} {legs : List Leg} {n : Nat}
    (targets : legs.Pairwise fun a b => Apart (target a) (target b) n)
    (sources : ∀ a ∈ legs, ∀ b ∈ legs, Apart (target a) (source b) n) {m : Memory}
    (inside : ∀ leg ∈ legs, target leg + n ≤ m.size) :
    ∃ m', (legs.forM fun leg => copy (target leg) (source leg) n).onMemory m = some (.ok (), m') ∧
      Leaves (legs.map fun leg => (target leg, m.value (source leg) n)) n m m' := by
  induction legs generalizing m with
  | nil => exact ⟨m, rfl, leaves_nil n m⟩
  | cons leg legs ih =>
      rw [List.pairwise_cons] at targets
      have first := leaves_putWord_word (inside leg (.head _)) (source leg)
      obtain ⟨m', ran, rest⟩ := ih (m := m.putWord (target leg) (m.word (source leg) n)) targets.2
        (fun a left b right => sources a (.tail _ left) b (.tail _ right))
        (fun a member => first.outside.size ▸ inside a (.tail _ member))
      refine ⟨m', onMemory_seq (onMemory_copy (.inr (sources leg (.head _) leg (.head _))) m) ran, ?_⟩
      -- No copy writes over the source of a later one.
      have unchanged : ∀ b ∈ legs, (m.putWord (target leg) (m.word (source leg) n)).value (source b) n =
          m.value (source b) n :=
        fun b member => value_put (sources leg (.head _) b (.tail _ member)) _
      rw [List.map_congr_left fun b member => congrArg (Prod.mk (target b)) (unchanged b member)] at rest
      refine first.trans rest ?_
      simpa using targets.1

structure ExchangesAll (legs : List Leg) (n : Nat) (m : Memory) (answer : Bool) (m' : Memory) : Prop where
  compares : answer = true ↔ ∀ leg ∈ legs, m.value leg.object n = m.value leg.expected n
  replaces : answer = true → Leaves (legs.map fun leg => (leg.object, m.value leg.desired n)) n m m'
  reports : answer = false → Leaves (legs.map fun leg => (leg.expected, m.value leg.object n)) n m m'
  keeps : answer = false → ∀ leg ∈ legs,
    m'.value leg.object n = m.value leg.object n ∧ m'.value leg.desired n = m.value leg.desired n

theorem ExchangesAll.found {legs : List Leg} {n : Nat} {m m' : Memory} (exchanges : ExchangesAll legs n m false m') :
    ∀ leg ∈ legs, m'.value leg.object n = m'.value leg.expected n := by
  intro leg member
  rw [(exchanges.keeps rfl leg member).1]
  exact ((exchanges.reports rfl).holds (List.mem_map_of_mem member)).symm

theorem onMemory_compareExchangeAll [FlagSpace] {legs : List Leg} {n : Nat} {m : Memory}
    (separate : Separate legs n m.size) :
    ∃ answer m', (compareExchangeAll legs n).onMemory m = some (.ok answer, m') ∧
      ExchangesAll legs n m answer m' := by
  have reportable := separate.cross Leg.expected_mem Leg.object_mem fun leg member => (separate.own member).1.symm
  have separable := separate.cross Leg.expected_mem Leg.desired_mem fun leg member => (separate.own member).2.2
  by_cases same : ∀ leg ∈ legs, m.value leg.object n = m.value leg.expected n
  · have replaceable := separate.cross Leg.object_mem Leg.desired_mem fun leg member => (separate.own member).2.1
    obtain ⟨m', ran, leaves⟩ := onMemory_copies (separate.targets Leg.object_mem) replaceable
      fun leg member => separate.inside leg member _ leg.object_mem
    refine ⟨true, m', ?_, iff_of_true rfl same, fun _ => leaves, nofun, nofun⟩
    rw [compareExchangeAll, onMemory_bind_ok (onMemory_allEqual n legs m), decide_eq_true same]
    exact onMemory_seq ran rfl
  · obtain ⟨m', ran, leaves⟩ := onMemory_copies (separate.targets Leg.expected_mem) reportable
      fun leg member => separate.inside leg member _ leg.expected_mem
    have keeps {a : Nat} (apart : ∀ b ∈ legs, Apart b.expected a n) : m'.value a n = m.value a n :=
      leaves.keeps (by simpa using apart)
    refine ⟨false, m', ?_, iff_of_false nofun same, nofun, fun _ => leaves, fun _ leg member => ⟨?_, ?_⟩⟩
    · rw [compareExchangeAll, onMemory_bind_ok (onMemory_allEqual n legs m), decide_eq_false same]
      exact onMemory_seq ran rfl
    · exact keeps fun b other => reportable b other leg member
    · exact keeps fun b other => separable b other leg member

end AtomicTables.Span
