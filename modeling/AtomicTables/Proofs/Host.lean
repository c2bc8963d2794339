import AtomicTables.Host
import Mathlib.Data.List.Induction
import Mathlib.Data.List.TakeWhile

/-!
# What a process finds out

Whatever a process is asked, and in whatever order, all its answers come from one detection and from one set of
available backends that goes with it (`serves_session`).
-/

namespace AtomicTables

def Detected.under (target : Target) (hardware : Capabilities) (override : Option Detected) : Detected :=
  override.getD ⟨(compileTime target).capabilities ∪ hardware, .current⟩

inductive Request where
  | detect
  | capabilities
  | architecture
  | tryOverride (value : Option Detected)
  | setOverride (value : Option Detected)
  | clearOverride
  | hasOverride
  | available
  | isAvailable (id : BackendId)
  | availableOfKind (kinds : KindSet)
  | resolve (selection : Selection) (preferences : Preferences)

namespace Request

abbrev Answer : Request → Type
  | detect => Detected
  | capabilities => Capabilities
  | architecture => Architecture
  | tryOverride _ => Except OverrideError Unit
  | setOverride _ | clearOverride => Except OverrideFailure Unit
  | hasOverride | isAvailable _ => Bool
  | available | availableOfKind _ => BackendSet
  | resolve .. => Candidates

def perform : (r : Request) → Host r.Answer
  | detect => Host.detect
  | capabilities => return (← Host.detect).capabilities
  | architecture => return (← Host.detect).architecture
  | tryOverride value => Host.tryOverride value
  | setOverride value => Host.setOverride value
  | clearOverride => Host.clearOverride
  | hasOverride => Host.hasOverride
  | available => Host.available
  | isAvailable id => Host.isAvailable id
  | availableOfKind kinds => Host.availableOfKind kinds
  | resolve selection preferences => Host.resolve selection preferences

def isQuery : Request → Bool
  | tryOverride _ | setOverride _ | clearOverride | hasOverride => false
  | isAvailable id => id != .null
  | _ => true

def override? : Request → Option (Option Detected)
  | tryOverride value | setOverride value => some value
  | clearOverride => some none
  | _ => none

def answer (d : Detected) (detected : Bool) (override : Option Detected) : (r : Request) → r.Answer
  | detect => d
  | capabilities => d.capabilities
  | architecture => d.architecture
  | tryOverride _ => if detected then .error .alreadyInitialized else .ok ()
  | setOverride _ | clearOverride => if detected then .error ⟨.alreadyInitialized⟩ else .ok ()
  | hasOverride => override.isSome
  | available => availableWith d.capabilities
  | isAvailable id => id.isIn (availableWith d.capabilities)
  | availableOfKind kinds => backendsOfKind kinds (availableWith d.capabilities)
  | resolve selection preferences => Candidates.resolve selection preferences (availableWith d.capabilities)

theorem answer_congr {r : Request} (asksNothing : r.isQuery = false) (d d' : Detected) (detected : Bool)
    (override : Option Detected) : r.answer d detected override = r.answer d' detected override := by
  cases r with
  | tryOverride | setOverride | clearOverride | hasOverride => rfl
  | isAvailable id =>
      obtain rfl : id = .null := by simpa [isQuery] using asksNothing
      rfl
  | _ => cases asksNothing

theorem override?_of_isQuery {r : Request} (query : r.isQuery) : r.override? = none := by
  cases r with
  | tryOverride | setOverride | clearOverride => cases query
  | _ => rfl

def beforeQuery (requests : List Request) : List Request := requests.takeWhile fun r => !r.isQuery

def lastOverride (requests : List Request) : Option Detected :=
  ((beforeQuery requests).filterMap override?).getLast?.join

def found (target : Target) (hardware : Capabilities) (requests : List Request) : Detected :=
  .under target hardware (lastOverride requests)

theorem beforeQuery_append (requests later : List Request) :
    beforeQuery (requests ++ later) =
      if requests.any isQuery then beforeQuery requests else requests ++ beforeQuery later := by
  cases queried : requests.any isQuery with
  | false => exact List.takeWhile_append_of_pos (by simpa using queried)
  | true =>
      rw [beforeQuery, List.takeWhile_append, if_neg]
      · rfl
      · intro same
        have all := (List.takeWhile_prefix fun r : Request => !r.isQuery).eq_of_length same
        rw [List.takeWhile_eq_self_iff] at all
        obtain ⟨r, mem, query⟩ := List.any_eq_true.1 queried
        simpa [query] using all r mem

theorem beforeQuery_of_silent {requests : List Request} (silent : requests.any isQuery = false) :
    beforeQuery requests = requests :=
  List.takeWhile_eq_self_iff.2 (by simpa using silent)

theorem lastOverride_append (requests later : List Request) {r : Request}
    (asked : requests.any isQuery ∨ r.isQuery) :
    lastOverride (requests ++ r :: later) = lastOverride requests := by
  rw [lastOverride, lastOverride, beforeQuery_append]
  split
  · rfl
  · rename_i silent
    have query : r.isQuery := asked.resolve_left silent
    rw [beforeQuery_of_silent (eq_false_of_ne_true silent), beforeQuery,
      List.takeWhile_cons_of_neg (by simp [query]), List.append_nil]

theorem lastOverride_snoc (requests : List Request) (r : Request) :
    lastOverride (requests ++ [r]) =
      if requests.any isQuery then lastOverride requests
      else r.override?.getD (lastOverride requests) := by
  split
  · rename_i queried
    exact lastOverride_append requests [] (.inl queried)
  · rename_i silent
    cases query : r.isQuery with
    | true =>
        rw [override?_of_isQuery query]
        exact lastOverride_append requests [] (.inr query)
    | false =>
        have both : (requests ++ [r]).any isQuery = false := by simpa [query] using silent
        rw [lastOverride, lastOverride, beforeQuery_of_silent both,
          beforeQuery_of_silent (eq_false_of_ne_true silent), List.filterMap_append, List.getLast?_append]
        cases demand : r.override? <;> simp [demand]

example (d : Detected) : lastOverride [.setOverride none, .tryOverride (some d), .isAvailable .null, .detect,
    .clearOverride] = some d := rfl

end Request

namespace HostState

/-- The state of a process that takes overrides, on a processor with the capabilities `hardware`. The two
cells agree, and the override is the one that the detection has followed, if it has been made. -/
structure Coherent (target : Target) (hardware : Capabilities) (override : Option Detected) (detected : Bool)
    (p : HostState) : Prop where
  overridable : p.overridable = true
  build : p.target = target
  processor : p.hardware = hardware
  chosen : p.override = override
  detection : p.detection.value? = if detected then some (.under target hardware override) else none
  availability {ids : BackendSet} (known : p.availability.value? = some ids) :
    detected ∧ ids = availableWith (Detected.under target hardware override).capabilities

def emitted (p : HostState) (event : Event) : HostState := { p with events := p.events ++ [event] }

theorem coherent_fresh (target : Target) (hardware : Capabilities) :
    (fresh true hardware target).Coherent target hardware none false :=
  ⟨rfl, rfl, rfl, rfl, rfl, nofun⟩

end HostState

namespace Host

variable {target : Target} {hardware : Capabilities} {override : Option Detected} {detected : Bool}
  {p : HostState}

theorem survey_run (p : HostState) :
    ∃ event : Event, survey.run p = (.under p.target p.hardware p.override, p.emitted event) := by
  obtain ⟨overridable, target, hardware, override, detection, availability, events⟩ := p
  cases override with
  | some d => exact ⟨_, rfl⟩
  | none => exact ⟨_, rfl⟩

theorem detect_run (coherent : p.Coherent target hardware override detected) :
    (detect.run p).1 = .under target hardware override ∧
      (detect.run p).2.Coherent target hardware override true ∧
      (detect.run p).2.availability = p.availability := by
  obtain ⟨_, target, hardware, override, ⟨value⟩, availability, events⟩ := p
  obtain ⟨rfl, rfl, rfl, rfl, detection, agree⟩ := coherent
  cases detected with
  | true =>
      obtain rfl : value = some (.under target hardware override) := detection
      exact ⟨rfl, ⟨rfl, rfl, rfl, rfl, rfl, agree⟩, rfl⟩
  | false =>
      obtain rfl : value = none := detection
      let empty : HostState := ⟨true, target, hardware, override, ⟨none⟩, availability, events⟩
      obtain ⟨event, surveyed⟩ := survey_run empty
      have ran : detect.run empty =
          ((survey.run empty).1, { (survey.run empty).2 with detection := ⟨some (survey.run empty).1⟩ }) := rfl
      rw [surveyed] at ran
      rw [ran]
      exact ⟨rfl, ⟨rfl, rfl, rfl, rfl, rfl, fun known => absurd (agree known).1 Bool.false_ne_true⟩, rfl⟩

theorem available_run_of_filled {ids : BackendSet} (filled : p.availability.value? = some ids) :
    available.run p = (ids, p) := by
  obtain ⟨overridable, target, processor, chosen, detection, ⟨value⟩, events⟩ := p
  obtain rfl : value = some ids := filled
  rfl

theorem available_keeps {ids : BackendSet} (filled : p.availability.value? = some ids) :
    (available.run p).2.availability.value? = some ids := by
  rw [available_run_of_filled filled]
  exact filled

theorem available_run (coherent : p.Coherent target hardware override detected) :
    (available.run p).1 = availableWith (Detected.under target hardware override).capabilities ∧
      (available.run p).2.Coherent target hardware override true ∧
      (available.run p).2.availability.value? = some (available.run p).1 := by
  cases filled : p.availability.value? with
  | some ids =>
      obtain ⟨rfl, same⟩ := coherent.availability filled
      rw [available_run_of_filled filled]
      exact ⟨same, coherent, filled⟩
  | none =>
      obtain ⟨same, settled, kept⟩ := detect_run coherent
      obtain ⟨overridable, target, processor, chosen, detection, ⟨value⟩, events⟩ := p
      obtain rfl : value = none := filled
      let unasked : HostState := ⟨overridable, target, processor, chosen, detection, ⟨none⟩, events⟩
      let ids := availableWith (detect.run unasked).1.capabilities
      have ran : available.run unasked =
          (ids, { (detect.run unasked).2.emitted ⟨.debug, "resolved available implementations",
            [("ids", ids.render)]⟩ with availability := ⟨some ids⟩ }) := rfl
      have agree : ids = availableWith (Detected.under _ hardware override).capabilities :=
        congrArg (fun d : Detected => availableWith d.capabilities) same
      rw [ran]
      refine ⟨agree, ⟨settled.overridable, settled.build, settled.processor, settled.chosen,
        settled.detection, fun known => ⟨rfl, ?_⟩⟩, rfl⟩
      exact (Option.some.inj known).symm.trans agree

theorem tryOverride_run (coherent : p.Coherent target hardware override detected) (value : Option Detected) :
    (tryOverride value).run p =
      if detected then (.error .alreadyInitialized, p) else (.ok (), { p with override := value }) := by
  obtain ⟨_, target, hardware, override, ⟨cell⟩, availability, events⟩ := p
  obtain ⟨rfl, rfl, rfl, rfl, detection, -⟩ := coherent
  cases detected with
  | true =>
      obtain rfl : cell = some (.under target hardware override) := detection
      rfl
  | false =>
      obtain rfl : cell = none := detection
      rfl

theorem setOverride_run (coherent : p.Coherent target hardware override detected) (value : Option Detected) :
    (setOverride value).run p =
      if detected then (.error ⟨.alreadyInitialized⟩, p) else (.ok (), { p with override := value }) := by
  rw [setOverride, StateT.run_bind, tryOverride_run coherent value]
  cases detected <;> rfl

end Host

namespace HostState.Coherent

variable {target : Target} {hardware : Capabilities} {override : Option Detected} {detected : Bool}
  {p : HostState}

theorem withOverride (coherent : p.Coherent target hardware override false) (value : Option Detected) :
    { p with override := value }.Coherent target hardware value false :=
  ⟨coherent.overridable, coherent.build, coherent.processor, rfl, coherent.detection,
    fun known => absurd (coherent.availability known).1 Bool.false_ne_true⟩

theorem emitted (coherent : p.Coherent target hardware override detected) (event : Event) :
    (p.emitted event).Coherent target hardware override detected :=
  { coherent with }

end HostState.Coherent

namespace Request
open Host

variable {target : Target} {hardware : Capabilities} {override : Option Detected} {detected : Bool}
  {p : HostState}

structure Serves (r : Request) (target : Target) (hardware : Capabilities) (override : Option Detected)
    (detected : Bool) (p : HostState) (served : r.Answer × HostState) : Prop where
  answers : served.1 = r.answer (.under target hardware override) detected override
  coherent : served.2.Coherent target hardware (if detected then override else r.override?.getD override)
    (detected || r.isQuery)
  rejects (demands : r.override?.isSome) (late : detected) : served.2 = p
  keeps {ids : BackendSet} (filled : p.availability.value? = some ids) : served.2.availability.value? = some ids

theorem serves_query {r : Request} (query : r.isQuery) {served : r.Answer × HostState}
    (answers : served.1 = r.answer (.under target hardware override) detected override)
    (coherent : served.2.Coherent target hardware override true)
    (keeps : ∀ ids, p.availability.value? = some ids → served.2.availability.value? = some ids) :
    r.Serves target hardware override detected p served := by
  have none := override?_of_isQuery query
  refine ⟨answers, ?_, fun demands => ?_, keeps _⟩
  · rw [none, Option.getD_none, ite_self, query, Bool.or_true]
    exact coherent
  · rw [none] at demands
    cases demands

theorem serves_demand {r : Request} {value : Option Detected} (demand : r.override? = some value)
    (silent : r.isQuery = false) (coherent : p.Coherent target hardware override detected)
    {late early : r.Answer} (answers : (if detected then late else early) =
      r.answer (.under target hardware override) detected override) :
    r.Serves target hardware override detected p
      (if detected then (late, p) else (early, { p with override := value })) := by
  cases detected with
  | true => exact ⟨answers, coherent, fun _ _ => rfl, id⟩
  | false =>
      refine ⟨answers, ?_, nofun, id⟩
      rw [demand, silent]
      exact coherent.withOverride value

theorem serves_silent {r : Request} (silent : r.isQuery = false) (none : r.override? = none)
    (coherent : p.Coherent target hardware override detected) {answer : r.Answer}
    (answers : answer = r.answer (.under target hardware override) detected override) :
    r.Serves target hardware override detected p (answer, p) := by
  refine ⟨answers, ?_, fun _ _ => rfl, id⟩
  rw [none, silent, Option.getD_none, ite_self, Bool.or_false]
  exact coherent

theorem serves (r : Request) (coherent : p.Coherent target hardware override detected) :
    r.Serves target hardware override detected p (r.perform.run p) := by
  cases r with
  | detect =>
      obtain ⟨same, settled, kept⟩ := detect_run coherent
      exact serves_query rfl same settled fun _ => (congrArg Once.value? kept).trans
  | capabilities =>
      obtain ⟨same, settled, kept⟩ := detect_run coherent
      exact serves_query rfl (congrArg Detected.capabilities same) settled
        fun _ => (congrArg Once.value? kept).trans
  | architecture =>
      obtain ⟨same, settled, kept⟩ := detect_run coherent
      exact serves_query rfl (congrArg Detected.architecture same) settled
        fun _ => (congrArg Once.value? kept).trans
  | tryOverride value =>
      rw [perform, tryOverride_run coherent value]
      exact serves_demand rfl rfl coherent rfl
  | setOverride value =>
      rw [perform, setOverride_run coherent value]
      exact serves_demand rfl rfl coherent rfl
  | clearOverride =>
      rw [perform, Host.clearOverride, setOverride_run coherent none]
      exact serves_demand rfl rfl coherent rfl
  | hasOverride => exact serves_silent rfl rfl coherent (congrArg Option.isSome coherent.chosen)
  | available =>
      obtain ⟨same, settled, -⟩ := available_run coherent
      exact serves_query rfl same settled fun _ => available_keeps
  | isAvailable id =>
      by_cases null : id = .null
      · subst null
        exact serves_silent rfl rfl coherent rfl
      · obtain ⟨same, settled, -⟩ := available_run coherent
        have ran : (Host.isAvailable id).run p =
            ((Host.available.run p).1.contains id.asSet, (Host.available.run p).2) := by
          rw [Host.isAvailable, if_neg null]
          rfl
        have query : (isAvailable id).isQuery := bne_iff_ne.2 null
        rw [perform, ran]
        refine serves_query query ?_ settled fun _ => available_keeps
        rw [answer, BackendId.isIn, bne_iff_ne.2 null, Bool.true_and, ← same]
  | availableOfKind kinds =>
      obtain ⟨same, settled, -⟩ := available_run coherent
      exact serves_query rfl (congrArg (backendsOfKind kinds) same) settled fun _ => available_keeps
  | resolve selection preferences =>
      obtain ⟨same, settled, -⟩ := available_run coherent
      have answers := congrArg (Candidates.resolve selection preferences) same
      exact serves_query rfl answers (settled.emitted _) fun _ => available_keeps

end Request

namespace HostState

def after (p : HostState) (requests : List Request) : HostState :=
  requests.foldl (fun p r => (r.perform.run p).2) p

/-- How many of the requests change what the cell of the available backends holds. -/
def surveys (p : HostState) : List Request → Nat
  | [] => 0
  | r :: requests =>
    let p' := (r.perform.run p).2
    (if p'.availability.value? = p.availability.value? then 0 else 1) + p'.surveys requests

variable {target : Target} {hardware : Capabilities} {override : Option Detected} {detected : Bool}
  {p : HostState}

theorem coherent_after (target : Target) (hardware : Capabilities) (requests : List Request) :
    ((fresh true hardware target).after requests).Coherent target hardware (Request.lastOverride requests)
      (requests.any Request.isQuery) := by
  induction requests using List.reverseRecOn with
  | nil => exact coherent_fresh target hardware
  | append_singleton requests r ih =>
      rw [after, List.foldl_append, Request.lastOverride_snoc, List.any_append, List.any_cons, List.any_nil,
        Bool.or_false]
      exact (r.serves ih).coherent

theorem Coherent.surveys_of_filled {ids : BackendSet} (coherent : p.Coherent target hardware override detected)
    (filled : p.availability.value? = some ids) (requests : List Request) : p.surveys requests = 0 := by
  induction requests generalizing p override detected with
  | nil => rfl
  | cons r requests ih =>
      have serves := r.serves coherent
      have kept := serves.keeps filled
      rw [surveys, if_pos (kept.trans filled.symm), Nat.zero_add]
      exact ih serves.coherent kept

theorem Coherent.surveys_le_one (coherent : p.Coherent target hardware override detected)
    (requests : List Request) : p.surveys requests ≤ 1 := by
  induction requests generalizing p override detected with
  | nil => exact Nat.zero_le 1
  | cons r requests ih =>
      have coherent' := (r.serves coherent).coherent
      rw [surveys]
      split
      · rw [Nat.zero_add]
        exact ih coherent'
      · rename_i changed
        -- An empty cell that has changed is a filled one.
        cases filled : (r.perform.run p).2.availability.value? with
        | some ids => rw [coherent'.surveys_of_filled filled]
        | none =>
            cases before : p.availability.value? with
            | none => exact absurd (filled.trans before.symm) changed
            | some ids => cases filled.symm.trans ((r.serves coherent).keeps before)

end HostState

/-- A process on a processor with the capabilities `hardware` answers each request of a session as the one
detection of the session demands. Overrides are taken before the first query only and change nothing later. The
cell of the available backends is filled once at most, and is all that is looked at from then on. -/
theorem Host.serves_session (target : Target) (hardware : Capabilities) (earlier later : List Request)
    (r : Request) :
    let fresh := HostState.fresh true hardware target
    let p := fresh.after earlier
    (r.perform.run p).1 = r.answer (Request.found target hardware (earlier ++ r :: later))
      (earlier.any Request.isQuery) (Request.lastOverride earlier) ∧
    (r.override?.isSome → earlier.any Request.isQuery → (r.perform.run p).2 = p) ∧
    fresh.surveys (earlier ++ r :: later) ≤ 1 ∧
    (available.run p).2.availability.value? = some (available.run p).1 ∧
    ∀ ids, p.availability.value? = some ids →
      available.run p = (ids, p) ∧ (r.perform.run p).2.availability.value? = some ids := by
  intro fresh p
  have coherent : p.Coherent target hardware _ _ := HostState.coherent_after target hardware earlier
  have serves := r.serves coherent
  refine ⟨serves.answers.trans ?_, serves.rejects,
    (HostState.coherent_fresh target hardware).surveys_le_one _, (available_run coherent).2.2,
    fun ids filled => ⟨available_run_of_filled filled, serves.keeps filled⟩⟩
  cases query : r.isQuery with
  | true => rw [Request.found, Request.lastOverride_append earlier later (.inr query)]
  | false => exact Request.answer_congr query ..

end AtomicTables
