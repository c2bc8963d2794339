import AtomicTables.Once
import AtomicTables.Registry.Candidates

/-!
# The host process

A process finds out once what the processor can do, and once which backends are therefore available.
Before the first query an override may take the place of what would be found. A build without support for
overrides knows only what its compiler could take for granted.
-/

namespace AtomicTables

/-- The features that a build takes for granted. -/
structure Target where
  wideExchange : Bool
  transactions : Bool

def Target.portable : Target := ⟨false, false⟩

structure Detected where
  capabilities : Capabilities
  architecture : Architecture
deriving DecidableEq

namespace Detected

def baseline : Detected := ⟨.empty, .current⟩

def compileTime (target : Target := .portable) : Detected :=
  let caps := if target.wideExchange then Capabilities.empty ∪ .wideExchange else .empty
  ⟨if target.transactions then caps ∪ .transactions else caps, .current⟩

def render (d : Detected) : String :=
  "Detected \x7b caps: " ++ d.capabilities.render ++ ", arch: " ++ d.architecture.title ++ " \x7d"

end Detected

inductive OverrideError where
  | alreadyInitialized
  | unsupported
deriving DecidableEq

def OverrideError.message : OverrideError → String
  | .alreadyInitialized =>
    "detection already initialized; overrides must be set before the first query"
  | .unsupported => "detection overrides are not supported in this build"

structure OverrideFailure where
  cause : OverrideError

def OverrideFailure.message (f : OverrideFailure) : String :=
  "platform::set_override failed: " ++ f.cause.message

structure HostState where
  overridable : Bool
  target : Target
  hardware : Capabilities
  override : Option Detected
  detection : Once Detected
  availability : Once BackendSet
  events : List Event

abbrev Host := StateM HostState

namespace HostState

def fresh (overridable : Bool) (hardware : Capabilities) (target : Target := .portable) : HostState :=
  ⟨overridable, target, hardware, none, .empty, .empty, []⟩

end HostState

namespace Host

def emit (event : Event) : Host Unit :=
  modify fun p => { p with events := p.events ++ [event] }

def traced {α : Type} (action : Host α) : Host (α × List Event) := do
  let earlier := (← get).events
  modify fun p => { p with events := [] }
  let result ← action
  let events := (← get).events
  modify fun p => { p with events := earlier ++ events }
  return (result, events)

def hasOverride : Host Bool := return (← get).override.isSome

/-- Sets or removes the override, as long as nothing has been detected. -/
def tryOverride (value : Option Detected) : Host (Except OverrideError Unit) := do
  let p ← get
  if !p.overridable then return .error .unsupported
  else if p.detection.value?.isSome then return .error .alreadyInitialized
  else
    set { p with override := value }
    return .ok ()

def setOverride (value : Option Detected) : Host (Except OverrideFailure Unit) := do
  match ← tryOverride value with
  | .ok _ => return .ok ()
  | .error cause => return .error ⟨cause⟩

def clearOverride : Host (Except OverrideFailure Unit) := setOverride none

def survey : Host Detected := do
  let p ← get
  match p.override with
  | some d =>
    emit ⟨.debug, "using detection override",
      [("arch", d.architecture.name), ("caps", d.capabilities.render)]⟩
    return d
  | none =>
    let d : Detected := ⟨(Detected.compileTime p.target).capabilities ∪ p.hardware, .current⟩
    emit ⟨.debug, "detected atomic capabilities",
      [("arch", d.architecture.name), ("features", toString d.capabilities.count)]⟩
    return d

def detect : Host Detected := do
  let p ← get
  if p.overridable then
    let (d, cell) ← p.detection.getOrInit survey
    modify fun p => { p with detection := cell }
    return d
  else return .compileTime p.target

def surveyBackends : Host BackendSet := do
  let ids := availableWith (← detect).capabilities
  emit ⟨.debug, "resolved available implementations", [("ids", ids.render)]⟩
  return ids

def available : Host BackendSet := do
  let (ids, cell) ← (← get).availability.getOrInit surveyBackends
  modify fun p => { p with availability := cell }
  return ids

/-- The null id is known to be unavailable without asking. -/
def isAvailable (id : BackendId) : Host Bool := do
  if id = .null then return false
  else return (← available).contains id.asSet

def availableOfKind (kinds : KindSet) : Host BackendSet :=
  return backendsOfKind kinds (← available)

def resolveWith (selection : Selection) (preferences : Preferences) (available : BackendSet) :
    Host Candidates := do
  let candidates := Candidates.resolve selection preferences available
  emit (Candidates.event selection preferences candidates)
  return candidates

def resolve (selection : Selection) (preferences : Preferences) : Host Candidates := do
  resolveWith selection preferences (← available)

end Host

end AtomicTables
