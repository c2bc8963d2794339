import AtomicTables.Event
import AtomicTables.Registry.Entries

/-!
# Candidates

A caller selects backends; the candidates are the available ones among them, without repetition, in
the order in which they are consulted.
-/

namespace AtomicTables

def preferenceLayout : BitLayout := ⟨32, "Options", ["PRIORITISE_ARG_IDS"]⟩

abbrev Preferences := BitSet preferenceLayout

namespace Preferences

def callerOrder : Preferences := .single 0

def ofRaw (raw : UInt32) : Preferences := (BitSet.ofNat raw.toNat).truncate

end Preferences

inductive Selection where
  | all
  | ids (list : List BackendId)

def Selection.render : Selection → String
  | .all => "All"
  | .ids list => "Ids([" ++ String.intercalate ", " (list.map BackendId.render) ++ "])"

def maxCandidates : Nat := 32

structure Candidates where
  places : Vector BackendId maxCandidates
  size : Nat
  seen : BackendSet
deriving DecidableEq

namespace Candidates

def empty : Candidates := ⟨Vector.replicate _ .null, 0, ∅⟩

/-- Appends an id unless it is null, was pushed before, or finds no place. -/
def push (c : Candidates) (id : BackendId) : Candidates :=
  if id = .null ∨ c.seen.contains id.asSet then c
  else if h : c.size < maxCandidates then
    ⟨c.places.set c.size id h, c.size + 1, c.seen ∪ id.asSet⟩
  else c

def pushAll (c : Candidates) (ids : List BackendId) : Candidates := ids.foldl push c

def toList (c : Candidates) : List BackendId := c.places.toList.take c.size

def isEmpty (c : Candidates) : Bool := c.size == 0

def render (c : Candidates) : String :=
  "[" ++ String.intercalate ", " (c.toList.map fun id => "\"" ++ id.name ++ "\"") ++ "]"

def rankedIds (ids : List BackendId) (available : BackendSet) : List BackendId :=
  BackendKind.byOverhead.flatMap fun kind =>
    ids.filter fun id => id.isIn available && id.kind == kind

/-- The ids to consult, best first, possibly with repetitions. -/
def consulted (selection : Selection) (preferences : Preferences) (available : BackendSet) :
    List BackendId :=
  match selection with
  | .all => BackendKind.byOverhead.flatMap fun kind =>
      (registry.filter fun r => r.kind == kind && r.id.isIn available).map (·.id)
  | .ids list =>
    if preferences.contains Preferences.callerOrder then list.filter (·.isIn available)
    else rankedIds list available

def resolve (selection : Selection) (preferences : Preferences) (available : BackendSet) :
    Candidates :=
  empty.pushAll (consulted selection preferences available)

def event (selection : Selection) (preferences : Preferences) (c : Candidates) : Event :=
  ⟨.trace, "resolved candidates",
    [("selection", selection.render), ("options", preferences.render), ("candidates", c.render)]⟩

end Candidates

end AtomicTables
