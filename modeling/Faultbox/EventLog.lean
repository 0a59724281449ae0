-- The event log (internal/star/events.go): an append-only list of events, each
-- with its sequence number, its dotted type and a snapshot of the vector clock
-- of its service.
import Faultbox.GoValues

open goval

namespace faultbox.event_log

/-- `Event`. The timestamp is left out: nothing that the models decide reads it. -/
structure Event where
  seq : Int
  type : String
  eventType : String
  partitionKey : String
  service : String
  fields : GoMap String String
  vectorClock : GoMap String Int

/-- `EventLog`, less its two secondary indexes and its subscribers. -/
structure EventLog where
  events : List Event
  generation : Nat
  seq : Int
  clocks : GoMap String (GoMap String Int)

/-- `NewEventLog`. -/
def newEventLog : EventLog := ⟨[], 0, 0, ∅⟩

/-- `Event.Fields[key]`: a missing field reads as the empty string. -/
def Event.field (ev : Event) (key : String) : String := (ev.fields.lookup key).getD ""

/-- The component of `name` in a clock; a missing one reads as 0. -/
def component (vc : GoMap String Int) (name : String) : Int := (vc.lookup name).getD 0

/-- The dotted event type that `emit` derives from the short one. -/
def dottedType (typ : String) (fields : GoMap String String) : String :=
  match fields.lookup "syscall" with
  | some syscall => typ ++ "." ++ syscall
  | none =>
    if typ = "service_started" ∨ typ = "service_ready" then
      "lifecycle." ++ trimPrefix typ "service_"
    else if typ = "step_send" ∨ typ = "step_recv" ∨ typ = "client_call" ∨
        typ = "client_return" ∨ typ = "contract_violation" then
      match fields.lookup "target" with
      | some target => typ ++ "." ++ target
      | none => typ
    else typ

/-- The clock of `service` after its own component moved on by one. -/
def EventLog.tick (l : EventLog) (service : String) : GoMap String Int :=
  let vc := (l.clocks.lookup service).getD ∅
  vc.insert service (component vc service + 1)

/-- The event that `emit` appends. -/
def EventLog.newEvent (l : EventLog) (typ service : String) (fields : GoMap String String) :
    Event :=
  { seq := l.seq + 1
    type := typ
    eventType := dottedType typ fields
    partitionKey := service
    service
    fields
    vectorClock := if service = "" then ∅ else l.tick service }

/-- `emit`, up to the unlock of the log: the dispatch to the subscribers comes after it. -/
def EventLog.emit (l : EventLog) (typ service : String) (fields : GoMap String String) :
    EventLog :=
  { l with
    events := l.events ++ [l.newEvent typ service fields]
    seq := l.seq + 1
    clocks := if service = "" then l.clocks else l.clocks.insert service (l.tick service) }

/-- `MergeClock`: the clock of `local` takes over what the clock of `remote` knows. -/
def EventLog.mergeClock (l : EventLog) (localName remote : String) : EventLog :=
  let mine := (l.clocks.lookup localName).getD ∅
  match l.clocks.lookup remote with
  | none => { l with clocks := l.clocks.insert localName mine }
  | some theirs =>
    let merged := theirs.entries.foldl
      (fun vc kv => if component vc kv.1 < kv.2 then vc.insert kv.1 kv.2 else vc) mine
    { l with clocks := l.clocks.insert localName merged }

/-- `Reset`. -/
def EventLog.reset (l : EventLog) : EventLog := ⟨[], l.generation + 1, 0, ∅⟩

/-- `MatcherVal`, with its `matchFn`; the name is only for display. -/
structure MatcherVal where
  matchFn : Option (Event → Bool)

/-- `MatcherVal.Matches`: a matcher with no function matches nothing. -/
def MatcherVal.matchesEvent (m : MatcherVal) (ev : Event) : Bool :=
  match m.matchFn with
  | none => false
  | some f => f ev

/-- `match.event(type=typ)`, for a pattern without a star. -/
def matchType (typ : String) : MatcherVal := ⟨some fun ev => ev.type == typ⟩

/-- `FirstMatching`: the earliest event that matches. -/
def EventLog.firstMatching (l : EventLog) (m : MatcherVal) : Option Event :=
  l.events.find? m.matchesEvent

def EventLog.holdsMatch (l : EventLog) (m : MatcherVal) : Bool := (l.firstMatching m).isSome

@[simp] theorem emit_events (l : EventLog) (typ service : String) (fields : GoMap String String) :
    (l.emit typ service fields).events = l.events ++ [l.newEvent typ service fields] := rfl

@[simp] theorem mergeClock_events (l : EventLog) (localName remote : String) :
    (l.mergeClock localName remote).events = l.events := by
  unfold EventLog.mergeClock
  dsimp only
  split <;> rfl

@[simp] theorem holdsMatch_iff (l : EventLog) (m : MatcherVal) :
    l.holdsMatch m = true ↔ ∃ ev ∈ l.events, m.matchesEvent ev = true := by
  simp [EventLog.holdsMatch, EventLog.firstMatching, List.find?_isSome]

end faultbox.event_log
