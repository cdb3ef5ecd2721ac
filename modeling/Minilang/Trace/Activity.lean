import Minilang.Trace.Event

/-! Work as a tree of spans, and the events it makes. -/

namespace Minilang.Trace

inductive Activity where
  | span (scope : Scope) (name : Bytes) (extra : List (Bytes × Bytes)) (children : List Activity)
  | point (scope : Scope) (name detail : Bytes)
  deriving Repr

/-- Numbers handed out so far. -/
structure Counters where
  spans : Nat := 0
  events : Nat := 0

mutual

/-- The events of an activity inside a parent span, in the order they happen. -/
def Activity.events (time : Time) (parent : Nat) (counters : Counters) :
    Activity → List Event × Counters
  | .point scope name detail =>
      ([{ time, seq := counters.events + 1, kind := .point, scope, name, detail }],
        { counters with events := counters.events + 1 })
  | .span scope name extra children =>
      let id := counters.spans + 1
      let opened : Event :=
        { time, seq := counters.events + 1, kind := .begin, scope, span := id, parent, name }
      let (inner, counters) :=
        Activity.allEvents time id { spans := id, events := counters.events + 1 } children
      let closed : Event :=
        { opened with seq := counters.events + 1, kind := .finish, extra }
      (opened :: inner ++ [closed], { counters with events := counters.events + 1 })

def Activity.allEvents (time : Time) (parent : Nat) (counters : Counters) :
    List Activity → List Event × Counters
  | [] => ([], counters)
  | activity :: rest =>
      let (first, counters) := activity.events time parent counters
      let (others, counters) := Activity.allEvents time parent counters rest
      (first ++ others, counters)

end

end Minilang.Trace
