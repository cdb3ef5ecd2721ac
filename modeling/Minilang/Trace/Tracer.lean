import Minilang.Trace.Event

/-! Where events go: written to a stream as they happen, kept in a ring of the latest ones, or
both. -/

namespace Minilang.Trace

structure Config where
  level : Level
  mode : Mode
  format : Format := .auto
  path : Bytes := []
  ringSize : Int := 0

/-- The latest events: a buffer that is written round and round. -/
structure Ring where
  slots : Array Event
  /-- Where the next event goes. -/
  next : Nat := 0
  /-- Whether the buffer was written to its end, so that every slot holds an event. -/
  full : Bool := false
  inside : next < slots.size

namespace Ring

/-- The capacity when none is asked for. -/
def standard : Nat := 4096

/-- The capacity for a wish. -/
def capacityFor (wanted : Int) : Nat := if 0 < wanted then wanted.toNat else standard

theorem capacityFor_pos (wanted : Int) : 0 < capacityFor wanted := by
  unfold capacityFor standard
  split <;> omega

/-- What a slot holds before its first event. -/
def blank : Event := { kind := ⟨0⟩, scope := ⟨0⟩, name := [] }

def ofCapacity (wanted : Int) : Ring :=
  { slots := Array.replicate (capacityFor wanted) blank
    inside := by simpa using capacityFor_pos wanted }

def capacity (ring : Ring) : Nat := ring.slots.size

def add (ring : Ring) (event : Event) : Ring :=
  let slots := ring.slots.set ring.next event ring.inside
  have inside := ring.inside
  have size : slots.size = ring.slots.size := Array.size_set ..
  if last : ring.next + 1 = slots.size then
    { slots, next := 0, full := true, inside := by omega }
  else { ring with slots, next := ring.next + 1, inside := by omega }

/-- The events kept, in the order they happened. -/
def snapshot (ring : Ring) : List Event :=
  let slots := ring.slots.toList
  if ring.full then slots.drop ring.next ++ slots.take ring.next else slots.take ring.next

/-- The events kept, latest first. -/
def latest (ring : Ring) : List Event := ring.snapshot.reverse

/-- Changes what is kept of the events. -/
def amend (change : Event → Event) (ring : Ring) : Ring :=
  { ring with slots := ring.slots.map change, inside := by simpa using ring.inside }

def dump (ring : Ring) (format : Format) : Bytes := ring.snapshot.flatMap (Event.render format)

end Ring

structure Tracer where
  level : Level := .off
  format : Format := .text
  streams : Bool := false
  ring : Option Ring := none

namespace Tracer

def badMode (mode : Mode) : Bytes := "unknown storage mode: " ++ mode.name

/-- A tracer of a configuration; level off needs no mode. -/
def make (config : Config) : Except Bytes Tracer :=
  if config.level = .off then .ok {}
  else if !config.mode.streams && !config.mode.keeps then .error (badMode config.mode)
  else
    .ok
      { level := config.level, format := config.format.resolve config.path
        streams := config.mode.streams
        ring := if config.mode.keeps then some (.ofCapacity config.ringSize) else none }

/-- Takes an event in; the text is what goes to the stream. -/
def emit (tracer : Tracer) (event : Event) : Tracer × Bytes :=
  if tracer.level = .off then (tracer, [])
  else
    let written := tracer.streams &&
      (event.kind == .heartbeat || tracer.level.emits event.scope)
    ({ tracer with ring := tracer.ring.map (·.add event) },
      Bytes.onlyIf written (event.render tracer.format))

def emitAll (tracer : Tracer) (events : List Event) : Tracer × Bytes :=
  let (tracer, texts) := events.foldl (fun (state : Tracer × List Bytes) event =>
    let (tracer, text) := state.1.emit event
    (tracer, text :: state.2)) (tracer, [])
  (tracer, texts.reverse.flatten)

end Tracer

end Minilang.Trace
