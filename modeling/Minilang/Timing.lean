import Minilang.Text.Binary64
import Minilang.Text.Utf8

/-! How long the phases of a compilation take, and the table that shows it. -/

namespace Minilang

/-- A measured interval; it has a duration once it is closed. -/
structure TimedPhase where
  name : Bytes
  /-- Nanoseconds. -/
  start : Int
  duration : Option Int := none
  note : Bytes := []
  deriving Repr

/-- Phases in the order they began. -/
structure Timer where
  phases : Array TimedPhase := #[]
  deriving Repr

namespace Timer

/-- Opens a phase; its number closes it. -/
def start (timer : Timer) (now : Int) (name : Bytes) : Nat × Timer :=
  (timer.phases.size, { phases := timer.phases.push { name, start := now } })

/-- Closes a phase. Numbers of no phase and of closed phases change nothing. -/
def stop (timer : Timer) (now : Int) (number : Int) (note : Bytes) : Timer :=
  if number < 0 then timer
  else
    { phases := timer.phases.modify number.toNat fun phase =>
        if phase.duration.isSome then phase
        else { phase with duration := some (now - phase.start), note } }

end Timer

/-- Nanoseconds as milliseconds. -/
def milliseconds (nanoseconds : Int) : Float := Float.ofInt nanoseconds / 1000000.0

structure PhaseTime where
  name : Bytes
  milliseconds : Float
  note : Bytes := []

/-- The closed phases of a timer with their total. -/
structure TimeReport where
  total : Float := 0.0
  phases : List PhaseTime := []

namespace TimeReport

private def row (name : Bytes) (milliseconds : Float) (note : Bytes) : Bytes :=
  "  " ++ name ++ Bytes.spaces (12 - (Utf8.runes name).length) ++ " " ++
    Bytes.padLeft 8 ((Binary64.ofFloat milliseconds).fixed 2) ++ " ms" ++
    Bytes.onlyIf (!note.isEmpty) ("  (" ++ note ++ ")") ++ "\n"

def text (report : TimeReport) : Bytes :=
  "timings:\n"
    ++ report.phases.flatMap (fun phase => row phase.name phase.milliseconds phase.note)
    ++ row "total" report.total []

/-- The first phase of a name. -/
def phase? (report : TimeReport) (name : Bytes) : Option PhaseTime :=
  report.phases.find? (·.name = name)

end TimeReport

/-- Open phases are left out. -/
def Timer.report (timer : Timer) : TimeReport :=
  let closed := timer.phases.toList.filterMap fun phase =>
    phase.duration.map fun duration => (phase, duration)
  { total := milliseconds (closed.foldl (fun total (_, duration) => total + duration) 0)
    phases := closed.map fun (phase, duration) =>
      { name := phase.name, milliseconds := milliseconds duration, note := phase.note } }

end Minilang
