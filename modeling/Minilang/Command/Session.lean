import Minilang.Files
import Minilang.Surroundings
import Minilang.Trace.Activity
import Minilang.Trace.Tracer
import Minilang.Version

/-! What a command works with: files, streams and a tracer. A command either does its work or
fails with an exit code; what it wrote before stays written. -/

namespace Minilang.Command

inductive ExitCode where
  | ok
  /-- The command line or its surroundings are wrong. -/
  | usage
  /-- The program has errors. -/
  | diagnostics
  /-- Something could not be read or written. -/
  | io
  /-- The program failed while it ran. -/
  | runtime
  /-- The process ended in a panic. -/
  | crashed
  deriving DecidableEq, Repr

def ExitCode.number : ExitCode → Nat
  | ok => 0
  | usage => 1
  | diagnostics => 2
  | io => 3
  | runtime => 4
  | crashed => 2

/-- Why a command failed. There is no message where the reason was reported already. -/
structure Failure where
  code : ExitCode
  message : Option Bytes := none
  deriving DecidableEq, Repr

def Failure.usage (message : Bytes) : Failure := { code := .usage, message := some message }

def Failure.io (message : Bytes) : Failure := { code := .io, message := some message }

/-- The program's errors have been shown. -/
def Failure.reported : Failure := { code := .diagnostics }

/-- A stream that is written to. -/
structure Stream where
  text : Bytes := []
  /-- Why nothing can be written. -/
  fault : Option Bytes := none
  deriving Repr

/-- Writes, or tells why that fails. Writing nothing never fails. -/
def Stream.write (stream : Stream) (text : Bytes) : Stream × Option Bytes :=
  if text.isEmpty then (stream, none)
  else
    match stream.fault with
    | some reason => (stream, some reason)
    | none => ({ stream with text := stream.text ++ text }, none)

/-- A tracer at work. -/
structure Tracing where
  tracer : Trace.Tracer
  counters : Trace.Counters := {}
  /-- The file that events are written to; without one they go to the error stream. -/
  path : Option Bytes := none
  /-- Whether the ring is shown in the format that was asked for, or as text. -/
  dumpFormat : Trace.Format := .text

structure Session where
  files : Files
  surroundings : Surroundings := {}
  /-- The whole input, or why it cannot be read. -/
  input : Except Bytes Bytes := .ok []
  out : Stream := {}
  err : Stream := {}
  tracing : Option Tracing := none
  /-- Where a profile of the memory goes at the end. -/
  memoryProfile : Option Bytes := none
  /-- The time of day, which does not pass during a command. -/
  now : Time := {}
  version : Version := {}
  /-- How many steps a program may take at all. -/
  fuel : Nat

/-- Work on a session that may fail. -/
abbrev Action := ExceptT Failure (StateM Session)

namespace Session

/-- Writes to the output. -/
def say (text : Bytes) : StateM Session (Option Bytes) := do
  let session ← get
  let (out, fault) := session.out.write text
  set { session with out }
  return fault

/-- Writes to the error stream. -/
def complain (text : Bytes) : StateM Session (Option Bytes) := do
  let session ← get
  let (err, fault) := session.err.write text
  set { session with err }
  return fault

/-- Writes a message to the error stream, whether that works or not. -/
def note (text : Bytes) : StateM Session Unit := discard (complain text)

/-- Hands events to the tracer; the stream they go to may be a file, if it is still there. -/
def emit (tracing : Tracing) (events : List Trace.Event) : StateM Session Unit := do
  let (tracer, text) := tracing.tracer.emitAll events
  modify fun session => { session with tracing := some { tracing with tracer } }
  match tracing.path with
  | none => note text
  | some path =>
      modify fun session =>
        let files := session.files
        match files.read path with
        | .ok _ => { session with files := (files.append path text).toOption.getD files }
        | .error _ => session

/-- Traces activities below a span; zero means below none. -/
def traceBelow (parent : Nat) (activities : List Trace.Activity) : StateM Session Unit := do
  let session ← get
  match session.tracing with
  | none => return ()
  | some tracing =>
      let (events, counters) :=
        Trace.Activity.allEvents session.now parent tracing.counters activities
      emit { tracing with counters } events

/-- The span of the command is the first one. -/
def commandSpan : Nat := 1

/-- Traces activities of the command. -/
def trace (activities : List Trace.Activity) : StateM Session Unit :=
  traceBelow commandSpan activities

/-- The start or the end of the command. -/
def traceCommand (kind : Trace.Kind) (name detail : Bytes) : StateM Session Unit := do
  let session ← get
  match session.tracing with
  | none => return ()
  | some tracing =>
      let seq := tracing.counters.events + 1
      let counters := { spans := max commandSpan tracing.counters.spans, events := seq }
      emit { tracing with counters }
        [{ time := session.now, seq, kind, scope := .driver, span := commandSpan, name, detail }]

end Session

end Minilang.Command
