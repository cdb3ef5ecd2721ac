import Minilang.Trace.Tracer

/-! A trace in the making: spans that are opened, annotated and closed one by one, and the
stream their events go to. -/

namespace Minilang.Trace

/-- What a stream has received, and how often it was flushed and closed. -/
structure Stream where
  text : Bytes := []
  flushed : Nat := 0
  closed : Nat := 0
  flushFault : Option Bytes := none
  closeFault : Option Bytes := none

structure OpenSpan where
  id : Nat
  parent : Nat
  scope : Scope
  name : Bytes
  extra : List (Bytes × Bytes) := []

structure Recorder where
  tracer : Tracer
  stream : Stream := {}
  /-- Spans opened so far, by handle. A tracer that is off opens spans without a number. -/
  spans : Array OpenSpan := #[]
  /-- The innermost span of the running work. -/
  current : Nat := 0
  lastSpan : Nat := 0
  lastEvent : Nat := 0

namespace Recorder

def emit (recorder : Recorder) (event : Event) : Recorder :=
  let (tracer, text) := recorder.tracer.emit event
  { recorder with
    tracer, stream := { recorder.stream with text := recorder.stream.text ++ text } }

/-- Emits an event with the next sequence number. -/
private def record (recorder : Recorder) (event : Event) : Recorder :=
  let seq := recorder.lastEvent + 1
  { recorder with lastEvent := seq }.emit { event with seq }

private def isOn (recorder : Recorder) : Bool := recorder.tracer.level.isOn

/-- Opens a span under a parent. -/
def beginSpan (recorder : Recorder) (time : Time) (scope : Scope) (name : Bytes) (parent : Nat) :
    OpenSpan × Recorder :=
  if recorder.isOn then
    let id := recorder.lastSpan + 1
    let span : OpenSpan := { id, parent, scope, name }
    (span, { recorder with lastSpan := id, spans := recorder.spans.push span }.record
      { time, kind := .begin, scope, span := id, parent, name })
  else
    let span : OpenSpan := { id := 0, parent := 0, scope, name }
    (span, { recorder with spans := recorder.spans.push span })

/-- Opens a span inside the running work, which goes on inside it. -/
def startSpan (recorder : Recorder) (time : Time) (scope : Scope) (name : Bytes) :
    OpenSpan × Recorder :=
  let (span, recorder) := recorder.beginSpan time scope name recorder.current
  (span, if span.id = 0 then recorder else { recorder with current := span.id })

/-- Annotates a span. Annotations belong to the span, so those of its earlier ends grow too. -/
def annotate (recorder : Recorder) (handle : Nat) (key value : Bytes) : Recorder :=
  match recorder.spans[handle]?, recorder.isOn with
  | some span, true =>
      let extra := setExtra key value span.extra
      let amend := fun (event : Event) =>
        if event.kind == .finish && event.span == span.id && !event.extra.isEmpty then
          { event with extra }
        else event
      let ring := recorder.tracer.ring.map (·.amend amend)
      { recorder with
        spans := recorder.spans.set! handle { span with extra }
        tracer := { recorder.tracer with ring } }
  | _, _ => recorder

/-- Closes a span, once or more. -/
def endSpan (recorder : Recorder) (time : Time) (handle : Nat) (detail : Bytes) : Recorder :=
  match recorder.spans[handle]?, recorder.isOn with
  | some span, true => recorder.record
      { time, kind := .finish, scope := span.scope, span := span.id, parent := span.parent
        name := span.name, detail, extra := span.extra }
  | _, _ => recorder

/-- An event outside every span. -/
def point (recorder : Recorder) (time : Time) (scope : Scope) (name detail : Bytes) : Recorder :=
  if recorder.isOn then recorder.record { time, kind := .point, scope, name, detail } else recorder

/-- Flushes the stream, if there is one. -/
def flush (recorder : Recorder) : Except Bytes Unit × Recorder :=
  if recorder.tracer.streams then
    let stream := { recorder.stream with flushed := recorder.stream.flushed + 1 }
    (stream.flushFault.elim (.ok ()) .error, { recorder with stream })
  else (.ok (), recorder)

/-- Flushes the stream and closes it when that went well. -/
def close (recorder : Recorder) : Except Bytes Unit × Recorder :=
  match recorder.flush with
  | (.error fault, recorder) => (.error fault, recorder)
  | (.ok _, recorder) =>
      if recorder.tracer.streams then
        let stream := { recorder.stream with closed := recorder.stream.closed + 1 }
        (stream.closeFault.elim (.ok ()) .error, { recorder with stream })
      else (.ok (), recorder)

end Recorder

end Minilang.Trace
