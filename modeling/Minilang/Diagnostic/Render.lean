import Minilang.Diagnostic.Bag
import Minilang.Source.File
import Minilang.Text.Json
import Minilang.Text.Width
import Minilang.Text.Paint

/-! Diagnostics as text. The plain form is one line `line L:C message` with columns counted from
zero; the pretty form shows the source with a caret under the span; the JSON form is for tools.
There is no rendering of a diagnostic whose file is not in the source set. -/

namespace Minilang

/-- How file names appear. -/
inductive PathMode where
  /-- Relative below the base directory, absolute elsewhere. -/
  | auto
  | absolute
  | relative
  | basename
  /-- As the file was named. -/
  | asGiven
  deriving DecidableEq, Repr

namespace PathMode

def ofNumber (n : Nat) : PathMode := [auto, absolute, relative, basename].getD n asGiven

/-- The name of a file that was not read from disk never changes. -/
def format (mode : PathMode) (workingDir base : Bytes) (file : SourceFile) : Bytes :=
  if file.flags.isVirtual then file.path
  else
    let inside := fun (base outside : Bytes) =>
      match Path.relative? (Path.absolute workingDir base) (Path.absolute workingDir file.path) with
      | some path => if Bytes.startsWith path ".." then outside else path
      | none => outside
    match mode with
    | asGiven => file.path
    | absolute => Path.absolute workingDir file.path
    | basename => Path.base file.path
    | relative => if base.isEmpty then file.path else inside base file.path
    | auto => inside (if base.isEmpty then "." else base) (Path.absolute workingDir file.path)

end PathMode

namespace Diagnostic

private def plainPosition (file : SourceFile) (d : Diagnostic) : UInt32 × UInt32 :=
  let position := file.position d.span.start
  (position.line, if 0 < position.column then position.column - 1 else 0)

def plainLine (file : SourceFile) (d : Diagnostic) : Bytes :=
  let (line, column) := plainPosition file d
  "line " ++ Bytes.dec line.toNat ++ ":" ++ Bytes.dec column.toNat ++ " " ++ d.message

end Diagnostic

/-- Options of the pretty form. -/
structure PrettyOptions where
  color : Bool := false
  notes : Bool := false
  /-- Lines shown around the one complained about. -/
  context : Nat := 0
  pathMode : PathMode := .auto
  base : Bytes := []
  /-- Columns after which source lines are cut; zero leaves them whole. -/
  width : Nat := 0

namespace PrettyOptions

private def gutter (options : PrettyOptions) (width : Nat) (label : Bytes) : Bytes :=
  Text.Paint.apply options.color [.blue] (Bytes.padLeft width label ++ " |")

private def clip (options : PrettyOptions) (line : Bytes) : Bytes :=
  if options.width = 0 then line else Text.truncate line options.width "..."

/-- Blanks as wide as the text; tabs stay so that what follows lines up. -/
private def pad (text : Bytes) : Bytes :=
  (Utf8.runes text).flatMap fun rune =>
    if rune.code = 9 then [9] else Bytes.spaces (Text.runeWidth rune.code)

private def carets (options : PrettyOptions) (file : SourceFile) (span : Span) (width : Nat) :
    Bytes :=
  let first := file.position span.start
  let last := file.position span.stop
  let text := file.line first.line.toNat
  let before := text.take (first.column.toNat - 1)
  let stop :=
    if last.line = first.line && last.column.toNat - 1 ≤ text.length then last.column.toNat - 1
    else text.length
  let marked := (text.take stop).drop before.length
  let marks := "^" ++ Bytes.fill (Text.width marked - 1) 126
  gutter options width [] ++ " " ++ pad before ++
    Text.Paint.apply options.color [.red, .bold] marks ++ "\n"

private def snippet (options : PrettyOptions) (file : SourceFile) (span : Span) : Bytes :=
  let line := (file.position span.start).line.toNat
  let first := if options.context < line then line - options.context else 1
  let last := min (line + options.context) (max file.lineCount line)
  let width := (Bytes.dec last).length
  ((List.range (last + 1 - first)).map (first + ·)).flatMap fun n =>
    gutter options width (Bytes.dec n) ++ " " ++ clip options (file.line n) ++ "\n" ++
      if n = line then carets options file span width else []

private def severityPaint (severity : Severity) : List Text.Paint :=
  if severity = .error then [.red, .bold]
  else if severity = .warning then [.yellow, .bold]
  else [.cyan, .bold]

private def note? (options : PrettyOptions) (set : SourceSet) (note : Note) : Option Bytes := do
  let label := Text.Paint.apply options.color [.cyan] "note:"
  if note.span.isEmpty && note.span.start = 0 then
    return "  " ++ label ++ " " ++ note.message ++ "\n"
  let (position, _) ← set.resolve? note.span
  return "  " ++ label ++ " " ++ Bytes.dec position.line.toNat ++ ":" ++
    Bytes.dec position.column.toNat ++ ": " ++ note.message ++ "\n"

private def entry? (options : PrettyOptions) (workingDir : Bytes) (set : SourceSet)
    (d : Diagnostic) : Option Bytes := do
  let file ← set.get? d.span.file
  let position := file.position d.span.start
  let notes ← if options.notes then d.notes.mapM (note? options set) else some []
  return options.pathMode.format workingDir options.base file ++ ":" ++
    Bytes.dec position.line.toNat ++ ":" ++ Bytes.dec position.column.toNat ++ ": " ++
    Text.Paint.apply options.color (severityPaint d.severity) d.severity.name ++ " " ++
    Text.Paint.apply options.color [.bold] d.code.id ++ ": " ++ d.message ++ "\n" ++
    snippet options file d.span ++ notes.flatten

end PrettyOptions

/-- Options of the JSON form. -/
structure JsonOptions where
  positions : Bool := false
  notes : Bool := false
  pathMode : PathMode := .auto
  base : Bytes := []
  /-- The most diagnostics listed; the rest counts as dropped. No limit unless positive. -/
  max : Int := 0

namespace JsonOptions

private def location? (options : JsonOptions) (workingDir : Bytes) (set : SourceSet) (span : Span) :
    Option Json := do
  let file ← set.get? span.file
  let position := fun (name : Bytes) (n : UInt32) =>
    Json.memberIf (options.positions && n != 0) name (.number n.toNat)
  let first := file.position span.start
  let last := file.position span.stop
  let path := options.pathMode.format workingDir options.base file
  return .fields ([Json.member "file" (.text path),
      Json.member "start_byte" (.number span.start.toNat),
      Json.member "end_byte" (.number span.stop.toNat)]
    ++ position "start_line" first.line ++ position "start_col" first.column
    ++ position "end_line" last.line ++ position "end_col" last.column)

private def note? (options : JsonOptions) (workingDir : Bytes) (set : SourceSet) (note : Note) :
    Option Json := do
  let location ← location? options workingDir set note.span
  return .fields [Json.member "message" (.text note.message), Json.member "location" location]

private def entry? (options : JsonOptions) (workingDir : Bytes) (set : SourceSet)
    (d : Diagnostic) : Option Json := do
  let file ← set.get? d.span.file
  let position := file.position d.span.start
  let location ← location? options workingDir set d.span
  let notes ← if options.notes then d.notes.mapM (note? options workingDir set) else some []
  return .fields ([Json.member "severity" (.text d.severity.name),
      Json.member "code" (.text d.code.id), Json.member "message" (.text d.message),
      Json.member "line" (.number position.line.toNat),
      Json.member "column" (.number (position.column.toNat - 1)),
      Json.member "plain" (.text (d.plainLine file)), Json.member "location" location]
    ++ Json.memberIf (!notes.isEmpty) "notes" (.list notes))

end JsonOptions

namespace Bag

/-- One plain line each, and a last line that counts what was dropped. -/
def plain? (bag : Bag) (set : SourceSet) : Option Bytes := do
  let lines ← bag.items.toList.mapM fun d => do
    let file ← set.get? d.span.file
    return (d.plainLine file ++ "\n" : Bytes)
  let more : Bytes :=
    if 0 < bag.dropped then "... and " ++ Bytes.dec bag.dropped ++ " more\n" else []
  return lines.flatten ++ more

/-- Entries separated by empty lines, and a last line that counts what was dropped. -/
def pretty? (bag : Bag) (workingDir : Bytes) (set : SourceSet) (options : PrettyOptions) :
    Option Bytes := do
  let entries ← bag.items.toList.mapM (options.entry? workingDir set)
  let more : Bytes :=
    if 0 < bag.dropped then
      "\n... " ++ Bytes.dec bag.dropped ++ " more diagnostics not shown\n"
    else []
  return Bytes.join "\n" entries ++ more

/-- The report as a JSON document. -/
def document? (bag : Bag) (workingDir : Bytes) (set : SourceSet) (options : JsonOptions) :
    Option Bytes := do
  let shown :=
    if 0 < options.max then bag.items.toList.take options.max.toNat else bag.items.toList
  let entries ← shown.mapM (options.entry? workingDir set)
  let dropped := bag.dropped + (bag.size - shown.length)
  return Json.document (.fields ([Json.member "diagnostics" (.list entries),
      Json.member "count" (.number shown.length)]
    ++ Json.memberIf (0 < dropped) "dropped" (.number dropped)))

end Bag

end Minilang
