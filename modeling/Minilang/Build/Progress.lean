import Minilang.Build.Event
import Minilang.Text.Width

/-! A live view of a build: one row for each file, a bar and a summary. -/

namespace Minilang.Build

/-- What a row says of its file. -/
inductive Label where
  | queued
  | working (stage : Stage)
  | done
  | cached
  | error
  deriving DecidableEq, Repr

namespace Label

def text : Label → Bytes
  | queued => "queued"
  | working stage => stage.activity
  | done => "done"
  | cached => "cached"
  | error => "error"

def isFinished : Label → Bool
  | queued | working _ => false
  | done | cached | error => true

def isOk (label : Label) : Bool := label = done || label = cached

/-- What an event makes of a row; unknown statuses and stages leave it alone. -/
def ofEvent? (event : Event) : Option Label :=
  match event.status with
  | none => none
  | some .queued => some queued
  | some .done => some (if event.cached then cached else done)
  | some .error => some error
  | some .working => event.stage.map working

end Label

structure Row where
  name : Bytes
  label : Label := .queued
  /-- Milliseconds, once an event brought some. -/
  elapsed : Nat := 0
  deriving Repr

structure Progress where
  title : Bytes
  rows : List Row
  columns : Nat := 80
  barWidth : Nat := 76
  frame : Nat := 0
  isDone : Bool := false
  deriving Repr

namespace Progress

def ofFiles (title : Bytes) (files : List Bytes) : Progress :=
  { title, rows := files.map fun name => { name } }

/-- Changes the last row of a name. -/
def updateLast (name : Bytes) (change : Row → Row) (rows : List Row) : List Row :=
  match rows.reverse.span (·.name != name) with
  | (_, []) => rows
  | (after, row :: before) => before.reverse ++ change row :: after.reverse

/-- An event changes the row of its file; of several rows with that name it is the last. -/
def apply (progress : Progress) (event : Event) : Progress :=
  match Label.ofEvent? event with
  | none => progress
  | some label =>
      { progress with
        rows := updateLast event.file (fun row =>
          { row with label, elapsed := if 0 < event.elapsed then event.elapsed else row.elapsed })
          progress.rows }

/-- A new width of the terminal, when it is known. -/
def resize (progress : Progress) (columns : Int) : Progress :=
  if 0 < columns then
    { progress with columns := columns.toNat, barWidth := max (columns.toNat - 4) 10 }
  else progress

/-- The next picture of the spinner. -/
def tick (progress : Progress) : Progress :=
  if progress.isDone then progress else { progress with frame := progress.frame + 1 }

/-- No more events will come. -/
def close (progress : Progress) : Progress := { progress with isDone := true }

/-- The number of files that have an artefact. -/
def ok (progress : Progress) : Nat := progress.rows.countP (·.label.isOk)

def failed (progress : Progress) : Nat := progress.rows.countP (·.label = .error)

/-- Milliseconds in the largest fitting units. -/
def durationText (milliseconds : Nat) : Bytes :=
  if milliseconds < 1000 then Bytes.dec milliseconds ++ "ms"
  else
    let seconds := milliseconds / 1000
    let fraction := ((Bytes.decPadded 3 (milliseconds % 1000)).reverse.dropWhile (· == 48)).reverse
    Bytes.onlyIf (3600 ≤ seconds) (Bytes.dec (seconds / 3600) ++ "h") ++
      Bytes.onlyIf (60 ≤ seconds) (Bytes.dec (seconds / 60 % 60) ++ "m") ++
      Bytes.dec (seconds % 60) ++ Bytes.onlyIf (!fraction.isEmpty) ("." ++ fraction) ++ "s"

private def spinner : List Bytes := ["⣾", "⣽", "⣻", "⢿", "⡿", "⣟", "⣯", "⣷"]

private def rowText (columns : Nat) (row : Row) : Bytes :=
  "  " ++ Bytes.padLeft 12 row.label.text ++ " " ++
    Text.truncate row.name (max (columns - 26) 20) "..." ++
    Bytes.onlyIf (row.label.isFinished && 0 < row.elapsed)
      (" (" ++ durationText row.elapsed ++ ")") ++ "\n"

private def bar (progress : Progress) : Bytes :=
  let cells := fun (cell : Bytes) => (List.replicate (progress.barWidth - 5) cell).flatten
  if progress.isDone then cells "█" ++ " 100%" else cells "░" ++ "   0%"

private def summary (progress : Progress) : Bytes :=
  Bytes.dec progress.ok ++ "/" ++ Bytes.dec progress.rows.length ++ " compiled" ++
    Bytes.onlyIf (0 < progress.failed) (", " ++ Bytes.dec progress.failed ++ " failed")

private def header (progress : Progress) : Bytes :=
  if progress.isDone then "done: " ++ progress.title
  else spinner.getD (progress.frame % 8) [] ++ "  " ++ progress.title

/-- The view without colours; a build without files shows nothing. -/
def view (progress : Progress) : Bytes :=
  if progress.rows.isEmpty then []
  else
    progress.header ++ "\n\n" ++ progress.rows.flatMap (rowText progress.columns) ++ "\n" ++
      progress.bar ++ "\n" ++ progress.summary ++ "\n"

end Progress

end Minilang.Build
