import Minilang.Build.Event
import Minilang.Build.Request

/-! What the jobs of a build share: the files, the reports made so far and the stages that were
reached. -/

namespace Minilang.Build

/-- Something a build lets the outside know. -/
inductive Report where
  | progress (event : Event)
  /-- Text on the output of the build. -/
  | output (text : Bytes)
  | traced (activity : Trace.Activity)

structure Site where
  files : Files
  /-- In the order they were made. -/
  reports : List Report := []
  /-- The stages that some job has finished, in the order of their first end. -/
  reached : List Stage := []

namespace Site

def report (site : Site) (report : Report) : Site :=
  { site with reports := site.reports ++ [report] }

def progress (site : Site) (event : Event) : Site := site.report (.progress event)

def trace (site : Site) (activities : List Trace.Activity) : Site :=
  { site with reports := site.reports ++ activities.map .traced }

def reach (site : Site) (stage : Stage) : Site :=
  if stage ∈ site.reached then site else { site with reached := site.reached ++ [stage] }

/-- The progress reports. -/
def events (site : Site) : List Event :=
  site.reports.filterMap fun report => match report with
    | .progress event => some event
    | _ => none

/-- All text on the output. -/
def output (site : Site) : Bytes :=
  site.reports.flatMap fun report => match report with
    | .output text => text
    | _ => []

end Site

/-- Whether a build is interrupted by now. -/
def Request.isInterrupted (request : Request) (site : Site) : Bool :=
  match request.interruptAfter with
  | some count => decide (count ≤ site.events.length)
  | none => false

end Minilang.Build
