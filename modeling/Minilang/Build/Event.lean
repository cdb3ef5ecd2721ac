import Minilang.Bytes

/-! Progress of a build: a unit is queued, works through stages in order, and ends done or
failed. -/

namespace Minilang.Build

/-- The stages in the order a unit passes them. -/
inductive Stage where
  | parse
  | prepass
  | codegen
  | write
  | link
  deriving DecidableEq, Repr

namespace Stage

def all : List Stage := [parse, prepass, codegen, write, link]

def name : Stage → Bytes
  | parse => "parse"
  | prepass => "prepass"
  | codegen => "codegen"
  | write => "write"
  | link => "link"

def ofName? (name : Bytes) : Option Stage := all.find? (·.name = name)

/-- What a unit is doing in a stage. -/
def activity : Stage → Bytes
  | parse => "parsing"
  | prepass => "scanning"
  | codegen => "generating"
  | write => "writing"
  | link => "linking"

end Stage

inductive Status where
  | queued
  | working
  | done
  | error
  deriving DecidableEq, Repr

namespace Status

def all : List Status := [queued, working, done, error]

def name : Status → Bytes
  | queued => "queued"
  | working => "working"
  | done => "done"
  | error => "error"

def ofName? (name : Bytes) : Option Status := all.find? (·.name = name)

end Status

/-- A report on one file. -/
structure Event where
  file : Bytes
  /-- Absent for a stage that is none of the build's. -/
  stage : Option Stage
  status : Option Status
  fault : Option Bytes := none
  /-- Milliseconds. -/
  elapsed : Nat := 0
  cached : Bool := false
  deriving DecidableEq, Repr

end Minilang.Build
