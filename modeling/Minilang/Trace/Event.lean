import Minilang.Text.Json
import Minilang.Text.Blank
import Minilang.Text.Lower
import Minilang.Text.Quoted
import Minilang.Time

/-! Trace events: what happened when, on which level of detail, and how it is written. -/

namespace Minilang.Trace

/-- The spellings of a small numbered choice, the canonical one first. -/
abbrev Spellings := List (UInt8 × List Bytes)

namespace Spellings

def name (spellings : Spellings) (number : UInt8) : Bytes :=
  match spellings.find? fun row => row.1 = number with
  | some (_, name :: _) => name
  | _ => "unknown"

/-- The number of a spelling; case and surrounding white space do not matter. -/
def parse (what : Bytes) (spellings : Spellings) (text : Bytes) : Except Bytes UInt8 :=
  let text := Text.lower (Text.trim text)
  match spellings.find? fun row => row.2.contains text with
  | some (number, _) => .ok number
  | none =>
      .error ("invalid trace " ++ what ++ ": " ++ Text.quoted text ++ " (expected: " ++
        Bytes.join "|" (spellings.map fun row => row.2.headD []) ++ ")")

end Spellings

/-- How much is traced. -/
structure Level where
  rank : UInt8
  deriving DecidableEq, Repr

/-- What part of the work an event is about. -/
structure Scope where
  rank : UInt8
  deriving DecidableEq, Repr

structure Kind where
  number : UInt8
  deriving DecidableEq, Repr

structure Format where
  number : UInt8
  deriving DecidableEq, Repr

/-- Where events are kept. -/
structure Mode where
  number : UInt8
  deriving DecidableEq, Repr

namespace Scope

/-- A command of the tool. -/
def driver : Scope := ⟨1⟩

/-- A phase of the compiler. -/
def pass : Scope := ⟨2⟩

/-- A file of a build. -/
def unit : Scope := ⟨3⟩

/-- A part of a phase. -/
def node : Scope := ⟨4⟩

def name (scope : Scope) : Bytes :=
  Spellings.name [(1, ["driver"]), (2, ["pass"]), (3, ["unit"]), (4, ["node"])] scope.rank

end Scope

namespace Level

def off : Level := ⟨0⟩

/-- Events are only kept for a failure. -/
def error : Level := ⟨1⟩

/-- Commands and phases of the compiler are traced. -/
def phase : Level := ⟨2⟩

def spellings : Spellings :=
  [(0, ["off"]), (1, ["error"]), (2, ["phase"]), (3, ["detail"]), (4, ["debug"])]

def name (level : Level) : Bytes := spellings.name level.rank

def parse (text : Bytes) : Except Bytes Level := (spellings.parse "level" text).map Level.mk

def isOn (level : Level) : Bool := level != off

/-- The finest scope that is written as it happens. -/
def finest (level : Level) : UInt8 :=
  match level.rank.toNat with
  | 2 => 2
  | 3 => 3
  | 4 => 4
  | _ => 0

def emits (level : Level) (scope : Scope) : Bool :=
  error.rank < level.rank && scope.rank ≤ level.finest

end Level

namespace Mode

def stream : Mode := ⟨1⟩

def ring : Mode := ⟨2⟩

def both : Mode := ⟨3⟩

def spellings : Spellings := [(1, ["stream"]), (2, ["ring"]), (3, ["both"])]

def name (mode : Mode) : Bytes := spellings.name mode.number

def parse (text : Bytes) : Except Bytes Mode := (spellings.parse "mode" text).map Mode.mk

def streams (mode : Mode) : Bool := mode == stream || mode == both

def keeps (mode : Mode) : Bool := mode == ring || mode == both

end Mode

namespace Format

/-- Chosen by the name of the output. -/
def auto : Format := ⟨0⟩

def text : Format := ⟨1⟩

/-- One JSON object a line. -/
def ndjson : Format := ⟨2⟩

def spellings : Spellings := [(0, ["auto", []]), (1, ["text"]), (2, ["ndjson", "json"])]

def name (format : Format) : Bytes := spellings.name format.number

def parse (text : Bytes) : Except Bytes Format := (spellings.parse "format" text).map Format.mk

/-- The format for an output with a path. -/
def resolve (format : Format) (path : Bytes) : Format :=
  if format = auto then if path.endsWith ".ndjson" then ndjson else text else format

end Format

namespace Kind

def begin : Kind := ⟨1⟩

def finish : Kind := ⟨2⟩

def point : Kind := ⟨3⟩

def heartbeat : Kind := ⟨4⟩

def name (kind : Kind) : Bytes :=
  Spellings.name [(1, ["begin"]), (2, ["end"]), (3, ["point"]), (4, ["heartbeat"])] kind.number

/-- The sign in front of an event's name. -/
def mark (kind : Kind) : Bytes :=
  match kind.number.toNat with
  | 1 => "→ "
  | 2 => "← "
  | 3 => "• "
  | 4 => "♡ "
  | _ => []

end Kind

structure Event where
  time : Time := {}
  seq : Nat := 0
  kind : Kind
  scope : Scope
  /-- Zero for events outside every span. -/
  span : Nat := 0
  /-- Zero for roots. -/
  parent : Nat := 0
  name : Bytes
  detail : Bytes := []
  /-- One value for each key, by key. -/
  extra : List (Bytes × Bytes) := []
  deriving Repr

namespace Event

def line (event : Event) : Bytes :=
  "[" ++ event.time.short ++ "] " ++ Bytes.onlyIf (0 < event.parent) "  " ++ event.kind.mark ++
    event.name ++ Bytes.onlyIf (!event.detail.isEmpty) (" (" ++ event.detail ++ ")") ++
    Bytes.onlyIf (!event.extra.isEmpty)
      (" \x7b" ++ Bytes.join ", " (event.extra.map fun (key, value) => key ++ "=" ++ value) ++
        "\x7d") ++ "\n"

def object (event : Event) : Json :=
  .fields ([Json.member "time" (.text event.time.long), Json.member "seq" (.number event.seq),
    Json.member "kind" (.text event.kind.name), Json.member "scope" (.text event.scope.name),
    Json.member "span_id" (.number event.span)] ++
    Json.memberIf (0 < event.parent) "parent_id" (.number event.parent) ++
    [Json.member "name" (.text event.name)] ++
    Json.memberIf (!event.detail.isEmpty) "detail" (.text event.detail) ++
    Json.memberIf (!event.extra.isEmpty) "extra"
      (.fields (event.extra.map fun (key, value) => (key, .text value))))

def render (format : Format) (event : Event) : Bytes :=
  if format = .ndjson then event.object.compact ++ "\n" else event.line

end Event

/-- Sets a key, keeping the keys in order. -/
def setExtra (key value : Bytes) : List (Bytes × Bytes) → List (Bytes × Bytes)
  | [] => [(key, value)]
  | (k, v) :: rest =>
      if k = key then (key, value) :: rest
      else if Bytes.before key k then (key, value) :: (k, v) :: rest
      else (k, v) :: setExtra key value rest

end Minilang.Trace
