import Minilang.Build.ProgressMode
import Minilang.Command.Duration
import Minilang.Text.Number

/-! Flags of the command line: what they are called, what values they take, and what they have
when they are not given. -/

namespace Minilang.Command

/-- The value of a flag. -/
inductive Value where
  | text (text : Bytes)
  | switch (on : Bool)
  | number (number : Int)
  /-- Nanoseconds. -/
  | duration (length : Int)
  | view (mode : Build.ProgressMode)
  deriving DecidableEq, Repr

namespace Value

/-- A flag that may stand without a value is then on. -/
def isSwitch : Value → Bool
  | switch _ => true
  | _ => false

private def switch? (word : Bytes) : Except Bytes Bool :=
  if (["1", "t", "T", "TRUE", "true", "True"] : List Bytes).contains word then .ok true
  else if (["0", "f", "F", "FALSE", "false", "False"] : List Bytes).contains word then .ok false
  else .error ("strconv.ParseBool: parsing " ++ Text.quoted word ++ ": invalid syntax")

/-- Reads a value of the same kind. -/
def parse (like : Value) (word : Bytes) : Except Bytes Value :=
  match like with
  | .text _ => .ok (.text word)
  | .switch _ => (switch? word).map .switch
  | .number _ =>
      match Text.literal? 64 word with
      | .ok value => .ok (.number value)
      | .error fault => .error (fault.message word)
  | .duration _ =>
      match duration? word with
      | .ok length => .ok (.duration length)
      | .error fault => .error (fault.message word)
  | .view _ => (Build.ProgressMode.parse word).map .view

end Value

structure Flag where
  name : Bytes
  /-- One letter that stands for the name. -/
  letter : Option UInt8 := none
  /-- What the flag has when it is not given; given values are of the same kind. -/
  standard : Value
  deriving DecidableEq, Repr

namespace Flag

/-- How messages name the flag. -/
def shown (flag : Flag) : Bytes :=
  match flag.letter with
  | some letter => "-" ++ [letter] ++ ", --" ++ flag.name
  | none => "--" ++ flag.name

def texts (names : List (Bytes × Bytes)) : List Flag :=
  names.map fun (name, text) => { name, standard := .text text }

def switches (names : List Bytes) : List Flag :=
  names.map fun name => { name, standard := .switch false }

/-- Flags that every command takes. -/
def general : List Flag :=
  texts [("color", "auto"), ("format", "plain"), ("trace", []), ("trace-level", "off"),
    ("trace-mode", "stream"), ("trace-format", "auto"), ("cpuprofile", []), ("memprofile", []),
    ("runtime-trace", [])] ++ switches ["quiet", "timings"] ++
    [{ name := "max-diagnostics", standard := .number 100 },
      { name := "trace-ring-size", standard := .number 4096 },
      { name := "trace-heartbeat", standard := .duration 0 }]

def help : Flag := { name := "help", letter := some (Bytes.code 'h'), standard := .switch false }

def version : Flag :=
  { name := "version", letter := some (Bytes.code 'v'), standard := .switch false }

/-- At most one of these may be given. -/
def exclusive : List Bytes := ["llvm", "jvm", "target"]

/-- Flags that choose what is generated. -/
def generation : List Flag :=
  switches ["llvm", "jvm"] ++ texts [("target", []), ("ir-dialect", "opaque"), ("class-name", [])]

def output : Flag := { name := "output", letter := some (Bytes.code 'o'), standard := .text [] }

end Flag

/-- Flags that were given, latest first. -/
abbrev Given := List (Bytes × Value)

namespace Given

def isGiven (given : Given) (name : Bytes) : Bool := (given.lookup name).isSome

private def value (given : Given) (flags : List Flag) (name : Bytes) : Option Value :=
  match given.lookup name with
  | some value => some value
  | none => (flags.find? (·.name = name)).map (·.standard)

def text (given : Given) (flags : List Flag) (name : Bytes) : Bytes :=
  match given.value flags name with
  | some (.text text) => text
  | _ => []

def switch (given : Given) (flags : List Flag) (name : Bytes) : Bool :=
  given.value flags name == some (.switch true)

def number (given : Given) (flags : List Flag) (name : Bytes) : Int :=
  match given.value flags name with
  | some (.number number) => number
  | _ => 0

end Given

end Minilang.Command
