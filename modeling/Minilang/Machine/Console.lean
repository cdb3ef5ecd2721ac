import Minilang.Machine.Fault
import Minilang.Text.Blank
import Minilang.Text.Number

/-! The console of a running program: where it reads integers from and what it has printed. Input
is a list of integers or a stream of words between blanks. A stream holds words of up to 65535
bytes; of a longer one the first 65536 bytes are given out as one word after the failure, and then
the stream stays failed. -/

namespace Minilang.Machine

inductive ReadFault where
  | exhausted
  | broken (text : Bytes)
  | notInteger (word : Bytes) (fault : Text.NumberFault)
  deriving DecidableEq, Repr

namespace ReadFault

def message : ReadFault → Bytes
  | exhausted => "no more input"
  | broken text => text
  | notInteger word fault =>
      "input " ++ Text.quoted word ++ " is not an int32: " ++ fault.message word

/-- What the fault means to a program that cannot go on without the integer. -/
def cause : ReadFault → Cause
  | exhausted => .inputExhausted
  | fault => .inputMismatch fault.message

end ReadFault

inductive Input where
  | numbers (values : List Int32)
  | stream (rest : Bytes)
  /-- Gives out one last word, if any, and then fails forever. -/
  | failing (last : Option Bytes) (text : Bytes)
  deriving Repr

namespace Input

/-- Every word is shorter than this. -/
def wordLimit : Nat := 65536

def tooLong : Bytes := "bufio.Scanner: token too long"

/-- The next word of the input. -/
def word : Input → Except ReadFault Bytes × Input
  | numbers values => (.error .exhausted, numbers values)
  | failing (some last) text => (.ok last, failing none text)
  | failing none text => (.error (.broken text), failing none text)
  | stream rest =>
      let rest := Text.trimStart rest
      let (word, after) := Text.firstWord (rest.take wordLimit)
      if word.isEmpty then (.error .exhausted, stream [])
      else if after.isEmpty && word.length == wordLimit then
        (.error (.broken tooLong), failing (some word) tooLong)
      else (.ok word, stream (rest.drop word.length))

def read : Input → Except ReadFault Int32 × Input
  | numbers (value :: values) => (.ok value, numbers values)
  | input =>
      match input.word with
      | (.error fault, rest) => (.error fault, rest)
      | (.ok word, rest) =>
          match Text.int32? word with
          | .ok value => (.ok value, rest)
          | .error fault => (.error (.notInteger word fault), rest)

/-- How many integers of a list are left. -/
def remaining : Input → Nat
  | numbers values => values.length
  | _ => 0

end Input

structure Console where
  input : Input := .numbers []
  /-- Latest first. -/
  printed : List Int32 := []
  /-- How many more lines can be written before the output fails, with what message. -/
  capacity : Option (Nat × Bytes) := none
  deriving Repr

namespace Console

def read (console : Console) : Except ReadFault Int32 × Console :=
  let (result, input) := console.input.read
  (result, { console with input })

/-- Writes an integer as a line of its own. -/
def print (console : Console) (value : Int32) : Except Bytes Console :=
  match console.capacity with
  | some (0, text) => .error text
  | some (n + 1, text) =>
      .ok { console with printed := value :: console.printed, capacity := some (n, text) }
  | none => .ok { console with printed := value :: console.printed }

def output (console : Console) : List Int32 := console.printed.reverse

/-- The printed lines. -/
def text (console : Console) : Bytes := console.output.flatMap fun v => Bytes.int v.toInt ++ [10]

end Console

/-- How a run ends. -/
inductive Ending where
  | done
  | fault (fault : Fault)
  /-- An access outside the machine's memory. -/
  | outOfBounds
  deriving DecidableEq, Repr

/-- A finished run and the console it leaves. -/
structure Run where
  console : Console
  ending : Ending
  deriving Repr

end Minilang.Machine
