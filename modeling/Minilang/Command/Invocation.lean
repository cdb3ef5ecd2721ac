import Minilang.Command.Flag

/-! From the words of a command line to a command with its flags and arguments. The command is the
first word that is neither a flag nor the value of one; flags may stand before and behind it. -/

namespace Minilang.Command

inductive CommandName where
  | compile
  | run
  | build
  | watch
  | tokenize
  | parse
  | diag
  | init
  | clean
  | version
  deriving DecidableEq, Repr

/-- How many arguments a command takes. -/
inductive Arity where
  | any
  | none
  | atMost (count : Nat)
  | exactly (count : Nat)
  deriving DecidableEq, Repr

/-- What the program is called. -/
def programName : Bytes := "minicomp"

namespace CommandName

def all : List CommandName :=
  [compile, run, build, watch, tokenize, parse, diag, init, clean, version]

def name : CommandName → Bytes
  | compile => "compile"
  | run => "run"
  | build => "build"
  | watch => "watch"
  | tokenize => "tokenize"
  | parse => "parse"
  | diag => "diag"
  | init => "init"
  | clean => "clean"
  | version => "version"

/-- The name with the program's before it. -/
def path (command : CommandName) : Bytes := programName ++ " " ++ command.name

def arity : CommandName → Arity
  | build => .any
  | version => .none
  | compile | diag | init | clean => .atMost 1
  | run | watch | tokenize | parse => .exactly 1

/-- The flags of a command that not all commands have. -/
def ownFlags : CommandName → List Flag
  | compile => Flag.generation ++ [Flag.output] ++ Flag.switches ["cache"]
  | run => Flag.generation ++ [{ name := "max-steps", standard := .number 0 }]
  | build =>
      Flag.generation ++ Flag.texts [("out", []), ("profile", "debug")] ++
        Flag.switches ["link", "print-commands", "no-cache"] ++
        [{ name := "jobs", letter := some (Bytes.code 'j'), standard := .number 0 },
          { name := "ui", standard := .view .auto }]
  | watch =>
      Flag.generation ++ [Flag.output, { name := "debounce", standard := .duration 100000000 }]
  | init => Flag.texts [("name", [])]
  | clean => Flag.switches ["cache"]
  | version => Flag.texts [("output", "pretty")]
  | tokenize | parse | diag => []

def flags (command : CommandName) : List Flag := Flag.general ++ Flag.help :: command.ownFlags

end CommandName

/-- Names that can be called although they do none of the program's work. -/
def helpers : List Bytes := ["help", "completion"]

/-- What is wrong with a command line. -/
inductive UsageFault where
  | unknownCommand (word : Bytes)
  /-- A command that takes no arguments has one. -/
  | unexpected (command : CommandName) (word : Bytes)
  | tooMany (limit count : Nat)
  | wrongCount (wanted count : Nat)
  | badFlag (word : Bytes)
  | unknownFlag (name : Bytes)
  | unknownLetter (letter : UInt8) (letters : Bytes)
  | needsValue (name : Bytes)
  | letterNeedsValue (letter : UInt8) (letters : Bytes)
  | badValue (flag : Flag) (word reason : Bytes)
  deriving Repr

/-- The number of single-byte insertions, deletions and replacements between two words. -/
def editDistance (x y : Bytes) : Nat :=
  let first := List.range (y.length + 1)
  let last := x.foldl (fun (row : List Nat) a =>
    let start := row.headD 0 + 1
    ((y.zip (row.zip (row.drop 1))).foldl (fun (done : List Nat) (b, above, right) =>
      let left := done.headD 0
      (if a = b then above else min (min (left + 1) (right + 1)) (above + 1)) :: done)
      [start]).reverse) first
  last.getLastD 0

/-- How far a word may be from the name it was meant to be. -/
def suggestionDistance : Nat := 2

/-- The names that a word may have been meant to be. -/
def suggestions (word : Bytes) : List Bytes :=
  let word := Text.lower word
  let names : List Bytes := CommandName.all.map CommandName.name ++ [("completion" : Bytes)]
  names.filter fun name =>
    editDistance word name ≤ suggestionDistance || Bytes.startsWith name word

/-- A letter between apostrophes. -/
private def quotedLetter (letter : UInt8) : Bytes :=
  if letter == 39 || letter == 92 then [39, 92, letter, 39]
  else [39] ++ encodeScalar letter.toNat ++ [39]

namespace UsageFault

def message : UsageFault → Bytes
  | unknownCommand word =>
      let names := suggestions word
      let lines : Bytes := names.flatMap fun name => [9] ++ name ++ [10]
      "unknown command " ++ Text.quoted word ++ " for " ++ Text.quoted programName ++
        Bytes.onlyIf (!names.isEmpty)
          ("\n\nDid you mean this?\n" ++ lines)
  | unexpected command word =>
      "unknown command " ++ Text.quoted word ++ " for " ++ Text.quoted command.path
  | tooMany limit count =>
      "accepts at most " ++ Bytes.dec limit ++ " arg(s), received " ++ Bytes.dec count
  | wrongCount wanted count =>
      "accepts " ++ Bytes.dec wanted ++ " arg(s), received " ++ Bytes.dec count
  | badFlag word => "bad flag syntax: " ++ word
  | unknownFlag name => "unknown flag: --" ++ name
  | unknownLetter letter letters =>
      "unknown shorthand flag: " ++ quotedLetter letter ++ " in -" ++ letters
  | needsValue name => "flag needs an argument: --" ++ name
  | letterNeedsValue letter letters =>
      "flag needs an argument: " ++ quotedLetter letter ++ " in -" ++ letters
  | badValue flag word reason =>
      "invalid argument " ++ Text.quoted word ++ " for " ++ Text.quoted flag.shown ++ " flag: " ++
        reason

end UsageFault

private def isFlagWord (word : Bytes) : Bool := Bytes.startsWith word "-"

/-- Whether a flag takes the next word as its value. Flags that are not known are taken to. -/
private def takesNext (flags : List Flag) (word : Bytes) : Bool :=
  let isSwitch := fun (found : Option Flag) => (found.map (·.standard.isSwitch)).getD false
  !word.contains 61 &&
    match word with
    | 45 :: 45 :: name => !isSwitch (flags.find? (·.name = name))
    | [45, letter] => !isSwitch (flags.find? (·.letter = some letter))
    | _ => false

/-- The words that are neither flags nor their values. -/
def plainWords (flags : List Flag) : List Bytes → List Bytes
  | [] => []
  | word :: rest =>
      if word = "--" then []
      else if takesNext flags word then
        match rest with
        | _ :: next :: more => plainWords flags (next :: more)
        | _ => []
      else if word.isEmpty || isFlagWord word then plainWords flags rest
      else word :: plainWords flags rest

/-- The words without the first plain one that is `name`. -/
def withoutPlain (flags : List Flag) (name : Bytes) : List Bytes → List Bytes
  | [] => []
  | word :: rest =>
      if word = "--" then word :: rest
      else if takesNext flags word then
        match rest with
        | value :: more => word :: value :: withoutPlain flags name more
        | [] => [word]
      else if !isFlagWord word && word = name then rest
      else word :: withoutPlain flags name rest

private def give (flag : Flag) (word : Bytes) (given : Given) : Except UsageFault Given :=
  match flag.standard.parse word with
  | .ok value => .ok ((flag.name, value) :: given)
  | .error reason => .error (.badValue flag word reason)

/-- A flag that is spelled out, with the words behind it. -/
private def longFlag (flags : List Flag) (word name : Bytes) (rest : List Bytes) (given : Given) :
    Except UsageFault (List Bytes × Given) :=
  if name.isEmpty || name.head? == some 45 || name.head? == some 61 then .error (.badFlag word)
  else
    let (name, value) : Bytes × Option Bytes := match Bytes.cut? 61 name with
      | some (name, value) => (name, some value)
      | none => (name, none)
    match flags.find? (·.name = name) with
    | none => .error (.unknownFlag name)
    | some flag =>
        match value, flag.standard.isSwitch, rest with
        | some value, _, _ => (give flag value given).map fun given => (rest, given)
        | none, true, _ => (give flag "true" given).map fun given => (rest, given)
        | none, false, value :: rest => (give flag value given).map fun given => (rest, given)
        | none, false, [] => .error (.needsValue name)

/-- Flags given by letters; a flag with a value takes the rest of the letters or the next word. -/
private def letterFlags (flags : List Flag) (rest : List Bytes) :
    Bytes → Given → Except UsageFault (List Bytes × Given)
  | [], given => .ok (rest, given)
  | letter :: behind, given =>
      match flags.find? (·.letter = some letter) with
      | none => .error (.unknownLetter letter (letter :: behind))
      | some flag =>
          match behind, flag.standard.isSwitch, rest with
          | 61 :: first :: value, _, _ =>
              (give flag (first :: value) given).map fun given => (rest, given)
          | _, true, _ => do
              let given ← give flag "true" given
              letterFlags flags rest behind given
          | first :: value, false, _ =>
              (give flag (first :: value) given).map fun given => (rest, given)
          | [], false, value :: rest => (give flag value given).map fun given => (rest, given)
          | [], false, [] => .error (.letterNeedsValue letter [letter])

private def flagsLoop (flags : List Flag) :
    Nat → List Bytes → Given → List Bytes → Except UsageFault (Given × List Bytes)
  | 0, _, given, arguments => .ok (given, arguments.reverse)
  | _ + 1, [], given, arguments => .ok (given, arguments.reverse)
  | fuel + 1, word :: rest, given, arguments =>
      match word with
      | [45, 45] => .ok (given, arguments.reverse ++ rest)
      | 45 :: 45 :: name => do
          let (rest, given) ← longFlag flags word name rest given
          flagsLoop flags fuel rest given arguments
      | 45 :: letter :: letters => do
          let (rest, given) ← letterFlags flags rest (letter :: letters) given
          flagsLoop flags fuel rest given arguments
      | _ => flagsLoop flags fuel rest given (word :: arguments)

/-- The flags given among words, and the arguments. -/
def readFlags (flags : List Flag) (words : List Bytes) :
    Except UsageFault (Given × List Bytes) :=
  flagsLoop flags words.length words [] []

/-- What a command line asks for. -/
inductive Invocation where
  | help
  | programVersion
  | command (name : CommandName) (given : Given) (arguments : List Bytes)
  deriving Repr

private def checkArity (command : CommandName) (arguments : List Bytes) :
    Except UsageFault Unit :=
  match command.arity, arguments with
  | .any, _ => .ok ()
  | .none, [] => .ok ()
  | .none, word :: _ => .error (.unexpected command word)
  | .atMost limit, _ =>
      if arguments.length ≤ limit then .ok () else .error (.tooMany limit arguments.length)
  | .exactly wanted, _ =>
      if arguments.length = wanted then .ok () else .error (.wrongCount wanted arguments.length)

/-- Reads a command line. Nothing but help and the version can be asked for without a command. -/
def Invocation.ofWords (words : List Bytes) : Except UsageFault Invocation :=
  match plainWords Flag.general words with
  | [] => do
      let flags := Flag.general ++ [Flag.help, Flag.version]
      let (given, _) ← readFlags flags words
      let wanted := fun (flag : Flag) => given.switch flags flag.name
      return if !wanted Flag.help && wanted Flag.version then .programVersion else .help
  | word :: _ =>
      match CommandName.all.find? (·.name = word) with
      | some found => do
          let (given, arguments) ←
            readFlags found.flags (withoutPlain Flag.general word words)
          if given.switch found.flags Flag.help.name then return .help
          checkArity found arguments
          return .command found given arguments
      | none => if helpers.contains word then .ok .help else .error (.unknownCommand word)

end Minilang.Command
