import Minilang.Files
import Minilang.Script.Grammar

/-! Running scripts over a tree of files. Only the commands that the language brings along can be
run: it starts no other program. -/

namespace Minilang.Script

/-- A script at work. -/
structure Shell where
  /-- What the script is called in its own messages. -/
  name : Bytes
  files : Files
  arguments : List Bytes
  values : List (Bytes × Bytes) := []
  out : Bytes := []
  err : Bytes := []
  status : Nat := 0
  finished : Bool := false

namespace Shell

def set (shell : Shell) (name value : Bytes) : Shell :=
  { shell with values := (name, value) :: shell.values }

/-- The value of a parameter; one that is not set is empty. -/
def value (shell : Shell) (name : Bytes) : Bytes :=
  if name = "#" then Bytes.dec shell.arguments.length
  else if name = "?" then Bytes.dec shell.status
  else if name = "@" || name = "*" then Bytes.join " " shell.arguments
  else if name = "0" then shell.name
  else if name.all Bytes.isDigit then
    (shell.arguments[Bytes.digitsValue name - 1]?).getD []
  else (shell.values.lookup name).getD []

/-- The fields of a text between blanks. -/
private def fields (text : Bytes) : List Bytes :=
  ((text.map fun b => if b == 9 || b == 10 then 32 else b) |> Bytes.split 32).filter (!·.isEmpty)

/-- Fields finished so far, latest first, and the one in the making. -/
private abbrev Growing := List Bytes × Option Bytes

private def grow (growing : Growing) (text : Bytes) : Growing :=
  (growing.1, some (growing.2.getD [] ++ text))

private def growFields (growing : Growing) : List Bytes → Growing
  | [] => growing
  | [last] => grow growing last
  | first :: rest =>
      let (done, current) := grow growing first
      growFields (current.toList ++ done, none) rest

/-- The fields a word stands for. -/
def expand (shell : Shell) (word : Word) : List Bytes :=
  let nothing : Growing := ([], none)
  let (done, current) := word.foldl (fun growing piece =>
    match piece with
    | .text _ text => grow growing text
    | .parameter true name =>
        if name = "@" then growFields growing shell.arguments else grow growing (shell.value name)
    | .parameter false name => growFields growing (fields (shell.value name))) nothing
  (current.toList ++ done).reverse

/-- The text of a word where it is not split. -/
def text (shell : Shell) (word : Word) : Bytes :=
  word.flatMap fun piece => match piece with
    | .text _ text => text
    | .parameter _ name => shell.value name

end Shell

/-- A pattern; nothing stands for any text. -/
private abbrev Glob := List (Option (Option UInt8))

private def glob (shell : Shell) (word : Word) : Glob :=
  word.flatMap fun piece => match piece with
    | .text false text => text.map fun b =>
        if b == Bytes.code '*' then none else if b == Bytes.code '?' then some none
        else some (some b)
    | .text true text => text.map fun b => some (some b)
    | .parameter _ name => (shell.value name).map fun b => some (some b)

private def covers : Glob → Bytes → Bool
  | [], text => text.isEmpty
  | none :: rest, text => (List.range (text.length + 1)).any fun n => covers rest (text.drop n)
  | some _ :: _, [] => false
  | some byte :: rest, b :: text => (byte.isNone || byte == some b) && covers rest text

/-- Where output goes. -/
private inductive Sink where
  | out
  | err
  | nowhere
  | file (path : Bytes)

private def Shell.write (shell : Shell) (sink : Sink) (text : Bytes) : Shell :=
  match sink with
  | .out => { shell with out := shell.out ++ text }
  | .err => { shell with err := shell.err ++ text }
  | .nowhere => shell
  | .file path => { shell with files := (shell.files.append path text).toOption.getD shell.files }

private structure Sinks where
  out : Sink := .out
  err : Sink := .err

private def Sinks.set (sinks : Sinks) (stream : Nat) (sink : Sink) : Sinks :=
  if stream = 2 then { sinks with err := sink } else { sinks with out := sink }

private def refusalText : Refusal → Bytes
  | .notFound | .notDirectory => "Directory nonexistent"
  | .isDirectory => "Is a directory"
  | refusal => refusal.message

private def Shell.complain (shell : Shell) (line status : Nat) (text : Bytes) : Shell :=
  { shell with
    err := shell.err ++ shell.name ++ ": " ++ Bytes.dec line ++ ": " ++ text ++ "\n", status }

/-- Opens the targets of redirections, from left to right; nothing when one cannot be opened. -/
private def redirect (line : Nat) : List Redirection → Shell → Sinks → Shell × Option Sinks
  | [], shell, sinks => (shell, some sinks)
  | .stream stream target :: rest, shell, sinks =>
      redirect line rest shell (sinks.set stream (if target = 2 then sinks.err else sinks.out))
  | .file stream target appends :: rest, shell, sinks =>
      let path := shell.text target
      if path = "/dev/null" then redirect line rest shell (sinks.set stream .nowhere)
      else
        let opened := if appends then shell.files.append path [] else shell.files.write path []
        match opened with
        | .ok files => redirect line rest { shell with files } (sinks.set stream (.file path))
        | .error fault =>
            (shell.complain line 2
              ("cannot create " ++ path ++ ": " ++ refusalText fault.refusal), none)

private def Shell.holds (shell : Shell) : List Bytes → Bool
  | [] => false
  | [text] => !text.isEmpty
  | [check, text] =>
      if check = "-n" then !text.isEmpty
      else if check = "-z" then text.isEmpty
      else if check = "!" then text.isEmpty
      else
        match shell.files.stat text with
        | .ok (.file _) => check = "-e" || check = "-f"
        | .ok .directory => check = "-e" || check = "-d"
        | .error _ => false
  | [left, relation, right] =>
      if relation = "=" then left = right
      else if relation = "!=" then left ≠ right
      else if relation = "-eq" then Bytes.digitsValue left = Bytes.digitsValue right
      else if relation = "-ne" then Bytes.digitsValue left ≠ Bytes.digitsValue right
      else false
  | _ => false

/-- Runs one of the commands of the language. -/
private def Shell.builtin (shell : Shell) (line : Nat) (sinks : Sinks) (name : Bytes)
    (arguments : List Bytes) : Shell :=
  let answered := fun (answer : Bool) => { shell with status := if answer then 0 else 1 }
  if name = "echo" then
    let (ending, arguments) : Bytes × List Bytes := match arguments with
      | first :: rest => if first = "-n" then ([], rest) else ("\n", arguments)
      | [] => ("\n", [])
    { shell.write sinks.out (Bytes.join " " arguments ++ ending) with status := 0 }
  else if name = "true" || name = ":" then answered true
  else if name = "false" then answered false
  else if name = "exit" then
    { shell with
      finished := true
      status := (arguments.head?.map Bytes.digitsValue).getD shell.status % 256 }
  else if name = "shift" then { shell with arguments := shell.arguments.drop 1, status := 0 }
  else if name = "test" then answered (shell.holds arguments)
  else if name = "[" then answered (shell.holds arguments.dropLast)
  else shell.complain line 127 (name ++ ": not found")

mutual

def Command.run : Command → Shell → Shell
  | .simple line assignments words redirections, shell =>
      let shell := assignments.foldl (fun (shell : Shell) (name, word) =>
        shell.set name (shell.text word)) shell
      let fields := words.flatMap shell.expand
      match redirect line redirections shell {} with
      | (shell, none) => shell
      | (shell, some sinks) =>
          match fields with
          | [] => { shell with status := 0 }
          | name :: arguments => shell.builtin line sinks name arguments
  | .both first second, shell =>
      let shell := first.run shell
      if shell.status = 0 && !shell.finished then second.run shell else shell
  | .either first second, shell =>
      let shell := first.run shell
      if shell.status = 0 || shell.finished then shell else second.run shell
  | .not command, shell =>
      let shell := command.run shell
      if shell.finished then shell else { shell with status := if shell.status = 0 then 1 else 0 }
  | .each name words body, shell =>
      (words.flatMap shell.expand).foldl (fun shell value =>
        if shell.finished then shell else body.run (shell.set name value)) shell
  | .choose subject arms, shell => arms.run (shell.text subject) shell
  | .test condition yes no, shell =>
      let shell := condition.run shell
      if shell.finished then shell
      else if shell.status = 0 then yes.run shell
      else no.run { shell with status := 0 }

def Block.run : Block → Shell → Shell
  | .empty, shell => shell
  | .then command rest, shell =>
      let shell := command.run shell
      if shell.finished then shell else rest.run shell

/-- Runs the first arm with a pattern that covers the subject. -/
def Arms.run : Arms → Bytes → Shell → Shell
  | .none, _, shell => { shell with status := 0 }
  | .arm patterns body rest, subject, shell =>
      if patterns.any fun word => covers (glob shell word) subject then body.run shell
      else rest.run subject shell

end

/-- Runs a script with arguments. -/
def run (name script : Bytes) (arguments : List Bytes) (files : Files) : Shell :=
  let shell : Shell := { name, files, arguments }
  match parse? script with
  | some block => block.run shell
  | none => shell.complain 1 2 "Syntax error"

end Minilang.Script
