import Minilang.Bytes

/-! The small command language that external tools are written in: words with parameters, simple
commands with redirections, lists, loops over words, choices by pattern, conditions. -/

namespace Minilang.Script

/-- A part of a word. Quoted parts are neither split nor read as patterns. -/
inductive Piece where
  | text (quoted : Bool) (text : Bytes)
  | parameter (quoted : Bool) (name : Bytes)
  deriving DecidableEq, Repr

abbrev Word := List Piece

/-- Where a stream of a command goes. -/
inductive Redirection where
  | file (stream : Nat) (target : Word) (appends : Bool)
  | stream (stream target : Nat)
  deriving DecidableEq, Repr

mutual

inductive Command where
  /-- Assignments, then words of which the first names the command. -/
  | simple (line : Nat) (assignments : List (Bytes × Word)) (words : List Word)
      (redirections : List Redirection)
  | both (first second : Command)
  | either (first second : Command)
  | not (command : Command)
  | each (name : Bytes) (words : List Word) (body : Block)
  | choose (subject : Word) (arms : Arms)
  | test (condition yes no : Block)

inductive Block where
  | empty
  | then (command : Command) (rest : Block)

/-- The arms of a choice, each with its patterns. -/
inductive Arms where
  | none
  | arm (patterns : List Word) (body : Block) (rest : Arms)

end

inductive Token where
  | word (word : Word)
  | operator (text : Bytes)
  /-- To a file, or to another stream. -/
  | redirect (stream : Nat) (mark : Bytes)
  | newline
  deriving DecidableEq, Repr

private def isNameByte (b : UInt8) : Bool := Bytes.isLetter b || Bytes.isDigit b || b == 95

/-- The name after a dollar sign and what follows it. -/
private def parameter? : Bytes → Option (Bytes × Bytes)
  | [] => none
  | b :: rest =>
      if b == Bytes.code '\x7b' then Bytes.cut? (Bytes.code '\x7d') rest
      else if Bytes.isDigit b || ("@*#?" : Bytes).contains b then some ([b], rest)
      else if isNameByte b then some ((b :: rest).span isNameByte)
      else none

/-- The pieces between double quotes and what follows the closing one. -/
private def doubleQuoted : Nat → Bytes → Word → Word × Bytes
  | 0, rest, done => (done.reverse, rest)
  | _ + 1, [], done => (done.reverse, [])
  | fuel + 1, b :: rest, done =>
      if b == 34 then (done.reverse, rest)
      else if b == Bytes.code '$' then
        match parameter? rest with
        | some (name, rest) => doubleQuoted fuel rest (.parameter true name :: done)
        | none => doubleQuoted fuel rest (.text true [b] :: done)
      else if b == Bytes.code '\\' then
        match rest with
        | c :: tail =>
            if ([36, 34, 92, 96] : Bytes).contains c then
              doubleQuoted fuel tail (.text true [c] :: done)
            else if c == 10 then doubleQuoted fuel tail done
            else doubleQuoted fuel tail (.text true [b, c] :: done)
        | [] => (done.reverse, [])
      else doubleQuoted fuel rest (.text true [b] :: done)

private def isOperatorByte (b : UInt8) : Bool := (";&|()<>\n" : Bytes).contains b

private def isSpace (b : UInt8) : Bool := b == 32 || b == 9

private def wordLoop : Nat → Bytes → Word → Word × Bytes
  | 0, rest, done => (done.reverse, rest)
  | _ + 1, [], done => (done.reverse, [])
  | fuel + 1, b :: rest, done =>
      if isSpace b || isOperatorByte b then (done.reverse, b :: rest)
      else if b == 34 then
        let (quoted, rest) := doubleQuoted (rest.length + 1) rest []
        wordLoop fuel rest (quoted.reverse ++ .text true [] :: done)
      else if b == 39 then
        wordLoop fuel ((rest.dropWhile (· != 39)).drop 1)
          (.text true (rest.takeWhile (· != 39)) :: done)
      else if b == Bytes.code '$' then
        match parameter? rest with
        | some (name, rest) => wordLoop fuel rest (.parameter false name :: done)
        | none => wordLoop fuel rest (.text false [b] :: done)
      else if b == Bytes.code '\\' then
        match rest with
        | c :: tail => wordLoop fuel tail (if c == 10 then done else .text true [c] :: done)
        | [] => (done.reverse, [])
      else wordLoop fuel rest (.text false [b] :: done)

private def operators : List Bytes := [";;", "&&", "||", ";", "&", "|", "(", ")"]

private def redirectMarks : List Bytes := [">>", ">&", ">"]

/-- The first of some marks that a text starts with, and the rest. -/
private def firstMark (marks : List Bytes) (text : Bytes) : Option (Bytes × Bytes) :=
  marks.findSome? fun mark => (Bytes.after? mark text).map fun rest => (mark, rest)

private def scanLoop : Nat → Nat → Bytes → List (Nat × Token) → List (Nat × Token)
  | 0, _, _, done => done.reverse
  | _ + 1, _, [], done => done.reverse
  | fuel + 1, line, b :: rest, done =>
      if isSpace b then scanLoop fuel line rest done
      else if b == 10 then scanLoop fuel (line + 1) rest ((line, .newline) :: done)
      else if b == Bytes.code '#' then scanLoop fuel line (rest.dropWhile (· != 10)) done
      else
        let numbered := if Bytes.isDigit b then firstMark redirectMarks rest else none
        match numbered, firstMark redirectMarks (b :: rest), firstMark operators (b :: rest) with
        | some (mark, rest), _, _ =>
            scanLoop fuel line rest ((line, .redirect (b.toNat - 48) mark) :: done)
        | none, some (mark, rest), _ => scanLoop fuel line rest ((line, .redirect 1 mark) :: done)
        | none, none, some (mark, rest) =>
            scanLoop fuel line rest ((line, .operator mark) :: done)
        | none, none, none =>
            let (word, after) := wordLoop (rest.length + 2) (b :: rest) []
            if after.length ≤ rest.length then
              scanLoop fuel line after ((line, .word word) :: done)
            else scanLoop fuel line rest done

/-- The tokens of a script with their lines. -/
def tokens (script : Bytes) : List (Nat × Token) := scanLoop (script.length + 1) 1 script []

/-- The text of a word without quotes and parameters. -/
def Word.bare? (word : Word) : Option Bytes :=
  word.foldr (fun piece rest => match piece, rest with
    | .text false text, some rest => some (text ++ rest)
    | _, _ => none) (some [])

private def isKeyword (keyword : Bytes) : Token → Bool
  | .word word => word.bare? == some keyword
  | _ => false

private def keywords : List Bytes :=
  ["for", "in", "do", "done", "case", "esac", "if", "then", "elif", "else", "fi"]

private def isAnyKeyword (token : Token) : Bool :=
  keywords.any fun keyword => isKeyword keyword token

/-- Keywords that a command starts with. -/
private def opens (token : Token) : Bool :=
  isKeyword "for" token || isKeyword "case" token || isKeyword "if" token

abbrev Tokens := List (Nat × Token)

private def isBreak (entry : Nat × Token) : Bool :=
  entry.2 == .newline || entry.2 == .operator ";"

private def skipBreaks (tokens : Tokens) : Tokens := tokens.dropWhile isBreak

private def keyword? (keyword : Bytes) (tokens : Tokens) : Option Tokens :=
  match skipBreaks tokens with
  | (_, token) :: rest => if isKeyword keyword token then some rest else none
  | [] => none

private def wordsOf : Tokens → List Word × Tokens
  | (_, .word word) :: rest =>
      let (words, rest) := wordsOf rest
      (word :: words, rest)
  | rest => ([], rest)

/-- A word of the form `name=value`. -/
private def assignment? (word : Word) : Option (Bytes × Word) :=
  let start := word.takeWhile fun piece => match piece with
    | .text false text => text != ("=" : Bytes)
    | _ => false
  match Word.bare? start, word.drop start.length with
  | some name, .text false _ :: value =>
      if !name.isEmpty && name.all isNameByte && !(name.take 1).all Bytes.isDigit then
        some (name, value)
      else none
  | _, _ => none

private def simpleLoop (line : Nat) :
    Tokens → List (Bytes × Word) → List Word → List Redirection → Option (Command × Tokens)
  | (_, .redirect stream mark) :: (_, .word target) :: rest, assignments, words, redirections =>
      if mark == (">&" : Bytes) then do
        let digits ← target.bare?
        simpleLoop line rest assignments words
          (.stream stream (Bytes.digitsValue digits) :: redirections)
      else
        simpleLoop line rest assignments words
          (.file stream target (mark == (">>" : Bytes)) :: redirections)
  | (_, .word word) :: rest, assignments, words, redirections =>
      match words.isEmpty, assignment? word with
      | true, some assigned => simpleLoop line rest (assigned :: assignments) words redirections
      | _, _ => simpleLoop line rest assignments (word :: words) redirections
  | rest, assignments, words, redirections =>
      if assignments.isEmpty && words.isEmpty && redirections.isEmpty then none
      else some (.simple line assignments.reverse words.reverse redirections.reverse, rest)

private def patterns : Tokens → List Word → Option (List Word × Tokens)
  | (_, .word word) :: (_, .operator mark) :: rest, done =>
      if mark == ("|" : Bytes) then patterns rest (word :: done)
      else if mark == (")" : Bytes) then some ((word :: done).reverse, rest)
      else none
  | _, _ => none

mutual

private def command : Nat → Tokens → Option (Command × Tokens)
  | 0, _ => none
  | _ + 1, [] => none
  | fuel + 1, (line, token) :: rest =>
      if isKeyword "!" token then do
        let (inner, rest) ← command fuel rest
        return (.not inner, rest)
      else if isKeyword "for" token then
        match rest with
        | (_, .word name) :: rest => do
            let name ← Word.bare? name
            let rest ← keyword? "in" rest
            let (words, rest) := wordsOf rest
            let rest ← keyword? "do" rest
            let (body, rest) ← block fuel rest
            let rest ← keyword? "done" rest
            return (.each name words body, rest)
        | _ => none
      else if isKeyword "case" token then
        match rest with
        | (_, .word subject) :: rest => do
            let rest ← keyword? "in" rest
            let (arms, rest) ← armsOf fuel rest
            return (.choose subject arms, rest)
        | _ => none
      else if isKeyword "if" token then condition fuel rest
      else if isAnyKeyword token then none
      else simpleLoop line ((line, token) :: rest) [] [] []

private def condition : Nat → Tokens → Option (Command × Tokens)
  | 0, _ => none
  | fuel + 1, tokens => do
      let (test, rest) ← block fuel tokens
      let rest ← keyword? "then" rest
      let (yes, rest) ← block fuel rest
      match keyword? "elif" rest, keyword? "else" rest with
      | some rest, _ => do
          let (inner, rest) ← condition fuel rest
          return (.test test yes (.then inner .empty), rest)
      | none, some rest => do
          let (no, rest) ← block fuel rest
          let rest ← keyword? "fi" rest
          return (.test test yes no, rest)
      | none, none => do
          let rest ← keyword? "fi" rest
          return (.test test yes .empty, rest)

private def armsOf : Nat → Tokens → Option (Arms × Tokens)
  | 0, _ => none
  | fuel + 1, tokens =>
      match keyword? "esac" tokens with
      | some rest => some (.none, rest)
      | none => do
          let opened := skipBreaks tokens
          let opened := match opened with
            | (_, .operator mark) :: rest => if mark == ("(" : Bytes) then rest else opened
            | _ => opened
          let (words, rest) ← patterns opened []
          let (body, rest) ← block fuel rest
          let rest := match skipBreaks rest with
            | (_, .operator mark) :: tail =>
                if mark == (";;" : Bytes) then tail else rest
            | _ => rest
          let (others, rest) ← armsOf fuel rest
          return (.arm words body others, rest)

/-- Commands joined by `&&` and `||`, from left to right. -/
private def chain : Nat → Command → Tokens → Option (Command × Tokens)
  | 0, _, _ => none
  | fuel + 1, first, (line, .operator mark) :: rest =>
      if mark == ("&&" : Bytes) then do
        let (second, rest) ← command fuel (skipBreaks rest)
        chain fuel (.both first second) rest
      else if mark == ("||" : Bytes) then do
        let (second, rest) ← command fuel (skipBreaks rest)
        chain fuel (.either first second) rest
      else some (first, (line, .operator mark) :: rest)
  | _ + 1, first, rest => some (first, rest)

private def block : Nat → Tokens → Option (Block × Tokens)
  | 0, _ => none
  | fuel + 1, tokens =>
      match skipBreaks tokens with
      | [] => some (.empty, [])
      | (line, token) :: rest =>
          if (isAnyKeyword token && !opens token) || token == .operator ";;" then
            some (.empty, (line, token) :: rest)
          else do
            let (first, rest) ← command fuel ((line, token) :: rest)
            let (first, rest) ← chain fuel first rest
            let (others, rest) ← block fuel rest
            return (.then first others, rest)

end

/-- The commands of a script; nothing when it is not well formed. -/
def parse? (script : Bytes) : Option Block :=
  let tokens := tokens script
  match block (2 * tokens.length + 2) tokens with
  | some (block, []) => some block
  | _ => none

end Minilang.Script
