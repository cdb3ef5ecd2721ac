import Minilang.Text.Number
import Minilang.Token.Scan
import Minilang.Tree.Arena

/-! The parser: recursive descent over a token list, with precedence climbing for binary
operators. It never stops at an error. A failed statement is dropped and reading goes on behind
the next semicolon, or at a closing brace or a keyword that starts a statement. Once the allowed
number of errors is reached it only skips tokens.

A parser returns the tree of what it has read, and keeps its nodes in the arenas on the way: the
numbers in the tree are theirs. Fuel bounds the depth of the recursion; every call chain spends at
most a few units for each token, so the amount handed out by `Program.parse` is never used up. -/

namespace Minilang

structure ParseOptions where
  /-- Errors after which nothing more is reported; zero means no limit. -/
  maxErrors : Nat := 0
  /-- Errors counted before parsing. -/
  currentErrors : Nat := 0

structure ParseState where
  /-- What is left to read; the last token is the end of the file. -/
  tokens : List Token
  /-- The last token consumed. -/
  lastSpan : Span := {}
  errors : Nat
  maxErrors : Nat
  /-- Latest first. -/
  log : List Diagnostic
  /-- Every node allocated, those of dropped statements included. -/
  arenas : Arenas := {}
  /-- Whether fuel was missing somewhere. -/
  starved : Bool := false

namespace ParseState

def start (options : ParseOptions) (tokens : List Token) : ParseState :=
  { tokens, errors := options.currentErrors, maxErrors := options.maxErrors
    log := (tokens.take 1).flatMap Token.reports }

/-- The next token. -/
def head (state : ParseState) : Token := state.tokens.headD { kind := .eof, span := {} }

def at? (state : ParseState) (kind : TokenKind) : Bool := state.head.kind == kind

/-- Whether no further error is to be reported. -/
def isEnough (state : ParseState) : Bool :=
  state.maxErrors != 0 && state.maxErrors ≤ state.errors

/-- Moves behind the next token unless it is the end. A complaint of the token that comes into
view is reported at once. -/
def advance (state : ParseState) : ParseState :=
  match state.tokens with
  | token :: next :: rest =>
      { state with
        tokens := next :: rest
        lastSpan := if token.kind == .eof then state.lastSpan else token.span
        log := next.reports.reverse ++ state.log }
  | [token] =>
      { state with lastSpan := if token.kind == .eof then state.lastSpan else token.span }
  | [] => state

/-- Counts an error that has been reported already. -/
def countError (state : ParseState) : ParseState := { state with errors := state.errors + 1 }

def report (state : ParseState) (code : Code) (span : Span) (message : Bytes) : ParseState :=
  let counted := state.countError
  if state.isEnough then counted
  else { counted with log := .error code span message :: counted.log }

/-- Where to complain: at the next token, or right behind the last one at the end. -/
def errorSpan (state : ParseState) : Span :=
  if state.at? .eof && 0 < state.lastSpan.stop then state.lastSpan.after else state.head.span

end ParseState

abbrev Parser := OptionT (StateM ParseState)

/-- A token as error messages name it. -/
def Token.describe (token : Token) : Bytes :=
  match token.kind with
  | .eof => "end of file"
  | .ident | .intLit => "'" ++ token.text ++ "'"
  | kind => if kind.isKeyword then "keyword '" ++ kind.name ++ "'" else "'" ++ kind.name ++ "'"

namespace Parser

def peek : Parser Token := return (← get).head

def atKind (kind : TokenKind) : Parser Bool := return (← get).at? kind

def advance : Parser Token := do
  let token ← peek
  modify ParseState.advance
  return token

/-- Fails with a message at the current place. -/
def fail {α : Type} (code : Code) (message : Bytes) : Parser α := do
  modify fun state => state.report code state.errorSpan message
  failure

/-- Takes a token of the given kind or fails. An invalid token has been complained about already
and only counts. -/
def expect (kind : TokenKind) (code : Code) (message : Bytes) : Parser Token := do
  if ← atKind kind then
    advance
  else if ← atKind .invalid then
    modify ParseState.countError
    failure
  else
    fail code message

/-- Keeps an expression under the next number. -/
def newExpr (node : Site → Expr) (span : Span) : Parser Expr := do
  let arenas := (← get).arenas
  let e := node ⟨arenas.exprs.size + 1, span⟩
  modify ({ · with arenas := { arenas with exprs := (arenas.exprs.add e).2 } })
  return e

/-- Keeps a statement under the next number. -/
def newStmt (node : Site → Stmt) (span : Span) : Parser Stmt := do
  let arenas := (← get).arenas
  let s := node ⟨arenas.stmts.size + 1, span⟩
  modify ({ · with arenas := { arenas with stmts := (arenas.stmts.add s).2 } })
  return s

/-- There is no fuel left. -/
def starve {α : Type} : Parser α := do
  modify ({ · with starved := true })
  failure

/-- How a binary operator binds and what it builds. -/
structure BinaryRule where
  precedence : Nat
  form : BinaryForm
  op : Op

/-- All binary operators associate to the left; a greater precedence binds tighter. -/
def binaryRule? : TokenKind → Option BinaryRule
  | .orOr => some ⟨1, .logicalOr, .invalid⟩
  | .andAnd => some ⟨2, .logicalAnd, .invalid⟩
  | .eqEq => some ⟨3, .comparison, .eq⟩
  | .bangEq => some ⟨3, .comparison, .ne⟩
  | .lt => some ⟨4, .comparison, .lt⟩
  | .ltEq => some ⟨4, .comparison, .le⟩
  | .gt => some ⟨4, .comparison, .gt⟩
  | .gtEq => some ⟨4, .comparison, .ge⟩
  | .plus => some ⟨5, .additive, .add⟩
  | .minus => some ⟨5, .additive, .sub⟩
  | .star => some ⟨6, .multiplicative, .mul⟩
  | .slash => some ⟨6, .multiplicative, .div⟩
  | .percent => some ⟨6, .multiplicative, .rem⟩
  | _ => none

def unaryOp? : TokenKind → Option Op
  | .plus => some .plus
  | .minus => some .neg
  | .bang => some .not
  | _ => none

/-- The value of an integer literal. A text that is none has the value that is nearest, or zero. -/
def literalValue (text : Bytes) : Int32 :=
  match Text.int32? text with
  | .ok value => value
  | .error .malformed => 0
  | .error .range => if (Text.signed text).1 then -2147483648 else 2147483647

/-- Complains of a literal that is none. -/
def checkLiteral (token : Token) : Parser PUnit :=
  match Text.int32? token.text with
  | .ok _ => return ⟨⟩
  | .error _ => modify fun state =>
      state.report .badNumber token.span ("invalid integer literal " ++ token.text)

mutual

/-- An expression whose operators outside parentheses have at least the given precedence. -/
def binary (fuel minimum : Nat) : Parser Expr :=
  match fuel with
  | 0 => starve
  | fuel + 1 => do
      let left ← unary fuel
      operands fuel minimum left

/-- Extends a left operand as long as operators follow. -/
def operands (fuel minimum : Nat) (left : Expr) : Parser Expr :=
  match fuel with
  | 0 => starve
  | fuel + 1 => do
      match binaryRule? (← peek).kind with
      | none => return left
      | some rule =>
          if rule.precedence < minimum then
            return left
          else
            let _ ← advance
            let right ← binary fuel (rule.precedence + 1)
            let node ← newExpr (.binary · rule.form rule.op left right) (left.span.cover right.span)
            operands fuel minimum node

def unary (fuel : Nat) : Parser Expr :=
  match fuel with
  | 0 => starve
  | fuel + 1 => do
      match unaryOp? (← peek).kind with
      | none => primary fuel
      | some op =>
          let sign ← advance
          let operand ← unary fuel
          newExpr (.unary · op operand) (sign.span.cover operand.span)

def primary (fuel : Nat) : Parser Expr :=
  match fuel with
  | 0 => starve
  | fuel + 1 => do
      let token ← peek
      match token.kind with
      | .intLit =>
          let _ ← advance
          let _ ← checkLiteral token
          newExpr (.intLit · token.text (literalValue token.text)) token.span
      | .ident =>
          let _ ← advance
          newExpr (.varRef · token.text) token.span
      | .kwRead =>
          let _ ← advance
          newExpr .read token.span
      | .lParen =>
          let opening ← advance
          let inner ← binary fuel 1
          let closing ← expect .rParen .unclosedParen "expected ')' to close '('"
          newExpr (.paren · inner) (opening.span.cover closing.span)
      | .invalid =>
          let _ ← advance
          modify ParseState.countError
          failure
      | _ => fail .expectExpression ("expected expression, got " ++ token.describe)

end

def expression (fuel : Nat) : Parser Expr := binary fuel 1

def semicolon : Parser Token := do
  let token ← peek
  expect .semicolon .expectSemicolon ("expected ';', got " ++ token.describe)

/-- `name = value;` -/
def assign (fuel : Nat) : Parser Stmt := do
  let name ← advance
  let _ ← expect .assign .expectAssign ("expected '=' after " ++ name.describe)
  let value ← expression fuel
  let last ← semicolon
  newStmt (.assign · name.text name.span value) (name.span.cover last.span)

/-- `read name;` -/
def read : Parser Stmt := do
  let keyword ← advance
  let name ← expect .ident .expectIdentifier "expected variable name after 'read'"
  let last ← semicolon
  newStmt (.read · name.text name.span) (keyword.span.cover last.span)

/-- `print value;` -/
def print (fuel : Nat) : Parser Stmt := do
  let keyword ← advance
  let value ← expression fuel
  let last ← semicolon
  newStmt (.print · value) (keyword.span.cover last.span)

/-- Skips to a place where a statement can start: behind a semicolon, or at a brace, a keyword or
the end. -/
def resync : Nat → ParseState → ParseState
  | 0, state => { state with starved := true }
  | fuel + 1, state =>
      match state.head.kind with
      | .eof | .rBrace | .kwIf | .kwWhile | .kwFor | .kwPrint | .kwRead => state
      | .semicolon => state.advance
      | _ => resync fuel state.advance

mutual

/-- Statements up to a terminator, which stays unread. -/
def statements (fuel : Nat) (terminator : TokenKind) (done : List Stmt) :
    StateM ParseState (List Stmt) :=
  match fuel with
  | 0 => do
      modify ({ · with starved := true })
      return done.reverse
  | fuel + 1 => do
      let state ← get
      if state.at? terminator || state.at? .eof then
        return done.reverse
      else if state.isEnough then
        modify ParseState.advance
        statements fuel terminator done
      else if terminator == .eof && state.at? .rBrace then
        modify fun state =>
          (state.report .unexpectedToken state.errorSpan "unexpected '\x7d'").advance
        statements fuel terminator done
      else
        match ← (statement fuel).run with
        | some s => statements fuel terminator (s :: done)
        | none =>
            modify fun state => resync state.tokens.length state
            statements fuel terminator done

def statement (fuel : Nat) : Parser Stmt :=
  match fuel with
  | 0 => starve
  | fuel + 1 => do
      let token ← peek
      match token.kind with
      | .ident => assign fuel
      | .kwRead => read
      | .kwPrint => print fuel
      | .kwIf => conditional fuel
      | .kwWhile => whileLoop fuel
      | .kwFor => forLoop fuel
      | .invalid =>
          let _ ← advance
          modify ParseState.countError
          failure
      | _ => fail .unexpectedToken ("expected statement, got " ++ token.describe)

/-- Statements in braces. What goes wrong inside does not make the block fail. -/
def block (fuel : Nat) (owner : Bytes) : Parser (List Stmt × Span) :=
  match fuel with
  | 0 => starve
  | fuel + 1 => do
      let opening ← expect .lBrace .expectBlock ("expected '\x7b' after " ++ owner)
      let body ← (statements fuel .rBrace [] : StateM ParseState (List Stmt))
      let closing ← expect .rBrace .unclosedBrace "expected '\x7d' to close block"
      return (body, opening.span.cover closing.span)

/-- `if cond {…}`, with `else {…}` or `else if …` behind it. -/
def conditional (fuel : Nat) : Parser Stmt :=
  match fuel with
  | 0 => starve
  | fuel + 1 => do
      let keyword ← advance
      let cond ← expression fuel
      let (thenBody, thenSpan) ← block fuel "if condition"
      let span := keyword.span.cover thenSpan
      if !(← atKind .kwElse) then
        newStmt (.ifElse · cond thenBody [] false) span
      else
        let _ ← advance
        if ← atKind .kwIf then
          let nested ← conditional fuel
          newStmt (.ifElse · cond thenBody [nested] true) (span.cover nested.span)
        else
          let (elseBody, elseSpan) ← block fuel "'else'"
          newStmt (.ifElse · cond thenBody elseBody true) (span.cover elseSpan)

/-- `while cond {…}` -/
def whileLoop (fuel : Nat) : Parser Stmt :=
  match fuel with
  | 0 => starve
  | fuel + 1 => do
      let keyword ← advance
      let cond ← expression fuel
      let (body, span) ← block fuel "while condition"
      newStmt (.whileLoop · cond body) (keyword.span.cover span)

/-- `for name = start to stop step value {…}`, where the step may be missing. -/
def forLoop (fuel : Nat) : Parser Stmt :=
  match fuel with
  | 0 => starve
  | fuel + 1 => do
      let keyword ← advance
      let name ← expect .ident .expectIdentifier "expected loop variable after 'for'"
      let _ ← expect .assign .expectAssign "expected '=' after loop variable"
      let start ← expression fuel
      let token ← peek
      let _ ← expect .kwTo .forMissingTo ("expected 'to' in for loop, got " ++ token.describe)
      let stop ← expression fuel
      let step ←
        if ← atKind .kwStep then
          let _ ← advance
          expression fuel
        else
          pure .absent
      let (body, span) ← block fuel "for header"
      newStmt (.forLoop · name.text name.span start stop step body) (keyword.span.cover span)

end

end Parser

/-- What parsing a file gives. -/
structure Parsed where
  program : Program
  errors : Nat
  /-- Lexical and syntax errors in the order they were met. -/
  reports : List Diagnostic
  arenas : Arenas
  /-- Whether the fuel was used up. -/
  starved : Bool

namespace Parsed

/-- Whether there was neither a lexical nor a syntax error. -/
def isOk (parsed : Parsed) : Bool := parsed.errors == 0

/-- The numbers of the statements of the program. -/
def roots (parsed : Parsed) : List Nat := parsed.program.stmts.map Stmt.id

end Parsed

/-- Parses the tokens of a file. -/
def Program.parse (options : ParseOptions) (tokens : List Token) : Parsed :=
  let state := ParseState.start options tokens
  let (stmts, last) := (Parser.statements (8 * tokens.length + 16) .eof []).run state
  { program := { span := state.head.span.cover last.lastSpan, stmts }
    errors := last.errors
    reports := last.log.reverse
    arenas := last.arenas
    starved := last.starved }

end Minilang
