import Minilang.Token.Kind
import Minilang.Token.Cursor
import Minilang.Diagnostic.Bag
import Minilang.Text.Quoted

/-! Tokens and the lexer. Blanks and comments travel with the token behind them. A lexeme that is
no token is kept as an invalid token that carries its complaint. -/

namespace Minilang

structure Trivia where
  kind : TriviaKind
  span : Span
  text : Bytes
  deriving DecidableEq, Repr

structure Token where
  kind : TokenKind
  span : Span
  text : Bytes := []
  leading : List Trivia := []
  /-- What is wrong with an invalid token. -/
  complaint : Option (Code × Bytes) := none
  deriving DecidableEq, Repr

/-- The report that an invalid token gives rise to. -/
def Token.reports (token : Token) : List Diagnostic :=
  match token.complaint with
  | some (code, message) => [.error code token.span message]
  | none => []

namespace Lexeme

def isSpace (b : UInt8) : Bool := b == 32 || b == 9 || b == 13

def isIdentStart (b : UInt8) : Bool := b == 95 || Bytes.isLetter b

def isIdentContinue (b : UInt8) : Bool := isIdentStart b || Bytes.isDigit b

def pairs : List (Bytes × TokenKind) :=
  [("&&", .andAnd), ("||", .orOr), ("==", .eqEq), ("!=", .bangEq), ("<=", .ltEq), (">=", .gtEq)]

def singles : List (Bytes × TokenKind) :=
  [("+", .plus), ("-", .minus), ("*", .star), ("/", .slash), ("%", .percent), ("=", .assign),
    ("!", .bang), ("<", .lt), (">", .gt), (";", .semicolon), ("(", .lParen), (")", .rParen),
    ("\x7b", .lBrace), ("\x7d", .rBrace)]

/-- The operator that comes next: one of two bytes wins over one of a single byte. -/
def operator? (text : Bytes) : Option (Bytes × TokenKind) :=
  (pairs ++ singles).find? fun entry => entry.1.isPrefixOf text

/-- The greatest integer literal. -/
def maxLiteral : Nat := 2147483647

end Lexeme

open Lexeme

/-- The piece of trivia that comes next. -/
def Cursor.trivia? (cursor : Cursor) : Option (Trivia × Cursor) :=
  let run := fun (kind : TriviaKind) (test : UInt8 → Bool) =>
    let (text, next) := cursor.takeWhile test
    some (⟨kind, next.spanFrom cursor.offset, text⟩, next)
  match cursor.rest with
  | [] => none
  | b :: _ =>
      if isSpace b then run .space isSpace
      else if b = 10 then run .newline (· == 10)
      else if b = 35 then run .comment (· != 10)
      else none

private theorem skip_shorter (cursor : Cursor) {b : UInt8} {rest : Bytes} (test : UInt8 → Bool)
    (here : cursor.rest = b :: rest) (taken : test b = true) :
    (cursor.takeWhile test).2.rest.length < cursor.rest.length := by
  have rest_shorter : ((b :: rest).drop ((b :: rest).takeWhile test).length).length <
      (b :: rest).length := by
    rw [List.takeWhile_cons_of_pos taken, List.length_drop, List.length_cons, List.length_cons]
    omega
  simpa only [Cursor.takeWhile, Cursor.skip, here] using rest_shorter

/-- A piece of trivia is never empty. -/
theorem Cursor.trivia?_shorter {cursor next : Cursor} {piece : Trivia}
    (step : cursor.trivia? = some (piece, next)) : next.rest.length < cursor.rest.length := by
  unfold Cursor.trivia? at step
  split at step
  · cases step
  · rename_i b rest here
    split at step
    · rename_i space
      cases step
      exact skip_shorter cursor isSpace here space
    · split at step
      · rename_i feed
        cases step
        exact skip_shorter cursor (· == 10) here (by simp [feed])
      · split at step
        · rename_i hash
          cases step
          exact skip_shorter cursor (· != 10) here (by simp [hash])
        · cases step

def Cursor.triviaLoop (cursor : Cursor) (done : List Trivia) : List Trivia × Cursor :=
  match step : cursor.trivia? with
  | some (piece, next) =>
      have := Cursor.trivia?_shorter step
      Cursor.triviaLoop next (piece :: done)
  | none => (done.reverse, cursor)
termination_by cursor.rest.length

/-- All trivia up to the next token. -/
def Cursor.skipTrivia (cursor : Cursor) : List Trivia × Cursor := Cursor.triviaLoop cursor []

/-- An identifier or keyword, at a byte that can start one. -/
def Cursor.scanWord (cursor : Cursor) : Token × Cursor :=
  let (text, next) := cursor.takeWhile isIdentContinue
  let kind := (TokenKind.ofKeyword? text).getD .ident
  ({ kind, span := next.spanFrom cursor.offset, text }, next)

/-- A run of digits. Letters right behind it, or a value past the greatest literal, make it
invalid as a whole. -/
def Cursor.scanNumber (cursor : Cursor) : Token × Cursor :=
  let (digits, behind) := cursor.takeWhile Bytes.isDigit
  let (tail, next) := behind.takeWhile isIdentContinue
  let text := digits ++ tail
  let span := next.spanFrom cursor.offset
  if !tail.isEmpty then
    ({ kind := .invalid, span, text
       complaint := some (.badNumber, "invalid integer literal " ++ text) }, next)
  else if maxLiteral < Bytes.digitsValue digits then
    ({ kind := .invalid, span, text
       complaint := some (.badNumber,
        "integer literal " ++ text ++ " exceeds " ++ Bytes.dec maxLiteral) }, next)
  else ({ kind := .intLit, span, text }, next)

/-- An operator or punctuation; anything else is one unknown code point. -/
def Cursor.scanSymbol (cursor : Cursor) : Token × Cursor :=
  match operator? cursor.rest with
  | some (text, kind) =>
      let next := cursor.skip text.length
      ({ kind, span := next.spanFrom cursor.offset, text }, next)
  | none =>
      let next := cursor.bumpRune
      let text := cursor.rest.take (next.offset - cursor.offset).toNat
      ({ kind := .invalid, span := next.spanFrom cursor.offset, text
         complaint := some (.unknownChar, "unknown character " ++ Text.quoted text) }, next)

/-- The next token with its leading trivia. At the end there are no further tokens than the empty
one at the end, and trivia before it is forgotten. -/
def Cursor.scan (cursor : Cursor) : Token × Cursor :=
  let (leading, here) := cursor.skipTrivia
  match here.rest with
  | [] => ({ kind := .eof, span := here.spanFrom here.offset }, here)
  | b :: _ =>
      let (token, next) :=
        if isIdentStart b then here.scanWord
        else if Bytes.isDigit b then here.scanNumber
        else here.scanSymbol
      ({ token with leading }, next)

/-- A lexer with one token of look-ahead. `log` holds what it has reported so far, latest
first. -/
structure Lexer where
  cursor : Cursor
  ahead : Option Token := none
  log : List Diagnostic := []

namespace Lexer

def ofFile (file : SourceFile) : Lexer := { cursor := .ofFile file }

def pull (lexer : Lexer) : Token × Lexer :=
  let (token, cursor) := lexer.cursor.scan
  (token, { lexer with cursor, log := token.reports.reverse ++ lexer.log })

/-- Consumes one token; at the end it keeps giving the end token. -/
def next (lexer : Lexer) : Token × Lexer :=
  match lexer.ahead with
  | some token => (token, { lexer with ahead := none })
  | none => lexer.pull

/-- The token that `next` will give. -/
def peek (lexer : Lexer) : Token × Lexer :=
  match lexer.ahead with
  | some token => (token, lexer)
  | none =>
      let (token, after) := lexer.pull
      (token, { after with ahead := some token })

def allLoop : Nat → Lexer → Array Token → Array Token × Lexer
  | 0, lexer, done => (done, lexer)
  | fuel + 1, lexer, done =>
      let (token, after) := lexer.next
      if token.kind == .eof then (done.push token, after)
      else allLoop fuel after (done.push token)

/-- The remaining tokens up to and including the end token. -/
def all (lexer : Lexer) : List Token × Lexer :=
  let (tokens, after) := allLoop (lexer.cursor.rest.length + 2) lexer #[]
  (tokens.toList, after)

/-- At most `count` tokens, not past the end token. -/
def take : Nat → Lexer → List Token × Lexer
  | 0, lexer => ([], lexer)
  | count + 1, lexer =>
      let (token, after) := lexer.next
      if token.kind == .eof then ([token], after)
      else
        let (rest, last) := take count after
        (token :: rest, last)

/-- What has been reported so far, in order. -/
def reports (lexer : Lexer) : List Diagnostic := lexer.log.reverse

end Lexer

/-- The tokens of a file, the last being its end. -/
def SourceFile.tokens (file : SourceFile) : List Token := (Lexer.ofFile file).all.1

end Minilang
