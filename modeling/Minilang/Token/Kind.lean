import Minilang.Bytes

/-! Kinds of tokens and trivia. -/

namespace Minilang

inductive TokenKind where
  | invalid
  | eof
  | ident
  | intLit
  | kwIf
  | kwElse
  | kwWhile
  | kwFor
  | kwTo
  | kwStep
  | kwRead
  | kwPrint
  | plus
  | minus
  | star
  | slash
  | percent
  | assign
  | eqEq
  | bang
  | bangEq
  | lt
  | ltEq
  | gt
  | gtEq
  | andAnd
  | orOr
  | semicolon
  | lParen
  | rParen
  | lBrace
  | rBrace
  deriving DecidableEq, Repr

/-- The groups in which tokens are listed. -/
inductive TokenClass where
  | special
  | ident
  | literal
  | keyword
  | operator
  deriving DecidableEq, Repr

def TokenClass.name : TokenClass → Bytes
  | special => "special"
  | ident => "ident"
  | literal => "literal"
  | keyword => "keyword"
  | operator => "operator"

namespace TokenKind

/-- Every kind, numbered by its position. -/
def all : List TokenKind :=
  [invalid, eof, ident, intLit, kwIf, kwElse, kwWhile, kwFor, kwTo, kwStep, kwRead, kwPrint, plus,
    minus, star, slash, percent, assign, eqEq, bang, bangEq, lt, ltEq, gt, gtEq, andAnd, orOr,
    semicolon, lParen, rParen, lBrace, rBrace]

/-- The spelling of keywords and operators, the name of other kinds. -/
def name : TokenKind → Bytes
  | invalid => "Invalid"
  | eof => "EOF"
  | ident => "Ident"
  | intLit => "IntLit"
  | kwIf => "if"
  | kwElse => "else"
  | kwWhile => "while"
  | kwFor => "for"
  | kwTo => "to"
  | kwStep => "step"
  | kwRead => "read"
  | kwPrint => "print"
  | plus => "+"
  | minus => "-"
  | star => "*"
  | slash => "/"
  | percent => "%"
  | assign => "="
  | eqEq => "=="
  | bang => "!"
  | bangEq => "!="
  | lt => "<"
  | ltEq => "<="
  | gt => ">"
  | gtEq => ">="
  | andAnd => "&&"
  | orOr => "||"
  | semicolon => ";"
  | lParen => "("
  | rParen => ")"
  | lBrace => "\x7b"
  | rBrace => "\x7d"

def tokenClass : TokenKind → TokenClass
  | invalid | eof => .special
  | ident => .ident
  | intLit => .literal
  | kwIf | kwElse | kwWhile | kwFor | kwTo | kwStep | kwRead | kwPrint => .keyword
  | _ => .operator

def isKeyword (kind : TokenKind) : Bool := kind.tokenClass == .keyword

def keywords : List TokenKind := [kwIf, kwElse, kwWhile, kwFor, kwTo, kwStep, kwRead, kwPrint]

/-- The name of a numbered kind. -/
def nameOf (number : Nat) : Bytes := (all[number]?.map name).getD "Kind(?)"

/-- Numbers of no kind are special too. -/
def classOf (number : Nat) : TokenClass := (all[number]?.map tokenClass).getD .special

/-- The keyword with a given spelling. -/
def ofKeyword? (text : Bytes) : Option TokenKind := keywords.find? fun kind => kind.name = text

end TokenKind

inductive TriviaKind where
  | space
  | newline
  | comment
  deriving DecidableEq, Repr

namespace TriviaKind

def all : List TriviaKind := [space, newline, comment]

def name : TriviaKind → Bytes
  | space => "space"
  | newline => "newline"
  | comment => "comment"

/-- The name of a numbered kind. -/
def nameOf (number : Nat) : Bytes := (all[number]?.map name).getD "trivia(?)"

end TriviaKind

end Minilang
