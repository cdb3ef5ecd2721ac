import Minilang.Proofs.FileTokens
import Minilang.Tree.Parse

/-! Trees read back in source order. An expression has one spelling; a conditional has two when
its `else` holds a single conditional, which may or may not stand in braces. A tree has the shape
that precedences ask for when no operand binds weaker than its operator. -/

namespace Minilang

/-- What a token says: its kind and its text. -/
structure Word where
  kind : TokenKind
  text : Bytes
  deriving DecidableEq, Repr

def Token.word (token : Token) : Word := ⟨token.kind, token.text⟩

def TokenKind.word (kind : TokenKind) : Word := ⟨kind, kind.name⟩

@[simp] theorem TokenKind.kind_word (kind : TokenKind) : kind.word.kind = kind := rfl

def BinaryForm.token : BinaryForm → Op → TokenKind
  | .logicalOr, _ => .orOr
  | .logicalAnd, _ => .andAnd
  | .comparison, .eq => .eqEq
  | .comparison, .ne => .bangEq
  | .comparison, .lt => .lt
  | .comparison, .le => .ltEq
  | .comparison, .gt => .gt
  | .comparison, .ge => .gtEq
  | .additive, .add => .plus
  | .additive, .sub => .minus
  | .multiplicative, .mul => .star
  | .multiplicative, .div => .slash
  | .multiplicative, .rem => .percent
  | _, _ => .invalid

def BinaryForm.precedence : BinaryForm → Op → Nat
  | .logicalOr, _ => 1
  | .logicalAnd, _ => 2
  | .comparison, .eq | .comparison, .ne => 3
  | .comparison, _ => 4
  | .additive, _ => 5
  | .multiplicative, _ => 6

def Op.sign : Op → TokenKind
  | .plus => .plus
  | .neg => .minus
  | .not => .bang
  | _ => .invalid

namespace Expr

/-- The words of an expression in source order. -/
def words : Expr → List Word
  | .absent | .hollow .. | .unknown _ => []
  | .intLit _ text _ => [⟨.intLit, text⟩]
  | .varRef _ name => [⟨.ident, name⟩]
  | .read _ => [TokenKind.kwRead.word]
  | .paren _ inner => TokenKind.lParen.word :: inner.words ++ [TokenKind.rParen.word]
  | .unary _ op operand => op.sign.word :: operand.words
  | .binary _ form op left right => left.words ++ (form.token op).word :: right.words

/-- The precedence of a binary expression; everything else holds tighter. -/
def level : Expr → Nat
  | .binary _ form op _ _ => form.precedence op
  | _ => 7

/-- The operands of unary operators are unary or primary. Those of a binary operator are never
binary of a lower precedence, and the right one not of the same. -/
def Shaped : Expr → Prop
  | .absent | .hollow .. | .unknown _ => False
  | .intLit _ text value => value.toInt = Bytes.digitsValue text
  | .varRef .. | .read _ => True
  | .paren _ inner => inner.Shaped
  | .unary _ _ operand => operand.level = 7 ∧ operand.Shaped
  | .binary _ form op left right => form.precedence op ≤ left.level ∧
      form.precedence op < right.level ∧ left.Shaped ∧ right.Shaped

end Expr

namespace Stmt

def braced (body : List Word) : List Word :=
  TokenKind.lBrace.word :: body ++ [TokenKind.rBrace.word]

def isConditional : Stmt → Bool
  | .ifElse .. => true
  | _ => false

mutual

/-- The words of a statement in source order. -/
inductive Spells : Stmt → List Word → Prop
  | assign (site : Site) (name : Bytes) (span : Span) (value : Expr) :
      Spells (.assign site name span value)
        (⟨.ident, name⟩ :: TokenKind.assign.word :: value.words ++ [TokenKind.semicolon.word])
  | read (site : Site) (name : Bytes) (span : Span) :
      Spells (.read site name span)
        [TokenKind.kwRead.word, ⟨.ident, name⟩, TokenKind.semicolon.word]
  | print (site : Site) (value : Expr) :
      Spells (.print site value)
        (TokenKind.kwPrint.word :: value.words ++ [TokenKind.semicolon.word])
  | ifOnly (site : Site) (cond : Expr) {thenBody : List Stmt} {body : List Word}
      (inside : SpellAll thenBody body) :
      Spells (.ifElse site cond thenBody [] false)
        (TokenKind.kwIf.word :: cond.words ++ braced body)
  | ifElse (site : Site) (cond : Expr) {thenBody elseBody : List Stmt} {body other : List Word}
      (inside : SpellAll thenBody body) (otherwise : SpellAll elseBody other) :
      Spells (.ifElse site cond thenBody elseBody true)
        (TokenKind.kwIf.word :: cond.words ++ braced body ++ TokenKind.kwElse.word :: braced other)
  /-- A single conditional may follow `else` without braces. -/
  | elseIf (site : Site) (cond : Expr) {thenBody : List Stmt} {nested : Stmt}
      {body other : List Word} (inside : SpellAll thenBody body)
      (conditional : nested.isConditional = true) (otherwise : Spells nested other) :
      Spells (.ifElse site cond thenBody [nested] true)
        (TokenKind.kwIf.word :: cond.words ++ braced body ++ TokenKind.kwElse.word :: other)
  | whileLoop (site : Site) (cond : Expr) {inner : List Stmt} {body : List Word}
      (inside : SpellAll inner body) :
      Spells (.whileLoop site cond inner)
        (TokenKind.kwWhile.word :: cond.words ++ braced body)
  | forLoop (site : Site) (name : Bytes) (span : Span) (start stop step : Expr)
      {inner : List Stmt} {body : List Word} (inside : SpellAll inner body) :
      Spells (.forLoop site name span start stop step inner)
        (TokenKind.kwFor.word :: ⟨.ident, name⟩ :: TokenKind.assign.word :: start.words ++
          TokenKind.kwTo.word :: stop.words ++
          (if step.isAbsent then [] else TokenKind.kwStep.word :: step.words) ++ braced body)

inductive SpellAll : List Stmt → List Word → Prop
  | nil : SpellAll [] []
  | cons {s : Stmt} {rest : List Stmt} {u v : List Word} (first : Spells s u)
      (more : SpellAll rest v) : SpellAll (s :: rest) (u ++ v)

end

mutual

/-- All expressions of a statement have the shape that precedences ask for. -/
def Shaped : Stmt → Prop
  | .absent | .hollow .. | .unknown _ => False
  | .assign _ _ _ value | .print _ value => value.Shaped
  | .read .. => True
  | .ifElse _ cond thenBody elseBody _ => cond.Shaped ∧ AllShaped thenBody ∧ AllShaped elseBody
  | .whileLoop _ cond body => cond.Shaped ∧ AllShaped body
  | .forLoop _ _ _ start stop step body => start.Shaped ∧ stop.Shaped ∧
      (step.isAbsent = false → step.Shaped) ∧ AllShaped body

def AllShaped : List Stmt → Prop
  | [] => True
  | s :: rest => s.Shaped ∧ AllShaped rest

end

theorem SpellAll.append {body rest : List Stmt} {u v : List Word} (first : SpellAll body u)
    (more : SpellAll rest v) : SpellAll (body ++ rest) (u ++ v) := by
  induction body generalizing u with
  | nil =>
    cases first
    exact more
  | cons s body ih =>
    cases first with
    | cons here later =>
      rw [List.cons_append, List.append_assoc]
      exact .cons here (ih later)

end Stmt

end Minilang
