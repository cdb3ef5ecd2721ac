import Minilang.Proofs.DecimalText
import Minilang.Proofs.ParserRuns
import Minilang.Proofs.TreeText

/-! What the parser builds without complaint is what it has read. Each parser either counts an
error or returns a tree whose words are the tokens that it took; the fuel handed out for a number
of tokens is never used up. -/

namespace Minilang

namespace ParseState

/-- The tokens between two states, word for word. -/
structure Reads (state after : ParseState) (words : List Word) : Prop where
  split : ∃ read, state.tokens = read ++ after.tokens ∧ read.map Token.word = words
  whole : Tokens.Whole after.tokens

theorem Reads.refl {state : ParseState} (whole : Tokens.Whole state.tokens) : state.Reads state [] :=
  ⟨⟨[], rfl, rfl⟩, whole⟩

theorem Reads.trans {state between after : ParseState} {u v : List Word}
    (first : state.Reads between u) (second : between.Reads after v) : state.Reads after (u ++ v) := by
  obtain ⟨read, split, rfl⟩ := first.split
  obtain ⟨more, again, rfl⟩ := second.split
  exact ⟨⟨read ++ more, by rw [split, again, List.append_assoc], List.map_append⟩, second.whole⟩

theorem Reads.length {state after : ParseState} {words : List Word} (reads : state.Reads after words) :
    state.tokens.length = words.length + after.tokens.length := by
  obtain ⟨read, split, rfl⟩ := reads.split
  rw [split, List.length_append, List.length_map]

/-- Only the tokens matter. -/
theorem Reads.same {state after other : ParseState} {words : List Word}
    (reads : state.Reads after words) (same : other.tokens = after.tokens) :
    state.Reads other words :=
  ⟨same ▸ reads.split, same ▸ reads.whole⟩

section
variable {state : ParseState} (whole : Tokens.Whole state.tokens)
include whole

/-- What comes next in a state that is not at the end. -/
theorem cons_of_whole (more : state.head.kind ≠ .eof) :
    ∃ next rest, state.tokens = state.head :: next :: rest ∧ Tokens.Whole (next :: rest) := by
  obtain ⟨body, last, same, ended, inside⟩ := whole.ends
  cases body with
  | nil =>
    rw [ParseState.head, same] at more
    exact absurd ended more
  | cons token body =>
    have here : state.head = token := by rw [ParseState.head, same]; rfl
    have faithful := whole.faithful
    rw [same] at faithful
    have rest : ∃ next rest, body ++ [last] = next :: rest := List.ne_nil_iff_exists_cons.mp (by simp)
    obtain ⟨next, rest, tail⟩ := rest
    refine ⟨next, rest, by rw [same, here, List.cons_append, tail], ?_, body, last, tail.symm, ended, ?_⟩
    · intro other member
      rw [← tail] at member
      exact faithful other (List.mem_cons_of_mem _ member)
    · exact fun other member => inside other (List.mem_cons_of_mem _ member)

theorem reads_advance (more : state.head.kind ≠ .eof) : state.Reads state.advance [state.head.word] := by
  obtain ⟨next, rest, here, ahead⟩ := cons_of_whole whole more
  have after : state.advance.tokens = next :: rest := by rw [ParseState.advance, here]
  exact ⟨⟨[state.head], by rw [after, here]; rfl, rfl⟩, after ▸ ahead⟩

/-- At the end nothing but the end token is left. -/
theorem singleton_of_whole (ended : state.head.kind = .eof) :
    ∃ last, state.tokens = [last] ∧ last.kind = .eof := by
  obtain ⟨body, last, same, kind, inside⟩ := whole.ends
  cases body with
  | nil => exact ⟨last, same, kind⟩
  | cons token body =>
    rw [ParseState.head, same] at ended
    exact absurd ended (inside token List.mem_cons_self)

theorem faithful_head : state.head.Faithful := by
  obtain ⟨body, last, same, -⟩ := whole.ends
  have member : state.head ∈ state.tokens := by
    rw [ParseState.head, same]
    cases body <;> simp
  exact whole.faithful _ member

/-- A keyword or an operator that comes next is taken as its word. -/
theorem reads_fixed {kind : TokenKind} (here : state.head.kind = kind)
    (fixed : kind.tokenClass = .keyword ∨ kind.tokenClass = .operator) :
    state.Reads state.advance [kind.word] := by
  have more : state.head.kind ≠ .eof := by
    rw [here]
    rintro rfl
    simp [TokenKind.tokenClass] at fixed
  have word : state.head.word = kind.word := by
    rw [Token.word, TokenKind.word, (faithful_head whole).fixed (here ▸ fixed), here]
  exact word ▸ reads_advance whole more

end

theorem isEnough_same {state after : ParseState} (grown : state.Grown after)
    (errors : after.errors = state.errors) : after.isEnough = state.isEnough := by
  rw [ParseState.isEnough, ParseState.isEnough, errors, grown.limit]

end ParseState

namespace Parser

variable {α β : Type}

/-- Either an error is counted, or there is a result as said. -/
def Sure (p : Parser α) (state : ParseState) (good : α → ParseState → Prop) : Prop :=
  state.errors < (p.run.run state).2.errors ∨ (p.run.run state).2.errors = state.errors ∧
    ∃ value, (p.run.run state).1 = some value ∧ good value (p.run.run state).2

variable {state : ParseState} {good : α → ParseState → Prop} {better : β → ParseState → Prop}

theorem sure_pure {value : α} (holds : good value state) : Sure (pure value) state good :=
  .inr ⟨rfl, value, rfl, holds⟩

/-- An error once counted stays counted, so only clean runs matter. -/
theorem Sure.bind {p : Parser α} {next : α → Parser β} [moves : Grows p.run]
    [goes : ∀ value, Grows (next value).run] (first : Sure p state good)
    (rest : ∀ value after, state.Grown after → after.errors = state.errors → good value after →
      Sure (next value) after better) : Sure (p >>= next) state better := by
  have grown := moves.grown state
  unfold Sure at first ⊢
  rw [run_bind]
  rcases ran : p.run.run state with ⟨_ | value, after⟩ <;> rw [ran] at first grown
  · exact .inl (first.resolve_right fun ⟨_, value, wrong, _⟩ => by cases wrong)
  · rcases first with dirty | ⟨clean, _, ⟨⟩, holds⟩
    · exact .inl (Nat.lt_of_lt_of_le dirty ((goes value).grown after).errors)
    · rcases rest value after grown clean holds with dirty | ⟨errors, holds⟩
      · exact .inl (clean ▸ dirty)
      · exact .inr ⟨errors.trans clean, holds⟩

theorem Sure.mono {p : Parser α} {worse : α → ParseState → Prop} (sure : Sure p state good)
    (weaker : ∀ value after, good value after → worse value after) : Sure p state worse :=
  sure.imp_right fun ⟨errors, value, ran, holds⟩ => ⟨errors, value, ran, weaker value _ holds⟩

theorem Sure.peek {next : Token → Parser β} (rest : Sure (next state.head) state better) :
    Sure (peek >>= next) state better := rest

theorem Sure.atKind {kind : TokenKind} {next : Bool → Parser β}
    (rest : Sure (next (state.at? kind)) state better) : Sure (atKind kind >>= next) state better :=
  rest

theorem errors_advance (state : ParseState) : state.advance.errors = state.errors := by
  unfold ParseState.advance
  split <;> rfl

theorem sure_advance : Sure advance state (fun token after => token = state.head ∧
    after = state.advance) :=
  .inr ⟨errors_advance state, _, rfl, rfl, rfl⟩

theorem Sure.advance {next : Token → Parser β}
    (rest : Sure (next state.head) state.advance better) : Sure (advance >>= next) state better := by
  unfold Sure at rest ⊢
  rwa [errors_advance] at rest

theorem sure_fail (code : Code) (message : Bytes) : Sure (fail code message) state good := by
  refine .inl ?_
  change state.errors < (state.report code state.errorSpan message).errors
  rw [ParseState.errors_report]
  omega

theorem sure_countError : Sure (do modify ParseState.countError; failure) state good :=
  .inl (Nat.lt_succ_self state.errors)

theorem sure_ite {condition : Prop} [Decidable condition] {yes no : Parser α}
    (whenYes : condition → Sure yes state good) (whenNo : ¬ condition → Sure no state good) :
    Sure (if condition then yes else no) state good := by
  split
  next holds => exact whenYes holds
  next fails => exact whenNo fails

/-- An expected token that is there is taken. -/
theorem sure_expect (kind : TokenKind) (code : Code) [code.IsComplaint] (message : Bytes) :
    Sure (expect kind code message) state (fun token after => token = state.head ∧
      state.head.kind = kind ∧ after = state.advance) := by
  refine Sure.atKind ?_
  refine sure_ite (fun there => ?_) fun _ => ?_
  · exact sure_advance.mono fun token after ⟨taken, moved⟩ =>
      ⟨taken, by simpa [ParseState.at?] using there, moved⟩
  · exact Sure.atKind (sure_ite (fun _ => sure_countError) fun _ => sure_fail code message)

theorem sure_newExpr (node : Site → Expr) (span : Span) :
    Sure (newExpr node span) state (fun e after => (∃ site, e = node site) ∧
      after.tokens = state.tokens) :=
  .inr ⟨rfl, _, rfl, ⟨_, rfl⟩, rfl⟩

theorem sure_newStmt (node : Site → Stmt) (span : Span) :
    Sure (newStmt node span) state (fun s after => (∃ site, s = node site) ∧
      after.tokens = state.tokens) :=
  .inr ⟨rfl, _, rfl, ⟨_, rfl⟩, rfl⟩

/-- What the table of binary operators says. -/
theorem binaryRule?_eq_some {kind : TokenKind} {rule : BinaryRule}
    (found : binaryRule? kind = some rule) :
    kind.tokenClass = .operator ∧ rule.form.token rule.op = kind ∧
      rule.form.precedence rule.op = rule.precedence ∧ rule.precedence ≤ 6 := by
  cases kind <;> simp only [binaryRule?, Option.some.injEq, reduceCtorEq] at found <;> subst found <;>
    exact ⟨rfl, rfl, rfl, by decide⟩

theorem unaryOp?_eq_some {kind : TokenKind} {op : Op} (found : unaryOp? kind = some op) :
    kind.tokenClass = .operator ∧ op.sign = kind := by
  cases kind <;> simp only [unaryOp?, Option.some.injEq, reduceCtorEq] at found <;> subst found <;>
    exact ⟨rfl, rfl⟩

/-- No operator of the given precedence or a higher one comes next. -/
def Stops (state : ParseState) (minimum : Nat) : Prop :=
  ∀ rule, binaryRule? state.head.kind = some rule → rule.precedence < minimum

/-- An expression was read that holds at least as tight as asked for. -/
structure ReadsExpr (minimum : Nat) (state : ParseState) (e : Expr) (after : ParseState) : Prop where
  reads : state.Reads after e.words
  shaped : e.Shaped
  level : minimum ≤ e.level
  stops : Stops after minimum

/-- A unary or primary expression was read. -/
structure ReadsOperand (state : ParseState) (e : Expr) (after : ParseState) : Prop where
  reads : state.Reads after e.words
  shaped : e.Shaped
  level : e.level = 7

/-- What each of the expression parsers reads, with fuel for the tokens that are left. -/
structure ExprsSure (fuel : Nat) : Prop where
  binary : ∀ minimum state, minimum ≤ 7 → Tokens.Whole state.tokens →
    3 * state.tokens.length + 3 ≤ fuel → Sure (binary fuel minimum) state (ReadsExpr minimum state)
  operands : ∀ minimum left start state, start.Reads state left.words → left.Shaped →
    minimum ≤ left.level → Stops state (left.level + 1) → 3 * state.tokens.length + 1 ≤ fuel →
    Sure (operands fuel minimum left) state (ReadsExpr minimum start)
  unary : ∀ state, Tokens.Whole state.tokens → 3 * state.tokens.length + 2 ≤ fuel →
    Sure (unary fuel) state (ReadsOperand state)
  primary : ∀ state, Tokens.Whole state.tokens → 3 * state.tokens.length + 1 ≤ fuel →
    Sure (primary fuel) state (ReadsOperand state)

private theorem operands_sure {fuel : Nat} (less : ExprsSure fuel) {minimum : Nat} {left : Expr}
    {start state : ParseState} (reads : start.Reads state left.words) (shaped : left.Shaped)
    (low : minimum ≤ left.level) (next : Stops state (left.level + 1))
    (enough : 3 * state.tokens.length + 1 ≤ fuel + 1) :
    Sure (operands (fuel + 1) minimum left) state (ReadsExpr minimum start) := by
  rw [operands]
  refine Sure.peek ?_
  cases found : binaryRule? state.head.kind with
  | none => exact sure_pure ⟨reads, shaped, low, fun rule here => by rw [found] at here; cases here⟩
  | some rule =>
    refine sure_ite (fun weak => ?_) fun strong => ?_
    · refine sure_pure ⟨reads, shaped, low, fun other here => ?_⟩
      rw [found] at here
      cases here
      exact weak
    · obtain ⟨operator, spelled, precedence, bound⟩ := binaryRule?_eq_some found
      have passed := ParseState.reads_fixed reads.whole rfl (.inr operator)
      have size := passed.length
      rw [List.length_singleton] at size
      refine Sure.advance ?_
      refine (less.binary (rule.precedence + 1) _ (by omega) passed.whole (by omega)).bind
        fun right last _ _ right' => ?_
      have joined := (reads.trans passed).trans right'.reads
      refine (sure_newExpr _ _).bind ?_
      rintro node final _ _ ⟨⟨site, made⟩, kept⟩
      subst made
      have words : left.words ++ [state.head.kind.word] ++ right.words =
          (Expr.binary site rule.form rule.op left right).words := by
        rw [Expr.words, spelled, List.append_assoc]
        rfl
      have shorter := right'.reads.length
      refine less.operands minimum _ start final ((words ▸ joined).same kept) ?_ ?_ ?_ ?_
      · exact ⟨by have := next rule found; omega, by have := right'.level; omega, shaped, right'.shaped⟩
      · rw [Expr.level]; omega
      · intro other here
        rw [Expr.level, precedence]
        exact right'.stops other (by rwa [ParseState.head, kept] at here)
      · rw [kept]; omega

private theorem unary_sure {fuel : Nat} (less : ExprsSure fuel) {state : ParseState}
    (whole : Tokens.Whole state.tokens) (enough : 3 * state.tokens.length + 2 ≤ fuel + 1) :
    Sure (unary (fuel + 1)) state (ReadsOperand state) := by
  rw [unary]
  refine Sure.peek ?_
  cases found : unaryOp? state.head.kind with
  | none => exact less.primary state whole (by omega)
  | some op =>
    obtain ⟨operator, spelled⟩ := unaryOp?_eq_some found
    have passed := ParseState.reads_fixed whole rfl (.inr operator)
    have size := passed.length
    rw [List.length_singleton] at size
    refine Sure.advance ?_
    refine (less.unary _ passed.whole (by omega)).bind fun operand last _ _ read => ?_
    refine (sure_newExpr _ _).mono ?_
    rintro node final ⟨⟨site, made⟩, kept⟩
    subst made
    have joined := passed.trans read.reads
    rw [← spelled] at joined
    exact ⟨joined.same kept, ⟨read.level, read.shaped⟩, rfl⟩

theorem literal_read {token : Token} (faithful : token.Faithful) (literal : token.kind = .intLit) :
    Text.int32? token.text = .ok (Int32.ofNat (Bytes.digitsValue token.text)) := by
  obtain ⟨some_, digits, small⟩ := faithful.literal literal
  exact Text.int32?_digits some_ digits small

/-- The value of a literal is what its digits say. -/
theorem literal_value {token : Token} (faithful : token.Faithful) (literal : token.kind = .intLit) :
    (literalValue token.text).toInt = Bytes.digitsValue token.text := by
  have small := (faithful.literal literal).2.2
  rw [Lexeme.maxLiteral] at small
  rw [literalValue, literal_read faithful literal]
  exact Int32.toInt_ofNat_of_lt (by omega)

/-- The lexer lets no literal pass that is no number. -/
theorem checkLiteral_eq {token : Token} (faithful : token.Faithful)
    (literal : token.kind = .intLit) : checkLiteral token = pure ⟨⟩ := by
  rw [checkLiteral, literal_read faithful literal]

private theorem primary_sure {fuel : Nat} (less : ExprsSure fuel) {state : ParseState}
    (whole : Tokens.Whole state.tokens) (enough : 3 * state.tokens.length + 1 ≤ fuel + 1) :
    Sure (primary (fuel + 1)) state (ReadsOperand state) := by
  have faithful := ParseState.faithful_head whole
  rw [primary]
  refine Sure.peek ?_
  split
  next literal =>
    rw [checkLiteral_eq faithful literal, pure_bind]
    refine Sure.advance ((sure_newExpr _ _).mono ?_)
    rintro node final ⟨⟨site, made⟩, kept⟩
    subst made
    have passed := ParseState.reads_advance whole (by rw [literal]; decide)
    rw [Token.word, literal] at passed
    exact ⟨passed.same kept, literal_value faithful literal, rfl⟩
  next ident =>
    refine Sure.advance ((sure_newExpr _ _).mono ?_)
    rintro node final ⟨⟨site, made⟩, kept⟩
    subst made
    have passed := ParseState.reads_advance whole (by rw [ident]; decide)
    rw [Token.word, ident] at passed
    exact ⟨passed.same kept, trivial, rfl⟩
  next keyword =>
    refine Sure.advance ((sure_newExpr _ _).mono ?_)
    rintro node final ⟨⟨site, made⟩, kept⟩
    subst made
    exact ⟨(ParseState.reads_fixed whole keyword (by decide)).same kept, trivial, rfl⟩
  next opened =>
    have passed := ParseState.reads_fixed whole opened (by decide)
    have size := passed.length
    rw [List.length_singleton] at size
    refine Sure.advance ?_
    refine (less.binary 1 _ (by omega) passed.whole (by omega)).bind fun inner last _ _ read => ?_
    refine (sure_expect _ _ _).bind ?_
    rintro _ after _ _ ⟨_, closed, moved⟩
    subst moved
    have closing := ParseState.reads_fixed read.reads.whole closed (by decide)
    refine (sure_newExpr _ _).mono ?_
    rintro node final ⟨⟨site, made⟩, kept⟩
    subst made
    exact ⟨((passed.trans read.reads).trans closing).same kept, read.shaped, rfl⟩
  next => exact Sure.advance sure_countError
  next => exact sure_fail _ _

theorem exprs_sure (fuel : Nat) : ExprsSure fuel := by
  induction fuel with
  | zero => constructor <;> intros <;> omega
  | succ fuel less =>
    refine ⟨fun minimum state small whole enough => ?_,
      fun minimum left start state reads shaped low next enough =>
        operands_sure less reads shaped low next enough,
      fun state whole enough => unary_sure less whole enough,
      fun state whole enough => primary_sure less whole enough⟩
    rw [binary]
    refine (less.unary state whole (by omega)).bind fun left after _ _ read => ?_
    have size := read.reads.length
    refine less.operands minimum left state after read.reads read.shaped (by rw [read.level]; omega)
      (fun rule found => ?_) (by omega)
    have bound := (binaryRule?_eq_some found).2.2.2
    rw [read.level]
    omega

theorem sure_expression {fuel : Nat} {state : ParseState} (whole : Tokens.Whole state.tokens)
    (enough : 3 * state.tokens.length + 3 ≤ fuel) :
    Sure (expression fuel) state (ReadsExpr 1 state) :=
  (exprs_sure fuel).binary 1 state (by decide) whole enough

/-- Either an error is counted, or the result is as said; here there always is one. -/
def SureList (step : StateM ParseState α) (state : ParseState) (good : α → ParseState → Prop) :
    Prop :=
  state.errors < (step.run state).2.errors ∨ (step.run state).2.errors = state.errors ∧
    good (step.run state).1 (step.run state).2

theorem sure_lift {step : StateM ParseState α} (sure : SureList step state good) :
    Sure (step : Parser α) state good :=
  sure.imp_right fun ⟨errors, holds⟩ => ⟨errors, _, rfl, holds⟩

theorem SureList.get {next : ParseState → StateM ParseState α}
    (rest : SureList (next state) state good) : SureList (get >>= next) state good := rest

theorem sureList_ite {condition : Prop} [Decidable condition] {yes no : StateM ParseState α}
    (whenYes : condition → SureList yes state good) (whenNo : ¬ condition → SureList no state good) :
    SureList (if condition then yes else no) state good := by
  split
  next holds => exact whenYes holds
  next fails => exact whenNo fails

/-- A statement was read. -/
def ReadsStmt (state : ParseState) (s : Stmt) (after : ParseState) : Prop :=
  s.Shaped ∧ ∃ words, s.Spells words ∧ state.Reads after words

/-- A conditional was read. -/
def ReadsConditional (state : ParseState) (s : Stmt) (after : ParseState) : Prop :=
  s.isConditional = true ∧ ReadsStmt state s after

/-- Statements in braces were read. -/
def ReadsBlock (state : ParseState) (result : List Stmt × Span) (after : ParseState) : Prop :=
  Stmt.AllShaped result.1 ∧ ∃ words, Stmt.SpellAll result.1 words ∧
    state.Reads after (Stmt.braced words)

/-- Statements were read and put behind those already there; what is next ends them. -/
def ReadsBody (terminator : TokenKind) (done : List Stmt) (state : ParseState) (result : List Stmt)
    (after : ParseState) : Prop :=
  (after.head.kind = terminator ∨ after.head.kind = .eof) ∧ ∃ body, result = done.reverse ++ body ∧
    Stmt.AllShaped body ∧ ∃ words, Stmt.SpellAll body words ∧ state.Reads after words

/-- What each of the statement parsers reads, with fuel for the tokens that are left. -/
structure StmtsSure (fuel : Nat) : Prop where
  statements : ∀ terminator done state, Tokens.Whole state.tokens → state.isEnough = false →
    4 * state.tokens.length + 4 ≤ fuel →
    SureList (statements fuel terminator done) state (ReadsBody terminator done state)
  statement : ∀ state, Tokens.Whole state.tokens → state.isEnough = false →
    4 * state.tokens.length + 3 ≤ fuel → Sure (statement fuel) state (ReadsStmt state)
  block : ∀ owner state, Tokens.Whole state.tokens → state.isEnough = false →
    4 * state.tokens.length + 1 ≤ fuel → Sure (block fuel owner) state (ReadsBlock state)
  conditional : ∀ state, Tokens.Whole state.tokens → state.isEnough = false →
    state.head.kind = .kwIf → 4 * state.tokens.length + 2 ≤ fuel →
    Sure (conditional fuel) state (ReadsConditional state)
  whileLoop : ∀ state, Tokens.Whole state.tokens → state.isEnough = false →
    state.head.kind = .kwWhile → 4 * state.tokens.length + 2 ≤ fuel →
    Sure (whileLoop fuel) state (ReadsStmt state)
  forLoop : ∀ state, Tokens.Whole state.tokens → state.isEnough = false →
    state.head.kind = .kwFor → 4 * state.tokens.length + 2 ≤ fuel →
    Sure (forLoop fuel) state (ReadsStmt state)

theorem sure_semicolon {state : ParseState} (whole : Tokens.Whole state.tokens) :
    Sure semicolon state (fun _ after => state.Reads after [TokenKind.semicolon.word]) := by
  unfold semicolon
  refine Sure.peek ((sure_expect _ _ _).mono fun _ after ⟨_, here, moved⟩ => ?_)
  exact moved ▸ ParseState.reads_fixed whole here (by decide)

private theorem reads_ident {state : ParseState} (whole : Tokens.Whole state.tokens)
    (ident : state.head.kind = .ident) :
    state.Reads state.advance [⟨.ident, state.head.text⟩] := by
  have passed := ParseState.reads_advance whole (by rw [ident]; decide)
  rwa [Token.word, ident] at passed

private theorem assign_sure {fuel : Nat} {state : ParseState} (whole : Tokens.Whole state.tokens)
    (ident : state.head.kind = .ident) (enough : 3 * state.tokens.length + 3 ≤ fuel) :
    Sure (assign fuel) state (ReadsStmt state) := by
  have name := reads_ident whole ident
  have size := name.length
  rw [List.length_singleton] at size
  unfold assign
  refine Sure.advance ((sure_expect _ _ _).bind fun _ between _ _ ⟨_, equals, moved⟩ => ?_)
  subst moved
  have assigned := ParseState.reads_fixed name.whole equals (by decide)
  have shorter := assigned.length
  refine (sure_expression assigned.whole (by omega)).bind fun value after _ _ read => ?_
  refine (sure_semicolon read.reads.whole).bind fun _ last _ _ ended => ?_
  refine (sure_newStmt _ _).mono fun s final ⟨⟨site, made⟩, kept⟩ => ?_
  subst made
  exact ⟨read.shaped, _, .assign .., ((name.trans assigned).trans (read.reads.trans ended)).same kept⟩

private theorem read_sure {state : ParseState} (whole : Tokens.Whole state.tokens)
    (keyword : state.head.kind = .kwRead) : Sure read state (ReadsStmt state) := by
  have started := ParseState.reads_fixed whole keyword (by decide)
  unfold read
  refine Sure.advance ((sure_expect _ _ _).bind fun _ between _ _ ⟨taken, ident, moved⟩ => ?_)
  subst moved taken
  have name := reads_ident started.whole ident
  refine (sure_semicolon name.whole).bind fun _ last _ _ ended => ?_
  refine (sure_newStmt _ _).mono fun s final ⟨⟨site, made⟩, kept⟩ => ?_
  subst made
  exact ⟨trivial, _, .read .., ((started.trans name).trans ended).same kept⟩

private theorem print_sure {fuel : Nat} {state : ParseState} (whole : Tokens.Whole state.tokens)
    (keyword : state.head.kind = .kwPrint) (enough : 3 * state.tokens.length + 3 ≤ fuel) :
    Sure (print fuel) state (ReadsStmt state) := by
  have started := ParseState.reads_fixed whole keyword (by decide)
  have size := started.length
  unfold print
  refine Sure.advance ((sure_expression started.whole (by omega)).bind fun value after _ _ read => ?_)
  refine (sure_semicolon read.reads.whole).bind fun _ last _ _ ended => ?_
  refine (sure_newStmt _ _).mono fun s final ⟨⟨site, made⟩, kept⟩ => ?_
  subst made
  exact ⟨read.shaped, _, .print .., (started.trans (read.reads.trans ended)).same kept⟩

private theorem block_sure {fuel : Nat} (less : StmtsSure fuel) (owner : Bytes) {state : ParseState}
    (whole : Tokens.Whole state.tokens) (goes : state.isEnough = false)
    (enough : 4 * state.tokens.length + 1 ≤ fuel + 1) :
    Sure (block (fuel + 1) owner) state (ReadsBlock state) := by
  rw [block]
  refine (sure_expect _ _ _).bind ?_
  rintro _ inside grown clean ⟨_, opened, moved⟩
  subst moved
  have opening := ParseState.reads_fixed whole opened (by decide)
  have size := opening.length
  rw [List.length_singleton] at size
  have listed := less.statements .rBrace [] _ opening.whole
    (ParseState.isEnough_same grown clean ▸ goes) (by omega)
  refine (sure_lift listed).bind ?_
  rintro body after _ _ ⟨_, all, made, shaped, words, spelled, read⟩
  refine (sure_expect _ _ _).bind ?_
  rintro _ last _ _ ⟨_, closed, moved⟩
  subst moved
  have closing := ParseState.reads_fixed read.whole closed (by decide)
  obtain rfl : body = all := made
  exact sure_pure ⟨shaped, words, spelled, (opening.trans read).trans closing⟩

private theorem whileLoop_sure {fuel : Nat} (less : StmtsSure fuel) {state : ParseState}
    (whole : Tokens.Whole state.tokens) (goes : state.isEnough = false)
    (keyword : state.head.kind = .kwWhile) (enough : 4 * state.tokens.length + 2 ≤ fuel + 1) :
    Sure (whileLoop (fuel + 1)) state (ReadsStmt state) := by
  have started := ParseState.reads_fixed whole keyword (by decide)
  have size := started.length
  rw [List.length_singleton] at size
  have still := ParseState.isEnough_same state.grown_advance (errors_advance state)
  rw [whileLoop]
  refine Sure.advance ?_
  refine (sure_expression started.whole (by omega)).bind fun cond after grown clean read => ?_
  have shorter := read.reads.length
  have still' := ParseState.isEnough_same grown clean
  change Sure (block fuel _ >>= fun result =>
    newStmt (.whileLoop · cond result.1) (state.head.span.cover result.2)) after _
  refine (less.block _ after read.reads.whole (by rw [still', still, goes]) (by omega)).bind ?_
  rintro result last _ _ ⟨shaped, words, spelled, inside⟩
  refine (sure_newStmt _ _).mono ?_
  rintro s final ⟨⟨site, made⟩, kept⟩
  subst made
  exact ⟨⟨read.shaped, shaped⟩, _, .whileLoop site cond spelled,
    (started.trans (read.reads.trans inside)).same kept⟩

private theorem conditional_sure {fuel : Nat} (less : StmtsSure fuel) {state : ParseState}
    (whole : Tokens.Whole state.tokens) (goes : state.isEnough = false)
    (keyword : state.head.kind = .kwIf) (enough : 4 * state.tokens.length + 2 ≤ fuel + 1) :
    Sure (conditional (fuel + 1)) state (ReadsConditional state) := by
  have started := ParseState.reads_fixed whole keyword (by decide)
  have size := started.length
  rw [List.length_singleton] at size
  have still := ParseState.isEnough_same state.grown_advance (errors_advance state)
  rw [conditional]
  refine Sure.advance ?_
  refine (sure_expression started.whole (by omega)).bind fun cond after grown clean read => ?_
  have shorter := read.reads.length
  have still' := ParseState.isEnough_same grown clean
  change Sure (block fuel _ >>= fun first => atKind .kwElse >>= fun other =>
    if !other then
      newStmt (.ifElse · cond first.1 [] false) (state.head.span.cover first.2)
    else advance >>= fun _ => atKind .kwIf >>= fun again =>
      if again then conditional fuel >>= fun nested =>
        newStmt (.ifElse · cond first.1 [nested] true)
          ((state.head.span.cover first.2).cover nested.span)
      else block fuel _ >>= fun second =>
        newStmt (.ifElse · cond first.1 second.1 true)
          ((state.head.span.cover first.2).cover second.2)) after _
  refine (less.block _ after read.reads.whole (by rw [still', still, goes]) (by omega)).bind ?_
  rintro first behind grown clean ⟨shaped, words, spelled, inside⟩
  have head := started.trans (read.reads.trans inside)
  have taken := inside.length
  refine Sure.atKind (sure_ite (fun _ => ?_) fun there => ?_)
  · refine (sure_newStmt _ _).mono ?_
    rintro s final ⟨⟨site, made⟩, kept⟩
    subst made
    exact ⟨rfl, ⟨read.shaped, shaped, trivial⟩, _, .ifOnly site cond spelled, head.same kept⟩
  have otherwise : behind.head.kind = .kwElse := by simpa [ParseState.at?] using there
  have passed := ParseState.reads_fixed head.whole otherwise (by decide)
  have shrinks := passed.length
  have goes' : behind.advance.isEnough = false := by
    rw [ParseState.isEnough_same behind.grown_advance (errors_advance behind),
      ParseState.isEnough_same grown clean, still', still, goes]
  refine Sure.advance (Sure.atKind (sure_ite (fun again => ?_) fun _ => ?_))
  · have nestedIf : behind.advance.head.kind = .kwIf := by simpa [ParseState.at?] using again
    refine (less.conditional _ passed.whole goes' nestedIf (by omega)).bind ?_
    rintro nested last _ _ ⟨choice, fine, others, spells, more⟩
    refine (sure_newStmt _ _).mono ?_
    rintro s final ⟨⟨site, made⟩, kept⟩
    subst made
    refine ⟨rfl, ⟨read.shaped, shaped, fine, trivial⟩, _, .elseIf site cond spelled choice spells, ?_⟩
    exact (head.trans (passed.trans more)).same kept
  · refine (less.block _ _ passed.whole goes' (by omega)).bind ?_
    rintro second last _ _ ⟨fine, others, spells, more⟩
    refine (sure_newStmt _ _).mono ?_
    rintro s final ⟨⟨site, made⟩, kept⟩
    subst made
    refine ⟨rfl, ⟨read.shaped, shaped, fine⟩, _, .ifElse site cond spelled spells, ?_⟩
    exact (head.trans (passed.trans more)).same kept

/-- The part of a counting loop behind its header. -/
def forBody (fuel : Nat) (keyword name : Token) (start stop step : Expr) : Parser Stmt :=
  block fuel "for header" >>= fun result =>
    newStmt (.forLoop · name.text name.span start stop step result.1) (keyword.span.cover result.2)

instance (fuel : Nat) (keyword name : Token) (start stop step : Expr) :
    Grows (forBody fuel keyword name start stop step).run := by
  unfold forBody
  infer_instance

/-- The part of a counting loop behind its start. -/
def forLimit (fuel : Nat) (keyword name : Token) (start : Expr) : Parser Stmt := do
  let token ← peek
  let _ ← expect .kwTo .forMissingTo ("expected 'to' in for loop, got " ++ token.describe)
  let stop ← expression fuel
  if ← atKind .kwStep then
    let _ ← advance
    let step ← expression fuel
    forBody fuel keyword name start stop step
  else
    forBody fuel keyword name start stop .absent

instance (fuel : Nat) (keyword name : Token) (start : Expr) :
    Grows (forLimit fuel keyword name start).run := by
  unfold forLimit
  infer_instance

theorem forLoop_eq (fuel : Nat) : forLoop (fuel + 1) = (do
    let keyword ← advance
    let name ← expect .ident .expectIdentifier "expected loop variable after 'for'"
    let _ ← expect .assign .expectAssign "expected '=' after loop variable"
    let start ← expression fuel
    forLimit fuel keyword name start) := by
  rw [forLoop]
  rfl

section
variable {fuel : Nat} (less : StmtsSure fuel) {state : ParseState}
  (enough : 4 * state.tokens.length + 2 ≤ fuel + 1)
include less enough

private theorem forBody_sure {name : Token} {start stop step : Expr} {after : ParseState}
    (read : state.Reads after (TokenKind.kwFor.word :: ⟨.ident, name.text⟩ ::
      TokenKind.assign.word :: start.words ++ TokenKind.kwTo.word :: stop.words ++
      (if step.isAbsent then [] else TokenKind.kwStep.word :: step.words)))
    (goes : after.isEnough = false) (first : start.Shaped) (last : stop.Shaped)
    (fits : step.isAbsent = false → step.Shaped) :
    Sure (forBody fuel state.head name start stop step) after (ReadsStmt state) := by
  have shorter := read.length
  simp only [List.length_append, List.length_cons] at shorter
  refine (less.block _ after read.whole goes (by omega)).bind
    fun result behind _ _ ⟨shaped, inner, spells, inside⟩ => ?_
  refine (sure_newStmt _ _).mono fun s final ⟨⟨site, made⟩, kept⟩ => ?_
  subst made
  exact ⟨⟨first, last, fits, shaped⟩, _, .forLoop site name.text name.span start stop step spells,
    (read.trans inside).same kept⟩

private theorem forLimit_sure {name : Token} {start : Expr} {after : ParseState}
    (head : state.Reads after (TokenKind.kwFor.word :: ⟨.ident, name.text⟩ ::
      TokenKind.assign.word :: start.words))
    (goes : after.isEnough = false) (first : start.Shaped) :
    Sure (forLimit fuel state.head name start) after (ReadsStmt state) := by
  have size := head.length
  simp only [List.length_cons] at size
  unfold forLimit
  refine Sure.peek ((sure_expect _ _ _).bind fun _ upTo grown₁ clean₁ ⟨_, limit, moved⟩ => ?_)
  subst moved
  have limited := ParseState.reads_fixed head.whole limit (by decide)
  have size₁ := limited.length
  refine (sure_expression limited.whole (by omega)).bind fun stop last grown₂ clean₂ read => ?_
  have size₂ := read.reads.length
  have header := head.trans (limited.trans read.reads)
  have goes₂ : last.isEnough = false := by
    rw [ParseState.isEnough_same grown₂ clean₂, ParseState.isEnough_same grown₁ clean₁, goes]
  refine Sure.atKind (sure_ite (fun there => ?_) fun _ => ?_)
  · have stepped : last.head.kind = .kwStep := by simpa [ParseState.at?] using there
    have passed := ParseState.reads_fixed header.whole stepped (by decide)
    have size₃ := passed.length
    have goes₃ := ParseState.isEnough_same last.grown_advance (errors_advance last)
    refine Sure.advance ?_
    refine (sure_expression passed.whole (by omega)).bind fun step final grown₃ clean₃ read' => ?_
    have written : step.isAbsent = false := by
      cases step with
      | absent => exact absurd read'.shaped id
      | hollow | unknown | intLit | varRef | binary | unary | paren | read => rfl
    refine forBody_sure less enough ?_ (by rw [ParseState.isEnough_same grown₃ clean₃, goes₃, goes₂])
      first read.shaped fun _ => read'.shaped
    rw [if_neg (by simp [written])]
    exact header.trans (passed.trans read'.reads)
  · refine forBody_sure less enough ?_ goes₂ first read.shaped fun wrong => by cases wrong
    rw [Expr.isAbsent, if_pos rfl, List.append_nil]
    exact header

private theorem forLoop_sure (whole : Tokens.Whole state.tokens) (goes : state.isEnough = false)
    (keyword : state.head.kind = .kwFor) : Sure (forLoop (fuel + 1)) state (ReadsStmt state) := by
  have started := ParseState.reads_fixed whole keyword (by decide)
  have size := started.length
  rw [List.length_singleton] at size
  have still := ParseState.isEnough_same state.grown_advance (errors_advance state)
  rw [forLoop_eq]
  refine Sure.advance ?_
  refine (sure_expect _ _ _).bind fun name named grown₁ clean₁ ⟨taken, ident, moved⟩ => ?_
  subst moved taken
  have counter := reads_ident started.whole ident
  have size₁ := counter.length
  refine (sure_expect _ _ _).bind fun _ between grown₂ clean₂ ⟨_, equals, moved⟩ => ?_
  subst moved
  have assigned := ParseState.reads_fixed counter.whole equals (by decide)
  have size₂ := assigned.length
  refine (sure_expression assigned.whole (by omega)).bind fun start after grown₃ clean₃ read => ?_
  refine forLimit_sure less enough (started.trans (counter.trans (assigned.trans read.reads))) ?_
    read.shaped
  rw [ParseState.isEnough_same grown₃ clean₃, ParseState.isEnough_same grown₂ clean₂,
    ParseState.isEnough_same grown₁ clean₁, still, goes]

end

private theorem statement_sure {fuel : Nat} (less : StmtsSure fuel) {state : ParseState}
    (whole : Tokens.Whole state.tokens) (goes : state.isEnough = false)
    (enough : 4 * state.tokens.length + 3 ≤ fuel + 1) :
    Sure (statement (fuel + 1)) state (ReadsStmt state) := by
  have some_ : 0 < state.tokens.length := by
    obtain ⟨body, last, same, -⟩ := whole.ends
    simp [same]
  rw [statement]
  refine Sure.peek ?_
  split
  next ident => exact assign_sure whole ident (by omega)
  next keyword => exact read_sure whole keyword
  next keyword => exact print_sure whole keyword (by omega)
  next keyword =>
    exact (less.conditional state whole goes keyword (by omega)).mono fun _ _ read => read.2
  next keyword => exact less.whileLoop state whole goes keyword (by omega)
  next keyword => exact less.forLoop state whole goes keyword (by omega)
  next => exact Sure.advance sure_countError
  next => exact sure_fail _ _

/-- No statement is without words. -/
theorem Spells.length_pos {s : Stmt} {words : List Word} (spells : s.Spells words) :
    0 < words.length := by
  cases spells <;> simp

private theorem statements_sure {fuel : Nat} (less : StmtsSure fuel) (terminator : TokenKind)
    (done : List Stmt) {state : ParseState} (whole : Tokens.Whole state.tokens)
    (goes : state.isEnough = false) (enough : 4 * state.tokens.length + 4 ≤ fuel + 1) :
    SureList (statements (fuel + 1) terminator done) state (ReadsBody terminator done state) := by
  rw [statements]
  refine SureList.get (sureList_ite (fun ended => ?_) fun _ => ?_)
  · have next : state.head.kind = terminator ∨ state.head.kind = .eof := by
      simpa [ParseState.at?] using ended
    exact .inr ⟨rfl, next, [], (List.append_nil _).symm, trivial, [], .nil, .refl whole⟩
  refine sureList_ite (fun wrong => absurd wrong (by simp [goes])) fun _ => ?_
  refine sureList_ite (fun _ => ?_) fun _ => ?_
  · -- A stray brace is an error whatever follows.
    refine .inl (Nat.lt_of_lt_of_le ?_ ((inferInstance : Grows (statements fuel terminator done)).grown
      ((state.report .unexpectedToken state.errorSpan "unexpected '\x7d'").advance)).errors)
    rw [errors_advance, ParseState.errors_report]
    omega
  have moves := (inferInstance : Grows (statement fuel).run).grown state
  have first := less.statement state whole goes (by omega)
  unfold Sure at first
  unfold SureList
  rw [StateT.run_bind]
  rcases ran : (statement fuel).run.run state with ⟨_ | s, after⟩ <;> rw [ran] at first moves
  · have dirty := first.resolve_right (by rintro ⟨_, value, wrong, _⟩; cases wrong)
    have skipped := grown_resync after.tokens.length after
    have later := (inferInstance : Grows (statements fuel terminator done)).grown
      (resync after.tokens.length after)
    exact .inl (Nat.lt_of_lt_of_le dirty (Nat.le_trans skipped.errors later.errors))
  · rcases first with dirty | ⟨clean, _, ⟨⟩, shaped, words, spells, read⟩
    · exact .inl (Nat.lt_of_lt_of_le dirty
        ((inferInstance : Grows (statements fuel terminator (s :: done))).grown after).errors)
    · have size : state.tokens.length = words.length + after.tokens.length := read.length
      have some_ := Spells.length_pos spells
      rcases less.statements terminator (s :: done) after read.whole
        (ParseState.isEnough_same moves clean ▸ goes) (by omega) with
        dirty | ⟨errors, next, body, made, fine, others, spelled, more⟩
      · exact .inl (clean ▸ dirty)
      · refine .inr ⟨errors.trans clean, next, s :: body, ?_, ⟨shaped, fine⟩, words ++ others,
          .cons spells spelled, read.trans more⟩
        exact made.trans (by simp)

private theorem stmts_sure (fuel : Nat) : StmtsSure fuel := by
  induction fuel with
  | zero => constructor <;> intros <;> omega
  | succ fuel less =>
    exact ⟨fun terminator done _ whole goes enough => statements_sure less terminator done whole goes enough,
      fun _ whole goes enough => statement_sure less whole goes enough,
      fun owner _ whole goes enough => block_sure less owner whole goes enough,
      fun _ whole goes keyword enough => conditional_sure less whole goes keyword enough,
      fun _ whole goes keyword enough => whileLoop_sure less whole goes keyword enough,
      fun _ whole goes keyword enough => forLoop_sure less enough whole goes keyword⟩

end Parser

/-- A program that was parsed without an error is read back as its tokens. -/
theorem Program.parse_spells {tokens : List Token} (whole : Tokens.Whole tokens) (maxErrors : Nat)
    (clean : (Program.parse { maxErrors } tokens).errors = 0) :
    Stmt.AllShaped (Program.parse { maxErrors } tokens).program.stmts ∧
      ∃ last : Token, last.kind = .eof ∧ ∃ body, tokens = body ++ [last] ∧
        Stmt.SpellAll (Program.parse { maxErrors } tokens).program.stmts (body.map Token.word) := by
  have goes : (ParseState.start { maxErrors } tokens).isEnough = false := by
    simp [ParseState.start, ParseState.isEnough]
  rcases (Parser.stmts_sure (8 * tokens.length + 16)).statements .eof []
    (ParseState.start { maxErrors } tokens) whole goes (by simp [ParseState.start]; omega) with
    dirty | ⟨errors, next, body, made, shaped, words, spelled, read⟩
  · exact absurd clean (Nat.ne_of_gt dirty)
  · obtain ⟨last, rest, ended⟩ := ParseState.singleton_of_whole read.whole (next.elim id id)
    obtain ⟨before, split, words_⟩ := read.split
    rw [rest] at split
    have stmts : (Program.parse { maxErrors } tokens).program.stmts = body := made
    rw [stmts]
    exact ⟨shaped, last, ended, before, split, words_ ▸ spelled⟩

end Minilang
