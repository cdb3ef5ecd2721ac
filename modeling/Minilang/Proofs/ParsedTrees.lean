import Minilang.Tree.Parse

/-! The trees that the parser builds: no node is missing or without contents, every operator fits
its node, and every name is the text of an identifier. This holds of what is kept of any token
list, also one with errors. -/

namespace Minilang

/-- The operators of a form. -/
def BinaryForm.Admits : BinaryForm → Op → Prop
  | .additive, op => op = .add ∨ op = .sub
  | .multiplicative, op => op = .mul ∨ op = .div ∨ op = .rem
  | .comparison, op => op.isComparison = true
  | .logicalAnd, _ | .logicalOr, _ => True

/-- A complete expression whose names satisfy a test. -/
def Expr.Proper (isName : Bytes → Prop) : Expr → Prop
  | .absent | .hollow .. | .unknown _ => False
  | .intLit .. | .read _ => True
  | .varRef _ name => isName name
  | .paren _ inner => inner.Proper isName
  | .unary _ op operand => (op = .plus ∨ op = .neg ∨ op = .not) ∧ operand.Proper isName
  | .binary _ form op left right => form.Admits op ∧ left.Proper isName ∧ right.Proper isName

mutual

/-- A complete statement. Only the step of a counting loop may be absent, and a conditional
without `else` has nothing to do otherwise. -/
def Stmt.Proper (isName : Bytes → Prop) : Stmt → Prop
  | .absent | .hollow .. | .unknown _ => False
  | .assign _ name _ value => isName name ∧ value.Proper isName
  | .read _ name _ => isName name
  | .print _ value => value.Proper isName
  | .ifElse _ cond thenBody elseBody hasElse => cond.Proper isName ∧
      Stmt.AllProper isName thenBody ∧ Stmt.AllProper isName elseBody ∧
      (hasElse = false → elseBody = [])
  | .whileLoop _ cond body => cond.Proper isName ∧ Stmt.AllProper isName body
  | .forLoop _ name _ start stop step body => isName name ∧ start.Proper isName ∧
      stop.Proper isName ∧ (step.isAbsent = false → step.Proper isName) ∧
      Stmt.AllProper isName body

def Stmt.AllProper (isName : Bytes → Prop) : List Stmt → Prop
  | [] => True
  | s :: rest => s.Proper isName ∧ Stmt.AllProper isName rest

end

theorem Stmt.allProper_append {isName : Bytes → Prop} (body rest : List Stmt) :
    Stmt.AllProper isName (body ++ rest) ↔ Stmt.AllProper isName body ∧ Stmt.AllProper isName rest := by
  induction body with
  | nil => simp [Stmt.AllProper]
  | cons s body ih => simp [Stmt.AllProper, ih, and_assoc]

theorem Stmt.allProper_reverse {isName : Bytes → Prop} {body : List Stmt}
    (proper : Stmt.AllProper isName body) : Stmt.AllProper isName body.reverse := by
  induction body with
  | nil => exact proper
  | cons s body ih =>
    rw [List.reverse_cons, Stmt.allProper_append]
    exact ⟨ih proper.2, proper.1, trivial⟩

/-- Whether an identifier's text satisfies a test; other tokens do not matter. -/
def Token.Named (isName : Bytes → Prop) (token : Token) : Prop :=
  token.kind = .ident → isName token.text

/-- The identifiers still to be read satisfy a test. -/
def ParseState.Named (isName : Bytes → Prop) (state : ParseState) : Prop :=
  ∀ token ∈ state.tokens, token.Named isName

theorem ParseState.Named.head {isName : Bytes → Prop} {state : ParseState} (named : state.Named isName) :
    state.head.Named isName := by
  unfold ParseState.head
  cases tokens : state.tokens with
  | nil => exact nofun
  | cons token rest => exact named token (by rw [tokens]; exact List.mem_cons_self)

theorem ParseState.Named.advance {isName : Bytes → Prop} {state : ParseState}
    (named : state.Named isName) : state.advance.Named isName := by
  unfold ParseState.advance
  split
  next token next rest tokens =>
    intro other member
    exact named other (by rw [tokens]; exact List.mem_cons_of_mem token member)
  next token tokens => exact named
  · exact named

theorem ParseState.Named.report {isName : Bytes → Prop} {state : ParseState}
    (named : state.Named isName) (code : Code) (span : Span) (message : Bytes) :
    (state.report code span message).Named isName := by
  unfold ParseState.report
  split <;> exact named

namespace Parser

variable {isName : Bytes → Prop} {α β : Type}

/-- Whatever a step returns on identifiers that satisfy the test has a property. -/
def Keeps (isName : Bytes → Prop) (m : StateM ParseState α) (good : α → Prop) : Prop :=
  ∀ state : ParseState, state.Named isName → (m.run state).2.Named isName ∧ good (m.run state).1

/-- Whatever the parser returns, if anything, has a property. -/
def Yields (isName : Bytes → Prop) (p : Parser α) (good : α → Prop) : Prop :=
  Keeps isName p.run fun result => ∀ value, result = some value → good value

theorem keeps_pure {good : α → Prop} {value : α} (holds : good value) :
    Keeps isName (pure value) good :=
  fun _ named => ⟨named, holds⟩

theorem Keeps.bind {m : StateM ParseState α} {next : α → StateM ParseState β} {good : α → Prop}
    {better : β → Prop} (first : Keeps isName m good)
    (rest : ∀ value, good value → Keeps isName (next value) better) :
    Keeps isName (m >>= next) better := by
  intro state named
  obtain ⟨kept, holds⟩ := first state named
  exact rest _ holds _ kept

theorem keeps_get : Keeps isName get (ParseState.Named isName) :=
  fun _ named => ⟨named, named⟩

theorem keeps_modify {change : ParseState → ParseState}
    (keeps : ∀ state : ParseState, state.Named isName → (change state).Named isName) :
    Keeps isName (modify change) (fun _ => True) :=
  fun state named => ⟨keeps state named, trivial⟩

theorem keeps_ite {p : Prop} [Decidable p] {yes no : StateM ParseState α} {good : α → Prop}
    (whenYes : Keeps isName yes good) (whenNo : Keeps isName no good) :
    Keeps isName (if p then yes else no) good := by
  split
  · exact whenYes
  · exact whenNo

theorem yields_pure {good : α → Prop} {value : α} (holds : good value) :
    Yields isName (Pure.pure value) good := by
  intro state named
  refine ⟨named, ?_⟩
  rintro _ ⟨⟩
  exact holds

theorem yields_lift {m : StateM ParseState α} {good : α → Prop} (keeps : Keeps isName m good) :
    Yields isName (m : Parser α) good := by
  intro state named
  obtain ⟨kept, holds⟩ := keeps state named
  refine ⟨kept, ?_⟩
  rintro _ ⟨⟩
  exact holds

theorem yields_failure {good : α → Prop} : Yields isName (failure : Parser α) good :=
  fun _ named => ⟨named, nofun⟩

theorem run_bind (p : Parser α) (next : α → Parser β) (state : ParseState) :
    (p >>= next).run.run state =
      match p.run.run state with
      | (some value, after) => (next value).run.run after
      | (none, after) => (none, after) := by
  simp only [OptionT.run_bind, Option.elimM, StateT.run_bind]
  rcases p.run.run state with ⟨_ | value, after⟩ <;> rfl

theorem Yields.bind {p : Parser α} {next : α → Parser β} {good : α → Prop} {better : β → Prop}
    (first : Yields isName p good) (rest : ∀ value, good value → Yields isName (next value) better) :
    Yields isName (p >>= next) better := by
  intro state named
  obtain ⟨kept, holds⟩ := first state named
  rw [run_bind]
  split
  next value after outcome =>
    rw [outcome] at kept holds
    exact rest value (holds value rfl) after kept
  next after outcome =>
    rw [outcome] at kept
    exact ⟨kept, nofun⟩

theorem yields_ite {p : Prop} [Decidable p] {yes no : Parser α} {good : α → Prop}
    (whenYes : Yields isName yes good) (whenNo : Yields isName no good) :
    Yields isName (if p then yes else no) good := by
  split
  · exact whenYes
  · exact whenNo

theorem yields_modify {change : ParseState → ParseState}
    (keeps : ∀ state : ParseState, state.Named isName → (change state).Named isName) :
    Yields isName (modify change : Parser PUnit) (fun _ => True) :=
  fun state named => ⟨keeps state named, fun _ _ => trivial⟩

theorem yields_peek : Yields isName peek (Token.Named isName) := by
  intro state named
  refine ⟨named, ?_⟩
  rintro _ ⟨⟩
  exact named.head

theorem yields_atKind (kind : TokenKind) : Yields isName (atKind kind) (fun _ => True) :=
  fun _ named => ⟨named, fun _ _ => trivial⟩

theorem yields_advance : Yields isName advance (Token.Named isName) :=
  yields_peek.bind fun _ named =>
    (yields_modify fun _ => ParseState.Named.advance).bind fun _ _ => yields_pure named

theorem yields_fail {good : α → Prop} (code : Code) (message : Bytes) :
    Yields isName (fail code message : Parser α) good :=
  (yields_modify fun _ named => named.report code _ message).bind fun _ _ => yields_failure

theorem yields_starve {good : α → Prop} : Yields isName (starve : Parser α) good :=
  (yields_modify fun _ => id).bind fun _ _ => yields_failure

theorem yields_checkLiteral (token : Token) : Yields isName (checkLiteral token) (fun _ => True) := by
  unfold checkLiteral
  split
  · exact yields_pure trivial
  · exact yields_modify fun _ named => named.report _ _ _

theorem yields_countError {good : α → Prop} :
    Yields isName (do modify ParseState.countError; failure : Parser α) good :=
  (yields_modify fun _ => id).bind fun _ _ => yields_failure

theorem yields_expect (kind : TokenKind) (code : Code) (message : Bytes) :
    Yields isName (expect kind code message)
      (fun token => token.kind = kind ∧ token.Named isName) := by
  intro state named
  have looked : (atKind kind).run.run state = (some (state.at? kind), state) := rfl
  rw [expect, run_bind, looked]
  -- A token that is taken is the one that was looked at.
  split
  next value after outcome =>
    cases outcome
    split
    next here =>
      refine ⟨named.advance, ?_⟩
      rintro _ ⟨⟩
      exact ⟨by simpa [ParseState.at?] using here, named.head⟩
    next =>
      exact (yields_atKind .invalid).bind
        (fun _ _ => yields_ite yields_countError (yields_fail code message)) state named
  next after outcome => cases outcome

theorem yields_newExpr {good : Expr → Prop} {node : Site → Expr} (holds : ∀ site, good (node site))
    (span : Span) : Yields isName (newExpr node span) good := by
  intro state named
  refine ⟨named, ?_⟩
  rintro _ ⟨⟩
  exact holds _

theorem yields_newStmt {good : Stmt → Prop} {node : Site → Stmt} (holds : ∀ site, good (node site))
    (span : Span) : Yields isName (newStmt node span) good := by
  intro state named
  refine ⟨named, ?_⟩
  rintro _ ⟨⟩
  exact holds _

theorem admits_of_binaryRule? {kind : TokenKind} {rule : BinaryRule}
    (found : binaryRule? kind = some rule) : rule.form.Admits rule.op := by
  cases kind <;> simp only [binaryRule?, Option.some.injEq, reduceCtorEq] at found <;> subst found <;>
    simp [BinaryForm.Admits, Op.isComparison]

theorem sign_of_unaryOp? {kind : TokenKind} {op : Op} (found : unaryOp? kind = some op) :
    op = .plus ∨ op = .neg ∨ op = .not := by
  cases kind <;> simp only [unaryOp?, Option.some.injEq, reduceCtorEq] at found <;> simp [← found]

/-- What each of the expression parsers builds with some fuel. -/
private structure ExprsProper (isName : Bytes → Prop) (fuel : Nat) : Prop where
  binary : ∀ minimum, Yields isName (binary fuel minimum) (Expr.Proper isName)
  operands : ∀ minimum left, left.Proper isName →
    Yields isName (operands fuel minimum left) (Expr.Proper isName)
  unary : Yields isName (unary fuel) (Expr.Proper isName)
  primary : Yields isName (primary fuel) (Expr.Proper isName)

private theorem operands_proper {fuel : Nat} (less : ExprsProper isName fuel) (minimum : Nat)
    {left : Expr} (proper : left.Proper isName) :
    Yields isName (operands (fuel + 1) minimum left) (Expr.Proper isName) := by
  rw [operands]
  refine yields_peek.bind fun token _ => ?_
  split
  next => exact yields_pure proper
  next rule found =>
    refine yields_ite (yields_pure proper) (yields_advance.bind fun _ _ => ?_)
    refine (less.binary _).bind fun right fits => ?_
    have whole : ∀ site, Expr.Proper isName (.binary site rule.form rule.op left right) :=
      fun _ => ⟨admits_of_binaryRule? found, proper, fits⟩
    exact (yields_newExpr whole _).bind fun node kept => less.operands minimum node kept

private theorem unary_proper {fuel : Nat} (less : ExprsProper isName fuel) :
    Yields isName (unary (fuel + 1)) (Expr.Proper isName) := by
  rw [unary]
  refine yields_peek.bind fun token _ => ?_
  split
  next => exact less.primary
  next op found =>
    refine yields_advance.bind fun sign _ => less.unary.bind fun operand proper => ?_
    exact yields_newExpr (fun _ => ⟨sign_of_unaryOp? found, proper⟩) _

private theorem primary_proper {fuel : Nat} (less : ExprsProper isName fuel) :
    Yields isName (primary (fuel + 1)) (Expr.Proper isName) := by
  rw [primary]
  refine yields_peek.bind fun token named => ?_
  split
  next =>
    exact yields_advance.bind fun _ _ => (yields_checkLiteral token).bind fun _ _ =>
      yields_newExpr (fun _ => trivial) _
  next kind => exact yields_advance.bind fun _ _ => yields_newExpr (fun _ => named kind) _
  next => exact yields_advance.bind fun _ _ => yields_newExpr (fun _ => trivial) _
  next =>
    refine yields_advance.bind fun _ _ => (less.binary 1).bind fun inner proper => ?_
    exact (yields_expect _ _ _).bind fun _ _ => yields_newExpr (fun _ => by rwa [Expr.Proper]) _
  next => exact yields_advance.bind fun _ _ => yields_countError
  next => exact yields_fail _ _

private theorem exprs_proper (fuel : Nat) : ExprsProper isName fuel := by
  induction fuel with
  | zero =>
    refine ⟨fun minimum => ?_, fun minimum left _ => ?_, ?_, ?_⟩
    · rw [binary]; exact yields_starve
    · rw [operands]; exact yields_starve
    · rw [unary]; exact yields_starve
    · rw [primary]; exact yields_starve
  | succ fuel less =>
    refine ⟨fun minimum => ?_, fun minimum left => operands_proper less minimum, unary_proper less,
      primary_proper less⟩
    rw [binary]
    exact less.unary.bind fun left proper => less.operands minimum left proper

theorem yields_expression (fuel : Nat) : Yields isName (expression fuel) (Expr.Proper isName) :=
  (exprs_proper fuel).binary 1

theorem yields_semicolon : Yields isName semicolon (fun _ => True) := by
  refine yields_peek.bind fun token _ state named => ?_
  exact ⟨(yields_expect .semicolon .expectSemicolon _ state named).1, fun _ _ => trivial⟩

private theorem assign_proper (fuel : Nat) {state : ParseState} (named : state.Named isName)
    (ident : state.head.kind = .ident) :
    ((assign fuel).run.run state).2.Named isName ∧
      ∀ s, ((assign fuel).run.run state).1 = some s → s.Proper isName := by
  have taken : Parser.advance.run.run state = (some state.head, state.advance) := rfl
  rw [assign, run_bind, taken]
  have rest : Yields isName (do
      let _ ← expect .assign .expectAssign ("expected '=' after " ++ state.head.describe)
      let value ← expression fuel
      let last ← semicolon
      newStmt (.assign · state.head.text state.head.span value)
        (state.head.span.cover last.span)) (Stmt.Proper isName) := by
    refine (yields_expect _ _ _).bind fun _ _ => (yields_expression fuel).bind fun value proper => ?_
    refine yields_semicolon.bind fun _ _ => yields_newStmt (fun _ => ?_) _
    exact ⟨named.head ident, proper⟩
  exact rest _ named.advance

private theorem read_proper : Yields isName read (Stmt.Proper isName) := by
  refine yields_advance.bind fun _ _ => (yields_expect _ _ _).bind fun name named => ?_
  exact yields_semicolon.bind fun _ _ => yields_newStmt (fun _ => named.2 named.1) _

private theorem print_proper (fuel : Nat) : Yields isName (print fuel) (Stmt.Proper isName) := by
  refine yields_advance.bind fun _ _ => (yields_expression fuel).bind fun value proper => ?_
  exact yields_semicolon.bind fun _ _ => yields_newStmt (fun _ => proper) _

theorem resync_named (fuel : Nat) {state : ParseState} (named : state.Named isName) :
    (resync fuel state).Named isName := by
  induction fuel generalizing state with
  | zero => exact named
  | succ fuel ih =>
    rw [resync]
    split
    all_goals first | exact named | exact named.advance | exact ih named.advance

/-- What each of the statement parsers builds with some fuel. -/
private structure StmtsProper (isName : Bytes → Prop) (fuel : Nat) : Prop where
  statements : ∀ terminator done, Stmt.AllProper isName done →
    Keeps isName (statements fuel terminator done) (Stmt.AllProper isName)
  statement : Yields isName (statement fuel) (Stmt.Proper isName)
  block : ∀ owner, Yields isName (block fuel owner) (fun result => Stmt.AllProper isName result.1)
  conditional : Yields isName (conditional fuel) (Stmt.Proper isName)
  whileLoop : Yields isName (whileLoop fuel) (Stmt.Proper isName)
  forLoop : Yields isName (forLoop fuel) (Stmt.Proper isName)

private theorem statements_proper {fuel : Nat} (less : StmtsProper isName fuel)
    (terminator : TokenKind) {done : List Stmt} (proper : Stmt.AllProper isName done) :
    Keeps isName (statements (fuel + 1) terminator done) (Stmt.AllProper isName) := by
  rw [statements]
  refine keeps_get.bind fun state _ => ?_
  refine keeps_ite (keeps_pure (Stmt.allProper_reverse proper)) (keeps_ite ?_ (keeps_ite ?_ ?_))
  · exact (keeps_modify fun _ => ParseState.Named.advance).bind fun _ _ =>
      less.statements _ _ proper
  · exact (keeps_modify fun _ named => (named.report _ _ _).advance).bind fun _ _ =>
      less.statements _ _ proper
  · refine Keeps.bind less.statement fun result yielded => ?_
    split
    next s => exact less.statements _ _ ⟨yielded s rfl, proper⟩
    next =>
      exact (keeps_modify fun _ => resync_named _).bind fun _ _ => less.statements _ _ proper

private theorem statement_proper {fuel : Nat} (less : StmtsProper isName fuel) :
    Yields isName (statement (fuel + 1)) (Stmt.Proper isName) := by
  intro state named
  have looked : peek.run.run state = (some state.head, state) := rfl
  rw [statement, run_bind, looked]
  simp only
  split
  next kind => exact assign_proper fuel named kind
  next => exact read_proper state named
  next => exact print_proper fuel state named
  next => exact less.conditional state named
  next => exact less.whileLoop state named
  next => exact less.forLoop state named
  next => exact (yields_advance.bind fun _ _ => yields_countError) state named
  next => exact yields_fail _ _ state named

private theorem block_proper {fuel : Nat} (less : StmtsProper isName fuel) (owner : Bytes) :
    Yields isName (block (fuel + 1) owner) (fun result => Stmt.AllProper isName result.1) := by
  rw [block]
  refine (yields_expect _ _ _).bind fun _ _ => ?_
  refine (yields_lift (less.statements .rBrace [] trivial)).bind fun body proper => ?_
  exact (yields_expect _ _ _).bind fun _ _ => yields_pure proper

private theorem conditional_proper {fuel : Nat} (less : StmtsProper isName fuel) :
    Yields isName (conditional (fuel + 1)) (Stmt.Proper isName) := by
  rw [conditional]
  refine yields_advance.bind fun _ _ => (yields_expression fuel).bind fun cond proper => ?_
  refine (less.block _).bind fun (thenBody, _) yes => (yields_atKind _).bind fun _ _ => ?_
  refine yields_ite ?_ ?_
  · exact yields_newStmt (fun _ => ⟨proper, yes, trivial, fun _ => rfl⟩) _
  · refine yields_advance.bind fun _ _ => (yields_atKind _).bind fun _ _ => ?_
    refine yields_ite ?_ ?_
    · refine less.conditional.bind fun nested no => ?_
      exact yields_newStmt (fun _ => ⟨proper, yes, ⟨no, trivial⟩, nofun⟩) _
    · refine (less.block _).bind fun (elseBody, _) no => ?_
      exact yields_newStmt (fun _ => ⟨proper, yes, no, nofun⟩) _

private theorem whileLoop_proper {fuel : Nat} (less : StmtsProper isName fuel) :
    Yields isName (whileLoop (fuel + 1)) (Stmt.Proper isName) := by
  rw [whileLoop]
  refine yields_advance.bind fun _ _ => (yields_expression fuel).bind fun cond proper => ?_
  refine (less.block _).bind fun (body, _) inside => ?_
  exact yields_newStmt (fun _ => ⟨proper, inside⟩) _

private theorem forLoop_proper {fuel : Nat} (less : StmtsProper isName fuel) :
    Yields isName (forLoop (fuel + 1)) (Stmt.Proper isName) := by
  rw [forLoop]
  refine yields_advance.bind fun keyword _ => (yields_expect _ _ _).bind fun name named => ?_
  refine (yields_expect _ _ _).bind fun _ _ => (yields_expression fuel).bind fun start first => ?_
  refine yields_peek.bind fun _ _ => (yields_expect _ _ _).bind fun _ _ => ?_
  refine (yields_expression fuel).bind fun stop last => (yields_atKind _).bind fun _ _ => ?_
  have finish : ∀ step : Expr, (step.isAbsent = false → step.Proper isName) →
      Yields isName (block fuel "for header" >>= fun result =>
        newStmt (.forLoop · name.text name.span start stop step result.1)
          (keyword.span.cover result.2)) (Stmt.Proper isName) := by
    intro step fits
    refine (less.block _).bind fun block inside => ?_
    exact yields_newStmt (fun _ => ⟨named.2 named.1, first, last, fits, inside⟩) _
  refine yields_ite ?_ ?_
  · exact yields_advance.bind fun _ _ => (yields_expression fuel).bind fun step proper =>
      finish step fun _ => proper
  · exact Yields.bind (yields_pure rfl) fun step (same : .absent = step) =>
      finish step fun present => by rw [← same] at present; cases present

private theorem stmts_proper (fuel : Nat) : StmtsProper isName fuel := by
  induction fuel with
  | zero =>
    refine ⟨fun terminator done proper => ?_, ?_, fun owner => ?_, ?_, ?_, ?_⟩
    · rw [statements]; exact keeps_pure (Stmt.allProper_reverse proper)
    · rw [statement]; exact yields_starve
    · rw [block]; exact yields_starve
    · rw [conditional]; exact yields_starve
    · rw [whileLoop]; exact yields_starve
    · rw [forLoop]; exact yields_starve
  | succ fuel less =>
    exact ⟨fun terminator _ => statements_proper less terminator, statement_proper less,
      block_proper less, conditional_proper less, whileLoop_proper less, forLoop_proper less⟩

end Parser

/-- The statements that are kept of a token list are complete. -/
theorem Program.parse_proper {isName : Bytes → Prop} (options : ParseOptions) {tokens : List Token}
    (named : ∀ token ∈ tokens, token.Named isName) :
    Stmt.AllProper isName (Program.parse options tokens).program.stmts :=
  ((Parser.stmts_proper (8 * tokens.length + 16)).statements .eof [] trivial
    (.start options tokens) named).2

end Minilang
