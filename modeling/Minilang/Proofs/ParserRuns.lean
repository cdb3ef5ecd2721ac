import Minilang.Proofs.ParsedTrees

/-! Runs of the parser. Whatever a parser does, it drops tokens from the front, counts errors
upwards and adds to the log only complaints of its own and of the tokens it passes. From this
every run can be cut into pieces: a run that ends without a new error had none in any piece. -/

namespace Minilang

/-- The codes of syntax errors. -/
def Code.syntaxErrors : List Code :=
  [.unexpectedToken, .expectSemicolon, .expectIdentifier, .expectExpression, .expectAssign,
    .unclosedParen, .unclosedBrace, .expectBlock, .forMissingTo]

/-- The codes that the parser complains with: those, and that of a literal that is no number. -/
def Code.complaints : List Code := .badNumber :: Code.syntaxErrors

class Code.IsComplaint (code : Code) : Prop where
  known : code ∈ Code.complaints

namespace Code

instance : IsComplaint badNumber := ⟨by decide⟩
instance : IsComplaint unexpectedToken := ⟨by decide⟩
instance : IsComplaint expectSemicolon := ⟨by decide⟩
instance : IsComplaint expectIdentifier := ⟨by decide⟩
instance : IsComplaint expectExpression := ⟨by decide⟩
instance : IsComplaint expectAssign := ⟨by decide⟩
instance : IsComplaint unclosedParen := ⟨by decide⟩
instance : IsComplaint unclosedBrace := ⟨by decide⟩
instance : IsComplaint expectBlock := ⟨by decide⟩
instance : IsComplaint forMissingTo := ⟨by decide⟩

end Code

namespace ParseState

/-- What can happen to a state while it is parsed from. -/
structure Grown (state after : ParseState) : Prop where
  tokens : after.tokens <:+ state.tokens
  rest : state.tokens ≠ [] → after.tokens ≠ []
  errors : state.errors ≤ after.errors
  limit : after.maxErrors = state.maxErrors
  log : ∀ d ∈ after.log, d ∈ state.log ∨ d.severity = .error ∧ d.code ∈ Code.complaints ∨
    ∃ token ∈ state.tokens, d ∈ token.reports
  kept : state.log <:+ after.log
  /-- Where no error is counted, only tokens complain. -/
  quiet : after.errors = state.errors → ∀ d ∈ after.log,
    d ∈ state.log ∨ ∃ token ∈ state.tokens, d ∈ token.reports

theorem Grown.refl (state : ParseState) : state.Grown state :=
  ⟨List.suffix_rfl, id, Nat.le_refl _, rfl, fun _ => .inl, List.suffix_rfl, fun _ _ => .inl⟩

/-- Only nodes are added, or fuel is missing. -/
theorem Grown.of_same {state after : ParseState} (tokens : after.tokens = state.tokens)
    (errors : after.errors = state.errors) (limit : after.maxErrors = state.maxErrors)
    (log : after.log = state.log) : state.Grown after := by
  refine ⟨tokens ▸ List.suffix_rfl, fun some_ => tokens ▸ some_, Nat.le_of_eq errors.symm, limit, ?_,
    log ▸ List.suffix_rfl, fun _ => ?_⟩
  all_goals
    rw [log]
    exact fun _ => .inl

theorem Grown.trans {state between after : ParseState} (first : state.Grown between)
    (second : between.Grown after) : state.Grown after where
  tokens := second.tokens.trans first.tokens
  rest := second.rest ∘ first.rest
  errors := Nat.le_trans first.errors second.errors
  limit := second.limit.trans first.limit
  log d member := by
    rcases second.log d member with old | own | ⟨token, inside, complains⟩
    · exact first.log d old
    · exact .inr (.inl own)
    · exact .inr (.inr ⟨token, first.tokens.mem inside, complains⟩)
  kept := first.kept.trans second.kept
  quiet same d member := by
    have counted := first.errors
    have later := second.errors
    rcases second.quiet (by omega) d member with old | ⟨token, inside, complains⟩
    · exact first.quiet (by omega) d old
    · exact .inr ⟨token, first.tokens.mem inside, complains⟩

theorem grown_advance (state : ParseState) : state.Grown state.advance := by
  unfold ParseState.advance
  split
  next token next rest here =>
    have passes : ∀ d ∈ next.reports.reverse ++ state.log,
        d ∈ state.log ∨ ∃ token ∈ state.tokens, d ∈ token.reports := by
      intro d member
      rcases List.mem_append.mp member with passed | old
      · exact .inr ⟨next, by simp [here], by simpa using passed⟩
      · exact .inl old
    exact ⟨here ▸ List.suffix_cons _ _, by simp, Nat.le_refl _, rfl,
      fun d member => (passes d member).imp_right .inr, List.suffix_append _ _, fun _ => passes⟩
  next here =>
    exact ⟨List.suffix_rfl, id, Nat.le_refl _, rfl, fun _ => .inl, List.suffix_rfl, fun _ _ => .inl⟩
  next here => exact .refl state

theorem grown_countError (state : ParseState) : state.Grown state.countError :=
  ⟨List.suffix_rfl, id, Nat.le_succ _, rfl, fun _ => .inl, List.suffix_rfl, fun _ _ => .inl⟩

theorem grown_report (state : ParseState) (code : Code) [complaint : code.IsComplaint] (span : Span)
    (message : Bytes) : state.Grown (state.report code span message) := by
  unfold ParseState.report
  split
  · exact state.grown_countError
  · refine ⟨List.suffix_rfl, id, Nat.le_succ _, rfl, fun d member => ?_, List.suffix_cons _ _,
      fun same => absurd same (Nat.succ_ne_self _)⟩
    rcases List.mem_cons.mp member with rfl | old
    · exact .inr (.inl ⟨rfl, complaint.known⟩)
    · exact .inl old

theorem errors_report (state : ParseState) (code : Code) (span : Span) (message : Bytes) :
    (state.report code span message).errors = state.errors + 1 := by
  unfold ParseState.report
  split <;> rfl

end ParseState

namespace Parser

variable {α β : Type}

/-- A step after which the state has only grown. -/
class Grows (step : StateM ParseState α) : Prop where
  grown : ∀ state : ParseState, state.Grown (step.run state).2

instance (value : α) : Grows (pure value : StateM ParseState α) := ⟨.refl⟩

instance (value : α) : Grows (pure value : Parser α).run := ⟨.refl⟩

instance : Grows (failure : Parser α).run := ⟨.refl⟩

instance : Grows (get : StateM ParseState ParseState) := ⟨.refl⟩

instance (step : StateM ParseState α) (next : α → StateM ParseState β) [first : Grows step]
    [second : ∀ value, Grows (next value)] : Grows (step >>= next) :=
  ⟨fun state => (first.grown state).trans ((second _).grown _)⟩

instance (p : Parser α) (next : α → Parser β) [first : Grows p.run]
    [second : ∀ value, Grows (next value).run] : Grows (p >>= next).run where
  grown state := by
    rw [run_bind]
    have begun := first.grown state
    rcases ran : p.run.run state with ⟨_ | value, after⟩ <;> rw [ran] at begun
    · exact begun
    · exact begun.trans ((second value).grown after)

theorem Grows.bind {p : Parser α} {next : α → Parser β} (_ : Grows p.run)
    (_ : ∀ value, Grows (next value).run) : Grows (p >>= next).run := inferInstance

theorem Grows.then {step : StateM ParseState α} {next : α → StateM ParseState β} (_ : Grows step)
    (_ : ∀ value, Grows (next value)) : Grows (step >>= next) := inferInstance

instance (condition : Prop) [Decidable condition] (yes no : Parser α) [first : Grows yes.run]
    [second : Grows no.run] : Grows (if condition then yes else no).run := by
  split
  · exact first
  · exact second

instance (step : StateM ParseState α) [moved : Grows step] : Grows (step : Parser α).run :=
  ⟨fun state => moved.grown state⟩

instance : Grows peek.run := ⟨.refl⟩

instance (kind : TokenKind) : Grows (atKind kind).run := ⟨.refl⟩

instance : Grows advance.run := ⟨ParseState.grown_advance⟩

instance : Grows (modify ParseState.advance : StateM ParseState PUnit) :=
  ⟨ParseState.grown_advance⟩

instance : Grows (modify ParseState.countError : Parser PUnit).run := ⟨ParseState.grown_countError⟩

instance (code : Code) [code.IsComplaint] (message : Bytes) :
    Grows (fail code message : Parser α).run :=
  ⟨fun state => state.grown_report code _ message⟩

instance (kind : TokenKind) (code : Code) [code.IsComplaint] (message : Bytes) :
    Grows (expect kind code message).run := by
  unfold expect
  infer_instance

instance (node : Site → Expr) (span : Span) : Grows (newExpr node span).run :=
  ⟨fun _ => .of_same rfl rfl rfl rfl⟩

instance (node : Site → Stmt) (span : Span) : Grows (newStmt node span).run :=
  ⟨fun _ => .of_same rfl rfl rfl rfl⟩

instance : Grows (starve : Parser α).run := ⟨fun _ => .of_same rfl rfl rfl rfl⟩

instance : Grows (modify ({ · with starved := true }) : StateM ParseState PUnit) :=
  ⟨fun _ => .of_same rfl rfl rfl rfl⟩

instance (token : Token) : Grows (checkLiteral token).run := by
  unfold checkLiteral
  split
  · infer_instance
  · exact ⟨fun state => state.grown_report .badNumber _ _⟩

/-- A parser that consumes a token before all else. -/
class Consumes (p : Parser α) : Prop where
  first : ∃ next : Token → Parser α, p = advance >>= next ∧ ∀ token, Grows (next token).run

theorem Consumes.advance {next : Token → Parser α} (rest : ∀ token, Grows (next token).run) :
    Consumes (advance >>= next) := ⟨next, rfl, rest⟩

theorem Consumes.grows {p : Parser α} (consumes : Consumes p) : Grows p.run := by
  obtain ⟨next, rfl, rest⟩ := consumes.first
  infer_instance

/-- The expression parsers with some fuel. -/
private structure ExprsGrow (fuel : Nat) : Prop where
  binary : ∀ minimum, Grows (binary fuel minimum).run
  operands : ∀ minimum left, Grows (operands fuel minimum left).run
  unary : Grows (unary fuel).run
  primary : Grows (primary fuel).run

private theorem operands_grows {fuel : Nat} (less : ExprsGrow fuel) (minimum : Nat) (left : Expr) :
    Grows (operands (fuel + 1) minimum left).run := by
  have right := less.binary
  have more := less.operands
  rw [operands]
  refine Grows.bind inferInstance fun token => ?_
  split <;> infer_instance

private theorem unary_grows {fuel : Nat} (less : ExprsGrow fuel) : Grows (unary (fuel + 1)).run := by
  have operand := less.unary
  have atom := less.primary
  rw [unary]
  refine Grows.bind inferInstance fun token => ?_
  split <;> infer_instance

private theorem primary_grows {fuel : Nat} (less : ExprsGrow fuel) :
    Grows (primary (fuel + 1)).run := by
  have inner := less.binary
  rw [primary]
  refine Grows.bind inferInstance fun token => ?_
  split <;> infer_instance

private theorem exprs_grow (fuel : Nat) : ExprsGrow fuel := by
  induction fuel with
  | zero =>
    refine ⟨fun minimum => ?_, fun minimum left => ?_, ?_, ?_⟩
    · rw [binary]; infer_instance
    · rw [operands]; infer_instance
    · rw [unary]; infer_instance
    · rw [primary]; infer_instance
  | succ fuel less =>
    refine ⟨fun minimum => ?_, operands_grows less, unary_grows less, primary_grows less⟩
    have first := less.unary
    have more := less.operands
    rw [binary]
    infer_instance

instance (fuel minimum : Nat) : Grows (binary fuel minimum).run := (exprs_grow fuel).binary minimum

instance (fuel minimum : Nat) (left : Expr) : Grows (operands fuel minimum left).run :=
  (exprs_grow fuel).operands minimum left

instance (fuel : Nat) : Grows (unary fuel).run := (exprs_grow fuel).unary

instance (fuel : Nat) : Grows (expression fuel).run := (exprs_grow fuel).binary 1

instance : Grows semicolon.run := by
  unfold semicolon
  infer_instance

instance (fuel : Nat) : Consumes (assign fuel) := by
  unfold assign
  exact .advance fun _ => inferInstance

instance : Consumes read := by
  unfold read
  exact .advance fun _ => inferInstance

instance (fuel : Nat) : Consumes (print fuel) := by
  unfold print
  exact .advance fun _ => inferInstance

instance (fuel : Nat) : Grows (assign fuel).run := Consumes.grows inferInstance

instance : Grows read.run := Consumes.grows inferInstance

instance (fuel : Nat) : Grows (print fuel).run := Consumes.grows inferInstance

theorem grown_resync (fuel : Nat) (state : ParseState) : state.Grown (resync fuel state) := by
  induction fuel generalizing state with
  | zero => exact .of_same rfl rfl rfl rfl
  | succ fuel ih =>
    rw [resync]
    split
    any_goals exact .refl state
    · exact state.grown_advance
    · exact state.grown_advance.trans (ih _)

instance : Grows (modify fun state => resync state.tokens.length state :
    StateM ParseState PUnit) := ⟨fun state => grown_resync _ state⟩

/-- The statement parsers with some fuel. -/
private structure StmtsGrow (fuel : Nat) : Prop where
  statements : ∀ terminator done, Grows (statements fuel terminator done)
  statement : Grows (statement fuel).run
  block : ∀ owner, Grows (block fuel owner).run
  conditional : Grows (conditional fuel).run
  whileLoop : Grows (whileLoop fuel).run
  forLoop : Grows (forLoop fuel).run

private theorem statements_grow {fuel : Nat} (less : StmtsGrow fuel) (terminator : TokenKind)
    (done : List Stmt) : Grows (statements (fuel + 1) terminator done) := by
  have first := less.statement
  have more := less.statements
  have unexpected : Grows (modify fun state =>
      (state.report .unexpectedToken state.errorSpan "unexpected '\x7d'").advance :
      StateM ParseState PUnit) :=
    ⟨fun state => (state.grown_report _ _ _).trans (ParseState.grown_advance _)⟩
  rw [statements]
  refine Grows.then inferInstance fun state => ?_
  split
  · infer_instance
  split
  · infer_instance
  split
  · infer_instance
  · refine Grows.then inferInstance fun result => ?_
    split <;> infer_instance

private theorem statement_grows {fuel : Nat} (less : StmtsGrow fuel) :
    Grows (statement (fuel + 1)).run := by
  have chosen := less.conditional
  have repeated := less.whileLoop
  have counted := less.forLoop
  rw [statement]
  refine Grows.bind inferInstance fun token => ?_
  split <;> infer_instance

private theorem block_grows {fuel : Nat} (less : StmtsGrow fuel) (owner : Bytes) :
    Grows (block (fuel + 1) owner).run := by
  have body := less.statements
  rw [block]
  infer_instance

private theorem conditional_consumes {fuel : Nat} (less : StmtsGrow fuel) :
    Consumes (conditional (fuel + 1)) := by
  have body := less.block
  have nested := less.conditional
  rw [conditional]
  refine .advance fun keyword => Grows.bind inferInstance fun cond => ?_
  refine Grows.bind inferInstance fun inner => ?_
  refine Grows.bind inferInstance fun other => ?_
  split
  · infer_instance
  · refine Grows.bind inferInstance fun _ => Grows.bind inferInstance fun again => ?_
    split
    · infer_instance
    · exact Grows.bind inferInstance fun otherwise => inferInstance

private theorem whileLoop_consumes {fuel : Nat} (less : StmtsGrow fuel) :
    Consumes (whileLoop (fuel + 1)) := by
  have body := less.block
  rw [whileLoop]
  refine .advance fun keyword => Grows.bind inferInstance fun cond => ?_
  exact Grows.bind inferInstance fun inner => inferInstance

private theorem forLoop_consumes {fuel : Nat} (less : StmtsGrow fuel) :
    Consumes (forLoop (fuel + 1)) := by
  have body := less.block
  have finish : ∀ (keyword name : Token) (start stop step : Expr),
      Grows (block fuel "for header" >>= fun inner =>
        newStmt (.forLoop · name.text name.span start stop step inner.1)
          (keyword.span.cover inner.2)).run := fun _ _ _ _ _ => inferInstance
  rw [forLoop]
  refine .advance fun keyword => Grows.bind inferInstance fun name => ?_
  refine Grows.bind inferInstance fun _ => Grows.bind inferInstance fun start => ?_
  refine Grows.bind inferInstance fun token => Grows.bind inferInstance fun _ => ?_
  refine Grows.bind inferInstance fun stop => Grows.bind inferInstance fun stepped => ?_
  split
  · refine Grows.bind inferInstance fun _ => Grows.bind inferInstance fun step => ?_
    exact finish keyword name start stop step
  · exact Grows.bind inferInstance fun step => finish keyword name start stop step

private theorem stmts_grow (fuel : Nat) : StmtsGrow fuel := by
  induction fuel with
  | zero =>
    refine ⟨fun terminator done => ?_, ?_, fun owner => ?_, ?_, ?_, ?_⟩
    · rw [statements]; infer_instance
    · rw [statement]; infer_instance
    · rw [block]; infer_instance
    · rw [conditional]; infer_instance
    · rw [whileLoop]; infer_instance
    · rw [forLoop]; infer_instance
  | succ fuel less =>
    exact ⟨statements_grow less, statement_grows less, block_grows less,
      (conditional_consumes less).grows, (whileLoop_consumes less).grows,
      (forLoop_consumes less).grows⟩

instance (fuel : Nat) (terminator : TokenKind) (done : List Stmt) :
    Grows (statements fuel terminator done) := (stmts_grow fuel).statements terminator done

instance (fuel : Nat) : Grows (statement fuel).run := (stmts_grow fuel).statement

instance (fuel : Nat) (owner : Bytes) : Grows (block fuel owner).run := (stmts_grow fuel).block owner

instance (fuel : Nat) : Grows (conditional fuel).run := (stmts_grow fuel).conditional

instance (fuel : Nat) : Consumes (conditional (fuel + 1)) := conditional_consumes (stmts_grow fuel)

instance (fuel : Nat) : Consumes (whileLoop (fuel + 1)) := whileLoop_consumes (stmts_grow fuel)

instance (fuel : Nat) : Consumes (forLoop (fuel + 1)) := forLoop_consumes (stmts_grow fuel)

end Parser

/-- All that parsing reports is complaints of the parser and of the tokens. -/
theorem Program.parse_reports (options : ParseOptions) (tokens : List Token) {d : Diagnostic}
    (member : d ∈ (Program.parse options tokens).reports) :
    d.severity = .error ∧ d.code ∈ Code.complaints ∨ ∃ token ∈ tokens, d ∈ token.reports := by
  have grown := (Parser.stmts_grow (8 * tokens.length + 16)).statements .eof [] |>.grown
    (ParseState.start options tokens)
  rcases grown.log d (List.mem_reverse.mp member) with first | own | passed
  · obtain ⟨token, inside, complains⟩ := List.mem_flatMap.mp first
    exact .inr ⟨token, List.mem_of_mem_take inside, complains⟩
  · exact .inl own
  · exact .inr passed

/-- A parse that counts no error reports only what its tokens complain of. -/
theorem Program.parse_quiet {options : ParseOptions} {tokens : List Token}
    (clean : (Program.parse options tokens).errors = options.currentErrors) {d : Diagnostic}
    (member : d ∈ (Program.parse options tokens).reports) :
    ∃ token ∈ tokens, d ∈ token.reports := by
  have grown := (Parser.stmts_grow (8 * tokens.length + 16)).statements .eof [] |>.grown
    (ParseState.start options tokens)
  rcases grown.quiet clean d (List.mem_reverse.mp member) with first | passed
  · obtain ⟨token, inside, complains⟩ := List.mem_flatMap.mp first
    exact ⟨token, List.mem_of_mem_take inside, complains⟩
  · exact passed

end Minilang
