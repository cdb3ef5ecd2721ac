import Minilang.Proofs.GrammarTrees

/-! What the grammar derives is parsed without complaint. An expression is a row of operands with
binary operators between them, whatever their precedences; each parser takes what its rule derives
off the front of the tokens, as long as the next token cannot go on with it. -/

namespace Minilang

open Grammar Rule

namespace Grammar

/-- Operands, each behind a binary operator. -/
inductive Operands : List TokenKind → Prop
  | nil : Operands []
  | cons {kind : TokenKind} {u v : List TokenKind} {rule : Parser.BinaryRule}
      (operator : Parser.binaryRule? kind = some rule) (here : Derives (symbol .unary) u)
      (more : Operands v) : Operands (kind :: u ++ v)

/-- An operand with more of them behind it. -/
def Row (word : List TokenKind) : Prop :=
  ∃ u v, word = u ++ v ∧ Derives (symbol .unary) u ∧ Operands v

theorem Operands.append {u v : List TokenKind} (first : Operands u) (second : Operands v) :
    Operands (u ++ v) := by
  induction first with
  | nil => exact second
  | cons operator here _ ih =>
    rw [List.append_assoc]
    exact .cons operator here ih

/-- A chain of rows is a row. -/
private theorem Row.chain {s operand : Symbol} {operator : Rule}
    (rule : s.rule = Rule.chain operand operator)
    (inner : ∀ word, Derives (symbol operand) word → Row word)
    (known : ∀ word, Derives operator word → ∃ kind rule, word = [kind] ∧
      Parser.binaryRule? kind = some rule)
    {word : List TokenKind} (derived : Derives (symbol s) word) : Row word := by
  obtain ⟨first, rest, rfl, head, tail⟩ := (derives_chain rule).mp derived
  obtain ⟨u, v, rfl, operand, others⟩ := inner first head
  obtain ⟨parts, rfl, all⟩ := derives_many.mp tail
  rw [List.append_assoc]
  refine ⟨u, _, rfl, operand, others.append ?_⟩
  clear tail derived
  induction parts with
  | nil => exact .nil
  | cons part parts ih =>
    rw [List.forall_mem_cons] at all
    refine Operands.append ?_ (ih all.2)
    obtain ⟨_, behind, rfl, between, right⟩ := derives_seq.mp all.1
    obtain ⟨kind, found, rfl, operator⟩ := known _ between
    obtain ⟨u, v, rfl, operand, others⟩ := inner behind right
    have joined : Operands (kind :: u ++ v) := .cons operator operand others
    simpa using joined

/-- An expression is a row, whatever the precedences of its operators. -/
theorem row_of_derives {word : List TokenKind} (derived : Derives (symbol .expr) word) :
    Row word := by
  have known : ∀ kind rest word, Derives (oneOf kind rest) word →
      (∀ other ∈ kind :: rest, (Parser.binaryRule? other).isSome = true) →
      ∃ kind rule, word = [kind] ∧ Parser.binaryRule? kind = some rule := by
    intro kind rest word derived all
    obtain ⟨other, member, rfl⟩ := derives_oneOf.mp derived
    obtain ⟨rule, found⟩ := Option.isSome_iff_exists.mp (all other member)
    exact ⟨other, rule, rfl, found⟩
  have mul : ∀ word, Derives (symbol .mul) word → Row word := fun word => Row.chain rfl
    (fun word operand => ⟨word, [], (List.append_nil word).symm, operand, .nil⟩)
    fun word derived => known _ _ word derived (by decide)
  have add : ∀ word, Derives (symbol .add) word → Row word := fun word => Row.chain rfl mul
    fun word derived => known _ _ word derived (by decide)
  have cmp : ∀ word, Derives (symbol .cmp) word → Row word := fun word => Row.chain rfl add
    fun word derived => known _ _ word derived (by decide)
  have and : ∀ word, Derives (symbol .and) word → Row word := fun word => Row.chain rfl cmp
    fun word derived => known _ _ word derived (by decide)
  exact Row.chain rfl and (fun word derived => known _ _ word derived (by decide))
    (derives_symbol.mp derived)

end Grammar

namespace ParseState

/-- The kinds of the tokens that are left. -/
def ahead (state : ParseState) : List TokenKind := state.tokens.map Token.kind

variable {state : ParseState} {kind : TokenKind} {tail : List TokenKind}

theorem head_of_ahead (here : state.ahead = kind :: tail) : state.head.kind = kind := by
  obtain ⟨token, rest, same, rfl, -⟩ := List.map_eq_cons_iff.mp here
  rw [ParseState.head, same]
  rfl

theorem ahead_advance (here : state.ahead = kind :: tail) (more : tail ≠ []) :
    state.advance.ahead = tail := by
  obtain ⟨token, rest, same, -, rfl⟩ := List.map_eq_cons_iff.mp here
  cases rest with
  | nil => exact absurd rfl more
  | cons second others => rw [ParseState.advance, same]; rfl

/-- All tokens that are left are what their kinds say. -/
def Faithful (state : ParseState) : Prop := ∀ token ∈ state.tokens, token.Faithful

theorem Faithful.grown {after : ParseState} (faithful : state.Faithful)
    (grown : state.Grown after) : after.Faithful :=
  fun token member => faithful token (grown.tokens.mem member)

theorem Faithful.head (faithful : state.Faithful) (here : state.ahead = kind :: tail) :
    state.head.Faithful := by
  obtain ⟨token, rest, same, -⟩ := List.map_eq_cons_iff.mp here
  rw [ParseState.head, same]
  exact faithful token (same ▸ List.mem_cons_self)

theorem length_of_ahead {word : List TokenKind} (here : state.ahead = word) :
    state.tokens.length = word.length := by
  rw [← here, ParseState.ahead, List.length_map]

end ParseState

namespace Parser

variable {α β : Type} {state : ParseState} {good : α → ParseState → Prop}
  {better : β → ParseState → Prop}

/-- From faithful tokens there is a result as said, and no error is counted. -/
def Succeeds (p : Parser α) (state : ParseState) (good : α → ParseState → Prop) : Prop :=
  state.Faithful → (p.run.run state).2.errors = state.errors ∧
    ∃ value, (p.run.run state).1 = some value ∧ good value (p.run.run state).2

theorem Succeeds.bind {p : Parser α} {next : α → Parser β} [moves : Grows p.run]
    (first : Succeeds p state good) (rest : ∀ value after, state.isEnough = after.isEnough →
      good value after → Succeeds (next value) after better) :
    Succeeds (p >>= next) state better := by
  intro faithful
  have grown := moves.grown state
  obtain ⟨clean, value, ran, holds⟩ := first faithful
  have still := (ParseState.isEnough_same grown clean).symm
  obtain ⟨errors, result⟩ := rest value _ still holds (faithful.grown grown)
  have run : (p >>= next).run.run state = (next value).run.run (p.run.run state).2 := by
    rw [run_bind]
    rcases same : p.run.run state with ⟨_ | other, after⟩ <;> rw [same] at ran <;> cases ran
    rfl
  rw [run]
  exact ⟨errors.trans clean, result⟩

theorem Succeeds.mono {p : Parser α} {worse : α → ParseState → Prop} (succeeds : Succeeds p state good)
    (weaker : ∀ value after, good value after → worse value after) : Succeeds p state worse :=
  fun faithful => (succeeds faithful).imp_right fun ⟨value, ran, holds⟩ =>
    ⟨value, ran, weaker _ _ holds⟩

theorem Succeeds.peek {next : Token → Parser β} (rest : Succeeds (next state.head) state better) :
    Succeeds (peek >>= next) state better := rest

theorem Succeeds.atKind {kind : TokenKind} {next : Bool → Parser β}
    (rest : Succeeds (next (state.at? kind)) state better) :
    Succeeds (atKind kind >>= next) state better := rest

theorem Succeeds.advance {next : Token → Parser β}
    (rest : Succeeds (next state.head) state.advance better) :
    Succeeds (advance >>= next) state better := by
  intro faithful
  rw [← errors_advance state]
  exact rest (faithful.grown state.grown_advance)

theorem succeeds_ite {condition : Prop} [Decidable condition] {yes no : Parser α}
    (whenYes : condition → Succeeds yes state good)
    (whenNo : ¬ condition → Succeeds no state good) :
    Succeeds (if condition then yes else no) state good := by
  split
  next holds => exact whenYes holds
  next fails => exact whenNo fails

theorem succeeds_pure {value : α} (holds : good value state) : Succeeds (pure value) state good :=
  fun _ => ⟨rfl, value, rfl, holds⟩

variable {kind next : TokenKind} {tail : List TokenKind}

/-- An expected token that is next is taken. -/
theorem succeeds_expect {code : Code} {message : Bytes} (here : state.ahead = kind :: tail)
    (more : tail ≠ []) :
    Succeeds (expect kind code message) state (fun _ after => after.ahead = tail) := by
  refine Succeeds.atKind ?_
  rw [ParseState.at?, ParseState.head_of_ahead here, beq_self_eq_true, if_pos rfl]
  exact fun _ => ⟨errors_advance state, _, rfl, ParseState.ahead_advance here more⟩

theorem succeeds_newExpr (node : Site → Expr) (span : Span) :
    Succeeds (newExpr node span) state (fun _ after => after.ahead = state.ahead) :=
  fun _ => ⟨rfl, _, rfl, rfl⟩

theorem succeeds_newStmt (node : Site → Stmt) (span : Span) :
    Succeeds (newStmt node span) state (fun _ after => after.ahead = state.ahead) :=
  fun _ => ⟨rfl, _, rfl, rfl⟩

private theorem binaryRule?_pos {rule : BinaryRule} (found : binaryRule? kind = some rule) :
    0 < rule.precedence := by
  cases kind <;> simp only [binaryRule?, Option.some.injEq, reduceCtorEq] at found <;> subst found <;>
    decide

/-- Some of the operands are left, behind an operator that is too weak. -/
structure Leaves (minimum : Nat) (operands : List TokenKind) (next : TokenKind)
    (tail : List TokenKind) (after : ParseState) : Prop where
  split : ∃ rest, Operands rest ∧ rest.length ≤ operands.length ∧ after.ahead = rest ++ next :: tail
  stops : Stops after minimum

/-- What each of the expression parsers takes, with fuel for the tokens that are left. -/
structure ExprsTake (fuel : Nat) : Prop where
  binary : ∀ {minimum state u v next tail}, Derives (symbol .unary) u → Operands v →
    state.ahead = u ++ v ++ next :: tail → binaryRule? next = none →
    3 * state.tokens.length + 3 ≤ fuel →
    Succeeds (binary fuel minimum) state (fun _ => Leaves minimum v next tail)
  operands : ∀ {minimum left state v next tail}, Operands v → state.ahead = v ++ next :: tail →
    binaryRule? next = none → 3 * state.tokens.length + 1 ≤ fuel →
    Succeeds (operands fuel minimum left) state (fun _ => Leaves minimum v next tail)
  unary : ∀ {state u next tail}, Derives (symbol .unary) u → state.ahead = u ++ next :: tail →
    3 * state.tokens.length + 2 ≤ fuel →
    Succeeds (unary fuel) state (fun _ after => after.ahead = next :: tail)
  primary : ∀ {state u next tail}, Derives (symbol .primary) u → state.ahead = u ++ next :: tail →
    3 * state.tokens.length + 1 ≤ fuel →
    Succeeds (primary fuel) state (fun _ after => after.ahead = next :: tail)

/-- Every operator is strong enough for the lowest precedence, so nothing is left. -/
theorem Leaves.all {v : List TokenKind} {after : ParseState} (leaves : Leaves 1 v next tail after) :
    after.ahead = next :: tail := by
  obtain ⟨rest, operands, -, here⟩ := leaves.split
  cases operands with
  | nil => exact here
  | cons operator =>
    have weak := leaves.stops _ (ParseState.head_of_ahead here ▸ operator)
    have strong := binaryRule?_pos operator
    omega

section
variable {fuel : Nat} (less : ExprsTake fuel)
include less

private theorem operands_take {minimum : Nat} {left : Expr} {v : List TokenKind} (row : Operands v)
    (here : state.ahead = v ++ next :: tail) (ends : binaryRule? next = none)
    (enough : 3 * state.tokens.length + 1 ≤ fuel + 1) :
    Succeeds (operands (fuel + 1) minimum left) state (fun _ => Leaves minimum v next tail) := by
  rw [operands]
  refine Succeeds.peek ?_
  cases row with
  | nil =>
    have none : binaryRule? state.head.kind = none := ParseState.head_of_ahead here ▸ ends
    rw [none]
    refine succeeds_pure ⟨⟨[], .nil, Nat.le_refl _, here⟩, fun rule found => ?_⟩
    rw [none] at found
    cases found
  | @cons kind u v rule operator operand more =>
    have found : binaryRule? state.head.kind = some rule := ParseState.head_of_ahead here ▸ operator
    rw [found]
    refine succeeds_ite (fun weak => succeeds_pure ⟨⟨_, .cons operator operand more, Nat.le_refl _,
      here⟩, fun other same => ?_⟩) fun _ => Succeeds.advance ?_
    · rw [found] at same
      cases same
      exact weak
    · have behind : state.advance.ahead = u ++ v ++ next :: tail :=
        ParseState.ahead_advance here (by simp)
      have size := ParseState.length_of_ahead here
      have size' := ParseState.length_of_ahead behind
      simp only [List.length_append, List.length_cons] at size size'
      refine (less.binary operand more behind ends (by omega)).bind fun right after _ leaves => ?_
      obtain ⟨rest, others, shorter, left'⟩ := leaves.split
      refine (succeeds_newExpr _ _).bind fun node last _ kept => ?_
      have size'' := ParseState.length_of_ahead (kept.trans left')
      simp only [List.length_append, List.length_cons] at size''
      refine (less.operands others (kept.trans left') ends (by omega)).mono fun _ final ends' => ?_
      obtain ⟨rest', others', shorter', left''⟩ := ends'.split
      refine ⟨⟨rest', others', ?_, left''⟩, ends'.stops⟩
      simp only [List.length_append, List.length_cons]
      omega

private theorem unary_take {u : List TokenKind} (operand : Derives (symbol .unary) u)
    (here : state.ahead = u ++ next :: tail) (enough : 3 * state.tokens.length + 2 ≤ fuel + 1) :
    Succeeds (unary (fuel + 1)) state (fun _ after => after.ahead = next :: tail) := by
  rw [unary]
  refine Succeeds.peek ?_
  rcases derives_unary.mp operand with ⟨sign, member, inner, rfl, derived⟩ | primary
  · have op : ∃ op, unaryOp? sign = some op := by
      simp only [List.mem_cons, List.not_mem_nil, or_false] at member
      rcases member with rfl | rfl | rfl <;> exact ⟨_, rfl⟩
    obtain ⟨op, found⟩ := op
    rw [ParseState.head_of_ahead here, found]
    have behind : state.advance.ahead = inner ++ next :: tail :=
      ParseState.ahead_advance here (by simp)
    have size := ParseState.length_of_ahead here
    have size' := ParseState.length_of_ahead behind
    simp only [List.length_append, List.length_cons] at size size'
    refine Succeeds.advance ((less.unary derived behind (by omega)).bind fun operand after _ left => ?_)
    exact (succeeds_newExpr _ _).mono fun _ _ kept => kept.trans left
  · have none : unaryOp? state.head.kind = none := by
      rcases derives_primary.mp primary with rfl | rfl | rfl | ⟨inner, rfl, _⟩ <;>
        rw [ParseState.head_of_ahead here] <;> rfl
    rw [none]
    exact less.primary primary here (by omega)

private theorem primary_take {u : List TokenKind} (operand : Derives (symbol .primary) u)
    (here : state.ahead = u ++ next :: tail) (enough : 3 * state.tokens.length + 1 ≤ fuel + 1) :
    Succeeds (primary (fuel + 1)) state (fun _ after => after.ahead = next :: tail) := by
  rw [primary]
  refine Succeeds.peek ?_
  have single : ∀ {kind node span}, state.ahead = kind :: next :: tail →
      Succeeds (advance >>= fun _ => newExpr node span) state
        (fun _ after => after.ahead = next :: tail) := fun here =>
    Succeeds.advance ((succeeds_newExpr _ _).mono fun _ _ kept =>
      kept.trans (ParseState.ahead_advance here (by simp)))
  rcases derives_primary.mp operand with rfl | rfl | rfl | ⟨inner, rfl, derived⟩
  · rw [ParseState.head_of_ahead here]
    intro faithful
    have literal := checkLiteral_eq (faithful.head here) (ParseState.head_of_ahead here)
    dsimp only
    rw [literal, pure_bind]
    exact single here faithful
  · rw [ParseState.head_of_ahead here]
    exact single here
  · rw [ParseState.head_of_ahead here]
    exact single here
  · rw [ParseState.head_of_ahead here]
    obtain ⟨u, v, rfl, first, more⟩ := row_of_derives derived
    have behind : state.advance.ahead = u ++ v ++ .rParen :: next :: tail := by
      rw [ParseState.ahead_advance here (by simp)]
      simp
    have size := ParseState.length_of_ahead here
    have size' := ParseState.length_of_ahead behind
    simp only [List.length_append, List.length_cons, List.length_nil] at size size'
    refine Succeeds.advance ((less.binary first more behind rfl (by omega)).bind
      fun inner after _ leaves => ?_)
    refine (succeeds_expect leaves.all (by simp)).bind fun closing last _ left => ?_
    exact (succeeds_newExpr _ _).mono fun _ _ kept => kept.trans left

end

theorem exprs_take (fuel : Nat) : ExprsTake fuel := by
  induction fuel with
  | zero => constructor <;> intros <;> omega
  | succ fuel less =>
    refine ⟨fun operand row here ends enough => ?_,
      fun row here ends enough => operands_take less row here ends enough,
      fun operand here enough => unary_take less operand here enough,
      fun operand here enough => primary_take less operand here enough⟩
    rw [binary]
    rw [List.append_assoc] at here
    obtain ⟨second, rest, same⟩ := List.ne_nil_iff_exists_cons.mp
      (List.append_ne_nil_of_right_ne_nil _ (List.cons_ne_nil _ _))
    rw [same] at here
    refine (less.unary operand here (by omega)).bind fun left after _ behind => ?_
    have size := ParseState.length_of_ahead here
    have size' := ParseState.length_of_ahead behind
    simp only [List.length_append] at size
    refine less.operands row (behind.trans same.symm) ends (by omega)

/-- An expression is taken whole when no operator follows. -/
theorem expression_takes {fuel : Nat} {word rest : List TokenKind}
    (derived : Derives (symbol .expr) word) (here : state.ahead = word ++ rest)
    (ends : ∃ next tail, rest = next :: tail ∧ binaryRule? next = none)
    (enough : 3 * state.tokens.length + 3 ≤ fuel) :
    Succeeds (expression fuel) state (fun _ after => after.ahead = rest) := by
  obtain ⟨u, v, rfl, first, more⟩ := row_of_derives derived
  obtain ⟨next, tail, rfl, ends⟩ := ends
  exact ((exprs_take fuel).binary first more here ends enough).mono fun _ _ leaves => leaves.all

/-- Likewise for a step that always has a result. -/
def Completes (step : StateM ParseState α) (state : ParseState) (good : ParseState → Prop) : Prop :=
  state.Faithful → (step.run state).2.errors = state.errors ∧ good (step.run state).2

theorem Completes.get {next : ParseState → StateM ParseState α} {good : ParseState → Prop}
    (rest : Completes (next state) state good) : Completes (get >>= next) state good := rest

theorem completes_ite {condition : Prop} [Decidable condition] {yes no : StateM ParseState α}
    {good : ParseState → Prop} (whenYes : condition → Completes yes state good)
    (whenNo : ¬ condition → Completes no state good) :
    Completes (if condition then yes else no) state good := by
  split
  next holds => exact whenYes holds
  next fails => exact whenNo fails

/-- What each of the statement parsers takes, with fuel for the tokens that are left. -/
structure StmtsTake (fuel : Nat) : Prop where
  statements : ∀ {terminator done state word tail}, terminator = .eof ∨ terminator = .rBrace →
    Derives (symbol .program) word → state.ahead = word ++ terminator :: tail →
    state.isEnough = false → 4 * state.tokens.length + 4 ≤ fuel →
    Completes (statements fuel terminator done) state (·.ahead = terminator :: tail)
  statement : ∀ {state word next tail}, Derives (symbol .stmt) word →
    state.ahead = word ++ next :: tail → next ≠ .kwElse → state.isEnough = false →
    4 * state.tokens.length + 3 ≤ fuel →
    Succeeds (statement fuel) state (fun _ after => after.ahead = next :: tail)
  block : ∀ {owner state word tail}, Derives (symbol .block) word → state.ahead = word ++ tail →
    tail ≠ [] → state.isEnough = false → 4 * state.tokens.length + 1 ≤ fuel →
    Succeeds (block fuel owner) state (fun _ after => after.ahead = tail)
  conditional : ∀ {state word next tail}, Derives (symbol .ifStmt) word →
    state.ahead = word ++ next :: tail → next ≠ .kwElse → state.isEnough = false →
    4 * state.tokens.length + 2 ≤ fuel →
    Succeeds (conditional fuel) state (fun _ after => after.ahead = next :: tail)
  whileLoop : ∀ {state cond body next tail}, Derives (symbol .expr) cond →
    Derives (symbol .block) body → state.ahead = .kwWhile :: (cond ++ (body ++ next :: tail)) →
    state.isEnough = false → 4 * state.tokens.length + 2 ≤ fuel →
    Succeeds (whileLoop fuel) state (fun _ after => after.ahead = next :: tail)
  forLoop : ∀ {state start stop step body next tail}, Derives (symbol .expr) start →
    Derives (symbol .expr) stop →
    (step = [] ∨ ∃ value, step = .kwStep :: value ∧ Derives (symbol .expr) value) →
    Derives (symbol .block) body →
    state.ahead = .kwFor :: .ident :: .assign :: (start ++ .kwTo :: (stop ++ (step ++ (body ++
      next :: tail)))) →
    state.isEnough = false → 4 * state.tokens.length + 2 ≤ fuel →
    Succeeds (forLoop fuel) state (fun _ after => after.ahead = next :: tail)

/-- A block starts with its brace. -/
private theorem block_eq_cons {word : List TokenKind} (derived : Derives (symbol .block) word) :
    ∃ rest, word = .lBrace :: rest := by
  obtain ⟨body, rfl, -⟩ := derives_block.mp derived
  exact ⟨_, rfl⟩

/-- The keywords and names that a statement starts with. -/
private def starters : List TokenKind := [.ident, .kwRead, .kwPrint, .kwIf, .kwWhile, .kwFor]

private theorem stmt_eq_cons {word : List TokenKind} (derived : Derives (symbol .stmt) word) :
    ∃ kind rest, word = kind :: rest ∧ kind ∈ starters := by
  rcases derives_stmt.mp derived with ⟨_, rfl, _⟩ | rfl | ⟨_, rfl, _⟩ | conditional | ⟨_, _, rfl, _⟩ |
    ⟨_, _, _, _, rfl, _⟩
  case inr.inr.inr.inl =>
    obtain ⟨cond, body, rest, rfl, -⟩ := derives_ifStmt.mp conditional
    exact ⟨_, _, rfl, by simp [starters]⟩
  all_goals exact ⟨_, _, rfl, by simp [starters]⟩

private theorem semicolon_takes (here : state.ahead = .semicolon :: tail) (more : tail ≠ []) :
    Succeeds semicolon state (fun _ after => after.ahead = tail) := by
  unfold semicolon
  exact Succeeds.peek (succeeds_expect here more)

/-- The last part of a statement that ends in an expression and a semicolon. -/
private theorem closing_takes {fuel : Nat} {node : Expr → Site → Stmt} {span : Token → Span}
    {value : List TokenKind} (derived : Derives (symbol .expr) value)
    (here : state.ahead = value ++ .semicolon :: next :: tail)
    (enough : 3 * state.tokens.length + 3 ≤ fuel) :
    Succeeds (do
      let e ← expression fuel
      let last ← semicolon
      newStmt (node e) (span last)) state (fun _ after => after.ahead = next :: tail) := by
  refine (expression_takes derived here ⟨_, _, rfl, rfl⟩ enough).bind fun e after _ behind => ?_
  refine (semicolon_takes behind (by simp)).bind fun last final _ left => ?_
  exact (succeeds_newStmt _ _).mono fun _ _ kept => kept.trans left

private theorem isEnough_advance (state : ParseState) : state.advance.isEnough = state.isEnough :=
  ParseState.isEnough_same state.grown_advance (errors_advance state)

section
variable {fuel : Nat} (less : StmtsTake fuel) (goes : state.isEnough = false)
include less goes

private theorem block_take {owner : Bytes} {word : List TokenKind}
    (derived : Derives (symbol .block) word) (here : state.ahead = word ++ tail) (more : tail ≠ [])
    (enough : 4 * state.tokens.length + 1 ≤ fuel + 1) :
    Succeeds (block (fuel + 1) owner) state (fun _ after => after.ahead = tail) := by
  obtain ⟨body, rfl, inside⟩ := derives_block.mp derived
  simp only [List.cons_append, List.append_assoc, List.nil_append] at here
  have size := ParseState.length_of_ahead here
  rw [block]
  refine (succeeds_expect here (by simp)).bind fun _ after still behind => ?_
  have size' := ParseState.length_of_ahead behind
  simp only [List.length_cons] at size
  have listed : Succeeds (statements fuel .rBrace [] : Parser (List Stmt)) after
      (fun _ final => final.ahead = .rBrace :: tail) := by
    intro faithful
    obtain ⟨clean, left⟩ :=
      less.statements (.inr rfl) inside behind (still ▸ goes) (by omega) faithful
    exact ⟨clean, _, rfl, left⟩
  refine listed.bind fun body final _ left => ?_
  exact (succeeds_expect left more).bind fun _ _ _ done => succeeds_pure done

/-- The last part of a statement that ends in a block. -/
private theorem ending_takes {owner : Bytes} (node : List Stmt → Site → Stmt) (span : Span → Span)
    {body : List TokenKind} (derived : Derives (symbol .block) body)
    (here : state.ahead = body ++ next :: tail) (enough : 4 * state.tokens.length + 1 ≤ fuel) :
    Succeeds (block fuel owner >>= fun result => newStmt (node result.1) (span result.2)) state
      (fun _ after => after.ahead = next :: tail) := by
  refine (less.block derived here (by simp) goes enough).bind fun result after _ left => ?_
  exact (succeeds_newStmt _ _).mono fun _ _ kept => kept.trans left

private theorem whileLoop_take {cond body : List TokenKind} (first : Derives (symbol .expr) cond)
    (second : Derives (symbol .block) body)
    (here : state.ahead = .kwWhile :: (cond ++ (body ++ next :: tail)))
    (enough : 4 * state.tokens.length + 2 ≤ fuel + 1) :
    Succeeds (whileLoop (fuel + 1)) state (fun _ after => after.ahead = next :: tail) := by
  obtain ⟨rest, rfl⟩ := block_eq_cons second
  have behind := ParseState.ahead_advance here (by simp)
  have size := ParseState.length_of_ahead here
  have size' := ParseState.length_of_ahead behind
  simp only [List.length_append, List.length_cons] at size size'
  rw [whileLoop]
  refine Succeeds.advance ((expression_takes first behind ⟨_, _, rfl, rfl⟩ (by omega)).bind
    fun e after still left => ?_)
  have size'' := ParseState.length_of_ahead left
  simp only [List.length_append, List.length_cons] at size''
  exact ending_takes less (by rw [← still, isEnough_advance, goes])
    (fun body site => .whileLoop site e body) (state.head.span.cover ·) second left (by omega)

private theorem conditional_take {word : List TokenKind} (derived : Derives (symbol .ifStmt) word)
    (here : state.ahead = word ++ next :: tail) (ends : next ≠ .kwElse)
    (enough : 4 * state.tokens.length + 2 ≤ fuel + 1) :
    Succeeds (conditional (fuel + 1)) state (fun _ after => after.ahead = next :: tail) := by
  obtain ⟨cond, body, other, rfl, first, second, third⟩ := derives_ifStmt.mp derived
  obtain ⟨rest, rfl⟩ := block_eq_cons second
  simp only [List.cons_append, List.append_assoc] at here
  have behind := ParseState.ahead_advance here (by simp)
  have size := ParseState.length_of_ahead here
  have size' := ParseState.length_of_ahead behind
  simp only [List.length_append, List.length_cons] at size size'
  rw [conditional]
  refine Succeeds.advance ((expression_takes first behind ⟨_, _, rfl, rfl⟩ (by omega)).bind
    fun e after still left => ?_)
  have size'' := ParseState.length_of_ahead left
  simp only [List.length_append, List.length_cons] at size''
  have goes' : after.isEnough = false := by rw [← still, isEnough_advance, goes]
  change Succeeds (block fuel _ >>= fun inside => atKind .kwElse >>= fun again =>
    if !again then
      newStmt (.ifElse · e inside.1 [] false) (state.head.span.cover inside.2)
    else advance >>= fun _ => atKind .kwIf >>= fun again =>
      if again then conditional fuel >>= fun nested =>
        newStmt (.ifElse · e inside.1 [nested] true)
          ((state.head.span.cover inside.2).cover nested.span)
      else block fuel _ >>= fun second =>
        newStmt (.ifElse · e inside.1 second.1 true)
          ((state.head.span.cover inside.2).cover second.2)) after _
  rcases third with rfl | ⟨other, rfl, otherwise⟩
  · refine (less.block second left (by simp) goes' (by omega)).bind fun inside final _ left => ?_
    refine Succeeds.atKind (succeeds_ite (fun _ => ?_) fun wrong => ?_)
    · exact (succeeds_newStmt _ _).mono fun _ _ kept => kept.trans left
    · simp [ParseState.at?, ParseState.head_of_ahead left, ends] at wrong
  · refine (less.block second left (by simp) goes' (by omega)).bind fun inside final still' left => ?_
    have final' : final.advance.ahead = other ++ next :: tail :=
      ParseState.ahead_advance left (by simp)
    have goes'' : final.advance.isEnough = false := by rw [isEnough_advance, ← still', goes']
    have size₃ := ParseState.length_of_ahead final'
    simp only [List.length_append, List.length_cons] at size size₃
    refine Succeeds.atKind (succeeds_ite (fun wrong => ?_) fun _ => ?_)
    · simp [ParseState.at?, ParseState.head_of_ahead left] at wrong
    refine Succeeds.advance (Succeeds.atKind ?_)
    rcases otherwise with block | nested
    · obtain ⟨rest, rfl⟩ := block_eq_cons block
      refine succeeds_ite (fun wrong => ?_) fun _ => ending_takes less goes''
        (fun other site => .ifElse site e inside.1 other true)
        ((state.head.span.cover inside.2).cover ·) block final' (by omega)
      simp [ParseState.at?, ParseState.head_of_ahead final'] at wrong
    · have again : final.advance.head.kind = .kwIf := by
        obtain ⟨_, _, _, rfl, -⟩ := derives_ifStmt.mp nested
        exact ParseState.head_of_ahead final'
      refine succeeds_ite (fun _ => ?_) fun wrong => absurd (by rw [ParseState.at?, again]; rfl) wrong
      refine (less.conditional nested final' ends goes'' (by omega)).bind fun nested last _ left => ?_
      exact (succeeds_newStmt _ _).mono fun _ _ kept => kept.trans left

private theorem forLimit_take {keyword name : Token} {start : Expr} {stop step body : List TokenKind}
    (second : Derives (symbol .expr) stop)
    (third : step = [] ∨ ∃ value, step = .kwStep :: value ∧ Derives (symbol .expr) value)
    (inside : Derives (symbol .block) body)
    (here : state.ahead = .kwTo :: (stop ++ (step ++ (body ++ next :: tail))))
    (enough : 4 * state.tokens.length ≤ fuel) :
    Succeeds (forLimit fuel keyword name start) state (fun _ after => after.ahead = next :: tail) := by
  obtain ⟨rest, rfl⟩ := block_eq_cons inside
  have size := ParseState.length_of_ahead here
  simp only [List.length_append, List.length_cons] at size
  unfold forLimit
  refine Succeeds.peek ((succeeds_expect here (by simp)).bind fun _ limit still behind => ?_)
  have size' := ParseState.length_of_ahead behind
  simp only [List.length_append, List.length_cons] at size'
  rcases third with rfl | ⟨value, rfl, derived⟩
  · refine (expression_takes second behind ⟨_, _, rfl, rfl⟩ (by omega)).bind fun e after still' left => ?_
    have size'' := ParseState.length_of_ahead left
    simp only [List.length_append, List.length_cons] at size''
    refine Succeeds.atKind (succeeds_ite (fun wrong => ?_) fun _ => ?_)
    · simp [ParseState.at?, ParseState.head_of_ahead left] at wrong
    · exact ending_takes less (by rw [← still', ← still, goes])
        (fun body site => .forLoop site name.text name.span start e .absent body)
        (keyword.span.cover ·) inside left (by omega)
  · refine (expression_takes second behind ⟨_, _, rfl, rfl⟩ (by omega)).bind fun e after still' left => ?_
    have size'' := ParseState.length_of_ahead left
    have stepped : after.advance.ahead = value ++ (.lBrace :: rest ++ next :: tail) :=
      ParseState.ahead_advance left (by simp)
    have size₃ := ParseState.length_of_ahead stepped
    simp only [List.length_append, List.length_cons] at size size' size'' size₃
    refine Succeeds.atKind (succeeds_ite (fun _ => ?_) fun wrong => ?_)
    · refine Succeeds.advance ((expression_takes derived stepped ⟨_, _, rfl, rfl⟩ (by omega)).bind
        fun e' final still'' left' => ?_)
      have size₄ := ParseState.length_of_ahead left'
      simp only [List.length_append, List.length_cons] at size₄
      refine ending_takes less ?_
        (fun body site => .forLoop site name.text name.span start e e' body)
        (keyword.span.cover ·) inside left' (by omega)
      rw [← still'', isEnough_advance, ← still', ← still, goes]
    · simp [ParseState.at?, ParseState.head_of_ahead left] at wrong

private theorem forLoop_take {start stop step body : List TokenKind}
    (first : Derives (symbol .expr) start) (second : Derives (symbol .expr) stop)
    (third : step = [] ∨ ∃ value, step = .kwStep :: value ∧ Derives (symbol .expr) value)
    (inside : Derives (symbol .block) body)
    (here : state.ahead = .kwFor :: .ident :: .assign :: (start ++ .kwTo :: (stop ++ (step ++
      (body ++ next :: tail)))))
    (enough : 4 * state.tokens.length + 2 ≤ fuel + 1) :
    Succeeds (forLoop (fuel + 1)) state (fun _ after => after.ahead = next :: tail) := by
  have behind := ParseState.ahead_advance here (by simp)
  have size := ParseState.length_of_ahead here
  simp only [List.length_append, List.length_cons] at size
  rw [forLoop_eq]
  refine Succeeds.advance ((succeeds_expect behind (by simp)).bind fun _ named still₁ behind => ?_)
  refine (succeeds_expect behind (by simp)).bind fun _ assigned still₂ behind => ?_
  have size' := ParseState.length_of_ahead behind
  simp only [List.length_append, List.length_cons] at size'
  refine (expression_takes first behind ⟨_, _, rfl, rfl⟩ (by omega)).bind fun e after still₃ left => ?_
  have size'' := ParseState.length_of_ahead left
  simp only [List.length_append, List.length_cons] at size''
  refine forLimit_take less ?_ second third inside left (by omega)
  rw [← still₃, ← still₂, ← still₁, isEnough_advance, goes]

private theorem statement_take {word : List TokenKind} (derived : Derives (symbol .stmt) word)
    (here : state.ahead = word ++ next :: tail) (ends : next ≠ .kwElse)
    (enough : 4 * state.tokens.length + 3 ≤ fuel + 1) :
    Succeeds (statement (fuel + 1)) state (fun _ after => after.ahead = next :: tail) := by
  have size := ParseState.length_of_ahead here
  rw [statement]
  refine Succeeds.peek ?_
  rcases derives_stmt.mp derived with ⟨value, rfl, inside⟩ | rfl | ⟨value, rfl, inside⟩ |
    conditional | ⟨cond, body, rfl, first, second⟩ |
    ⟨start, stop, step, body, rfl, first, second, third, inside⟩
  · simp only [List.cons_append, List.append_assoc, List.nil_append] at here
    have behind := ParseState.ahead_advance here (by simp)
    simp only [List.length_append, List.length_cons, List.length_nil] at size
    rw [ParseState.head_of_ahead here]
    unfold assign
    refine Succeeds.advance ((succeeds_expect behind (by simp)).bind fun _ after _ left => ?_)
    have size' := ParseState.length_of_ahead left
    simp only [List.length_append, List.length_cons] at size'
    exact closing_takes inside left (by omega)
  · simp only [List.cons_append, List.nil_append] at here
    have behind := ParseState.ahead_advance here (by simp)
    rw [ParseState.head_of_ahead here]
    unfold read
    refine Succeeds.advance ((succeeds_expect behind (by simp)).bind fun _ after _ left => ?_)
    refine (semicolon_takes left (by simp)).bind fun _ last _ left => ?_
    exact (succeeds_newStmt _ _).mono fun _ _ kept => kept.trans left
  · simp only [List.cons_append, List.append_assoc, List.nil_append] at here
    have behind := ParseState.ahead_advance here (by simp)
    have size' := ParseState.length_of_ahead behind
    simp only [List.length_append, List.length_cons, List.length_nil] at size size'
    rw [ParseState.head_of_ahead here]
    unfold print
    exact Succeeds.advance (closing_takes inside behind (by omega))
  · have starts : state.head.kind = .kwIf := by
      obtain ⟨_, _, _, rfl, -⟩ := derives_ifStmt.mp conditional
      exact ParseState.head_of_ahead here
    rw [starts]
    exact less.conditional conditional here ends goes (by omega)
  · simp only [List.cons_append, List.append_assoc] at here
    rw [ParseState.head_of_ahead here]
    exact less.whileLoop first second here goes (by omega)
  · simp only [List.cons_append, List.append_assoc] at here
    rw [ParseState.head_of_ahead here]
    exact less.forLoop first second third inside here goes (by omega)

private theorem statements_take {terminator : TokenKind} {done : List Stmt} {word : List TokenKind}
    (known : terminator = .eof ∨ terminator = .rBrace) (derived : Derives (symbol .program) word)
    (here : state.ahead = word ++ terminator :: tail)
    (enough : 4 * state.tokens.length + 4 ≤ fuel + 1) :
    Completes (statements (fuel + 1) terminator done) state (·.ahead = terminator :: tail) := by
  rw [statements]
  refine Completes.get ?_
  cases derives_symbol.mp derived with
  | done =>
    refine completes_ite (fun _ _ => ⟨rfl, here⟩) fun wrong => ?_
    simp [ParseState.at?, ParseState.head_of_ahead here] at wrong
  | @more _ u v first rest =>
    obtain ⟨kind, others, rfl, starts⟩ := stmt_eq_cons first
    have head := ParseState.head_of_ahead here
    have plain : kind ≠ .eof ∧ kind ≠ .rBrace ∧ kind ≠ terminator := by
      rcases known with rfl | rfl <;> revert starts <;> cases kind <;> decide
    refine completes_ite (fun wrong => ?_) fun _ => ?_
    · simp [ParseState.at?, head, plain] at wrong
    refine completes_ite (fun wrong => absurd wrong (by simp [goes])) fun _ => ?_
    refine completes_ite (fun wrong => ?_) fun _ => ?_
    · simp [ParseState.at?, head, plain] at wrong
    -- What follows the statement is the next one or the terminator.
    have follows : ∃ next tail', v ++ terminator :: tail = next :: tail' ∧ next ≠ .kwElse := by
      cases rest with
      | done => exact ⟨terminator, tail, rfl, by rcases known with rfl | rfl <;> decide⟩
      | more second _ =>
        obtain ⟨next, _, rfl, starts⟩ := stmt_eq_cons second
        exact ⟨next, _, rfl, by rintro rfl; revert starts; decide⟩
    obtain ⟨next, tail', same, plain'⟩ := follows
    rw [List.append_assoc, same] at here
    have size := ParseState.length_of_ahead here
    have moves := (inferInstance : Grows (statement fuel).run).grown state
    intro faithful
    have taken := less.statement first here plain' goes (by omega) faithful
    rw [StateT.run_bind]
    rcases ran : (statement fuel).run.run state with ⟨_ | s, after⟩ <;> rw [ran] at taken moves
    · obtain ⟨-, _, ⟨⟩, -⟩ := taken
    · obtain ⟨clean, _, ⟨⟩, left⟩ := taken
      have size' := ParseState.length_of_ahead left
      simp only [List.length_append, List.length_cons] at size size'
      have later : Completes (statements fuel terminator (s :: done)) after
          (·.ahead = terminator :: tail) :=
        less.statements known (.symbol rest) (left.trans same.symm)
          (by rw [ParseState.isEnough_same moves clean, goes]) (by omega)
      obtain ⟨errors, left⟩ := later (faithful.grown moves)
      exact ⟨errors.trans clean, left⟩

end

private theorem stmts_take (fuel : Nat) : StmtsTake fuel := by
  induction fuel with
  | zero => constructor <;> intros <;> omega
  | succ fuel less =>
    exact ⟨fun known derived here goes enough => statements_take less goes known derived here enough,
      fun derived here ends goes enough => statement_take less goes derived here ends enough,
      fun derived here more goes enough => block_take less goes derived here more enough,
      fun derived here ends goes enough => conditional_take less goes derived here ends enough,
      fun first second here goes enough => whileLoop_take less goes first second here enough,
      fun first second third inside here goes enough =>
        forLoop_take less goes first second third inside here enough⟩

end Parser

/-- The tokens in front of the end of the file. -/
def Tokens.body (tokens : List Token) : List Token := tokens.takeWhile (·.kind != .eof)

theorem Tokens.Whole.eq_body {tokens : List Token} (whole : Tokens.Whole tokens) :
    ∃ last : Token, last.kind = .eof ∧ tokens = Tokens.body tokens ++ [last] := by
  obtain ⟨body, last, rfl, ended, inside⟩ := whole.ends
  refine ⟨last, ended, ?_⟩
  rw [Tokens.body, List.takeWhile_append_of_pos fun token member => by simp [inside token member]]
  simp [ended]

/-- What the grammar derives is parsed without an error. -/
theorem Program.parse_derived {tokens : List Token} (whole : Tokens.Whole tokens) (maxErrors : Nat)
    (derived : Derives (symbol .program) ((Tokens.body tokens).map Token.kind)) :
    (Program.parse { maxErrors } tokens).errors = 0 := by
  obtain ⟨last, ended, split⟩ := whole.eq_body
  have here : (ParseState.start { maxErrors } tokens).ahead =
      (Tokens.body tokens).map Token.kind ++ .eof :: [] := by
    conv_lhs => rw [ParseState.ahead, ParseState.start, split, List.map_append]
    rw [List.map_singleton, ended]
  have goes : (ParseState.start { maxErrors } tokens).isEnough = false := by
    simp [ParseState.start, ParseState.isEnough]
  exact ((Parser.stmts_take (8 * tokens.length + 16)).statements (.inl rfl) derived here goes
    (by simp [ParseState.start]; omega) whole.faithful).1

/-- A parse without errors spells out the tokens. -/
theorem SourceFile.parse_spelled {file : SourceFile} {maxErrors : Nat}
    (clean : (Program.parse { maxErrors } file.tokens).errors = 0) :
    Stmt.AllShaped (Program.parse { maxErrors } file.tokens).program.stmts ∧
      Stmt.SpellAll (Program.parse { maxErrors } file.tokens).program.stmts
        ((Tokens.body file.tokens).map Token.word) := by
  obtain ⟨last, -, split⟩ := file.tokens_whole.eq_body
  obtain ⟨shaped, other, -, body, same, spells⟩ :=
    Program.parse_spells file.tokens_whole maxErrors clean
  obtain ⟨rfl, -⟩ := List.append_inj' (same.symm.trans split) rfl
  exact ⟨shaped, spells⟩

/-- There are no errors where every token is valid and the grammar derives their kinds. -/
theorem SourceFile.errors_eq_zero_iff (file : SourceFile) (maxErrors : Nat) :
    (Program.parse { maxErrors } file.tokens).errors = 0 ↔
      (∀ token ∈ file.tokens, token.kind ≠ .invalid) ∧
        Derives (symbol .program) ((Tokens.body file.tokens).map Token.kind) := by
  have whole := file.tokens_whole
  obtain ⟨last, ended, split⟩ := whole.eq_body
  refine ⟨fun clean => ?_, fun derived => Program.parse_derived whole maxErrors derived.2⟩
  obtain ⟨shaped, spells⟩ := SourceFile.parse_spelled clean
  have proper : Stmt.AllProper (fun _ => True) (Program.parse { maxErrors } file.tokens).program.stmts :=
    Program.parse_proper _ fun token _ => fun _ => trivial
  have derived := Stmt.SpellAll.derives spells shaped proper
  have kinds : kindsOf ((Tokens.body file.tokens).map Token.word) =
      (Tokens.body file.tokens).map Token.kind := by
    rw [kindsOf, List.map_map]
    rfl
  rw [kinds] at derived
  refine ⟨fun token member invalid => ?_, derived⟩
  rw [split, List.mem_append, List.mem_singleton] at member
  rcases member with inside | rfl
  · have never : TokenKind.invalid ∉ (Tokens.body file.tokens).map Token.kind :=
      not_mem_of_derives (fun name => by cases name <;> rfl) derived rfl
    exact never (invalid ▸ List.mem_map_of_mem inside)
  · rw [ended] at invalid
    cases invalid

/-- The parser accepts exactly what the grammar derives, and its trees read back as the tokens,
with every operand where the precedences put it. -/
theorem SourceFile.parse_exact (file : SourceFile) (maxErrors : Nat) :
    ((Program.parse { maxErrors } file.tokens).errors = 0 ↔
      (∀ token ∈ file.tokens, token.kind ≠ .invalid) ∧
        Derives (symbol .program) ((Tokens.body file.tokens).map Token.kind)) ∧
    ((Program.parse { maxErrors } file.tokens).errors = 0 →
      Stmt.AllShaped (Program.parse { maxErrors } file.tokens).program.stmts ∧
      Stmt.SpellAll (Program.parse { maxErrors } file.tokens).program.stmts
        ((Tokens.body file.tokens).map Token.word)) :=
  ⟨file.errors_eq_zero_iff maxErrors, SourceFile.parse_spelled⟩

end Minilang
