import Minilang.Proofs.ArenaContents
import Minilang.Proofs.FileTokens
import Minilang.Proofs.ParserSoundness

/-! The number of a file shows in spans only, and the limit on errors matters only once there is
one. So two parses of one content under different numbers and limits go side by side, until both
have something to report. -/

namespace Minilang

/-- The same place in another file. -/
def Span.inFile (file : UInt32) (span : Span) : Span := { span with file }

def Site.inFile (file : UInt32) (site : Site) : Site := { site with span := site.span.inFile file }

def Expr.inFile (file : UInt32) : Expr → Expr
  | .absent => .absent
  | .hollow site kind => .hollow (site.inFile file) kind
  | .unknown site => .unknown (site.inFile file)
  | .intLit site text value => .intLit (site.inFile file) text value
  | .varRef site name => .varRef (site.inFile file) name
  | .binary site form op left right =>
      .binary (site.inFile file) form op (left.inFile file) (right.inFile file)
  | .unary site op operand => .unary (site.inFile file) op (operand.inFile file)
  | .paren site inner => .paren (site.inFile file) (inner.inFile file)
  | .read site => .read (site.inFile file)

mutual

def Stmt.inFile (file : UInt32) : Stmt → Stmt
  | .absent => .absent
  | .hollow site kind => .hollow (site.inFile file) kind
  | .unknown site => .unknown (site.inFile file)
  | .assign site name span value =>
      .assign (site.inFile file) name (span.inFile file) (value.inFile file)
  | .read site name span => .read (site.inFile file) name (span.inFile file)
  | .print site value => .print (site.inFile file) (value.inFile file)
  | .ifElse site cond thenBody elseBody hasElse =>
      .ifElse (site.inFile file) (cond.inFile file) (Stmt.allInFile file thenBody)
        (Stmt.allInFile file elseBody) hasElse
  | .whileLoop site cond body =>
      .whileLoop (site.inFile file) (cond.inFile file) (Stmt.allInFile file body)
  | .forLoop site name span start stop step body =>
      .forLoop (site.inFile file) name (span.inFile file) (start.inFile file) (stop.inFile file)
        (step.inFile file) (Stmt.allInFile file body)

def Stmt.allInFile (file : UInt32) : List Stmt → List Stmt
  | [] => []
  | s :: rest => s.inFile file :: Stmt.allInFile file rest

end

def Trivia.inFile (file : UInt32) (piece : Trivia) : Trivia :=
  { piece with span := piece.span.inFile file }

def Token.inFile (file : UInt32) (token : Token) : Token :=
  { token with span := token.span.inFile file, leading := token.leading.map (Trivia.inFile file) }

theorem Stmt.allInFile_eq (file : UInt32) (body : List Stmt) :
    Stmt.allInFile file body = body.map (Stmt.inFile file) := by
  induction body with
  | nil => rfl
  | cons s rest ih => rw [Stmt.allInFile, ih, List.map_cons]

theorem Stmt.allInFile_reverse (file : UInt32) (body : List Stmt) :
    Stmt.allInFile file body.reverse = (Stmt.allInFile file body).reverse := by
  simp [Stmt.allInFile_eq]

def Cursor.inFile (file : UInt32) (cursor : Cursor) : Cursor := { cursor with file }

namespace Cursor

variable (file : UInt32) (cursor : Cursor)

theorem trivia?_inFile : (cursor.inFile file).trivia? =
    cursor.trivia?.map fun (piece, next) => (piece.inFile file, next.inFile file) := by
  obtain ⟨number, content, size, offset, rest⟩ := cursor
  cases rest with
  | nil => rfl
  | cons b rest =>
    simp only [trivia?, Cursor.inFile]
    split
    · rfl
    · split
      · rfl
      · split <;> rfl

theorem triviaLoop_inFile (done : List Trivia) :
    (cursor.inFile file).triviaLoop (done.map (Trivia.inFile file)) =
      ((cursor.triviaLoop done).1.map (Trivia.inFile file), (cursor.triviaLoop done).2.inFile file) := by
  fun_induction Cursor.triviaLoop cursor done with
  | case1 cursor done piece next step shorter ih =>
    have moved : (cursor.inFile file).trivia? = some (piece.inFile file, next.inFile file) := by
      rw [trivia?_inFile, step]
      rfl
    rw [Cursor.triviaLoop]
    split
    next other after found =>
      rw [moved] at found
      cases found
      exact ih
    next found =>
      rw [moved] at found
      cases found
  | case2 cursor done step =>
    have moved : (cursor.inFile file).trivia? = none := by
      rw [trivia?_inFile, step]
      rfl
    rw [Cursor.triviaLoop]
    split
    next other after found =>
      rw [moved] at found
      cases found
    next => rw [List.map_reverse]

theorem scanSymbol_inFile : (cursor.inFile file).scanSymbol =
    (cursor.scanSymbol.1.inFile file, cursor.scanSymbol.2.inFile file) := by
  have bumped : (cursor.inFile file).bumpRune = cursor.bumpRune.inFile file := by
    unfold bumpRune
    simp only [Cursor.inFile]
    split <;> rfl
  unfold scanSymbol
  rw [bumped]
  simp only [Cursor.inFile]
  split <;> rfl

theorem scanNumber_inFile : (cursor.inFile file).scanNumber =
    (cursor.scanNumber.1.inFile file, cursor.scanNumber.2.inFile file) := by
  have takes : ∀ (cursor : Cursor) test, (cursor.inFile file).takeWhile test =
      ((cursor.takeWhile test).1, (cursor.takeWhile test).2.inFile file) := fun _ _ => rfl
  simp only [scanNumber, takes]
  generalize (cursor.takeWhile Bytes.isDigit).1 = digits
  generalize (cursor.takeWhile Bytes.isDigit).2.takeWhile Lexeme.isIdentContinue = tail
  cases tail.1.isEmpty with
  | false => rfl
  | true =>
    by_cases large : Lexeme.maxLiteral < Bytes.digitsValue digits
    · simp only [if_pos large]
      rfl
    · simp only [if_neg large]
      rfl

theorem scan_inFile : (cursor.inFile file).scan =
    (cursor.scan.1.inFile file, cursor.scan.2.inFile file) := by
  have trivia := triviaLoop_inFile file cursor []
  rw [List.map_nil] at trivia
  unfold scan skipTrivia
  rw [trivia]
  simp only
  generalize (cursor.triviaLoop []).1 = leading
  generalize (cursor.triviaLoop []).2 = here
  have same : (here.inFile file).rest = here.rest := rfl
  rw [same]
  cases here.rest with
  | nil => rfl
  | cons b rest =>
    simp only
    split
    · rfl
    · split
      · rw [scanNumber_inFile]
        rfl
      · rw [scanSymbol_inFile]
        rfl

end Cursor

theorem Lexer.allLoop_inFile (file : UInt32) (fuel : Nat) {lexer other : Lexer}
    (free : lexer.ahead = none) (idle : other.ahead = none)
    (same : other.cursor = lexer.cursor.inFile file) (done : Array Token) :
    (Lexer.allLoop fuel other (done.map (Token.inFile file))).1 =
      (Lexer.allLoop fuel lexer done).1.map (Token.inFile file) := by
  induction fuel generalizing lexer other done with
  | zero => rfl
  | succ fuel ih =>
    have scanned := lexer.cursor.scan_inFile file
    rw [← same] at scanned
    rw [Lexer.allLoop, Lexer.allLoop]
    simp only [Lexer.next, free, idle, Lexer.pull, scanned]
    have kind : (lexer.cursor.scan.1.inFile file).kind = lexer.cursor.scan.1.kind := rfl
    rw [kind, ← Array.map_push]
    split
    · rfl
    · exact ih rfl rfl rfl _

/-- Files with one content have the same tokens at the same places. -/
theorem SourceFile.tokens_inFile {file other : SourceFile} (content : other.content = file.content)
    (size : other.size = file.size) : other.tokens = file.tokens.map (Token.inFile other.id) := by
  have cursor : (Lexer.ofFile other).cursor = (Lexer.ofFile file).cursor.inFile other.id := by
    simp [Lexer.ofFile, Cursor.ofFile, Cursor.inFile, content, size]
  have fuel : (Lexer.ofFile other).cursor.rest.length = (Lexer.ofFile file).cursor.rest.length := by
    rw [cursor]
    rfl
  have all := @Lexer.allLoop_inFile other.id ((Lexer.ofFile file).cursor.rest.length + 2)
    (Lexer.ofFile file) (Lexer.ofFile other) rfl rfl cursor #[]
  simp only [SourceFile.tokens, Lexer.all, fuel]
  rw [← Array.toList_map, ← all]
  simp

/-- The tokens of a file lie in it. -/
theorem SourceFile.tokens_home (file : SourceFile) : ∀ token ∈ file.tokens, token.span.file = file.id := by
  have same := @SourceFile.tokens_inFile file file rfl rfl
  intro token member
  rw [same] at member
  obtain ⟨other, -, rfl⟩ := List.mem_map.mp member
  rfl

/-- A span of a file and the same in another one. -/
structure Span.Beside (home away : UInt32) (span other : Span) : Prop where
  same : other = span.inFile away
  here : span.file = home

theorem Span.Beside.cover {home away : UInt32} {span other next following : Span}
    (first : span.Beside home away other) (second : next.Beside home away following) :
    (span.cover next).Beside home away (other.cover following) := by
  have here : (span.file == next.file) = true := by simp [first.here, second.here]
  have there : (other.file == following.file) = true := by
    rw [first.same, second.same]
    exact beq_self_eq_true away
  refine ⟨?_, ?_⟩
  · rw [Span.cover, Span.cover, if_pos here, if_pos there, first.same, second.same]
    rfl
  · rw [Span.cover, if_pos here]
    exact first.here

structure Token.Beside (home away : UInt32) (token other : Token) : Prop where
  same : other = token.inFile away
  span : token.span.Beside home away other.span

theorem Token.Beside.kind {home away : UInt32} {token other : Token}
    (beside : token.Beside home away other) : other.kind = token.kind := by
  rw [beside.same]
  rfl

structure Expr.Beside (home away : UInt32) (e other : Expr) : Prop where
  same : other = e.inFile away
  span : e.span.Beside home away other.span

structure Stmt.Beside (home away : UInt32) (s other : Stmt) : Prop where
  same : other = s.inFile away
  span : s.span.Beside home away other.span

theorem Exprs.size_add_inFile {exprs other : Exprs} {away : UInt32}
    (sizes : other.size = exprs.size) (e : Expr) :
    (other.add (e.inFile away)).2.size = (exprs.add e).2.size := by
  cases e with
  | absent => exact sizes
  | _ => rw [size_add _ rfl, size_add _ rfl, sizes]

theorem Stmts.size_add_inFile {stmts other : Stmts} {away : UInt32}
    (sizes : other.size = stmts.size) (s : Stmt) :
    (other.add (s.inFile away)).2.size = (stmts.add s).2.size := by
  cases s with
  | absent => exact sizes
  | _ => rw [size_add _ rfl, size_add _ rfl, sizes]

/-- Two states of parsing one content in two files, as long as there is nothing to report. -/
structure ParseState.Beside (home away : UInt32) (state other : ParseState) : Prop where
  tokens : other.tokens = state.tokens.map (Token.inFile away)
  here : ∀ token ∈ state.tokens, token.span.file = home
  rest : state.tokens ≠ []
  faithful : ∀ token ∈ state.tokens, token.Faithful
  quiet : state.log = [] ∧ other.log = []
  errors : state.errors = 0 ∧ other.errors = 0
  valid : state.head.kind ≠ .invalid
  exprs : other.arenas.exprs.size = state.arenas.exprs.size
  stmts : other.arenas.stmts.size = state.arenas.stmts.size

namespace ParseState.Beside

variable {home away : UInt32} {state other : ParseState}

theorem head (beside : state.Beside home away other) :
    state.head.Beside home away other.head ∧ state.head.kind ≠ .invalid := by
  obtain ⟨token, rest, tokens⟩ := List.exists_cons_of_ne_nil beside.rest
  have here : state.head = token := by
    rw [ParseState.head, tokens]
    rfl
  have there : other.head = token.inFile away := by
    rw [ParseState.head, beside.tokens, tokens]
    rfl
  refine ⟨⟨here ▸ there, ?_⟩, beside.valid⟩
  rw [here, there]
  exact ⟨rfl, beside.here token (by rw [tokens]; exact List.mem_cons_self)⟩

theorem at? (beside : state.Beside home away other) (kind : TokenKind) :
    other.at? kind = state.at? kind := by
  rw [ParseState.at?, ParseState.at?, beside.head.1.same]
  rfl

theorem isEnough (beside : state.Beside home away other) :
    state.isEnough = false ∧ other.isEnough = false := by
  simp only [ParseState.isEnough, beside.errors.1, beside.errors.2]
  refine ⟨?_, ?_⟩
  · cases state.maxErrors <;> rfl
  · cases other.maxErrors <;> rfl

/-- Either the next token has something to complain of, or the states stay side by side. -/
theorem advance (beside : state.Beside home away other) :
    (state.advance.log ≠ [] ∧ other.advance.log ≠ []) ∨
      state.advance.Beside home away other.advance := by
  obtain ⟨tokens, here, rest, faithful, quiet, errors, valid, exprs, stmts⟩ := beside
  unfold ParseState.advance
  cases split : state.tokens with
  | nil => exact (rest split).elim
  | cons token tail =>
    rw [split] at tokens here faithful
    cases tail with
    | nil =>
      simp only [tokens, List.map_cons, List.map_nil]
      refine .inr ⟨rfl, here, List.cons_ne_nil _ _, faithful, quiet, errors, ?_, exprs, stmts⟩
      simpa [ParseState.head, split] using valid
    | cons next tail =>
      simp only [tokens, List.map_cons]
      have belongs := faithful next (by simp)
      by_cases wrong : next.kind = .invalid
      · obtain ⟨code, -, message, complaint⟩ := belongs.invalid wrong
        left
        simp [Token.reports, Token.inFile, complaint]
      · have silent : next.reports = [] ∧ (next.inFile away).reports = [] := by
          simp [Token.reports, Token.inFile, belongs.valid wrong]
        refine .inr ⟨rfl, ?_, List.cons_ne_nil _ _, ?_, ?_, errors, wrong, exprs, stmts⟩
        · exact fun other member => here other (List.mem_cons_of_mem _ member)
        · exact fun other member => faithful other (List.mem_cons_of_mem _ member)
        · simp [silent, quiet]

theorem starve (beside : state.Beside home away other) :
    { state with starved := true }.Beside home away { other with starved := true } :=
  ⟨beside.tokens, beside.here, beside.rest, beside.faithful, beside.quiet, beside.errors,
    beside.valid, beside.exprs, beside.stmts⟩

/-- A report shows in both logs. -/
theorem report (beside : state.Beside home away other) (code : Code) (span place : Span)
    (message text : Bytes) : (state.report code span message).log ≠ [] ∧
      (other.report code place text).log ≠ [] := by
  simp [ParseState.report, beside.isEnough]

end ParseState.Beside

namespace Parser

variable {home away : UInt32} {α β γ δ : Type}

/-- Two steps that keep side by side and give matching values, unless both logs show something. -/
def Abreast (home away : UInt32) (matching : α → β → Prop) (p : StateM ParseState α)
    (q : StateM ParseState β) : Prop :=
  ∀ state other : ParseState, state.Beside home away other →
    ((p.run state).2.log ≠ [] ∧ (q.run other).2.log ≠ []) ∨
      ((p.run state).2.Beside home away (q.run other).2 ∧ matching (p.run state).1 (q.run other).1)

variable {matching : α → β → Prop} {better : γ → δ → Prop}

theorem Grows.log {step : StateM ParseState α} (grows : Grows step) {state : ParseState}
    (some_ : state.log ≠ []) : (step.run state).2.log ≠ [] := by
  intro empty
  have kept := (grows.grown state).kept
  rw [empty, List.suffix_nil] at kept
  exact some_ kept

theorem abreast_pure {a : α} {b : β} (matched : matching a b) :
    Abreast home away matching (pure a) (pure b) :=
  fun _ _ beside => .inr ⟨beside, matched⟩

theorem Abreast.bind {p : StateM ParseState α} {q : StateM ParseState β}
    {next : α → StateM ParseState γ} {following : β → StateM ParseState δ}
    (first : Abreast home away matching p q)
    (rest : ∀ a b, matching a b → Abreast home away better (next a) (following b))
    [grows : ∀ a, Grows (next a)] [follows : ∀ b, Grows (following b)] :
    Abreast home away better (p >>= next) (q >>= following) := by
  intro state other beside
  rcases first state other beside with ⟨here, there⟩ | ⟨still, matched⟩
  · exact .inl ⟨(grows _).log here, (follows _).log there⟩
  · exact rest _ _ matched _ _ still

/-- Looking at the state changes nothing. -/
theorem Abreast.get {next : ParseState → StateM ParseState γ}
    {following : ParseState → StateM ParseState δ}
    (rest : ∀ state other, state.Beside home away other →
      Abreast home away better (next state) (following other)) :
    Abreast home away better (get >>= next) (get >>= following) :=
  fun state other beside => rest state other beside state other beside

theorem abreast_modify {change copy : ParseState → ParseState}
    (moves : ∀ state other : ParseState, state.Beside home away other →
      ((change state).log ≠ [] ∧ (copy other).log ≠ []) ∨
        (change state).Beside home away (copy other)) :
    Abreast home away (fun _ _ => True) (modify change) (modify copy) := by
  intro state other beside
  rcases moves state other beside with dirty | still
  · exact .inl dirty
  · exact .inr ⟨still, trivial⟩

/-- Both fail, or both give matching values. -/
abbrev Together (home away : UInt32) (matching : α → β → Prop) (p : Parser α) (q : Parser β) :
    Prop :=
  Abreast home away (Option.Rel matching) p.run q.run

theorem together_pure {a : α} {b : β} (matched : matching a b) :
    Together home away matching (pure a) (pure b) :=
  fun _ _ beside => .inr ⟨beside, .some matched⟩

theorem Together.bind {p : Parser α} {q : Parser β} {next : α → Parser γ} {following : β → Parser δ}
    (first : Together home away matching p q)
    (rest : ∀ a b, matching a b → Together home away better (next a) (following b))
    [grows : ∀ a, Grows (next a).run] [follows : ∀ b, Grows (following b).run] :
    Together home away better (p >>= next) (q >>= following) := by
  intro state other beside
  rw [run_bind, run_bind]
  rcases hp : p.run.run state with ⟨result, after⟩
  rcases hq : q.run.run other with ⟨answer, later⟩
  have both := first state other beside
  rw [hp, hq] at both
  rcases both with ⟨here, there⟩ | ⟨still, matched⟩
  · left
    cases result with
    | none =>
      cases answer with
      | none => exact ⟨here, there⟩
      | some b => exact ⟨here, (follows b).log there⟩
    | some a =>
      cases answer with
      | none => exact ⟨(grows a).log here, there⟩
      | some b => exact ⟨(grows a).log here, (follows b).log there⟩
  · cases matched with
    | none => exact .inr ⟨still, .none⟩
    | some matched => exact rest _ _ matched _ _ still

theorem together_lift {p : StateM ParseState α} {q : StateM ParseState β}
    (abreast : Abreast home away matching p q) :
    Together home away matching (p : Parser α) (q : Parser β) := by
  intro state other beside
  rcases abreast state other beside with dirty | ⟨still, matched⟩
  · exact .inl dirty
  · exact .inr ⟨still, .some matched⟩

/-- Looking at the next token changes nothing. -/
theorem Together.peek {next : Token → Parser γ} {following : Token → Parser δ}
    (rest : ∀ token other, token.Beside home away other → token.kind ≠ .invalid →
      Together home away better (next token) (following other)) :
    Together home away better (peek >>= next) (peek >>= following) :=
  fun state other beside => rest _ _ beside.head.1 beside.head.2 state other beside

theorem Together.atKind (kind : TokenKind) {next : Bool → Parser γ} {following : Bool → Parser δ}
    (rest : ∀ there, Together home away better (next there) (following there)) :
    Together home away better (atKind kind >>= next) (atKind kind >>= following) := by
  intro state other beside
  have both := rest (state.at? kind) state other beside
  rw [run_bind, run_bind]
  simp only [show ∀ state, (Parser.atKind kind).run.run state = (some (state.at? kind), state) from
    fun _ => rfl, beside.at? kind]
  exact both

theorem together_advance : Together home away (Token.Beside home away) advance advance := by
  intro state other beside
  rcases beside.advance with dirty | still
  · exact .inl dirty
  · exact .inr ⟨still, .some beside.head.1⟩

theorem together_fail (code : Code) (message text : Bytes) :
    Together home away matching (fail code message : Parser α) (fail code text : Parser β) :=
  fun _ _ beside => .inl (beside.report code _ _ message text)

theorem together_starve : Together home away matching (starve : Parser α) (starve : Parser β) :=
  fun _ _ beside => .inr ⟨beside.starve, .none⟩

theorem together_checkLiteral (token other : Token) (text : other.text = token.text) :
    Together home away (fun _ _ => True) (checkLiteral token) (checkLiteral other) := by
  unfold checkLiteral
  rw [text]
  split
  · exact together_pure trivial
  · exact together_lift (abreast_modify fun _ _ beside => .inl (beside.report _ _ _ _ _))

theorem together_expect (kind : TokenKind) (code : Code) (message : Bytes) :
    Together home away (Token.Beside home away) (expect kind code message)
      (expect kind code message) := by
  intro state other beside
  have looked : ∀ state kind, (atKind kind).run.run state = (some (state.at? kind), state) :=
    fun _ _ => rfl
  have sound : state.at? .invalid = false := by simpa [ParseState.at?] using beside.valid
  rw [expect, run_bind, run_bind, looked, looked]
  simp only [beside.at? kind]
  cases state.at? kind with
  | true => exact together_advance state other beside
  | false =>
    simp only [Bool.false_eq_true, if_false]
    rw [run_bind, run_bind, looked, looked]
    simp only [beside.at? .invalid, sound]
    exact together_fail code message message state other beside

theorem together_newExpr {node : Site → Expr} {mirror : Site → Expr} {span place : Span}
    (placed : span.Beside home away place)
    (mirrors : ∀ site, mirror (site.inFile away) = (node site).inFile away)
    (spans : ∀ site, (node site).span = site.span ∧ (mirror site).span = site.span) :
    Together home away (Expr.Beside home away) (newExpr node span) (newExpr mirror place) := by
  intro state other beside
  refine .inr ⟨⟨beside.tokens, beside.here, beside.rest, beside.faithful, beside.quiet,
    beside.errors, beside.valid, ?_, beside.stmts⟩, .some ⟨?_, ?_⟩⟩
  · change (other.arenas.exprs.add _).2.size = (state.arenas.exprs.add _).2.size
    rw [placed.same, beside.exprs]
    exact mirrors ⟨_, span⟩ ▸ Exprs.size_add_inFile beside.exprs _
  · rw [placed.same, beside.exprs]
    exact mirrors ⟨_, span⟩
  · rw [(spans _).1, (spans _).2]
    exact placed

theorem together_newStmt {node : Site → Stmt} {mirror : Site → Stmt} {span place : Span}
    (placed : span.Beside home away place)
    (mirrors : ∀ site, mirror (site.inFile away) = (node site).inFile away)
    (spans : ∀ site, (node site).span = site.span ∧ (mirror site).span = site.span) :
    Together home away (Stmt.Beside home away) (newStmt node span) (newStmt mirror place) := by
  intro state other beside
  refine .inr ⟨⟨beside.tokens, beside.here, beside.rest, beside.faithful, beside.quiet,
    beside.errors, beside.valid, beside.exprs, ?_⟩, .some ⟨?_, ?_⟩⟩
  · change (other.arenas.stmts.add _).2.size = (state.arenas.stmts.add _).2.size
    rw [placed.same, beside.stmts]
    exact mirrors ⟨_, span⟩ ▸ Stmts.size_add_inFile beside.stmts _
  · rw [placed.same, beside.stmts]
    exact mirrors ⟨_, span⟩
  · rw [(spans _).1, (spans _).2]
    exact placed

/-- The expression parsers with some fuel. -/
private structure ExprsTogether (home away : UInt32) (fuel : Nat) : Prop where
  binary : ∀ minimum, Together home away (Expr.Beside home away) (binary fuel minimum)
    (binary fuel minimum)
  operands : ∀ minimum left other, left.Beside home away other →
    Together home away (Expr.Beside home away) (operands fuel minimum left)
      (operands fuel minimum other)
  unary : Together home away (Expr.Beside home away) (unary fuel) (unary fuel)
  primary : Together home away (Expr.Beside home away) (primary fuel) (primary fuel)

private theorem operands_together {fuel : Nat} (less : ExprsTogether home away fuel) (minimum : Nat)
    {left other : Expr} (beside : left.Beside home away other) :
    Together home away (Expr.Beside home away) (operands (fuel + 1) minimum left)
      (operands (fuel + 1) minimum other) := by
  rw [operands, operands]
  refine Together.peek fun token answer same _ => ?_
  rw [same.kind]
  cases binaryRule? token.kind with
  | none => exact together_pure beside
  | some rule =>
    simp only
    split
    · exact together_pure beside
    · refine together_advance.bind fun _ _ _ => (less.binary _).bind fun right mirror second => ?_
      refine (together_newExpr (beside.span.cover second.span) (fun site => ?_)
        fun site => ⟨rfl, rfl⟩).bind fun node copy kept => less.operands minimum node copy kept
      rw [Expr.inFile, beside.same, second.same]

private theorem unary_together {fuel : Nat} (less : ExprsTogether home away fuel) :
    Together home away (Expr.Beside home away) (unary (fuel + 1)) (unary (fuel + 1)) := by
  rw [unary]
  refine Together.peek fun token answer same _ => ?_
  rw [same.kind]
  cases unaryOp? token.kind with
  | none => exact less.primary
  | some op =>
    refine together_advance.bind fun sign mark first => less.unary.bind fun operand mirror second => ?_
    refine together_newExpr (first.span.cover second.span) (fun site => ?_) fun site => ⟨rfl, rfl⟩
    rw [Expr.inFile, second.same]

private theorem primary_together {fuel : Nat} (less : ExprsTogether home away fuel) :
    Together home away (Expr.Beside home away) (primary (fuel + 1)) (primary (fuel + 1)) := by
  rw [primary]
  refine Together.peek fun token answer same valid => ?_
  have text : answer.text = token.text := by rw [same.same]; rfl
  rw [same.kind, text]
  split
  next kind =>
    refine together_advance.bind fun _ _ _ => ?_
    refine (together_checkLiteral token answer text).bind fun _ _ _ => ?_
    exact together_newExpr same.span (fun site => rfl) fun site => ⟨rfl, rfl⟩
  next kind =>
    refine together_advance.bind fun _ _ _ => ?_
    exact together_newExpr same.span (fun site => rfl) fun site => ⟨rfl, rfl⟩
  next kind =>
    refine together_advance.bind fun _ _ _ => ?_
    exact together_newExpr same.span (fun site => rfl) fun site => ⟨rfl, rfl⟩
  next kind =>
    refine together_advance.bind fun opening mark first => ?_
    refine (less.binary 1).bind fun inner mirror second => ?_
    refine (together_expect _ _ _).bind fun closing last third => ?_
    refine together_newExpr (first.span.cover third.span) (fun site => ?_) fun site => ⟨rfl, rfl⟩
    rw [Expr.inFile, second.same]
  next kind => exact (valid kind).elim
  next => exact together_fail _ _ _

private theorem exprs_together (fuel : Nat) : ExprsTogether home away fuel := by
  induction fuel with
  | zero =>
    refine ⟨fun minimum => ?_, fun minimum left other _ => ?_, ?_, ?_⟩
    · rw [binary]; exact together_starve
    · rw [operands, operands]; exact together_starve
    · rw [unary]; exact together_starve
    · rw [primary]; exact together_starve
  | succ fuel less =>
    refine ⟨fun minimum => ?_, fun minimum left other => operands_together less minimum,
      unary_together less, primary_together less⟩
    rw [binary]
    exact less.unary.bind fun left other beside => less.operands minimum left other beside

theorem together_expression (fuel : Nat) :
    Together home away (Expr.Beside home away) (expression fuel) (expression fuel) :=
  (exprs_together fuel).binary 1

theorem together_semicolon : Together home away (Token.Beside home away) semicolon semicolon := by
  refine Together.peek fun token other same _ => ?_
  have described : other.describe = token.describe := by rw [same.same]; rfl
  rw [described]
  exact together_expect _ _ _

private theorem assign_together (fuel : Nat) :
    Together home away (Stmt.Beside home away) (assign fuel) (assign fuel) := by
  refine together_advance.bind fun name other first => ?_
  have described : other.describe = name.describe := by rw [first.same]; rfl
  have text : other.text = name.text := by rw [first.same]; rfl
  rw [described, text]
  refine (together_expect _ _ _).bind fun _ _ _ => ?_
  refine (together_expression fuel).bind fun value mirror second => ?_
  refine together_semicolon.bind fun last stop third => ?_
  refine together_newStmt (first.span.cover third.span) (fun site => ?_) fun site => ⟨rfl, rfl⟩
  rw [Stmt.inFile, second.same, first.span.same]

private theorem read_together : Together home away (Stmt.Beside home away) read read := by
  refine together_advance.bind fun keyword other first => ?_
  refine (together_expect _ _ _).bind fun name mirror second => ?_
  have text : mirror.text = name.text := by rw [second.same]; rfl
  rw [text]
  refine together_semicolon.bind fun last stop third => ?_
  refine together_newStmt (first.span.cover third.span) (fun site => ?_) fun site => ⟨rfl, rfl⟩
  rw [Stmt.inFile, second.span.same]

private theorem print_together (fuel : Nat) :
    Together home away (Stmt.Beside home away) (print fuel) (print fuel) := by
  refine together_advance.bind fun keyword other first => ?_
  refine (together_expression fuel).bind fun value mirror second => ?_
  refine together_semicolon.bind fun last stop third => ?_
  refine together_newStmt (first.span.cover third.span) (fun site => ?_) fun site => ⟨rfl, rfl⟩
  rw [Stmt.inFile, second.same]

theorem resync_beside (fuel : Nat) {state other : ParseState} (beside : state.Beside home away other) :
    ((resync fuel state).log ≠ [] ∧ (resync fuel other).log ≠ []) ∨
      (resync fuel state).Beside home away (resync fuel other) := by
  induction fuel generalizing state other with
  | zero => exact .inr beside.starve
  | succ fuel ih =>
    have further : ((resync fuel state.advance).log ≠ [] ∧ (resync fuel other.advance).log ≠ []) ∨
        (resync fuel state.advance).Beside home away (resync fuel other.advance) := by
      rcases beside.advance with ⟨here, there⟩ | still
      · refine .inl ⟨fun empty => here ?_, fun empty => there ?_⟩
        · exact List.suffix_nil.mp (empty ▸ (grown_resync fuel state.advance).kept)
        · exact List.suffix_nil.mp (empty ▸ (grown_resync fuel other.advance).kept)
      · exact ih still
    rw [resync, resync, beside.head.1.kind]
    split
    all_goals first | exact .inr beside | exact beside.advance | exact further

/-- The statement parsers with some fuel. -/
private structure StmtsTogether (home away : UInt32) (fuel : Nat) : Prop where
  statements : ∀ terminator done, Abreast home away (fun body other => other = Stmt.allInFile away body)
    (statements fuel terminator done) (statements fuel terminator (Stmt.allInFile away done))
  statement : Together home away (Stmt.Beside home away) (statement fuel) (statement fuel)
  block : ∀ owner, Together home away (fun inner other => other.1 = Stmt.allInFile away inner.1 ∧
    inner.2.Beside home away other.2) (block fuel owner) (block fuel owner)
  conditional : Together home away (Stmt.Beside home away) (conditional fuel) (conditional fuel)
  whileLoop : Together home away (Stmt.Beside home away) (whileLoop fuel) (whileLoop fuel)
  forLoop : Together home away (Stmt.Beside home away) (forLoop fuel) (forLoop fuel)

private theorem statements_together {fuel : Nat} (less : StmtsTogether home away fuel)
    (terminator : TokenKind) (done : List Stmt) :
    Abreast home away (fun body other => other = Stmt.allInFile away body)
      (statements (fuel + 1) terminator done)
      (statements (fuel + 1) terminator (Stmt.allInFile away done)) := by
  rw [statements, statements]
  refine Abreast.get fun state other beside => ?_
  simp only [beside.at?, beside.isEnough]
  split
  · refine abreast_pure ?_
    rw [Stmt.allInFile_reverse]
  · simp only [Bool.false_eq_true, if_false]
    split
    · -- A brace that closes nothing is reported on both sides.
      refine (abreast_modify fun state other beside => .inl ?_).bind fun _ _ _ =>
        less.statements terminator done
      obtain ⟨here, there⟩ := beside.report .unexpectedToken state.errorSpan other.errorSpan
        "unexpected '\x7d'" "unexpected '\x7d'"
      refine ⟨fun empty => here ?_, fun empty => there ?_⟩
      · exact List.suffix_nil.mp (empty ▸ (ParseState.grown_advance _).kept)
      · exact List.suffix_nil.mp (empty ▸ (ParseState.grown_advance _).kept)
    · refine @Abreast.bind _ _ _ _ _ _ _ _ _ _ _ _ less.statement (fun result answer matched => ?_)
        (fun result => by split <;> infer_instance)
        (fun result => by split <;> infer_instance)
      cases matched with
      | none =>
        refine (abreast_modify fun state other beside => ?_).bind fun _ _ _ =>
          less.statements terminator done
        have length : other.tokens.length = state.tokens.length := by
          rw [beside.tokens, List.length_map]
        rw [length]
        exact resync_beside state.tokens.length beside
      | @some s copy beside =>
        have moved : copy :: Stmt.allInFile away done = Stmt.allInFile away (s :: done) := by
          rw [Stmt.allInFile, beside.same]
        simp only [moved]
        exact less.statements terminator (s :: done)

private theorem statement_together {fuel : Nat} (less : StmtsTogether home away fuel) :
    Together home away (Stmt.Beside home away) (statement (fuel + 1)) (statement (fuel + 1)) := by
  rw [statement]
  refine Together.peek fun token other same valid => ?_
  rw [same.kind]
  split
  next => exact assign_together fuel
  next => exact read_together
  next => exact print_together fuel
  next => exact less.conditional
  next => exact less.whileLoop
  next => exact less.forLoop
  next kind => exact (valid kind).elim
  next => exact together_fail _ _ _

private theorem block_together {fuel : Nat} (less : StmtsTogether home away fuel) (owner : Bytes) :
    Together home away (fun inner other => other.1 = Stmt.allInFile away inner.1 ∧
      inner.2.Beside home away other.2) (block (fuel + 1) owner) (block (fuel + 1) owner) := by
  rw [block]
  refine (together_expect _ _ _).bind fun opening mark first => ?_
  refine (together_lift (less.statements .rBrace [])).bind fun body other moved => ?_
  refine (together_expect _ _ _).bind fun closing last second => ?_
  exact together_pure ⟨moved, first.span.cover second.span⟩

private theorem conditional_together {fuel : Nat} (less : StmtsTogether home away fuel) :
    Together home away (Stmt.Beside home away) (conditional (fuel + 1)) (conditional (fuel + 1)) := by
  rw [conditional]
  refine together_advance.bind fun keyword mark first => ?_
  refine (together_expression fuel).bind fun cond mirror second => ?_
  refine (less.block _).bind ?_
  rintro ⟨thenBody, thenSpan⟩ ⟨yes, yesSpan⟩ ⟨moved, third⟩
  obtain rfl : yes = Stmt.allInFile away thenBody := moved
  have span := first.span.cover third
  refine Together.atKind .kwElse fun more => ?_
  split
  · refine together_newStmt span (fun site => ?_) fun site => ⟨rfl, rfl⟩
    rw [Stmt.inFile, second.same]
    rfl
  · refine together_advance.bind fun _ _ _ => Together.atKind .kwIf fun again => ?_
    split
    · refine less.conditional.bind fun nested copy fourth => ?_
      refine together_newStmt (span.cover fourth.span) (fun site => ?_) fun site => ⟨rfl, rfl⟩
      rw [Stmt.inFile, second.same, fourth.same]
      rfl
    · refine (less.block _).bind ?_
      rintro ⟨elseBody, elseSpan⟩ ⟨no, noSpan⟩ ⟨moved, fourth⟩
      obtain rfl : no = Stmt.allInFile away elseBody := moved
      refine together_newStmt (span.cover fourth) (fun site => ?_) fun site => ⟨rfl, rfl⟩
      rw [Stmt.inFile, second.same]

private theorem whileLoop_together {fuel : Nat} (less : StmtsTogether home away fuel) :
    Together home away (Stmt.Beside home away) (whileLoop (fuel + 1)) (whileLoop (fuel + 1)) := by
  rw [whileLoop]
  refine together_advance.bind fun keyword mark first => ?_
  refine (together_expression fuel).bind fun cond mirror second => ?_
  refine (less.block _).bind ?_
  rintro ⟨body, span⟩ ⟨copy, place⟩ ⟨moved, third⟩
  obtain rfl : copy = Stmt.allInFile away body := moved
  refine together_newStmt (first.span.cover third) (fun site => ?_) fun site => ⟨rfl, rfl⟩
  rw [Stmt.inFile, second.same]

private theorem forBody_together {fuel : Nat} (less : StmtsTogether home away fuel)
    {keyword mark name other : Token} {start begins stop ends step stride : Expr}
    (first : keyword.Beside home away mark) (named : name.Beside home away other)
    (second : begins = start.inFile away) (third : ends = stop.inFile away)
    (fourth : stride = step.inFile away) :
    Together home away (Stmt.Beside home away) (forBody fuel keyword name start stop step)
      (forBody fuel mark other begins ends stride) := by
  unfold forBody
  refine (less.block _).bind fun (body, span) (copy, place) ⟨inside, last⟩ => ?_
  obtain rfl : copy = Stmt.allInFile away body := inside
  refine together_newStmt (first.span.cover last) (fun site => ?_) fun site => ⟨rfl, rfl⟩
  rw [Stmt.inFile, named.span.same, second, third, fourth, named.same]
  rfl

private theorem forLoop_together {fuel : Nat} (less : StmtsTogether home away fuel) :
    Together home away (Stmt.Beside home away) (forLoop (fuel + 1)) (forLoop (fuel + 1)) := by
  rw [forLoop_eq]
  refine together_advance.bind fun keyword mark first => ?_
  refine (together_expect _ _ _).bind fun name other named => ?_
  refine (together_expect _ _ _).bind fun _ _ _ => ?_
  refine (together_expression fuel).bind fun start begins second => ?_
  unfold forLimit
  refine Together.peek fun token next same _ => ?_
  have described : next.describe = token.describe := by rw [same.same]; rfl
  rw [described]
  refine (together_expect _ _ _).bind fun _ _ _ => ?_
  refine (together_expression fuel).bind fun stop ends third => ?_
  refine Together.atKind .kwStep fun more => ?_
  split
  · refine together_advance.bind fun _ _ _ => ?_
    exact (together_expression fuel).bind fun step stride fourth =>
      forBody_together less first named second.same third.same fourth.same
  · exact forBody_together less first named second.same third.same rfl

private theorem stmts_together (fuel : Nat) : StmtsTogether home away fuel := by
  induction fuel with
  | zero =>
    refine ⟨fun terminator done => ?_, ?_, fun owner => ?_, ?_, ?_, ?_⟩
    · rw [statements, statements]
      refine (abreast_modify fun _ _ beside => .inr beside.starve).bind fun _ _ _ => ?_
      exact abreast_pure (by rw [Stmt.allInFile_reverse])
    · rw [statement]; exact together_starve
    · rw [block]; exact together_starve
    · rw [conditional]; exact together_starve
    · rw [whileLoop]; exact together_starve
    · rw [forLoop]; exact together_starve
  | succ fuel less =>
    exact ⟨statements_together less, statement_together less, block_together less,
      conditional_together less, whileLoop_together less, forLoop_together less⟩

end Parser

/-- Two parses of one content, whatever their limits on errors: either both report something, or
neither reports or counts anything and the trees are the same but for the file. -/
theorem SourceFile.parse_beside {file other : SourceFile} (content : other.content = file.content)
    (size : other.size = file.size) (limit bound : Nat) :
    let parsed := Program.parse { maxErrors := limit } file.tokens
    let mirror := Program.parse { maxErrors := bound } other.tokens
    (parsed.reports ≠ [] ∧ mirror.reports ≠ []) ∨
      (parsed.reports = [] ∧ mirror.reports = [] ∧ parsed.errors = 0 ∧
        mirror.program.stmts = Stmt.allInFile other.id parsed.program.stmts) := by
  intro parsed mirror
  have tokens := SourceFile.tokens_inFile content size
  have whole := file.tokens_whole
  obtain ⟨token, rest, here⟩ : ∃ token rest, file.tokens = token :: rest := by
    obtain ⟨body, last, same, -⟩ := whole.ends
    exact List.ne_nil_iff_exists_cons.mp (by simp [same])
  have fuel : other.tokens.length = file.tokens.length := by rw [tokens, List.length_map]
  have logs : parsed.reports = ((Parser.statements (8 * file.tokens.length + 16) .eof []).run
      (.start { maxErrors := limit } file.tokens)).2.log.reverse := rfl
  have mirrored : mirror.reports = ((Parser.statements (8 * file.tokens.length + 16) .eof []).run
      (.start { maxErrors := bound } other.tokens)).2.log.reverse := by
    rw [← fuel]
    rfl
  have trees : mirror.program.stmts = ((Parser.statements (8 * file.tokens.length + 16) .eof []).run
      (.start { maxErrors := bound } other.tokens)).1 := by
    rw [← fuel]
    rfl
  have started : ((ParseState.start { maxErrors := limit } file.tokens).log ≠ [] ∧
      (ParseState.start { maxErrors := bound } other.tokens).log ≠ []) ∨
      (ParseState.start { maxErrors := limit } file.tokens).Beside file.id other.id
        (.start { maxErrors := bound } other.tokens) := by
    have belongs := whole.faithful token (by rw [here]; exact List.mem_cons_self)
    by_cases wrong : token.kind = .invalid
    · obtain ⟨code, -, message, complaint⟩ := belongs.invalid wrong
      left
      simp [ParseState.start, tokens, here, Token.reports, Token.inFile, complaint]
    · have silent : token.reports = [] ∧ (token.inFile other.id).reports = [] := by
        simp [Token.reports, Token.inFile, belongs.valid wrong]
      refine .inr ⟨tokens, file.tokens_home, ?_, whole.faithful, ?_, ⟨rfl, rfl⟩, ?_, rfl, rfl⟩
      · simp [ParseState.start, here]
      · simp [ParseState.start, tokens, here, silent]
      · simpa [ParseState.start, ParseState.head, here] using wrong
  have kept : ∀ state : ParseState, state.log ≠ [] →
      ((Parser.statements (8 * file.tokens.length + 16) .eof []).run state).2.log ≠ [] :=
    fun state => Parser.Grows.log inferInstance
  simp only [logs, mirrored, trees, ne_eq, List.reverse_eq_nil_iff]
  rcases started with ⟨first, second⟩ | beside
  · exact .inl ⟨kept _ first, kept _ second⟩
  · rcases (Parser.stmts_together (8 * file.tokens.length + 16)).statements .eof [] _ _ beside with
      dirty | ⟨still, same⟩
    · exact .inl dirty
    · exact .inr ⟨still.quiet.1, still.quiet.2, still.errors.1, same⟩

end Minilang
