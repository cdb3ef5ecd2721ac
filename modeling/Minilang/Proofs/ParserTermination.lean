import Minilang.Proofs.ParserRuns

/-! Parsing comes to an end, whatever the tokens are. Every turn of a list of statements consumes a
token or leaves the list, skipping to the next statement stops with the tokens, and so fuel for
the depth of the recursion that grows with the number of tokens is never used up: with more of it
every parser does the same. -/

namespace Minilang

namespace ParseState

variable {state after : ParseState}

/-- The end of the file is the last token that is left, and there is no other. -/
def Ends (state : ParseState) : Prop :=
  ∃ front last, state.tokens = front ++ [last] ∧ last.kind = .eof ∧
    ∀ token ∈ front, token.kind ≠ .eof

theorem Ends.some_ (ends : state.Ends) : state.tokens ≠ [] := by
  obtain ⟨front, last, whole, -⟩ := ends
  simp [whole]

theorem Ends.of_suffix (ends : state.Ends) (left : after.tokens <:+ state.tokens)
    (some_ : after.tokens ≠ []) : after.Ends := by
  obtain ⟨front, last, whole, ended, inside⟩ := ends
  obtain ⟨passed, split⟩ := left
  obtain ⟨rest, final, tail⟩ := List.eq_nil_or_concat after.tokens |>.resolve_left some_
  rw [tail, List.concat_eq_append, whole, ← List.append_assoc] at split
  obtain ⟨before, same⟩ := List.append_inj' split rfl
  rw [List.singleton_inj] at same
  refine ⟨rest, final, by rw [tail, List.concat_eq_append], same ▸ ended, fun token member => ?_⟩
  exact inside token (before ▸ List.mem_append_right _ member)

theorem Ends.grown (ends : state.Ends) (grown : state.Grown after) : after.Ends :=
  ends.of_suffix grown.tokens (grown.rest ends.some_)

/-- In front of the end, one token is consumed at a time. -/
theorem Ends.advance (ends : state.Ends) (inside : state.head.kind ≠ .eof) :
    state.tokens = state.head :: state.advance.tokens := by
  obtain ⟨front, last, whole, ended, -⟩ := ends
  cases front with
  | nil =>
    rw [ParseState.head, whole] at inside
    exact absurd ended inside
  | cons token front =>
    obtain ⟨next, rest, more⟩ : ∃ next rest, front ++ [last] = next :: rest :=
      List.exists_cons_of_ne_nil (by simp)
    rw [List.cons_append, more] at whole
    simp only [ParseState.advance, ParseState.head, whole, List.headD_cons]

theorem Ends.left_advance (ends : state.Ends) (inside : state.head.kind ≠ .eof) :
    state.tokens.length = state.advance.tokens.length + 1 := by
  have whole := congrArg List.length (ends.advance inside)
  exact whole

/-- Where the end comes next, nothing else is left. -/
theorem Ends.left_eof (ends : state.Ends) (here : state.head.kind = .eof) :
    ∃ last, state.tokens = [last] ∧ last.kind = .eof := by
  obtain ⟨front, last, whole, ended, inside⟩ := ends
  cases front with
  | nil => exact ⟨last, whole, ended⟩
  | cons token front =>
    rw [ParseState.head, whole] at here
    exact absurd here (inside token List.mem_cons_self)

theorem Grown.left (grown : state.Grown after) : after.tokens.length ≤ state.tokens.length :=
  grown.tokens.length_le

end ParseState

namespace Parser

variable {α β : Type} {state : ParseState}

theorem starved_advance (state : ParseState) : state.advance.starved = state.starved := by
  unfold ParseState.advance
  split <;> rfl

theorem starved_report (state : ParseState) (code : Code) (span : Span) (message : Bytes) :
    (state.report code span message).starved = state.starved := by
  unfold ParseState.report
  split <;> rfl

/-- A step that has no need of fuel. -/
class Sated (step : StateM ParseState α) : Prop where
  sated : ∀ state : ParseState, (step.run state).2.starved = state.starved

instance (value : α) : Sated (pure value : Parser α).run := ⟨fun _ => rfl⟩

instance : Sated (failure : Parser α).run := ⟨fun _ => rfl⟩

instance (p : Parser α) (next : α → Parser β) [first : Sated p.run]
    [second : ∀ value, Sated (next value).run] : Sated (p >>= next).run where
  sated state := by
    rw [run_bind]
    have begun := first.sated state
    rcases ran : p.run.run state with ⟨_ | value, after⟩ <;> rw [ran] at begun
    · exact begun
    · exact ((second value).sated after).trans begun

instance (condition : Prop) [Decidable condition] (yes no : Parser α) [first : Sated yes.run]
    [second : Sated no.run] : Sated (if condition then yes else no).run := by
  split
  · exact first
  · exact second

instance : Sated peek.run := ⟨fun _ => rfl⟩

instance (kind : TokenKind) : Sated (atKind kind).run := ⟨fun _ => rfl⟩

instance : Sated advance.run := ⟨starved_advance⟩

instance : Sated (modify ParseState.countError : Parser PUnit).run := ⟨fun _ => rfl⟩

instance (code : Code) (message : Bytes) : Sated (fail code message : Parser α).run :=
  ⟨fun state => starved_report state code _ message⟩

instance (kind : TokenKind) (code : Code) (message : Bytes) :
    Sated (expect kind code message).run := by
  unfold expect
  infer_instance

instance (node : Site → Expr) (span : Span) : Sated (newExpr node span).run := ⟨fun _ => rfl⟩

instance (node : Site → Stmt) (span : Span) : Sated (newStmt node span).run := ⟨fun _ => rfl⟩

instance (token : Token) : Sated (checkLiteral token).run := by
  unfold checkLiteral
  split
  · infer_instance
  · exact ⟨fun state => starved_report state _ _ _⟩

instance : Sated semicolon.run := by
  unfold semicolon
  infer_instance

instance : Sated read.run := by
  unfold read
  infer_instance

/-- Two parsers do the same in a state, and fuel does not run out. -/
def Agree (p q : Parser α) (state : ParseState) : Prop :=
  p.run.run state = q.run.run state ∧ (q.run.run state).2.starved = state.starved

theorem Agree.refl (p : Parser α) [sated : Sated p.run] (state : ParseState) : Agree p p state :=
  ⟨rfl, sated.sated state⟩

theorem Agree.of_eq {p p' q q' : Parser α} (left : p = p') (right : q = q')
    (agree : Agree p' q' state) : Agree p q state := by
  rw [left, right]
  exact agree

theorem Agree.bind {p q : Parser α} {next other : α → Parser β} [grows : Grows q.run]
    (first : Agree p q state)
    (rest : ∀ value after, state.Grown after → Agree (next value) (other value) after) :
    Agree (p >>= next) (q >>= other) state := by
  obtain ⟨same, kept⟩ := first
  have grown := grows.grown state
  rw [Agree, run_bind, run_bind, same]
  rcases ran : q.run.run state with ⟨_ | value, after⟩ <;> rw [ran] at kept grown
  · exact ⟨rfl, kept⟩
  · obtain ⟨same, more⟩ := rest value after grown
    exact ⟨same, more.trans kept⟩

theorem Agree.after_peek {next other : Token → Parser β}
    (rest : Agree (next state.head) (other state.head) state) :
    Agree (peek >>= next) (peek >>= other) state := rest

theorem Agree.after_atKind {kind : TokenKind} {next other : Bool → Parser β}
    (rest : Agree (next (state.at? kind)) (other (state.at? kind)) state) :
    Agree (atKind kind >>= next) (atKind kind >>= other) state := rest

theorem Agree.after_advance {next other : Token → Parser β}
    (rest : Agree (next state.head) (other state.head) state.advance) :
    Agree (advance >>= next) (advance >>= other) state :=
  ⟨rest.1, rest.2.trans (starved_advance state)⟩

theorem at?_eq_true {kind : TokenKind} (here : state.at? kind = true) : state.head.kind = kind := by
  simpa [ParseState.at?] using here

theorem Agree.after_expect {kind : TokenKind} {code : Code} {message : Bytes}
    {next other : Token → Parser β}
    (rest : state.head.kind = kind → Agree (next state.head) (other state.head) state.advance) :
    Agree (expect kind code message >>= next) (expect kind code message >>= other) state := by
  have looked : ∀ kind, (atKind kind).run.run state = (some (state.at? kind), state) :=
    fun _ => rfl
  rw [Agree, run_bind, run_bind, expect, run_bind, looked]
  cases here : state.at? kind with
  | true =>
    obtain ⟨same, kept⟩ := rest (at?_eq_true here)
    exact ⟨same, kept.trans (starved_advance state)⟩
  | false =>
    dsimp only
    rw [if_neg Bool.false_ne_true, run_bind, looked]
    cases state.at? .invalid
    · exact ⟨rfl, starved_report state code _ message⟩
    · exact ⟨rfl, rfl⟩

/-- With enough fuel for the tokens that are left, one unit more makes no difference. The rank
orders the parsers that call each other without consuming a token. -/
def Settles (rank : Nat) (p : Nat → Parser α) (fuel : Nat) : Prop :=
  ∀ state : ParseState, state.Ends → 3 * state.tokens.length + rank ≤ fuel →
    Agree (p (fuel + 1)) (p fuel) state

/-- The expression parsers with some fuel. -/
private structure ExprsSettle (fuel : Nat) : Prop where
  binary : ∀ minimum, Settles 3 (binary · minimum) fuel
  operands : ∀ minimum left, Settles 1 (operands · minimum left) fuel
  unary : Settles 2 unary fuel
  primary : Settles 1 primary fuel

private theorem binary_settles {fuel : Nat} (less : ExprsSettle fuel) (minimum : Nat) :
    Settles 3 (binary · minimum) (fuel + 1) := by
  intro state ends enough
  refine .of_eq (binary.eq_2 _ _) (binary.eq_2 _ _) ?_
  refine .bind (less.unary state ends (by omega)) fun left after grown => ?_
  have := grown.left
  exact less.operands minimum left after (ends.grown grown) (by omega)

theorem not_eof_of_binaryRule? {kind : TokenKind} {rule : BinaryRule}
    (found : binaryRule? kind = some rule) : kind ≠ .eof := by
  rintro rfl
  cases found

theorem not_eof_of_unaryOp? {kind : TokenKind} {op : Op} (found : unaryOp? kind = some op) :
    kind ≠ .eof := by
  rintro rfl
  cases found

private theorem operands_settles {fuel : Nat} (less : ExprsSettle fuel) (minimum : Nat)
    (left : Expr) : Settles 1 (operands · minimum left) (fuel + 1) := by
  intro state ends enough
  refine .of_eq (operands.eq_2 _ _ _) (operands.eq_2 _ _ _) (.after_peek ?_)
  cases found : binaryRule? state.head.kind with
  | none => exact .refl _ _
  | some rule =>
    dsimp only
    split
    · exact .refl _ _
    have inside := not_eof_of_binaryRule? found
    have consumed := ends.left_advance inside
    have ends' := ends.grown state.grown_advance
    refine .after_advance ?_
    refine .bind (less.binary _ _ ends' (by omega)) fun right after grown => ?_
    refine .bind (.refl _ _) fun node last more => ?_
    have := (grown.trans more).left
    exact less.operands _ _ _ (ends'.grown (grown.trans more)) (by omega)

private theorem unary_settles {fuel : Nat} (less : ExprsSettle fuel) :
    Settles 2 unary (fuel + 1) := by
  intro state ends enough
  refine .of_eq (unary.eq_2 _) (unary.eq_2 _) (.after_peek ?_)
  cases found : unaryOp? state.head.kind with
  | none => exact less.primary state ends (by omega)
  | some op =>
    have consumed := ends.left_advance (not_eof_of_unaryOp? found)
    have ends' := ends.grown state.grown_advance
    exact .after_advance (.bind (less.unary _ ends' (by omega)) fun _ _ _ => .refl _ _)

private theorem primary_settles {fuel : Nat} (less : ExprsSettle fuel) :
    Settles 1 primary (fuel + 1) := by
  intro state ends enough
  refine .of_eq (primary.eq_2 _) (primary.eq_2 _) (.after_peek ?_)
  split
  all_goals try exact .refl _ _
  next paren =>
    have consumed := ends.left_advance (by rw [paren]; decide)
    have ends' := ends.grown state.grown_advance
    exact .after_advance (.bind (less.binary _ _ ends' (by omega)) fun _ _ _ => .refl _ _)

private theorem exprs_settle (fuel : Nat) : ExprsSettle fuel := by
  induction fuel with
  | zero =>
    refine ⟨fun _ _ _ enough => ?_, fun _ _ _ _ enough => ?_, fun _ _ enough => ?_,
      fun _ _ enough => ?_⟩ <;> omega
  | succ fuel less =>
    exact ⟨binary_settles less, operands_settles less, unary_settles less, primary_settles less⟩

theorem expression_settles (fuel : Nat) : Settles 3 expression fuel := (exprs_settle fuel).binary 1

/-- What is skipped to and left unread. -/
def resumed : List TokenKind := [.eof, .rBrace, .kwIf, .kwWhile, .kwFor, .kwPrint, .kwRead]

theorem resync_resumed {fuel : Nat} (here : state.head.kind ∈ resumed) :
    resync (fuel + 1) state = state := by
  simp only [resumed, List.mem_cons, List.not_mem_nil, or_false] at here
  rcases here with kind | kind | kind | kind | kind | kind | kind <;> rw [resync, kind]

theorem resync_semicolon {fuel : Nat} (here : state.head.kind = .semicolon) :
    resync (fuel + 1) state = state.advance := by
  rw [resync, here]

theorem resync_skips {fuel : Nat} (going : state.head.kind ∉ resumed)
    (inside : state.head.kind ≠ .semicolon) :
    resync (fuel + 1) state = resync fuel state.advance := by
  rw [resync]
  split
  all_goals first
    | rfl
    | next kind => exact absurd (by rw [kind]; decide) going
    | next kind => exact absurd kind inside

/-- What skipping to the next statement passes: tokens that start none, and a semicolon behind
them if one comes first. -/
structure Skips (state : ParseState) (passed : List Token) (after : ParseState) : Prop where
  tokens : state.tokens = passed ++ after.tokens
  stops : (∀ token ∈ passed, token.kind ∉ resumed ∧ token.kind ≠ .semicolon) ∧
      after.head.kind ∈ resumed ∨
    ∃ before last, passed = before ++ [last] ∧ last.kind = .semicolon ∧
      ∀ token ∈ before, token.kind ∉ resumed ∧ token.kind ≠ .semicolon

/-- As many steps as there are tokens are enough to come to the next statement. -/
theorem resync_spec {fuel : Nat} (ends : state.Ends) (enough : state.tokens.length ≤ fuel) :
    ∃ passed, Skips state passed (resync fuel state) ∧
      (resync fuel state).starved = state.starved ∧
      resync fuel state = resync state.tokens.length state := by
  induction fuel generalizing state with
  | zero => exact absurd (List.length_eq_zero_iff.mp (by omega)) ends.some_
  | succ fuel ih =>
    obtain ⟨size, more⟩ : ∃ size, state.tokens.length = size + 1 :=
      Nat.exists_eq_succ_of_ne_zero (List.length_pos_iff.mpr ends.some_ |> Nat.ne_of_gt)
    rw [more]
    by_cases here : state.head.kind ∈ resumed
    · rw [resync_resumed here, resync_resumed here]
      exact ⟨[], ⟨rfl, .inl ⟨List.forall_mem_nil _, here⟩⟩, rfl, rfl⟩
    have inside : state.head.kind ≠ .eof := fun eof => here (by rw [eof]; decide)
    have consumed := ends.advance inside
    by_cases semicolon : state.head.kind = .semicolon
    · rw [resync_semicolon semicolon, resync_semicolon semicolon]
      exact ⟨[state.head], ⟨consumed, .inr ⟨[], _, rfl, semicolon, List.forall_mem_nil _⟩⟩,
        starved_advance state, rfl⟩
    rw [resync_skips here semicolon, resync_skips here semicolon]
    have left : state.advance.tokens.length = size := by
      have := ends.left_advance inside
      omega
    obtain ⟨passed, ⟨tokens, stops⟩, kept, same⟩ :=
      ih (ends.grown state.grown_advance) (by omega)
    refine ⟨state.head :: passed, ⟨by rw [consumed, tokens]; rfl, ?_⟩,
      kept.trans (starved_advance state), left ▸ same⟩
    rcases stops with ⟨free, stop⟩ | ⟨before, last, rfl, kind, free⟩
    · exact .inl ⟨List.forall_mem_cons.mpr ⟨⟨here, semicolon⟩, free⟩, stop⟩
    · exact .inr ⟨state.head :: before, last, rfl, kind,
        List.forall_mem_cons.mpr ⟨⟨here, semicolon⟩, free⟩⟩

theorem resync_consumes (ends : state.Ends) (going : state.head.kind ∉ resumed) :
    (resync state.tokens.length state).tokens.length < state.tokens.length := by
  obtain ⟨passed, ⟨tokens, stops⟩, -⟩ := resync_spec ends (Nat.le_refl _)
  have some_ : passed ≠ [] := by
    rintro rfl
    rcases stops with ⟨-, stop⟩ | ⟨before, last, wrong, -⟩
    · rw [List.nil_append] at tokens
      rw [ParseState.head, ← tokens] at stop
      exact going stop
    · simp at wrong
  have whole := congrArg List.length tokens
  rw [List.length_append] at whole
  have := List.length_pos_iff.mpr some_
  omega

/-- One turn of a list of statements: none where the list ends, and otherwise the statement that
was read, if any, with the state to go on from. -/
def turn (fuel : Nat) (terminator : TokenKind) (state : ParseState) :
    Option (Option Stmt × ParseState) :=
  if state.at? terminator || state.at? .eof then none
  else if state.isEnough then some (none, state.advance)
  else if terminator == .eof && state.at? .rBrace then
    some (none, (state.report .unexpectedToken state.errorSpan "unexpected '\x7d'").advance)
  else
    match (statement fuel).run.run state with
    | (some s, after) => some (some s, after)
    | (none, after) => some (none, resync after.tokens.length after)

/-- A list of statements is turn after turn. -/
theorem statements_succ (fuel : Nat) (terminator : TokenKind) (done : List Stmt)
    (state : ParseState) :
    (statements (fuel + 1) terminator done).run state =
      match turn fuel terminator state with
      | none => (done.reverse, state)
      | some (read, next) => (statements fuel terminator (read.toList ++ done)).run next := by
  rw [statements, turn, StateT.run_bind]
  simp only [StateT.run_get, pure_bind]
  split
  · rfl
  split
  · rfl
  split
  · rfl
  rw [StateT.run_bind]
  rcases (statement fuel).run.run state with ⟨_ | s, after⟩ <;> rfl

theorem Consumes.passed {p : Parser α} (consumes : Consumes p) (state : ParseState) :
    state.advance.Grown (p.run.run state).2 := by
  obtain ⟨next, rfl, rest⟩ := consumes.first
  exact (rest state.head).grown state.advance

theorem tokens_report (state : ParseState) (code : Code) (span : Span) (message : Bytes) :
    (state.report code span message).tokens = state.tokens := by
  unfold ParseState.report
  split <;> rfl

/-- A statement that consumes nothing fails at a token that starts none. -/
theorem statement_consumes (fuel : Nat) (ends : state.Ends) (inside : state.head.kind ≠ .eof) :
    ((statement (fuel + 2)).run.run state).2.tokens.length < state.tokens.length ∨
      ((statement (fuel + 2)).run.run state).1 = none ∧
        ((statement (fuel + 2)).run.run state).2.tokens = state.tokens ∧
        (state.head.kind ∈ resumed → state.head.kind = .rBrace) := by
  have consumed := ends.left_advance inside
  have shorter : ∀ p : Parser Stmt, Consumes p →
      (p.run.run state).2.tokens.length < state.tokens.length := by
    intro p consumes
    have := (consumes.passed state).left
    omega
  have looked : peek.run.run state = (some state.head, state) := rfl
  rw [statement, run_bind, looked]
  dsimp only
  split
  case h_8 _ _ noRead noPrint noIf noWhile noFor _ =>
    refine .inr ⟨rfl, tokens_report _ _ _ _, fun member => ?_⟩
    simp only [resumed, List.mem_cons, List.not_mem_nil, or_false] at member
    grind
  case h_7 => exact .inl (shorter _ (.advance fun _ => inferInstance))
  all_goals exact .inl (shorter _ inferInstance)

/-- The tokens that can end a list of statements. -/
def terminators : List TokenKind := [.eof, .rBrace]

theorem at?_eq_false {kind : TokenKind} (other : state.at? kind = false) :
    state.head.kind ≠ kind := fun same => by simp [ParseState.at?, same] at other

/-- A turn that does not leave the list consumes a token. -/
theorem turn_consumes {fuel : Nat} {terminator : TokenKind} {read : Option Stmt}
    {next : ParseState} (ends : state.Ends) (known : terminator ∈ terminators)
    (going : turn (fuel + 2) terminator state = some (read, next)) :
    state.Grown next ∧ next.tokens.length < state.tokens.length := by
  unfold turn at going
  split at going
  · cases going
  next still =>
    rw [Bool.or_eq_true, not_or, Bool.not_eq_true, Bool.not_eq_true] at still
    have inside := at?_eq_false still.2
    have consumed := ends.left_advance inside
    split at going
    · cases going
      exact ⟨state.grown_advance, by omega⟩
    split at going
    · cases going
      have reported := state.grown_report .unexpectedToken state.errorSpan "unexpected '\x7d'"
      have same := tokens_report state .unexpectedToken state.errorSpan "unexpected '\x7d'"
      have consumed := (ends.grown reported).left_advance (by rwa [ParseState.head, same])
      exact ⟨reported.trans (ParseState.grown_advance _), by rw [same] at consumed; omega⟩
    next notBrace =>
      have grown : state.Grown ((statement (fuel + 2)).run.run state).2 := Grows.grown state
      rcases ran : (statement (fuel + 2)).run.run state with ⟨result, after⟩
      have outcome := statement_consumes fuel ends inside
      rw [ran] at grown outcome going
      dsimp only at grown outcome
      cases result with
      | some s =>
        cases going
        rcases outcome with shorter | ⟨wrong, -⟩
        · exact ⟨grown, shorter⟩
        · cases wrong
      | none =>
        cases going
        have skips := grown_resync after.tokens.length after
        refine ⟨grown.trans skips, ?_⟩
        rcases outcome with shorter | ⟨-, same, start⟩
        · exact Nat.lt_of_le_of_lt skips.left shorter
        -- the token is none that skipping stops at, so skipping passes it
        have other : after.head.kind ∉ resumed := by
          rw [ParseState.head, same]
          intro member
          have brace := start member
          simp only [terminators, List.mem_cons, List.not_mem_nil, or_false] at known
          rcases known with rfl | rfl
          · simp [ParseState.at?, brace] at notBrace
          · exact at?_eq_false still.1 brace
        rw [← same]
        exact resync_consumes (ends.grown grown) other

/-- Turns up to the end of a list, with the tokens that each of them consumes. -/
inductive Turns (terminator : TokenKind) : ParseState → List (List Token) → ParseState → Prop where
  | leave {fuel : Nat} {state : ParseState} (stop : turn fuel terminator state = none) :
      Turns terminator state [] state
  | go {fuel : Nat} {state next after : ParseState} {read : Option Stmt} {passed : List Token}
      {pieces : List (List Token)} (going : turn fuel terminator state = some (read, next))
      (some_ : passed ≠ []) (whole : state.tokens = passed ++ next.tokens)
      (more : Turns terminator next pieces after) : Turns terminator state (passed :: pieces) after

/-- Each token belongs to one turn. -/
theorem Turns.tokens {terminator : TokenKind} {after : ParseState} {pieces : List (List Token)}
    (turns : Turns terminator state pieces after) :
    state.tokens = pieces.flatten ++ after.tokens := by
  induction turns with
  | leave => rfl
  | go _ _ whole _ ih => rw [whole, ih, List.flatten_cons, List.append_assoc]

theorem turn_eq_none {fuel : Nat} {terminator : TokenKind}
    (stop : turn fuel terminator state = none) :
    state.head.kind = terminator ∨ state.head.kind = .eof := by
  unfold turn at stop
  split at stop
  next here => simpa [ParseState.at?] using here
  repeat' split at stop
  all_goals cases stop

theorem turn_passes {fuel : Nat} {terminator : TokenKind} {read : Option Stmt}
    {next : ParseState} (ends : state.Ends) (known : terminator ∈ terminators)
    (going : turn (fuel + 2) terminator state = some (read, next)) :
    ∃ passed, passed ≠ [] ∧ state.tokens = passed ++ next.tokens := by
  obtain ⟨grown, shorter⟩ := turn_consumes ends known going
  obtain ⟨passed, whole⟩ := grown.tokens
  refine ⟨passed, ?_, whole.symm⟩
  rintro rfl
  rw [List.nil_append] at whole
  rw [whole] at shorter
  exact Nat.lt_irrefl _ shorter

/-- A list of statements ends at its terminator or at the end of the file. -/
theorem statements_stop {fuel : Nat} {terminator : TokenKind} (done : List Stmt)
    (ends : state.Ends) (known : terminator ∈ terminators)
    (enough : 3 * state.tokens.length + 3 ≤ fuel) :
    let after := ((statements fuel terminator done).run state).2
    (after.head.kind = terminator ∨ after.head.kind = .eof) ∧
      ∃ pieces, Turns terminator state pieces after := by
  induction fuel generalizing state done with
  | zero => omega
  | succ fuel ih =>
    rw [statements_succ]
    cases taken : turn fuel terminator state with
    | none => exact ⟨turn_eq_none taken, [], .leave taken⟩
    | some result =>
      obtain ⟨read, next⟩ := result
      obtain ⟨small, rfl⟩ : ∃ small, fuel = small + 2 := ⟨fuel - 2, by omega⟩
      obtain ⟨grown, shorter⟩ := turn_consumes ends known taken
      obtain ⟨passed, some_, whole⟩ := turn_passes ends known taken
      obtain ⟨stop, pieces, turns⟩ := ih (read.toList ++ done) (ends.grown grown) (by omega)
      exact ⟨stop, _, .go taken some_ whole turns⟩

/-- Likewise for a parser that is only called in front of a token. -/
def SettlesInside (p : Nat → Parser α) (fuel : Nat) : Prop :=
  ∀ state : ParseState, state.Ends → state.head.kind ≠ .eof →
    3 * state.tokens.length + 1 ≤ fuel → Agree (p (fuel + 1)) (p fuel) state

/-- The statement parsers with some fuel. -/
private structure StmtsSettle (fuel : Nat) : Prop where
  statements : ∀ terminator ∈ terminators, ∀ done, ∀ state : ParseState, state.Ends →
    3 * state.tokens.length + 3 ≤ fuel →
    (statements (fuel + 1) terminator done).run state =
        (statements fuel terminator done).run state ∧
      ((statements fuel terminator done).run state).2.starved = state.starved
  statement : Settles 2 statement fuel
  block : ∀ owner, Settles 1 (block · owner) fuel
  conditional : SettlesInside conditional fuel
  whileLoop : SettlesInside whileLoop fuel
  forLoop : SettlesInside forLoop fuel

/-- A turn needs no more fuel than its statement. -/
private theorem turn_sated {fuel : Nat} {terminator : TokenKind} {read : Option Stmt}
    {next : ParseState} (ends : state.Ends)
    (kept : ((statement fuel).run.run state).2.starved = state.starved)
    (going : turn fuel terminator state = some (read, next)) : next.starved = state.starved := by
  unfold turn at going
  split at going
  · cases going
  split at going
  · cases going
    exact starved_advance state
  split at going
  · cases going
    exact (starved_advance _).trans (starved_report state _ _ _)
  have grown : state.Grown ((statement fuel).run.run state).2 := Grows.grown state
  rcases ran : (statement fuel).run.run state with ⟨_ | s, after⟩ <;>
    rw [ran] at kept grown going <;> cases going
  · obtain ⟨-, -, skipped, -⟩ := resync_spec (ends.grown grown) (Nat.le_refl _)
    exact skipped.trans kept
  · exact kept

private theorem statements_settle {fuel : Nat} (less : StmtsSettle fuel) :
    ∀ terminator ∈ terminators, ∀ done, ∀ state : ParseState, state.Ends →
      3 * state.tokens.length + 3 ≤ fuel + 1 →
      (statements (fuel + 2) terminator done).run state =
          (statements (fuel + 1) terminator done).run state ∧
        ((statements (fuel + 1) terminator done).run state).2.starved = state.starved := by
  intro terminator known done state ends enough
  obtain ⟨small, rfl⟩ : ∃ small, fuel = small + 2 := ⟨fuel - 2, by omega⟩
  obtain ⟨stable, kept⟩ := less.statement state ends (by omega)
  have same : turn (small + 3) terminator state = turn (small + 2) terminator state := by
    simp only [turn, stable]
  rw [statements_succ, statements_succ _ _ _ state, same]
  cases taken : turn (small + 2) terminator state with
  | none => exact ⟨rfl, rfl⟩
  | some result =>
    obtain ⟨read, next⟩ := result
    obtain ⟨grown, shorter⟩ := turn_consumes ends known taken
    obtain ⟨settled, more⟩ := less.statements terminator known (read.toList ++ done) next
      (ends.grown grown) (by omega)
    exact ⟨settled, more.trans (turn_sated ends kept taken)⟩

/-- Behind a token there is fuel for every parser. -/
private theorem enough_behind {fuel : Nat} (ends : state.Ends) (inside : state.head.kind ≠ .eof)
    (enough : 3 * state.tokens.length ≤ fuel) (after : ParseState)
    (grown : state.advance.Grown after) :
    after.Ends ∧ 3 * after.tokens.length + 3 ≤ fuel := by
  have consumed := ends.left_advance inside
  have := grown.left
  exact ⟨ends.grown (state.grown_advance.trans grown), by omega⟩

private theorem statement_settles {fuel : Nat} (less : StmtsSettle fuel) :
    Settles 2 statement (fuel + 1) := by
  intro state ends enough
  have ready := fun inside => enough_behind ends inside (show _ ≤ fuel by omega)
  refine .of_eq (statement.eq_2 _) (statement.eq_2 _) (.after_peek ?_)
  split
  next kind =>
    refine .after_advance (.bind (.refl _ _) fun _ after grown => ?_)
    obtain ⟨ends', enough'⟩ := ready (by rw [kind]; decide) after grown
    exact .bind (expression_settles fuel _ ends' enough') fun _ _ _ => .refl _ _
  next => exact .refl _ _
  next kind =>
    obtain ⟨ends', enough'⟩ := ready (by rw [kind]; decide) _ (.refl _)
    refine .after_advance ?_
    exact .bind (expression_settles fuel _ ends' enough') fun _ _ _ => .refl _ _
  next kind => exact less.conditional state ends (by rw [kind]; decide) (by omega)
  next kind => exact less.whileLoop state ends (by rw [kind]; decide) (by omega)
  next kind => exact less.forLoop state ends (by rw [kind]; decide) (by omega)
  all_goals exact .refl _ _

private theorem block_settles {fuel : Nat} (less : StmtsSettle fuel) (owner : Bytes) :
    Settles 1 (block · owner) (fuel + 1) := by
  intro state ends enough
  refine .of_eq (block.eq_2 _ _) (block.eq_2 _ _) (.after_expect fun brace => ?_)
  obtain ⟨ends', enough'⟩ :=
    enough_behind ends (by rw [brace]; decide) (Nat.le_of_succ_le_succ enough) _ (.refl _)
  refine .bind ?_ fun _ _ _ => .refl _ _
  obtain ⟨same, kept⟩ := less.statements .rBrace (by decide) [] _ ends' enough'
  have lifted := congrArg (fun result : List Stmt × ParseState => (some result.1, result.2)) same
  exact ⟨lifted, kept⟩

private theorem conditional_settles {fuel : Nat} (less : StmtsSettle fuel) :
    SettlesInside conditional (fuel + 1) := by
  intro state ends inside enough
  have ready := enough_behind ends inside (Nat.le_of_succ_le_succ enough)
  refine .of_eq (conditional.eq_2 _) (conditional.eq_2 _) (.after_advance ?_)
  obtain ⟨ends', enough'⟩ := ready _ (.refl _)
  refine .bind (expression_settles fuel _ ends' enough') fun cond behind grown => ?_
  obtain ⟨ends', enough'⟩ := ready _ grown
  refine .bind (less.block _ _ ends' (by omega)) fun inner closed more => .after_atKind ?_
  split
  · exact .refl _ _
  refine .after_advance (.after_atKind ?_)
  obtain ⟨ends', enough'⟩ := ready _ ((grown.trans more).trans closed.grown_advance)
  split
  next again =>
    have nested : closed.advance.head.kind ≠ .eof := by
      rw [at?_eq_true again]
      decide
    exact .bind (less.conditional _ ends' nested (by omega)) fun _ _ _ => .refl _ _
  next => exact .bind (less.block _ _ ends' (by omega)) fun _ _ _ => .refl _ _

private theorem whileLoop_settles {fuel : Nat} (less : StmtsSettle fuel) :
    SettlesInside whileLoop (fuel + 1) := by
  intro state ends inside enough
  have ready := enough_behind ends inside (Nat.le_of_succ_le_succ enough)
  refine .of_eq (whileLoop.eq_2 _) (whileLoop.eq_2 _) (.after_advance ?_)
  obtain ⟨ends', enough'⟩ := ready _ (.refl _)
  refine .bind (expression_settles fuel _ ends' enough') fun cond behind grown => ?_
  obtain ⟨ends', enough'⟩ := ready _ grown
  exact .bind (less.block _ _ ends' (by omega)) fun _ _ _ => .refl _ _

private theorem forLoop_settles {fuel : Nat} (less : StmtsSettle fuel) :
    SettlesInside forLoop (fuel + 1) := by
  intro state ends inside enough
  have ready := enough_behind ends inside (Nat.le_of_succ_le_succ enough)
  refine .of_eq (forLoop.eq_2 _) (forLoop.eq_2 _) (.after_advance ?_)
  refine .bind (.refl _ _) fun name _ named => .bind (.refl _ _) fun _ _ assigned => ?_
  have grown := named.trans assigned
  obtain ⟨ends', enough'⟩ := ready _ grown
  refine .bind (expression_settles fuel _ ends' enough') fun start _ started => .after_peek ?_
  refine .bind (.refl _ _) fun _ _ upTo => ?_
  have grown := (grown.trans started).trans upTo
  obtain ⟨ends', enough'⟩ := ready _ grown
  refine .bind (expression_settles fuel _ ends' enough') fun stop stopped more => .after_atKind ?_
  have grown := grown.trans more
  have body : ∀ after, state.advance.Grown after →
      Agree (block (fuel + 1) "for header") (block fuel "for header") after := by
    intro after grown
    obtain ⟨ends', enough'⟩ := ready after grown
    exact less.block _ _ ends' (by omega)
  split
  · refine .after_advance ?_
    have grown := grown.trans stopped.grown_advance
    obtain ⟨ends', enough'⟩ := ready _ grown
    refine .bind (expression_settles fuel _ ends' enough') fun step _ stepped => ?_
    exact .bind (body _ (grown.trans stepped)) fun _ _ _ => .refl _ _
  · refine .bind (.refl _ _) fun step _ stepped => ?_
    exact .bind (body _ (grown.trans stepped)) fun _ _ _ => .refl _ _

private theorem stmts_settle (fuel : Nat) : StmtsSettle fuel := by
  induction fuel with
  | zero =>
    refine ⟨fun _ _ _ _ _ enough => ?_, fun _ _ enough => ?_, fun _ _ _ enough => ?_,
      fun _ _ _ enough => ?_, fun _ _ _ enough => ?_, fun _ _ _ enough => ?_⟩ <;> omega
  | succ fuel less =>
    exact ⟨statements_settle less, statement_settles less, block_settles less,
      conditional_settles less, whileLoop_settles less, forLoop_settles less⟩

/-- Enough fuel is as good as any more, and does not run out. -/
theorem statements_enough {fuel : Nat} {terminator : TokenKind} (done : List Stmt)
    (ends : state.Ends) (known : terminator ∈ terminators)
    (enough : 3 * state.tokens.length + 3 ≤ fuel) :
    (statements fuel terminator done).run state =
        (statements (3 * state.tokens.length + 3) terminator done).run state ∧
      ((statements fuel terminator done).run state).2.starved = state.starved := by
  have settled := fun fuel enough =>
    (stmts_settle fuel).statements terminator known done state ends enough
  refine ⟨?_, (settled fuel enough).2⟩
  obtain ⟨more, rfl⟩ := Nat.exists_eq_add_of_le enough
  induction more with
  | zero => rfl
  | succ more ih =>
    rw [← ih (Nat.le_add_right _ _)]
    exact (settled _ (Nat.le_add_right _ _)).1

/-- Lists of statements in a state come to an end. -/
structure ListsEnd (state : ParseState) : Prop where
  /-- Fuel does not run out, and more of it than there is use for changes nothing. -/
  settled : ∀ terminator ∈ terminators, ∀ done fuel, 3 * state.tokens.length + 3 ≤ fuel →
    (statements fuel terminator done).run state =
        (statements (3 * state.tokens.length + 3) terminator done).run state ∧
      ((statements fuel terminator done).run state).2.starved = state.starved
  /-- A list is turn after turn. -/
  turns : ∀ terminator done fuel, (statements (fuel + 1) terminator done).run state =
    match turn fuel terminator state with
    | none => (done.reverse, state)
    | some (read, next) => (statements fuel terminator (read.toList ++ done)).run next
  /-- A turn consumes some tokens or leaves the list. -/
  consumes : ∀ terminator ∈ terminators, ∀ fuel, 2 ≤ fuel → ∀ read next,
    turn fuel terminator state = some (read, next) →
      ∃ passed, passed ≠ [] ∧ state.tokens = passed ++ next.tokens
  /-- It is left at its terminator or at the end of the file. -/
  stops : ∀ terminator ∈ terminators, ∀ done,
    let after := ((statements (3 * state.tokens.length + 3) terminator done).run state).2
    (after.head.kind = terminator ∨ after.head.kind = .eof) ∧
      ∃ pieces, Turns terminator state pieces after
  /-- Skipping to the next statement passes at most the tokens that are left. -/
  skips : ∃ passed, Skips state passed (resync state.tokens.length state) ∧
    (resync state.tokens.length state).starved = state.starved ∧
    ∀ fuel, state.tokens.length ≤ fuel → resync fuel state = resync state.tokens.length state

theorem listsEnd (ends : state.Ends) : ListsEnd state where
  settled _ known done _ enough := statements_enough done ends known enough
  turns terminator done fuel := statements_succ fuel terminator done state
  consumes _ known fuel small _ _ going := by
    obtain ⟨fuel, rfl⟩ := Nat.exists_eq_add_of_le' small
    exact turn_passes ends known going
  stops _ known done := statements_stop done ends known (Nat.le_refl _)
  skips := by
    obtain ⟨passed, skips, kept, -⟩ := resync_spec ends (Nat.le_refl _)
    refine ⟨passed, skips, kept, fun fuel enough => ?_⟩
    obtain ⟨-, -, -, same⟩ := resync_spec ends enough
    exact same

end Parser

/-- Parsing tokens that end with the end of the file comes to an end, in every list of statements
and wherever it goes on after an error. The turns of the program share out the tokens in front of
the end, each to one turn, and the end comes next. -/
theorem Program.parsing_terminates (options : ParseOptions) {front : List Token} {last : Token}
    (ended : last.kind = .eof) (inside : ∀ token ∈ front, token.kind ≠ .eof) :
    (∀ state : ParseState, state.tokens <:+ front ++ [last] → state.tokens ≠ [] →
      Parser.ListsEnd state) ∧
    ∃ stmts pieces after, after.tokens = [last] ∧ pieces.flatten = front ∧
      Parser.Turns .eof (.start options (front ++ [last])) pieces after ∧
      (∀ fuel, 3 * (front.length + 1) + 3 ≤ fuel →
        (Parser.statements fuel .eof []).run (.start options (front ++ [last])) = (stmts, after)) ∧
      (Program.parse options (front ++ [last])).program.stmts = stmts ∧
      (Program.parse options (front ++ [last])).errors = after.errors ∧
      (Program.parse options (front ++ [last])).starved = false := by
  have ends : (ParseState.start options (front ++ [last])).Ends :=
    ⟨front, last, rfl, ended, inside⟩
  refine ⟨fun state left some_ => Parser.listsEnd (ends.of_suffix left some_), ?_⟩
  have length : (ParseState.start options (front ++ [last])).tokens.length = front.length + 1 :=
    List.length_append
  obtain ⟨settled, -, -, stops, -⟩ := Parser.listsEnd ends
  rcases ran : (Parser.statements (3 * (front.length + 1) + 3) .eof []).run
    (.start options (front ++ [last])) with ⟨stmts, after⟩
  have enough : ∀ fuel, 3 * (front.length + 1) + 3 ≤ fuel →
      (Parser.statements fuel .eof []).run (.start options (front ++ [last])) = (stmts, after) := by
    intro fuel more
    rw [(settled .eof (by decide) [] fuel (by omega)).1, length, ran]
  have fed : after.starved = false := by
    have kept := (settled .eof (by decide) [] _ (Nat.le_refl _)).2
    rwa [length, ran] at kept
  obtain ⟨stop, pieces, turns⟩ := stops .eof (by decide) []
  have grown : (ParseState.start options (front ++ [last])).Grown
      ((Parser.statements (3 * (front.length + 1) + 3) .eof []).run _).2 := Parser.Grows.grown _
  rw [length, ran] at stop turns
  rw [ran] at grown
  obtain ⟨final, alone, -⟩ := (ends.grown grown).left_eof (or_self_iff.mp stop)
  have whole : front ++ [last] = pieces.flatten ++ [final] := alone ▸ turns.tokens
  obtain ⟨all, same⟩ := List.append_inj' whole rfl
  have parsed := enough (8 * (front ++ [last]).length + 16)
    (by rw [List.length_append, List.length_singleton]; omega)
  refine ⟨stmts, pieces, after, same ▸ alone, all.symm, turns, enough, ?_, ?_, ?_⟩ <;>
    simp only [Program.parse, parsed, fed]

/-- Garbage on every level, with an error that has been counted before and one that is allowed. -/
theorem Program.garbage_terminates :
    let token := fun kind => ({ kind, span := {} } : Token)
    let front := [TokenKind.rBrace, .kwElse, .kwIf, .ident, .lBrace, .kwTo, .invalid, .kwStep,
      .semicolon, .kwFor, .kwPrint].map token
    let last := token .eof
    last.kind = .eof ∧ (∀ token ∈ front, token.kind ≠ .eof) ∧
      (∀ state : ParseState, state.tokens <:+ front ++ [last] → state.tokens ≠ [] →
        Parser.ListsEnd state) ∧
      ∃ stmts pieces after, after.tokens = [last] ∧ pieces.flatten = front ∧
        Parser.Turns .eof (.start ⟨2, 1⟩ (front ++ [last])) pieces after ∧
        (∀ fuel, 3 * (front.length + 1) + 3 ≤ fuel →
          (Parser.statements fuel .eof []).run (.start ⟨2, 1⟩ (front ++ [last])) = (stmts, after)) ∧
        (Program.parse ⟨2, 1⟩ (front ++ [last])).program.stmts = stmts ∧
        (Program.parse ⟨2, 1⟩ (front ++ [last])).errors = after.errors ∧
        (Program.parse ⟨2, 1⟩ (front ++ [last])).starved = false :=
  ⟨rfl, by decide, Program.parsing_terminates _ rfl (by decide)⟩

end Minilang
