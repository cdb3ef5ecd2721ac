import Minilang.Proofs.FileNumbers
import Minilang.Proofs.NodeForest
import Minilang.Proofs.Results
import Minilang.Tree.Spans

/-! Spans of parsed programs nest. A parser that reads a node between two states gives it a span
from the next token of the first state to the last token read in the second. Since tokens stand one
behind the other, what is read inside lies inside, and what is read later lies behind. That holds
for every source: what is dropped or skipped only moves on. -/

namespace Minilang

namespace Span

theorem contains_iff {span inner : Span} : span.contains inner = true ↔
    span.file = inner.file ∧ span.start.toNat ≤ inner.start.toNat ∧
      inner.stop.toNat ≤ span.stop.toNat := by
  simp only [contains, Bool.and_eq_true, beq_iff_eq, decide_eq_true_eq, and_assoc,
    UInt32.le_iff_toNat_le]

theorem contains_trans {outer span inner : Span} (first : outer.contains span = true)
    (second : span.contains inner = true) : outer.contains inner = true := by
  rw [contains_iff] at *
  exact ⟨first.1.trans second.1, first.2.1.trans second.2.1, second.2.2.trans first.2.2⟩

@[simp] theorem file_cover (span other : Span) : (span.cover other).file = span.file := by
  unfold cover
  split <;> rfl

/-- A span of the same file that stops no earlier than another gives the stop of both. -/
theorem stop_cover {span other : Span} (home : span.file = other.file)
    (last : span.stop.toNat ≤ other.stop.toNat) : (span.cover other).stop = other.stop := by
  unfold cover
  rw [if_pos (beq_iff_eq.mpr home)]
  dsimp only
  split
  · rfl
  · next later =>
    rw [UInt32.lt_iff_toNat_lt] at later
    exact UInt32.toNat_inj.mp (by omega)

/-- A cover reaches from the one span's start to the other's stop at least. -/
theorem cover_around {span other : Span} (home : span.file = other.file) :
    (span.cover other).start.toNat ≤ span.start.toNat ∧
      other.stop.toNat ≤ (span.cover other).stop.toNat := by
  unfold cover
  rw [if_pos (beq_iff_eq.mpr home)]
  dsimp only
  simp only [UInt32.lt_iff_toNat_lt]
  constructor <;> split <;> omega

end Span

/-- The lists of statements right below a statement. -/
def Stmt.bodies : Stmt → List (List Stmt)
  | .ifElse _ _ thenBody elseBody _ => [thenBody, elseBody]
  | .whileLoop _ _ body | .forLoop _ _ _ _ _ _ body => [body]
  | _ => []

/-- Statements inside a span, one behind the other. -/
structure Stmt.Enclosed (span : Span) (body : List Stmt) : Prop where
  inside : ∀ s ∈ body, span.contains s.span = true
  apart : body.Pairwise fun a b => a.span.stop ≤ b.span.start

/-- A statement around those right below it. -/
def Stmt.Nests (s : Stmt) : Prop := ∀ body ∈ s.bodies, Stmt.Enclosed s.span body

theorem Stmt.mem_bodies {s inner : Stmt} (child : Node.stmt inner ∈ (Node.stmt s).children) :
    ∃ body ∈ s.bodies, inner ∈ body := by
  cases s <;> simp_all [Node.children, Stmt.bodies]

/-- An expression that passes the check below whatever contains it. -/
def Expr.Fits (bounds : SpanBounds) (e : Expr) : Prop :=
  ∀ parent : Span, parent.contains e.span = true → e.checkSpans bounds parent = .ok ()

/-- A statement that passes the check, and all below nests. -/
structure Stmt.Fits (bounds : SpanBounds) (s : Stmt) : Prop where
  checked : s.checkSpans bounds = .ok ()
  nests : ∀ inner, Node.stmt inner ∈ (Node.stmt s).walk → inner.Nests

theorem Stmt.Enclosed.mono {span outer : Span} {body : List Stmt} (enclosed : Stmt.Enclosed span body)
    (around : outer.contains span = true) : Stmt.Enclosed outer body :=
  ⟨fun s member => Span.contains_trans around (enclosed.inside s member), enclosed.apart⟩

theorem Stmt.Enclosed.nil (span : Span) : Stmt.Enclosed span [] := ⟨nofun, .nil⟩

theorem Stmt.checkSpansIn_ok {bounds : SpanBounds} {body : List Stmt}
    (fits : ∀ s ∈ body, s.Fits bounds) : Stmt.checkSpansIn bounds body = .ok () := by
  induction body with
  | nil => rfl
  | cons s body ih =>
    rw [List.forall_mem_cons] at fits
    rw [Stmt.checkSpansIn, fits.1.checked, ok_bind, ih fits.2]

/-- What nests below a statement is what nests below its parts, and itself. -/
theorem Stmt.nests_below {s : Stmt} (present : (Node.stmt s).isAbsent = false) (nests : s.Nests)
    (below : ∀ child ∈ (Node.stmt s).children, ∀ inner, Node.stmt inner ∈ child.walk → inner.Nests) :
    ∀ inner, Node.stmt inner ∈ (Node.stmt s).walk → inner.Nests := by
  intro inner member
  rw [Node.walk_eq present, List.mem_cons, List.mem_flatMap] at member
  rcases member with same | ⟨child, part, deep⟩
  · cases same
    exact nests
  · exact below child part inner deep

/-- No statement is below an expression. -/
theorem Node.not_stmt_of_mem_walk {e : Expr} {s : Stmt} : Node.stmt s ∉ (Node.expr e).walk := by
  intro member
  rw [Node.walk] at member
  fun_induction Expr.walk (fun _ => true) e <;> simp_all

theorem Stmt.nests_of_fits {bounds : SpanBounds} {body : List Stmt} (fits : ∀ s ∈ body, s.Fits bounds)
    {node : Node} (member : node ∈ body.map Node.stmt) {inner : Stmt}
    (deep : Node.stmt inner ∈ node.walk) : inner.Nests := by
  obtain ⟨s, part, rfl⟩ := List.mem_map.mp member
  exact (fits s part).nests inner deep

section

attribute [local simp] Expr.checkSpans Stmt.checkSpans Expr.span Expr.site Stmt.span Stmt.site

variable {bounds : SpanBounds} {id : Nat} {span : Span}
  (checked : ∀ what, bounds.check what span = .ok ())
include checked

theorem Expr.fits_leaf {e : Expr}
    (leaf : (∃ text value, e = .intLit ⟨id, span⟩ text value) ∨
      (∃ name, e = .varRef ⟨id, span⟩ name) ∨ e = .read ⟨id, span⟩) : e.Fits bounds := by
  intro parent inside
  rcases leaf with ⟨text, value, rfl⟩ | ⟨name, rfl⟩ | rfl
  all_goals
    have inside : parent.contains span = true := inside
    simp [checked, inside]

theorem Expr.fits_binary (form : BinaryForm) (op : Op) {left right : Expr} (first : left.Fits bounds)
    (second : right.Fits bounds) (inside : span.contains left.span = true)
    (within : span.contains right.span = true) :
    (Expr.binary ⟨id, span⟩ form op left right).Fits bounds := by
  intro parent around
  have around : parent.contains span = true := around
  simp [checked, around, first _ inside, second _ within]

theorem Expr.fits_unary (op : Op) {operand : Expr} (part : operand.Fits bounds)
    (inside : span.contains operand.span = true) : (Expr.unary ⟨id, span⟩ op operand).Fits bounds := by
  intro parent around
  have around : parent.contains span = true := around
  simp [checked, around, part _ inside]

theorem Expr.fits_paren {inner : Expr} (part : inner.Fits bounds)
    (inside : span.contains inner.span = true) : (Expr.paren ⟨id, span⟩ inner).Fits bounds := by
  intro parent around
  have around : parent.contains span = true := around
  simp [checked, around, part _ inside]

theorem Stmt.fits_assign (name : Bytes) (place : Span) {value : Expr} (part : value.Fits bounds)
    (inside : span.contains value.span = true) :
    (Stmt.assign ⟨id, span⟩ name place value).Fits bounds := by
  refine ⟨?_, Stmt.nests_below rfl nofun ?_⟩
  · simp [checked, part _ inside]
  · intro child member inner deep
    rw [List.mem_singleton.mp member] at deep
    exact absurd deep Node.not_stmt_of_mem_walk

theorem Stmt.fits_print {value : Expr} (part : value.Fits bounds)
    (inside : span.contains value.span = true) : (Stmt.print ⟨id, span⟩ value).Fits bounds := by
  refine ⟨?_, Stmt.nests_below rfl nofun ?_⟩
  · simp [checked, part _ inside]
  · intro child member inner deep
    rw [List.mem_singleton.mp member] at deep
    exact absurd deep Node.not_stmt_of_mem_walk

theorem Stmt.fits_read (name : Bytes) (place : Span) : (Stmt.read ⟨id, span⟩ name place).Fits bounds := by
  refine ⟨?_, Stmt.nests_below rfl nofun nofun⟩
  simp [checked]

theorem Stmt.fits_ifElse {cond : Expr} {thenBody elseBody : List Stmt} (hasElse : Bool)
    (test : cond.Fits bounds) (inside : span.contains cond.span = true)
    (yes : ∀ s ∈ thenBody, s.Fits bounds) (no : ∀ s ∈ elseBody, s.Fits bounds)
    (first : Stmt.Enclosed span thenBody) (second : Stmt.Enclosed span elseBody) :
    (Stmt.ifElse ⟨id, span⟩ cond thenBody elseBody hasElse).Fits bounds := by
  refine ⟨?_, Stmt.nests_below rfl ?_ ?_⟩
  · simp [checked, test _ inside, Stmt.checkSpansIn_ok yes,
      Stmt.checkSpansIn_ok no]
  · intro body member
    rw [Stmt.bodies, List.mem_cons, List.mem_singleton] at member
    rcases member with rfl | rfl
    · exact first
    · exact second
  · intro child member inner deep
    rcases List.mem_cons.mp member with rfl | member
    · exact absurd deep Node.not_stmt_of_mem_walk
    · exact Stmt.nests_of_fits (List.forall_mem_append.mpr ⟨yes, no⟩) member deep

theorem Stmt.fits_whileLoop {cond : Expr} {body : List Stmt} (test : cond.Fits bounds)
    (inside : span.contains cond.span = true) (all : ∀ s ∈ body, s.Fits bounds)
    (enclosed : Stmt.Enclosed span body) : (Stmt.whileLoop ⟨id, span⟩ cond body).Fits bounds := by
  refine ⟨?_, Stmt.nests_below rfl ?_ ?_⟩
  · simp [checked, test _ inside, Stmt.checkSpansIn_ok all]
  · intro other member
    rw [List.mem_singleton.mp member]
    exact enclosed
  · intro child member inner deep
    rcases List.mem_cons.mp member with rfl | member
    · exact absurd deep Node.not_stmt_of_mem_walk
    · exact Stmt.nests_of_fits all member deep

theorem Stmt.fits_forLoop (name : Bytes) (place : Span) {start stop step : Expr} {body : List Stmt}
    (parts : ∀ e ∈ [start, stop], e.Fits bounds ∧ span.contains e.span = true)
    (last : step = .absent ∨ step.Fits bounds ∧ span.contains step.span = true)
    (all : ∀ s ∈ body, s.Fits bounds) (enclosed : Stmt.Enclosed span body) :
    (Stmt.forLoop ⟨id, span⟩ name place start stop step body).Fits bounds := by
  refine ⟨?_, Stmt.nests_below rfl ?_ ?_⟩
  · have first := parts start (by simp)
    have second := parts stop (by simp)
    have third : step.checkSpans bounds span = .ok () := by
      rcases last with rfl | ⟨fits, inside⟩
      · rfl
      · exact fits _ inside
    simp [checked, first.1 _ first.2, second.1 _ second.2,
      third, Stmt.checkSpansIn_ok all]
  · intro other member
    rw [List.mem_singleton.mp member]
    exact enclosed
  · intro child member inner deep
    simp only [Node.children, List.mem_cons] at member
    rcases member with rfl | rfl | rfl | member
    any_goals exact absurd deep Node.not_stmt_of_mem_walk
    exact Stmt.nests_of_fits all member deep

end

namespace ParseState

/-- Where the token read last stops. -/
def reach (state : ParseState) : Nat := state.lastSpan.stop.toNat

/-- The tokens left lie in their file one behind the other, behind the token read last. -/
structure Lined (bounds : SpanBounds) (state : ParseState) : Prop where
  ends : ∃ body last, state.tokens = body ++ [last] ∧ last.kind = .eof ∧
    ∀ token ∈ body, token.kind ≠ .eof
  home : ∀ token ∈ state.tokens, token.span.file = bounds.file
  solid : ∀ token ∈ state.tokens, token.kind ≠ .eof →
    token.span.start.toNat < token.span.stop.toNat ∧ token.span.stop.toNat ≤ bounds.size.toNat
  apart : state.tokens.Pairwise fun a b => a.span.stop.toNat ≤ b.span.start.toNat
  behind : state.reach ≤ state.place

/-- One state comes behind another. -/
structure Past (bounds : SpanBounds) (before after : ParseState) : Prop where
  lined : after.Lined bounds
  place : before.place ≤ after.place
  reach : before.reach ≤ after.reach
  home : before.lastSpan.file = bounds.file → after.lastSpan.file = bounds.file

/-- A span from the next token of one state to the last token of another. -/
structure Spanned (bounds : SpanBounds) (before after : ParseState) (span : Span) : Prop where
  past : before.Past bounds after
  home : after.lastSpan.file = bounds.file
  file : span.file = bounds.file
  start : span.start.toNat = before.place
  stop : span.stop = after.lastSpan.stop
  solid : before.place < after.reach
  fits : after.reach ≤ bounds.size.toNat

variable {bounds : SpanBounds} {state before between middle after : ParseState} {span other : Span}

theorem Past.refl (lined : state.Lined bounds) : state.Past bounds state :=
  ⟨lined, Nat.le_refl _, Nat.le_refl _, id⟩

theorem Past.trans (first : before.Past bounds between) (second : between.Past bounds after) :
    before.Past bounds after :=
  ⟨second.lined, first.place.trans second.place, first.reach.trans second.reach,
    second.home ∘ first.home⟩

/-- Only what is left to read and what was read last matter. -/
theorem Past.same (lined : state.Lined bounds) (tokens : after.tokens = state.tokens)
    (last : after.lastSpan = state.lastSpan) : state.Past bounds after := by
  have place : after.place = state.place := by simp only [ParseState.place, head, tokens]
  have reach : after.reach = state.reach := by simp only [ParseState.reach, last]
  refine ⟨⟨tokens ▸ lined.ends, tokens ▸ lined.home, tokens ▸ lined.solid, tokens ▸ lined.apart, ?_⟩,
    Nat.le_of_eq place.symm, Nat.le_of_eq reach.symm, fun home => last ▸ home⟩
  rw [place, reach]
  exact lined.behind

theorem lastSpan_report (state : ParseState) (code : Code) (place : Span) (message : Bytes) :
    (state.report code place message).lastSpan = state.lastSpan := by
  unfold report
  split <;> rfl

theorem past_report (lined : state.Lined bounds) (code : Code) (place : Span) (message : Bytes) :
    state.Past bounds (state.report code place message) := by
  unfold report
  split <;> exact .same lined rfl rfl

/-- A token that is not the end is taken, and is then the last one. -/
theorem spanned_advance (lined : state.Lined bounds) (more : state.head.kind ≠ .eof) :
    state.Spanned bounds state.advance state.head.span := by
  obtain ⟨ends, home, solid, apart, behind⟩ := lined
  obtain ⟨body, last, tokens, ended, inside⟩ := ends
  cases body with
  | nil =>
    rw [head, tokens] at more
    exact absurd ended more
  | cons token body =>
    obtain ⟨next, rest, follows⟩ : ∃ next rest, body ++ [last] = next :: rest :=
      List.ne_nil_iff_exists_cons.mp (by simp)
    have whole : state.tokens = token :: next :: rest := by rw [tokens, List.cons_append, follows]
    have here : state.head = token := by rw [head, whole]; rfl
    have taken : state.advance = { state with
        tokens := next :: rest, lastSpan := token.span
        log := next.reports.reverse ++ state.log } := by
      have open_ : (token.kind == .eof) = false := by simpa using inside token List.mem_cons_self
      rw [advance, whole]
      simp only [open_, Bool.false_eq_true, if_false]
    rw [whole] at home solid apart
    rw [here] at more ⊢
    obtain ⟨wide, fits⟩ := solid token List.mem_cons_self more
    have clear : token.span.stop.toNat ≤ next.span.start.toNat :=
      List.rel_of_pairwise_cons apart List.mem_cons_self
    have place : state.place = token.span.start.toNat := by rw [ParseState.place, here]
    have moved : state.advance.place = next.span.start.toNat := by rw [taken]; rfl
    have reach : state.advance.reach = token.span.stop.toNat := by rw [taken]; rfl
    have file := home token List.mem_cons_self
    have lined : state.advance.Lined bounds := by
      refine ⟨⟨body, last, ?_, ended, fun t member => inside t (List.mem_cons_of_mem _ member)⟩,
        ?_, ?_, ?_, by omega⟩
      · rw [taken, follows]
      · rw [taken]
        exact fun t member => home t (List.mem_cons_of_mem _ member)
      · rw [taken]
        exact fun t member => solid t (List.mem_cons_of_mem _ member)
      · rw [taken]
        exact apart.of_cons
    have last : state.advance.lastSpan = token.span := by rw [taken]
    refine ⟨⟨lined, by omega, by omega, fun _ => ?_⟩, ?_, file, place.symm, ?_, by omega, by omega⟩
    · rw [last, file]
    · rw [last, file]
    · rw [last]

theorem past_advance (lined : state.Lined bounds) : state.Past bounds state.advance := by
  by_cases more : state.head.kind = .eof
  · obtain ⟨body, last, tokens, ended, inside⟩ := lined.ends
    cases body with
    | nil =>
      rw [List.nil_append] at tokens
      exact .same lined (by simp [advance, tokens]) (by simp [advance, tokens, ended])
    | cons token body =>
      rw [head, tokens] at more
      exact absurd more (inside token List.mem_cons_self)
  · exact (spanned_advance lined more).past

/-- What takes no token leaves the span as it is. -/
theorem Spanned.still (spanned : before.Spanned bounds between span)
    (past : between.Past bounds after) (last : after.lastSpan = between.lastSpan) :
    before.Spanned bounds after span := by
  have reach : after.reach = between.reach := by rw [ParseState.reach, last, ParseState.reach]
  exact ⟨spanned.past.trans past, last ▸ spanned.home, spanned.file, spanned.start,
    last ▸ spanned.stop, reach ▸ spanned.solid, reach ▸ spanned.fits⟩

/-- A span from the first token of one to the last token of another. -/
theorem Spanned.cover (first : before.Spanned bounds between span) (past : between.Past bounds middle)
    (last : middle.Spanned bounds after other) : before.Spanned bounds after (span.cover other) := by
  have ahead := (first.past.trans past).place
  have reach := (past.trans last.past).reach
  have later : span.stop.toNat ≤ other.stop.toNat := by
    rw [first.stop, last.stop]
    exact reach
  refine ⟨(first.past.trans past).trans last.past, last.home, ?_, ?_, ?_, ?_, last.fits⟩
  · rw [Span.file_cover, first.file]
  · rw [Span.start_cover (by rw [first.start, last.start]; exact ahead), first.start]
  · rw [Span.stop_cover (first.file.trans last.file.symm) later, last.stop]
  · exact Nat.lt_of_lt_of_le first.solid reach

/-- What is read in between lies inside. -/
theorem Spanned.contains (outer : before.Spanned bounds after span)
    (inner : between.Spanned bounds middle other) (start : before.place ≤ between.place)
    (stop : middle.reach ≤ after.reach) : span.contains other = true := by
  rw [Span.contains_iff, outer.file, inner.file, outer.start, inner.start, outer.stop, inner.stop]
  exact ⟨rfl, start, stop⟩

theorem Spanned.check (spanned : before.Spanned bounds after span) (what : Bytes) :
    bounds.check what span = .ok () := by
  have wide : ¬ span.stop ≤ span.start := by
    rw [UInt32.le_iff_toNat_le, spanned.start, spanned.stop]
    exact Nat.not_le.mpr spanned.solid
  have fits : ¬ bounds.size < span.stop := by
    rw [UInt32.lt_iff_toNat_lt, spanned.stop]
    exact Nat.not_lt.mpr spanned.fits
  rw [SpanBounds.check, if_neg (by simpa using spanned.file), if_neg wide, if_neg fits]

end ParseState

namespace Parser

open ParseState

variable {bounds : SpanBounds} {α β : Type} {state origin : ParseState}

/-- A step that only moves on and gives a result as said. -/
def Moves (bounds : SpanBounds) (step : StateM ParseState α) (state : ParseState)
    (good : α → ParseState → Prop) : Prop :=
  state.Past bounds (step.run state).2 ∧ good (step.run state).1 (step.run state).2

/-- A parser that only moves on; what it gives, if anything, is as said. -/
def Brings (bounds : SpanBounds) (p : Parser α) (state : ParseState)
    (good : α → ParseState → Prop) : Prop :=
  Moves bounds p.run state fun result after => ∀ value, result = some value → good value after

variable {good : α → ParseState → Prop} {better : β → ParseState → Prop}

theorem Moves.bind {step : StateM ParseState α} {next : α → StateM ParseState β}
    (first : Moves bounds step state good)
    (rest : ∀ value after, state.Past bounds after → good value after →
      Moves bounds (next value) after better) : Moves bounds (step >>= next) state better := by
  obtain ⟨past, holds⟩ := first
  obtain ⟨later, result⟩ := rest _ _ past holds
  exact ⟨past.trans later, result⟩

theorem Moves.get {next : ParseState → StateM ParseState β}
    (rest : Moves bounds (next state) state better) : Moves bounds (get >>= next) state better :=
  rest

theorem Brings.bind {p : Parser α} {next : α → Parser β} (first : Brings bounds p state good)
    (rest : ∀ value after, state.Past bounds after → good value after →
      Brings bounds (next value) after better) : Brings bounds (p >>= next) state better := by
  obtain ⟨past, holds⟩ := first
  unfold Brings Moves
  rw [run_bind]
  split
  next value after ran =>
    rw [ran] at past holds
    obtain ⟨later, result⟩ := rest value after past (holds value rfl)
    exact ⟨past.trans later, result⟩
  next after ran =>
    rw [ran] at past
    exact ⟨past, nofun⟩

theorem brings_pure (lined : state.Lined bounds) {value : α} (holds : good value state) :
    Brings bounds (pure value) state good := by
  refine ⟨.refl lined, ?_⟩
  rintro _ ⟨⟩
  exact holds

theorem brings_starve (lined : state.Lined bounds) : Brings bounds starve state good :=
  ⟨.same lined rfl rfl, nofun⟩

theorem brings_lift {step : StateM ParseState α} (moves : Moves bounds step state good) :
    Brings bounds (step : Parser α) state good := by
  refine ⟨moves.1, ?_⟩
  rintro _ ⟨⟩
  exact moves.2

theorem brings_ite {condition : Prop} [Decidable condition] {yes no : Parser α}
    (whenYes : condition → Brings bounds yes state good)
    (whenNo : ¬condition → Brings bounds no state good) :
    Brings bounds (if condition then yes else no) state good := by
  split
  next holds => exact whenYes holds
  next fails => exact whenNo fails

theorem Brings.peek {next : Token → Parser β} (rest : Brings bounds (next state.head) state better) :
    Brings bounds (peek >>= next) state better := rest

theorem Brings.atKind {kind : TokenKind} {next : Bool → Parser β}
    (rest : Brings bounds (next (state.at? kind)) state better) :
    Brings bounds (atKind kind >>= next) state better := rest

/-- Taking a token gives its span. -/
theorem Brings.advance {kind : TokenKind} (here : state.head.kind = kind) (other : kind ≠ .eof)
    (lined : state.Lined bounds) {next : Token → Parser β}
    (rest : state.Spanned bounds state.advance state.head.span →
      Brings bounds (next state.head) state.advance better) :
    Brings bounds (advance >>= next) state better := by
  have spanned := spanned_advance lined (here ▸ other)
  obtain ⟨later, result⟩ := rest spanned
  exact ⟨spanned.past.trans later, result⟩

theorem brings_fail (lined : state.Lined bounds) (code : Code) (message : Bytes) :
    Brings bounds (fail code message) state good :=
  ⟨past_report lined code _ message, nofun⟩

theorem brings_countError (lined : state.Lined bounds) :
    Brings bounds (do modify ParseState.countError; failure) state good :=
  ⟨.same lined rfl rfl, nofun⟩

theorem brings_checkLiteral (lined : state.Lined bounds) (token : Token) :
    Brings bounds (checkLiteral token) state fun _ after => after.lastSpan = state.lastSpan := by
  unfold checkLiteral
  split
  · exact brings_pure lined rfl
  · refine ⟨past_report lined _ _ _, ?_⟩
    rintro _ ⟨⟩
    exact lastSpan_report state _ _ _

theorem brings_expect (lined : state.Lined bounds) {kind : TokenKind} (other : kind ≠ .eof)
    (code : Code) (message : Bytes) :
    Brings bounds (expect kind code message) state fun token after =>
      state.Spanned bounds after token.span := by
  refine Brings.atKind (brings_ite (fun here => ?_) fun _ => ?_)
  · have kinds : state.head.kind = kind := by simpa [ParseState.at?] using here
    have spanned := spanned_advance lined (kinds ▸ other)
    refine ⟨spanned.past, ?_⟩
    rintro _ ⟨⟩
    exact spanned
  · refine Brings.atKind (brings_ite (fun _ => ?_) fun _ => ?_)
    · exact brings_countError lined
    · exact brings_fail lined code message

/-- A node that was read between two states. -/
def ReadExpr (bounds : SpanBounds) (before : ParseState) (e : Expr) (after : ParseState) : Prop :=
  before.Spanned bounds after e.span ∧ e.Fits bounds

def ReadStmt (bounds : SpanBounds) (before : ParseState) (s : Stmt) (after : ParseState) : Prop :=
  before.Spanned bounds after s.span ∧ s.Fits bounds

/-- A new node changes nothing but what is allocated. -/
theorem brings_newExpr {node : Site → Expr} {span : Span} (spanned : origin.Spanned bounds state span)
    (fits : ∀ id, (node ⟨id, span⟩).span = span ∧ (node ⟨id, span⟩).Fits bounds) :
    Brings bounds (newExpr node span) state (ReadExpr bounds origin) := by
  have past : state.Past bounds ((newExpr node span).run state).2 :=
    .same spanned.past.lined rfl rfl
  refine ⟨past, ?_⟩
  rintro _ ⟨⟩
  obtain ⟨same, fits⟩ := fits (state.arenas.exprs.size + 1)
  refine ⟨?_, fits⟩
  rw [same]
  exact spanned.still past rfl

theorem brings_newStmt {node : Site → Stmt} {span : Span} (spanned : origin.Spanned bounds state span)
    (fits : ∀ id, (node ⟨id, span⟩).span = span ∧ (node ⟨id, span⟩).Fits bounds) :
    Brings bounds (newStmt node span) state (ReadStmt bounds origin) := by
  have past : state.Past bounds ((newStmt node span).run state).2 :=
    .same spanned.past.lined rfl rfl
  refine ⟨past, ?_⟩
  rintro _ ⟨⟩
  obtain ⟨same, fits⟩ := fits (state.arenas.stmts.size + 1)
  refine ⟨?_, fits⟩
  rw [same]
  exact spanned.still past rfl

/-- What each of the expression parsers reads with some fuel. -/
private structure ExprsSpanned (bounds : SpanBounds) (fuel : Nat) : Prop where
  binary : ∀ minimum (state : ParseState), state.Lined bounds →
    Brings bounds (binary fuel minimum) state (ReadExpr bounds state)
  operands : ∀ minimum left (origin state : ParseState), ReadExpr bounds origin left state →
    Brings bounds (operands fuel minimum left) state (ReadExpr bounds origin)
  unary : ∀ state : ParseState, state.Lined bounds →
    Brings bounds (unary fuel) state (ReadExpr bounds state)
  primary : ∀ state : ParseState, state.Lined bounds →
    Brings bounds (primary fuel) state (ReadExpr bounds state)

private theorem operands_spanned {fuel : Nat} (less : ExprsSpanned bounds fuel) (minimum : Nat)
    {left : Expr} (read : ReadExpr bounds origin left state) :
    Brings bounds (operands (fuel + 1) minimum left) state (ReadExpr bounds origin) := by
  obtain ⟨spanned, fits⟩ := read
  have lined := spanned.past.lined
  rw [operands]
  refine Brings.peek ?_
  split
  next => exact brings_pure lined ⟨spanned, fits⟩
  next rule found =>
    have other : state.head.kind ≠ .eof := by
      intro ended
      rw [ended] at found
      cases found
    refine brings_ite (fun _ => brings_pure lined ⟨spanned, fits⟩) fun _ => Brings.advance rfl other lined ?_
    intro taken
    refine (less.binary _ _ taken.past.lined).bind fun right after later parsed => ?_
    obtain ⟨ahead, right_⟩ := parsed
    have whole := spanned.cover taken.past ahead
    refine (brings_newExpr whole fun id => ⟨rfl, ?_⟩).bind
      fun node last _ read => less.operands minimum node origin last read
    refine Expr.fits_binary whole.check _ _ fits right_ ?_ ?_
    · exact whole.contains spanned (Nat.le_refl _) (taken.past.trans ahead.past).reach
    · exact whole.contains ahead (spanned.past.trans taken.past).place (Nat.le_refl _)

private theorem unary_spanned {fuel : Nat} (less : ExprsSpanned bounds fuel)
    (lined : state.Lined bounds) :
    Brings bounds (unary (fuel + 1)) state (ReadExpr bounds state) := by
  rw [unary]
  refine Brings.peek ?_
  split
  next => exact less.primary state lined
  next op found =>
    have other : state.head.kind ≠ .eof := by
      intro ended
      rw [ended] at found
      cases found
    refine Brings.advance rfl other lined fun taken => ?_
    refine (less.unary _ taken.past.lined).bind fun operand after later parsed => ?_
    obtain ⟨ahead, part⟩ := parsed
    have whole := taken.cover (.refl taken.past.lined) ahead
    refine brings_newExpr whole fun id => ⟨rfl, Expr.fits_unary whole.check _ part ?_⟩
    exact whole.contains ahead taken.past.place (Nat.le_refl _)

private theorem primary_spanned {fuel : Nat} (less : ExprsSpanned bounds fuel)
    (lined : state.Lined bounds) :
    Brings bounds (primary (fuel + 1)) state (ReadExpr bounds state) := by
  rw [primary]
  refine Brings.peek ?_
  split
  next literal =>
    refine Brings.advance literal (by decide) lined fun taken => ?_
    refine (brings_checkLiteral taken.past.lined state.head).bind fun _ after later same => ?_
    have whole := taken.still later same
    exact brings_newExpr whole fun id => ⟨rfl, Expr.fits_leaf whole.check (.inl ⟨_, _, rfl⟩)⟩
  next ident =>
    refine Brings.advance ident (by decide) lined fun taken => ?_
    exact brings_newExpr taken fun id => ⟨rfl, Expr.fits_leaf taken.check (.inr (.inl ⟨_, rfl⟩))⟩
  next keyword =>
    refine Brings.advance keyword (by decide) lined fun taken => ?_
    exact brings_newExpr taken fun id => ⟨rfl, Expr.fits_leaf taken.check (.inr (.inr rfl))⟩
  next opened =>
    refine Brings.advance opened (by decide) lined fun taken => ?_
    refine (less.binary 1 _ taken.past.lined).bind fun inner after later parsed => ?_
    obtain ⟨ahead, part⟩ := parsed
    refine (brings_expect later.lined (by decide) _ _).bind fun closing last ending closed => ?_
    have whole := taken.cover later closed
    refine brings_newExpr whole fun id => ⟨rfl, Expr.fits_paren whole.check part ?_⟩
    exact whole.contains ahead taken.past.place ending.reach
  next invalid =>
    exact Brings.advance invalid (by decide) lined fun taken => brings_countError taken.past.lined
  next => exact brings_fail lined _ _

private theorem exprs_spanned (bounds : SpanBounds) (fuel : Nat) : ExprsSpanned bounds fuel := by
  induction fuel with
  | zero =>
    refine ⟨fun _ state lined => ?_, fun _ left origin state read => ?_, fun state lined => ?_,
      fun state lined => ?_⟩
    · rw [binary]; exact brings_starve lined
    · rw [operands]; exact brings_starve read.1.past.lined
    · rw [unary]; exact brings_starve lined
    · rw [primary]; exact brings_starve lined
  | succ fuel less =>
    refine ⟨fun minimum state lined => ?_, fun minimum _ _ _ => operands_spanned less minimum,
      fun _ => unary_spanned less, fun _ => primary_spanned less⟩
    rw [binary]
    exact (less.unary state lined).bind fun left after _ read =>
      less.operands minimum left state after read

theorem brings_expression (fuel : Nat) (lined : state.Lined bounds) :
    Brings bounds (expression fuel) state (ReadExpr bounds state) :=
  (exprs_spanned bounds fuel).binary 1 state lined

theorem brings_semicolon (lined : state.Lined bounds) :
    Brings bounds semicolon state fun token after => state.Spanned bounds after token.span :=
  Brings.peek (brings_expect lined (by decide) _ _)

private theorem assign_spanned (fuel : Nat) (lined : state.Lined bounds)
    (ident : state.head.kind = .ident) :
    Brings bounds (assign fuel) state (ReadStmt bounds state) := by
  refine Brings.advance ident (by decide) lined fun taken => ?_
  refine (brings_expect taken.past.lined (by decide) _ _).bind fun _ first passed _ => ?_
  refine (brings_expression fuel passed.lined).bind fun value second read parsed => ?_
  obtain ⟨ahead, part⟩ := parsed
  refine (brings_semicolon read.lined).bind fun last third ending closed => ?_
  have whole := taken.cover (passed.trans read) closed
  refine brings_newStmt whole fun id => ⟨rfl, Stmt.fits_assign whole.check _ _ part ?_⟩
  exact whole.contains ahead (taken.past.trans passed).place ending.reach

private theorem read_spanned (lined : state.Lined bounds) (keyword : state.head.kind = .kwRead) :
    Brings bounds read state (ReadStmt bounds state) := by
  refine Brings.advance keyword (by decide) lined fun taken => ?_
  refine (brings_expect taken.past.lined (by decide) _ _).bind fun name first passed _ => ?_
  refine (brings_semicolon passed.lined).bind fun last second ending closed => ?_
  have whole := taken.cover passed closed
  exact brings_newStmt whole fun id => ⟨rfl, Stmt.fits_read whole.check _ _⟩

private theorem print_spanned (fuel : Nat) (lined : state.Lined bounds)
    (keyword : state.head.kind = .kwPrint) :
    Brings bounds (print fuel) state (ReadStmt bounds state) := by
  refine Brings.advance keyword (by decide) lined fun taken => ?_
  refine (brings_expression fuel taken.past.lined).bind fun value first read parsed => ?_
  obtain ⟨ahead, part⟩ := parsed
  refine (brings_semicolon read.lined).bind fun last second ending closed => ?_
  have whole := taken.cover read closed
  refine brings_newStmt whole fun id => ⟨rfl, Stmt.fits_print whole.check part ?_⟩
  exact whole.contains ahead taken.past.place ending.reach

theorem past_resync (fuel : Nat) (lined : state.Lined bounds) :
    state.Past bounds (resync fuel state) := by
  induction fuel generalizing state with
  | zero => exact .same lined rfl rfl
  | succ fuel ih =>
    have step := past_advance lined
    rw [resync]
    split
    any_goals exact .refl lined
    · exact step
    · exact step.trans (ih step.lined)

/-- Statements that were read between two states, one behind the other. -/
structure Row (bounds : SpanBounds) (before after : ParseState) (body : List Stmt) : Prop where
  past : before.Past bounds after
  fits : ∀ s ∈ body, s.Fits bounds
  within : ∀ s ∈ body, ∃ first last : ParseState, first.Spanned bounds last s.span ∧
    before.place ≤ first.place ∧ last.reach ≤ after.reach ∧ after.lastSpan.file = bounds.file
  apart : body.Pairwise fun a b => a.span.stop ≤ b.span.start

/-- A block between two states, with its statements inside of its span. -/
structure Braced (bounds : SpanBounds) (state : ParseState) (result : List Stmt × Span)
    (after : ParseState) : Prop where
  spanned : state.Spanned bounds after result.2
  fits : ∀ s ∈ result.1, s.Fits bounds
  enclosed : Stmt.Enclosed result.2 result.1

theorem Row.skip {before between after : ParseState} {body : List Stmt}
    (past : before.Past bounds between) (row : Row bounds between after body) :
    Row bounds before after body := by
  refine ⟨past.trans row.past, row.fits, fun s member => ?_, row.apart⟩
  obtain ⟨first, last, spanned, start, stop, home⟩ := row.within s member
  exact ⟨first, last, spanned, past.place.trans start, stop, home⟩

/-- What is read later stands behind. -/
theorem Row.cons {before between after : ParseState} {s : Stmt} {body : List Stmt}
    (read : ReadStmt bounds before s between) (row : Row bounds between after body) :
    Row bounds before after (s :: body) := by
  obtain ⟨spanned, fits⟩ := read
  refine ⟨spanned.past.trans row.past, List.forall_mem_cons.mpr ⟨fits, row.fits⟩,
    List.forall_mem_cons.mpr ⟨?_, (row.skip spanned.past).within⟩, .cons ?_ row.apart⟩
  · exact ⟨before, between, spanned, Nat.le_refl _, row.past.reach, row.past.home spanned.home⟩
  · intro later member
    obtain ⟨first, last, ahead, start, -, -⟩ := row.within later member
    rw [UInt32.le_iff_toNat_le, spanned.stop, ahead.start]
    exact Nat.le_trans spanned.past.lined.behind start

theorem Row.nil (lined : state.Lined bounds) : Row bounds state state [] :=
  ⟨.refl lined, nofun, nofun, .nil⟩

/-- What each of the statement parsers reads with some fuel. -/
private structure StmtsSpanned (bounds : SpanBounds) (fuel : Nat) : Prop where
  statements : ∀ terminator done (state : ParseState), state.Lined bounds →
    Moves bounds (statements fuel terminator done) state fun body after =>
      ∃ more, body = done.reverse ++ more ∧ Row bounds state after more
  statement : ∀ state : ParseState, state.Lined bounds →
    Brings bounds (statement fuel) state (ReadStmt bounds state)
  block : ∀ owner (state : ParseState), state.Lined bounds →
    Brings bounds (block fuel owner) state (Braced bounds state)
  conditional : ∀ state : ParseState, state.Lined bounds → state.head.kind = .kwIf →
    Brings bounds (conditional fuel) state (ReadStmt bounds state)
  whileLoop : ∀ state : ParseState, state.Lined bounds → state.head.kind = .kwWhile →
    Brings bounds (whileLoop fuel) state (ReadStmt bounds state)
  forLoop : ∀ state : ParseState, state.Lined bounds → state.head.kind = .kwFor →
    Brings bounds (forLoop fuel) state (ReadStmt bounds state)

private theorem statements_spanned {fuel : Nat} (less : StmtsSpanned bounds fuel)
    (terminator : TokenKind) (done : List Stmt) (lined : state.Lined bounds) :
    Moves bounds (statements (fuel + 1) terminator done) state fun body after =>
      ∃ more, body = done.reverse ++ more ∧ Row bounds state after more := by
  -- Whatever is skipped, the rest of the row is all there is.
  have skip : ∀ {step : StateM ParseState PUnit}, state.Past bounds (step.run state).2 →
      Moves bounds (step >>= fun _ => statements fuel terminator done) state fun body after =>
        ∃ more, body = done.reverse ++ more ∧ Row bounds state after more := by
    intro step past
    obtain ⟨later, more, made, row⟩ := less.statements terminator done _ past.lined
    exact ⟨past.trans later, more, made, row.skip past⟩
  rw [statements]
  refine Moves.get ?_
  split
  · exact ⟨.refl lined, [], (List.append_nil _).symm, .nil lined⟩
  split
  · exact skip (past_advance lined)
  split
  · have reported := past_report lined .unexpectedToken state.errorSpan "unexpected '\x7d'"
    exact skip (reported.trans (past_advance reported.lined))
  · refine Moves.bind (less.statement state lined) fun result after past read => ?_
    split
    next s =>
      obtain ⟨later, more, made, row⟩ := less.statements terminator (s :: done) after past.lined
      exact ⟨later, s :: more, by simpa using made, .cons (read s rfl) row⟩
    next =>
      have resumed := past_resync after.tokens.length past.lined
      obtain ⟨later, more, made, row⟩ := less.statements terminator done _ resumed.lined
      exact ⟨resumed.trans later, more, made, row.skip (past.trans resumed)⟩

private theorem block_spanned {fuel : Nat} (less : StmtsSpanned bounds fuel) (owner : Bytes)
    (lined : state.Lined bounds) :
    Brings bounds (block (fuel + 1) owner) state (Braced bounds state) := by
  rw [block]
  refine (brings_expect lined (by decide) _ _).bind fun opening first passed opened => ?_
  refine (brings_lift (less.statements .rBrace [] first passed.lined)).bind fun body second read row => ?_
  obtain ⟨more, rfl, row⟩ := row
  refine (brings_expect read.lined (by decide) _ _).bind fun closing third ending closed => ?_
  have whole := opened.cover read closed
  refine brings_pure ending.lined ⟨whole, row.fits, fun s member => ?_, row.apart⟩
  obtain ⟨start, stop, spanned, ahead, behind, -⟩ := row.within s member
  exact whole.contains spanned (passed.place.trans ahead) (behind.trans ending.reach)

private theorem whileLoop_spanned {fuel : Nat} (less : StmtsSpanned bounds fuel)
    (lined : state.Lined bounds) (keyword : state.head.kind = .kwWhile) :
    Brings bounds (whileLoop (fuel + 1)) state (ReadStmt bounds state) := by
  rw [whileLoop]
  refine Brings.advance keyword (by decide) lined fun taken => ?_
  refine (brings_expression fuel taken.past.lined).bind fun cond first read parsed => ?_
  obtain ⟨ahead, test⟩ := parsed
  refine (less.block _ first read.lined).bind fun inner second later body => ?_
  have whole := taken.cover read body.spanned
  refine brings_newStmt whole fun id => ⟨rfl, Stmt.fits_whileLoop whole.check test ?_ body.fits ?_⟩
  · exact whole.contains ahead taken.past.place later.reach
  · exact body.enclosed.mono
      (whole.contains body.spanned (taken.past.trans read).place (Nat.le_refl _))

private theorem conditional_spanned {fuel : Nat} (less : StmtsSpanned bounds fuel)
    (lined : state.Lined bounds) (keyword : state.head.kind = .kwIf) :
    Brings bounds (conditional (fuel + 1)) state (ReadStmt bounds state) := by
  rw [conditional]
  refine Brings.advance keyword (by decide) lined fun taken => ?_
  refine (brings_expression fuel taken.past.lined).bind fun cond first read parsed => ?_
  obtain ⟨ahead, test⟩ := parsed
  refine (less.block _ first read.lined).bind fun yes second inside body => ?_
  have head := taken.cover read body.spanned
  have tested := head.contains ahead taken.past.place inside.reach
  have chosen := head.contains body.spanned (taken.past.trans read).place (Nat.le_refl _)
  refine Brings.atKind (brings_ite (fun _ => ?_) fun more => ?_)
  · refine brings_newStmt head fun id => ⟨rfl, ?_⟩
    exact Stmt.fits_ifElse head.check _ test tested body.fits (by simp)
      (body.enclosed.mono chosen) (.nil _)
  have else_ : second.head.kind = .kwElse := by simpa [ParseState.at?] using more
  refine Brings.advance else_ (by decide) inside.lined fun skipped => ?_
  refine Brings.atKind (brings_ite (fun again => ?_) fun _ => ?_)
  · have again : second.advance.head.kind = .kwIf := by simpa [ParseState.at?] using again
    refine (less.conditional _ skipped.past.lined again).bind fun nested third later parsed => ?_
    obtain ⟨below, fits⟩ := parsed
    have whole := head.cover skipped.past below
    have wider := whole.contains head (Nat.le_refl _) (skipped.past.trans later).reach
    refine brings_newStmt whole fun id => ⟨rfl, ?_⟩
    refine Stmt.fits_ifElse whole.check _ test (Span.contains_trans wider tested) body.fits
      (by simpa using fits) (body.enclosed.mono (Span.contains_trans wider chosen)) ⟨?_, by simp⟩
    intro s member
    rw [List.mem_singleton.mp member]
    exact whole.contains below (head.past.trans skipped.past).place (Nat.le_refl _)
  · refine (less.block _ _ skipped.past.lined).bind fun no third later other => ?_
    have whole := head.cover skipped.past other.spanned
    have wider := whole.contains head (Nat.le_refl _) (skipped.past.trans later).reach
    refine brings_newStmt whole fun id => ⟨rfl, ?_⟩
    refine Stmt.fits_ifElse whole.check _ test (Span.contains_trans wider tested) body.fits
      other.fits (body.enclosed.mono (Span.contains_trans wider chosen)) (other.enclosed.mono ?_)
    exact whole.contains other.spanned (head.past.trans skipped.past).place (Nat.le_refl _)

private theorem forLoop_spanned {fuel : Nat} (less : StmtsSpanned bounds fuel)
    (lined : state.Lined bounds) (keyword : state.head.kind = .kwFor) :
    Brings bounds (forLoop (fuel + 1)) state (ReadStmt bounds state) := by
  rw [forLoop]
  refine Brings.advance keyword (by decide) lined fun taken => ?_
  refine (brings_expect taken.past.lined (by decide) _ _).bind fun name first named _ => ?_
  refine (brings_expect named.lined (by decide) _ _).bind fun _ second passed _ => ?_
  refine (brings_expression fuel passed.lined).bind fun start third read parsed => ?_
  obtain ⟨begun, from_⟩ := parsed
  refine Brings.peek ?_
  refine (brings_expect read.lined (by decide) _ _).bind fun _ fourth crossed _ => ?_
  refine (brings_expression fuel crossed.lined).bind fun stop fifth ends parsed => ?_
  obtain ⟨ended, to_⟩ := parsed
  have before := (taken.past.trans named).trans passed
  have header := (read.trans crossed).trans ends
  -- The step and the block are all that is left; a step that is not written has no span.
  have finish : ∀ (step : Expr) (last : ParseState), fifth.Past bounds last →
      (step = .absent ∨ step.Fits bounds ∧ ∃ begins stops : ParseState,
        begins.Spanned bounds stops step.span ∧ fifth.place ≤ begins.place ∧
          stops.reach ≤ last.reach) →
      Brings bounds (block fuel "for header" >>= fun result =>
        newStmt (.forLoop · name.text name.span start stop step result.1)
          (state.head.span.cover result.2)) last (ReadStmt bounds state) := by
    intro step last later stepped
    refine (less.block _ last later.lined).bind fun inner final inside body => ?_
    have whole := taken.cover (((named.trans passed).trans header).trans later) body.spanned
    refine brings_newStmt whole fun id => ⟨rfl, ?_⟩
    refine Stmt.fits_forLoop whole.check _ _ ?_ ?_ body.fits (body.enclosed.mono ?_)
    · rw [List.forall_mem_cons, List.forall_mem_singleton]
      refine ⟨⟨from_, whole.contains begun before.place ?_⟩,
        to_, whole.contains ended ((before.trans read).trans crossed).place ?_⟩
      · exact (((crossed.trans ends).trans later).trans inside).reach
      · exact (later.trans inside).reach
    · refine stepped.imp_right ?_
      rintro ⟨fits, begins, stops, spanned, ahead, behind⟩
      refine ⟨fits, whole.contains spanned ((before.trans header).place.trans ahead) ?_⟩
      exact behind.trans inside.reach
    · exact whole.contains body.spanned ((before.trans header).trans later).place (Nat.le_refl _)
  refine Brings.atKind (brings_ite (fun more => ?_) fun _ => ?_)
  · have step_ : fifth.head.kind = .kwStep := by simpa [ParseState.at?] using more
    refine Brings.advance step_ (by decide) ends.lined fun skipped => ?_
    refine (brings_expression fuel skipped.past.lined).bind fun step last later parsed => ?_
    obtain ⟨third, fits⟩ := parsed
    exact finish step last (skipped.past.trans later)
      (.inr ⟨fits, _, _, third, skipped.past.place, Nat.le_refl _⟩)
  · have unwritten : Brings bounds (pure .absent) fifth fun step _ => Expr.absent = step :=
      brings_pure ends.lined rfl
    refine unwritten.bind fun step last later same => ?_
    exact finish step last later (.inl same.symm)

private theorem statement_spanned {fuel : Nat} (less : StmtsSpanned bounds fuel)
    (lined : state.Lined bounds) :
    Brings bounds (statement (fuel + 1)) state (ReadStmt bounds state) := by
  rw [statement]
  refine Brings.peek ?_
  split
  next ident => exact assign_spanned fuel lined ident
  next keyword => exact read_spanned lined keyword
  next keyword => exact print_spanned fuel lined keyword
  next keyword => exact less.conditional state lined keyword
  next keyword => exact less.whileLoop state lined keyword
  next keyword => exact less.forLoop state lined keyword
  next invalid =>
    exact Brings.advance invalid (by decide) lined fun taken => brings_countError taken.past.lined
  next => exact brings_fail lined _ _

private theorem stmts_spanned (bounds : SpanBounds) (fuel : Nat) : StmtsSpanned bounds fuel := by
  induction fuel with
  | zero =>
    refine ⟨fun terminator done state lined => ?_, fun state lined => ?_, fun owner state lined => ?_,
      fun state lined _ => ?_, fun state lined _ => ?_, fun state lined _ => ?_⟩
    · rw [statements]
      have starved : state.Past bounds { state with starved := true } := .same lined rfl rfl
      exact ⟨starved, [], (List.append_nil _).symm, .skip starved (.nil starved.lined)⟩
    · rw [statement]; exact brings_starve lined
    · rw [block]; exact brings_starve lined
    · rw [conditional]; exact brings_starve lined
    · rw [whileLoop]; exact brings_starve lined
    · rw [forLoop]; exact brings_starve lined
  | succ fuel less =>
    exact ⟨fun terminator done _ => statements_spanned less terminator done,
      fun _ => statement_spanned less, fun owner _ => block_spanned less owner,
      fun _ => conditional_spanned less, fun _ => whileLoop_spanned less,
      fun _ => forLoop_spanned less⟩

end Parser

/-- Pieces that tile a content are not empty, and none overlaps another. -/
theorem Cursor.Covers.apart {content : Bytes} {cursor last : Cursor} {tiles : List Stretch}
    (covers : cursor.Covers tiles last) (inside : cursor.Inside content)
    (short : content.length < 2 ^ 32) :
    tiles.Pairwise (fun a b => a.span.stop.toNat ≤ b.span.start.toNat) ∧ ∀ piece ∈ tiles,
      piece.span.start.toNat < piece.span.stop.toNat ∧
        piece.span.stop.toNat ≤ last.offset.toNat := by
  induction covers with
  | nil => exact ⟨.nil, nofun⟩
  | @cons cursor next last piece more takes rest ih =>
    obtain ⟨inside', offset⟩ := takes.inside inside short
    obtain ⟨apart, solid⟩ := ih inside'
    obtain ⟨-, forward, behind⟩ := rest.ascending inside' short
    have some_ := List.length_pos_iff.mpr takes.some_
    have start : piece.span.start = cursor.offset := by rw [takes.span]; rfl
    have stop : piece.span.stop = next.offset := by rw [takes.span]; rfl
    refine ⟨.cons (fun other member => ?_) apart, List.forall_mem_cons.mpr ⟨?_, solid⟩⟩
    · rw [stop]
      exact (behind other member).1
    · rw [start, stop]
      omega

namespace SourceFile

/-- What the spans of a file are checked against. -/
def bounds (file : SourceFile) : SpanBounds := ⟨file.id, file.content.length.toUInt32⟩

/-- A parser starts in front of tokens that stand one behind the other. -/
theorem start_lined (file : SourceFile) (options : ParseOptions)
    (short : file.content.length < 2 ^ 32) :
    (ParseState.start options file.tokens).Lined file.bounds := by
  obtain ⟨total, tokens, ended, inside⟩ := file.tokens_firsts
  have covers := Cursor.firsts_cover inside
  have home := covers.inside file.inside_ofFile short
  have last := (scan_end home short covers.file ended).1
  change (Cursor.ofFile file).nth total = file.endToken at last
  have size : file.bounds.size.toNat = file.content.length := by
    simp only [bounds, Nat.toUInt32_eq, UInt32.toNat_ofNat']
    omega
  have total_ := home.total
  obtain ⟨apart, solid⟩ := covers.apart file.inside_ofFile short
  have among := Token.stretches_among ((Cursor.ofFile file).firsts total)
  have piece : ∀ token ∈ (Cursor.ofFile file).firsts total,
      token.span.start.toNat < token.span.stop.toNat ∧
        token.span.stop.toNat ≤ file.content.length := by
    intro token member
    have found := solid token.stretch (among.mem (List.mem_map_of_mem member))
    exact ⟨found.1, by have := found.2; simp only [Token.stretch] at this; omega⟩
  refine ⟨file.tokens_whole.ends, file.tokens_home, ?_, ?_, Nat.zero_le _⟩
  · intro token member other
    change token ∈ file.tokens at member
    rw [tokens, List.mem_append, List.mem_singleton] at member
    rcases member with early | rfl
    · rw [size]
      exact piece token early
    · exact absurd ended other
  · change file.tokens.Pairwise _
    rw [tokens, last, List.pairwise_append]
    refine ⟨List.pairwise_map.mp (apart.sublist among), List.pairwise_singleton _ _, ?_⟩
    intro token member other same
    rw [List.mem_singleton.mp same]
    exact (piece token member).2.trans (Nat.le_of_eq size.symm)

/-- Whatever the source and the options are, syntax errors or not, the spans of a parsed program
pass the check, those of statements lie inside of what they belong to, and statements of one list
stand one behind the other. -/
theorem parse_spans_nest (file : SourceFile) (options : ParseOptions)
    (short : file.content.length < 2 ^ 32) :
    let program := (Program.parse options file.tokens).program
    program.checkSpans file.bounds = .ok () ∧ Stmt.Enclosed program.span program.stmts ∧
      ∀ s, program.Reaches (.stmt s) → s.Nests ∧
        ∀ inner, .stmt inner ∈ (Node.stmt s).children → s.span.contains inner.span = true := by
  intro program
  have lined := file.start_lined options short
  obtain ⟨-, more, made, row⟩ := (Parser.stmts_spanned file.bounds
    (8 * file.tokens.length + 16)).statements .eof [] _ lined
  have kept : program.stmts = more := made
  rw [← kept] at row
  refine ⟨Stmt.checkSpansIn_ok row.fits, ⟨fun s member => ?_, row.apart⟩, fun s reached => ?_⟩
  · obtain ⟨first, last, spanned, start, stop, home⟩ := row.within s member
    have begins : (ParseState.start options file.tokens).head.span.file = file.bounds.file := by
      obtain ⟨token, rest, tokens⟩ : ∃ token rest, file.tokens = token :: rest := by
        obtain ⟨body, end_, tokens, -⟩ := lined.ends
        exact List.ne_nil_iff_exists_cons.mp (by change file.tokens = _ at tokens; simp [tokens])
      have here : (ParseState.start options file.tokens).head = token := by
        rw [ParseState.head, ParseState.start, tokens]
        rfl
      rw [here]
      exact file.tokens_home token (tokens ▸ List.mem_cons_self)
    have around := Span.cover_around (begins.trans home.symm)
    rw [Span.contains_iff, spanned.file, spanned.start, spanned.stop]
    refine ⟨?_, around.1.trans start, Nat.le_trans stop around.2⟩
    exact (Span.file_cover _ _).trans begins
  · obtain ⟨root, member, inside⟩ := Program.mem_nodes.mp ((program.reaches_iff _).mp reached)
    have nests := (row.fits root member).nests s inside
    refine ⟨nests, fun inner child => ?_⟩
    obtain ⟨body, below, part⟩ := Stmt.mem_bodies child
    exact (nests body below).inside inner part

/-- A source with errors in several places. -/
def broken : SourceFile :=
  .make 7 "broken.mini" "if a < \x7b print 1; \x7d while b \x7b x = ; print 2; \x7d \x7d" {}

theorem broken_spans_nest :
    let program := (Program.parse {} broken.tokens).program
    broken.content.length < 2 ^ 32 ∧ program.checkSpans broken.bounds = .ok () ∧
      Stmt.Enclosed program.span program.stmts := by
  have nested := parse_spans_nest broken {} (by decide)
  exact ⟨by decide, nested.1, nested.2.1⟩

end SourceFile

end Minilang
