import Minilang.Token.Kind

/-! The grammar of the language, over kinds of tokens, and what its rules derive. -/

namespace Minilang.Grammar

/-- What the grammar names. -/
inductive Symbol where
  | program
  | stmt
  | ifStmt
  | block
  | expr
  | or
  | and
  | cmp
  | add
  | mul
  | unary
  | primary
  deriving DecidableEq, Repr

/-- The right side of a rule. -/
inductive Rule where
  | token (kind : TokenKind)
  | symbol (name : Symbol)
  | seq (first second : Rule)
  | either (first second : Rule)
  | optional (item : Rule)
  | many (item : Rule)
  deriving DecidableEq, Repr

instance : Append Rule := ⟨Rule.seq⟩

instance : OrOp Rule := ⟨Rule.either⟩

namespace Rule

/-- One of some tokens. -/
def oneOf : TokenKind → List TokenKind → Rule
  | kind, [] => token kind
  | kind, other :: rest => token kind ||| oneOf other rest

/-- Operands with operators between them. -/
def chain (operand : Symbol) (operator : Rule) : Rule :=
  symbol operand ++ many (operator ++ symbol operand)

end Rule

open Rule

def Symbol.rule : Symbol → Rule
  | program => many (symbol stmt)
  | stmt =>
      token .ident ++ token .assign ++ symbol expr ++ token .semicolon |||
      token .kwRead ++ token .ident ++ token .semicolon |||
      token .kwPrint ++ symbol expr ++ token .semicolon |||
      symbol ifStmt |||
      token .kwWhile ++ symbol expr ++ symbol block |||
      token .kwFor ++ token .ident ++ token .assign ++ symbol expr ++ token .kwTo ++ symbol expr ++
        optional (token .kwStep ++ symbol expr) ++ symbol block
  | ifStmt =>
      token .kwIf ++ symbol expr ++ symbol block ++
        optional (token .kwElse ++ (symbol block ||| symbol ifStmt))
  | block => token .lBrace ++ many (symbol stmt) ++ token .rBrace
  | expr => symbol or
  | or => chain and (oneOf .orOr [])
  | and => chain cmp (oneOf .andAnd [])
  | cmp => chain add (oneOf .eqEq [.bangEq, .lt, .ltEq, .gt, .gtEq])
  | add => chain mul (oneOf .plus [.minus])
  | mul => chain unary (oneOf .star [.slash, .percent])
  | unary => oneOf .plus [.minus, .bang] ++ symbol unary ||| symbol primary
  | primary =>
      token .intLit ||| token .ident ||| token .kwRead |||
      token .lParen ++ symbol expr ++ token .rParen

/-- The words that a rule derives. -/
inductive Rule.Derives : Rule → List TokenKind → Prop
  | token (kind : TokenKind) : Derives (.token kind) [kind]
  | symbol {name : Symbol} {word : List TokenKind} (rule : Derives name.rule word) :
      Derives (.symbol name) word
  | seq {first second : Rule} {u v : List TokenKind} (left : Derives first u)
      (right : Derives second v) : Derives (first ++ second) (u ++ v)
  | first {first second : Rule} {word : List TokenKind} (left : Derives first word) :
      Derives (first ||| second) word
  | second {first second : Rule} {word : List TokenKind} (right : Derives second word) :
      Derives (first ||| second) word
  | none {item : Rule} : Derives (.optional item) []
  | some {item : Rule} {word : List TokenKind} (here : Derives item word) :
      Derives (.optional item) word
  | done {item : Rule} : Derives (.many item) []
  | more {item : Rule} {u v : List TokenKind} (here : Derives item u)
      (rest : Derives (.many item) v) : Derives (.many item) (u ++ v)

namespace Rule

variable {first second item : Rule} {word : List TokenKind}

@[simp] theorem derives_token {kind : TokenKind} : Derives (token kind) word ↔ word = [kind] := by
  refine ⟨fun derived => ?_, fun same => same ▸ .token kind⟩
  cases derived
  rfl

theorem derives_symbol {name : Symbol} : Derives (symbol name) word ↔ Derives name.rule word := by
  refine ⟨fun derived => ?_, .symbol⟩
  cases derived
  assumption

@[simp] theorem derives_seq :
    Derives (first ++ second) word ↔ ∃ u v, word = u ++ v ∧ Derives first u ∧ Derives second v := by
  refine ⟨fun derived => ?_, fun ⟨u, v, same, left, right⟩ => same ▸ .seq left right⟩
  cases derived with
  | seq left right => exact ⟨_, _, rfl, left, right⟩

@[simp] theorem derives_either :
    Derives (first ||| second) word ↔ Derives first word ∨ Derives second word := by
  refine ⟨fun derived => ?_, fun either => either.elim .first .second⟩
  cases derived with
  | first left => exact .inl left
  | second right => exact .inr right

@[simp] theorem derives_optional :
    Derives (optional item) word ↔ word = [] ∨ Derives item word := by
  refine ⟨fun derived => ?_, fun either => either.elim (fun same => same ▸ .none) .some⟩
  cases derived with
  | none => exact .inl rfl
  | some here => exact .inr here

/-- A repetition derives what its parts derive, one behind the other. -/
theorem derives_many :
    Derives (many item) word ↔
      ∃ parts : List (List TokenKind), word = parts.flatten ∧ ∀ part ∈ parts, Derives item part := by
  constructor
  · intro derived
    generalize same : many item = rule at derived
    induction derived with
    | done => exact ⟨[], rfl, by simp⟩
    | more here rest _ ih =>
      obtain ⟨parts, rfl, all⟩ := ih same
      cases same
      exact ⟨_ :: parts, rfl, List.forall_mem_cons.mpr ⟨here, all⟩⟩
    | token | symbol | seq | first | second | none | some => cases same
  · rintro ⟨parts, rfl, all⟩
    induction parts with
    | nil => exact .done
    | cons part parts ih =>
      rw [List.forall_mem_cons] at all
      exact .more all.1 (ih all.2)

theorem derives_oneOf {kind : TokenKind} {rest : List TokenKind} :
    Derives (oneOf kind rest) word ↔ ∃ other ∈ kind :: rest, word = [other] := by
  induction rest generalizing kind with
  | nil => simp [oneOf]
  | cons next rest ih =>
    simp only [oneOf, derives_either, derives_token, ih, List.mem_cons, or_and_right, exists_or,
      exists_eq_left]

/-- Whether a rule does not name a kind of tokens itself. -/
def avoids (kind : TokenKind) : Rule → Bool
  | token other => other != kind
  | symbol _ => true
  | seq first second | either first second => first.avoids kind && second.avoids kind
  | optional item | many item => item.avoids kind

/-- What no rule of the grammar names is in no word. -/
theorem not_mem_of_derives {kind : TokenKind} (never : ∀ name : Symbol, name.rule.avoids kind = true)
    {rule : Rule} (derived : Derives rule word) (avoids : rule.avoids kind = true) : kind ∉ word := by
  induction derived with
  | token other => simpa using (bne_iff_ne.mp avoids).symm
  | @symbol name _ _ ih => exact ih (never name)
  | seq _ _ ihLeft ihRight =>
    have both := Bool.and_eq_true_iff.mp avoids
    simp [ihLeft both.1, ihRight both.2]
  | first _ ih => exact ih (Bool.and_eq_true_iff.mp avoids).1
  | second _ ih => exact ih (Bool.and_eq_true_iff.mp avoids).2
  | none | done => simp
  | some _ ih => exact ih avoids
  | more _ _ ihHere ihRest => simp [ihHere avoids, ihRest avoids]

theorem derives_primary : Derives (symbol .primary) word ↔
    word = [.intLit] ∨ word = [.ident] ∨ word = [.kwRead] ∨
      ∃ inner, word = .lParen :: inner ++ [.rParen] ∧ Derives (symbol .expr) inner := by
  rw [derives_symbol]
  simp only [Symbol.rule, derives_either, derives_token, derives_seq, or_assoc]
  refine or_congr_right (or_congr_right (or_congr_right ?_))
  constructor
  · rintro ⟨_, _, rfl, ⟨_, inner, rfl, rfl, derived⟩, rfl⟩
    exact ⟨inner, rfl, derived⟩
  · rintro ⟨inner, rfl, derived⟩
    exact ⟨_, _, rfl, ⟨_, inner, rfl, rfl, derived⟩, rfl⟩

theorem derives_unary : Derives (symbol .unary) word ↔
    (∃ sign ∈ [TokenKind.plus, .minus, .bang], ∃ operand, word = sign :: operand ∧
      Derives (symbol .unary) operand) ∨ Derives (symbol .primary) word := by
  rw [derives_symbol]
  simp only [Symbol.rule, derives_either, derives_seq, derives_oneOf]
  refine or_congr_left ?_
  constructor
  · rintro ⟨_, operand, rfl, ⟨sign, member, rfl⟩, derived⟩
    exact ⟨sign, member, operand, rfl, derived⟩
  · rintro ⟨sign, member, operand, rfl, derived⟩
    exact ⟨[sign], operand, rfl, ⟨sign, member, rfl⟩, derived⟩

theorem derives_block : Derives (symbol .block) word ↔
    ∃ body, word = .lBrace :: body ++ [.rBrace] ∧ Derives (symbol .program) body := by
  rw [derives_symbol]
  simp only [Symbol.rule, derives_token, derives_seq]
  constructor
  · rintro ⟨_, _, rfl, ⟨_, body, rfl, rfl, derived⟩, rfl⟩
    exact ⟨body, rfl, .symbol derived⟩
  · rintro ⟨body, rfl, derived⟩
    exact ⟨_, _, rfl, ⟨_, body, rfl, rfl, derives_symbol.mp derived⟩, rfl⟩

theorem derives_ifStmt : Derives (symbol .ifStmt) word ↔
    ∃ cond body rest, word = .kwIf :: cond ++ body ++ rest ∧ Derives (symbol .expr) cond ∧
      Derives (symbol .block) body ∧ (rest = [] ∨ ∃ other, rest = .kwElse :: other ∧
        (Derives (symbol .block) other ∨ Derives (symbol .ifStmt) other)) := by
  rw [derives_symbol]
  simp only [Symbol.rule, derives_token, derives_seq, derives_optional, derives_either]
  constructor
  · rintro ⟨_, rest, rfl, ⟨_, body, rfl, ⟨_, cond, rfl, rfl, first⟩, second⟩, third⟩
    refine ⟨cond, body, rest, rfl, first, second, third.imp_right ?_⟩
    rintro ⟨_, other, rfl, rfl, derived⟩
    exact ⟨other, rfl, derived⟩
  · rintro ⟨cond, body, rest, rfl, first, second, third⟩
    refine ⟨_, rest, rfl, ⟨_, body, rfl, ⟨_, cond, rfl, rfl, first⟩, second⟩, third.imp_right ?_⟩
    rintro ⟨other, rfl, derived⟩
    exact ⟨_, other, rfl, rfl, derived⟩

/-- A statement derives the words of one of its six forms. -/
theorem derives_stmt : Derives (symbol .stmt) word ↔
    (∃ value, word = .ident :: .assign :: value ++ [.semicolon] ∧ Derives (symbol .expr) value) ∨
    word = [.kwRead, .ident, .semicolon] ∨
    (∃ value, word = .kwPrint :: value ++ [.semicolon] ∧ Derives (symbol .expr) value) ∨
    Derives (symbol .ifStmt) word ∨
    (∃ cond body, word = .kwWhile :: cond ++ body ∧ Derives (symbol .expr) cond ∧
      Derives (symbol .block) body) ∨
    ∃ start stop step body, word = .kwFor :: .ident :: .assign :: start ++ .kwTo :: stop ++ step ++
      body ∧ Derives (symbol .expr) start ∧ Derives (symbol .expr) stop ∧
      (step = [] ∨ ∃ value, step = .kwStep :: value ∧ Derives (symbol .expr) value) ∧
      Derives (symbol .block) body := by
  rw [derives_symbol]
  simp only [Symbol.rule, derives_token, derives_seq, derives_optional, derives_either, or_assoc]
  refine or_congr ?_ (or_congr ?_ (or_congr ?_ (or_congr_right (or_congr ?_ ?_))))
  · constructor
    · rintro ⟨_, _, rfl, ⟨_, value, rfl, ⟨_, _, rfl, rfl, rfl⟩, derived⟩, rfl⟩
      exact ⟨value, rfl, derived⟩
    · rintro ⟨value, rfl, derived⟩
      exact ⟨_, _, rfl, ⟨_, value, rfl, ⟨_, _, rfl, rfl, rfl⟩, derived⟩, rfl⟩
  · constructor
    · rintro ⟨_, _, rfl, ⟨_, _, rfl, rfl, rfl⟩, rfl⟩
      rfl
    · rintro rfl
      exact ⟨_, _, rfl, ⟨_, _, rfl, rfl, rfl⟩, rfl⟩
  · constructor
    · rintro ⟨_, _, rfl, ⟨_, value, rfl, rfl, derived⟩, rfl⟩
      exact ⟨value, rfl, derived⟩
    · rintro ⟨value, rfl, derived⟩
      exact ⟨_, _, rfl, ⟨_, value, rfl, rfl, derived⟩, rfl⟩
  · constructor
    · rintro ⟨_, body, rfl, ⟨_, cond, rfl, rfl, first⟩, second⟩
      exact ⟨cond, body, rfl, first, second⟩
    · rintro ⟨cond, body, rfl, first, second⟩
      exact ⟨_, body, rfl, ⟨_, cond, rfl, rfl, first⟩, second⟩
  · constructor
    · rintro ⟨_, body, rfl, ⟨_, step, rfl, ⟨_, stop, rfl, ⟨_, _, rfl, ⟨_, start, rfl, ⟨_, _, rfl,
        ⟨_, _, rfl, rfl, rfl⟩, rfl⟩, first⟩, rfl⟩, second⟩, third⟩, inside⟩
      refine ⟨start, stop, step, body, by simp, first, second, third.imp_right ?_, inside⟩
      rintro ⟨_, value, rfl, rfl, derived⟩
      exact ⟨value, rfl, derived⟩
    · rintro ⟨start, stop, step, body, rfl, first, second, third, inside⟩
      refine ⟨_, body, rfl, ⟨_, step, rfl, ⟨_, stop, by simp, ⟨_, _, rfl, ⟨_, start, rfl, ⟨_, _, rfl,
        ⟨_, _, rfl, rfl, rfl⟩, rfl⟩, first⟩, rfl⟩, second⟩, third.imp_right ?_⟩, inside⟩
      rintro ⟨value, rfl, derived⟩
      exact ⟨_, value, rfl, rfl, derived⟩

end Rule

end Minilang.Grammar
