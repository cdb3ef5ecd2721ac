import Mathlib.Tactic.IntervalCases
import Minilang.Proofs.LanguageGrammar
import Minilang.Proofs.ParsedTrees
import Minilang.Proofs.ParserSoundness

/-! Trees and derivations. The words of a tree whose operands hold tight enough are derived by the
grammar. Precedences tell two kinds of comparisons apart where the grammar has one rule for all. -/

namespace Minilang

open Grammar Rule

/-- The kinds of the words of an expression. -/
def Expr.kinds (e : Expr) : List TokenKind := e.words.map Word.kind

@[simp] theorem Expr.kinds_paren (site : Site) (inner : Expr) :
    (Expr.paren site inner).kinds = TokenKind.lParen :: inner.kinds ++ [TokenKind.rParen] := by
  simp [Expr.kinds, Expr.words]

@[simp] theorem Expr.kinds_unary (site : Site) (op : Op) (operand : Expr) :
    (Expr.unary site op operand).kinds = op.sign :: operand.kinds := by
  simp [Expr.kinds, Expr.words]

@[simp] theorem Expr.kinds_binary (site : Site) (form : BinaryForm) (op : Op) (left right : Expr) :
    (Expr.binary site form op left right).kinds = left.kinds ++ form.token op :: right.kinds := by
  simp [Expr.kinds, Expr.words]

namespace Grammar

/-- The symbol of the expressions that hold at least as tight as a precedence. -/
def symbolAt : Nat → Symbol
  | 0 | 1 => .or
  | 2 => .and
  | 3 | 4 => .cmp
  | 5 => .add
  | 6 => .mul
  | _ => .unary

variable {s operand : Symbol} {operator : Rule} {u v w : List TokenKind}

theorem derives_chain (rule : s.rule = chain operand operator) :
    Derives (symbol s) w ↔ ∃ first rest, w = first ++ rest ∧ Derives (symbol operand) first ∧
      Derives (many (operator ++ symbol operand)) rest := by
  rw [derives_symbol, rule, chain, derives_seq]

theorem derives_operand (rule : s.rule = chain operand operator)
    (derived : Derives (symbol operand) w) : Derives (symbol s) w :=
  (derives_chain rule).mpr ⟨w, [], (List.append_nil w).symm, derived, .done⟩

private theorem derives_many_append {item : Rule} (first : Derives (many item) u)
    (second : Derives (many item) v) : Derives (many item) (u ++ v) := by
  obtain ⟨parts, rfl, all⟩ := derives_many.mp first
  obtain ⟨others, rfl, rest⟩ := derives_many.mp second
  refine derives_many.mpr ⟨parts ++ others, List.flatten_append.symm, fun part member => ?_⟩
  exact (List.mem_append.mp member).elim (all part) (rest part)

/-- Two chains with an operator between them are a chain. -/
theorem derives_join (rule : s.rule = chain operand operator) {kind : TokenKind}
    (left : Derives (symbol s) u) (between : Derives operator [kind]) (right : Derives (symbol s) v) :
    Derives (symbol s) (u ++ kind :: v) := by
  obtain ⟨first, rest, rfl, here, more⟩ := (derives_chain rule).mp left
  obtain ⟨second, others, rfl, there, last⟩ := (derives_chain rule).mp right
  refine (derives_chain rule).mpr ⟨first, rest ++ ((kind :: second) ++ others), by simp, here, ?_⟩
  exact derives_many_append more (.more (.seq between there) last)

/-- An expression that holds tighter than a precedence also holds as tight. -/
theorem derives_symbolAt_down {low high : Nat} (le : low ≤ high) (small : high ≤ 7)
    (derived : Derives (symbol (symbolAt high)) w) : Derives (symbol (symbolAt low)) w := by
  induction high, le using Nat.le_induction with
  | base => exact derived
  | succ high _ ih =>
    refine ih (by omega) ?_
    have bound : high ≤ 6 := by omega
    interval_cases high
    · exact derived
    · exact derives_operand rfl derived
    · exact derives_operand rfl derived
    · exact derived
    · exact derives_operand rfl derived
    · exact derives_operand rfl derived
    · exact derives_operand rfl derived

end Grammar

/-- The operators of a precedence belong to the rule for it. -/
theorem BinaryForm.derives_join {form : BinaryForm} {op : Op} (admits : form.Admits op)
    {u v : List TokenKind} (left : Derives (symbol (symbolAt (form.precedence op))) u)
    (right : Derives (symbol (symbolAt (form.precedence op))) v) :
    Derives (symbol (symbolAt (form.precedence op))) (u ++ form.token op :: v) := by
  cases form with
  | logicalOr => exact Grammar.derives_join rfl left (.token _) right
  | logicalAnd => exact Grammar.derives_join rfl left (.token _) right
  | additive =>
    rcases admits with rfl | rfl <;>
      exact Grammar.derives_join rfl left (by simp [derives_oneOf, BinaryForm.token]) right
  | multiplicative =>
    rcases admits with rfl | rfl | rfl <;>
      exact Grammar.derives_join rfl left (by simp [derives_oneOf, BinaryForm.token]) right
  | comparison =>
    have cmp : symbolAt (BinaryForm.precedence .comparison op) = .cmp := by cases op <;> rfl
    rw [cmp] at left right ⊢
    refine Grammar.derives_join rfl left (derives_oneOf.mpr ?_) right
    revert admits
    cases op <;> simp [BinaryForm.Admits, Op.isComparison, BinaryForm.token]

/-- The words of a well-shaped expression are derived at every precedence up to its own. -/
theorem Expr.derives {isName : Bytes → Prop} {e : Expr} (shaped : e.Shaped) (proper : e.Proper isName)
    {n : Nat} (low : n ≤ e.level) : Derives (symbol (symbolAt n)) e.kinds := by
  have primary : ∀ {w : List TokenKind} {n : Nat}, n ≤ 7 → Derives (symbol .primary) w →
      Derives (symbol (symbolAt n)) w := fun small derived =>
    derives_symbolAt_down small (Nat.le_refl 7) (derives_unary.mpr (.inr derived))
  induction e generalizing n with
  | absent | hollow | unknown => exact shaped.elim
  | intLit site text value => exact primary low (derives_primary.mpr (.inl rfl))
  | varRef site name => exact primary low (derives_primary.mpr (.inr (.inl rfl)))
  | read site => exact primary low (derives_primary.mpr (.inr (.inr (.inl rfl))))
  | paren site inner ih =>
    refine primary low (derives_primary.mpr (.inr (.inr (.inr ⟨inner.kinds, ?_, .symbol ?_⟩))))
    · exact Expr.kinds_paren site inner
    · exact ih shaped proper (Nat.zero_le _)
  | unary site op operand ih =>
    refine derives_symbolAt_down low (Nat.le_refl 7) (derives_unary.mpr (.inl ?_))
    have derived : Derives (symbol (symbolAt 7)) operand.kinds :=
      ih shaped.2 proper.2 (Nat.le_of_eq shaped.1.symm)
    refine ⟨op.sign, ?_, operand.kinds, Expr.kinds_unary site op operand, derived⟩
    rcases proper.1 with rfl | rfl | rfl <;> simp [Op.sign]
  | binary site form op left right ihLeft ihRight =>
    obtain ⟨looser, tighter, first, second⟩ := shaped
    obtain ⟨admits, fine, good⟩ := proper
    have small : form.precedence op ≤ 7 := by
      cases form <;> cases op <;> decide
    rw [Expr.kinds_binary]
    exact derives_symbolAt_down low small (BinaryForm.derives_join admits (ihLeft first fine looser)
      (ihRight second good (Nat.le_of_lt tighter)))

/-- The kinds of words. -/
abbrev kindsOf (words : List Word) : List TokenKind := words.map Word.kind

private theorem Expr.derives_expr {isName : Bytes → Prop} {e : Expr} (shaped : e.Shaped)
    (proper : e.Proper isName) : Derives (symbol .expr) (kindsOf e.words) :=
  .symbol (Expr.derives shaped proper (Nat.zero_le _))

private theorem derives_braced {body : List Word}
    (inside : Derives (symbol .program) (kindsOf body)) :
    Derives (symbol .block) (kindsOf (Stmt.braced body)) :=
  derives_block.mpr ⟨kindsOf body, by simp [kindsOf, Stmt.braced], inside⟩

private theorem derives_conditional {nested : Stmt} {words : List Word} (spells : nested.Spells words)
    (conditional : nested.isConditional = true) (derived : Derives (symbol .stmt) (kindsOf words)) :
    Derives (symbol .ifStmt) (kindsOf words) := by
  have starts : (kindsOf words).head? = some .kwIf := by
    cases spells with
    | assign | read | print | whileLoop | forLoop => cases conditional
    | ifOnly | ifElse | elseIf => rfl
  rcases derives_stmt.mp derived with ⟨_, same, _⟩ | same | ⟨_, same, _⟩ | wanted | ⟨_, _, same, _⟩ |
    ⟨_, _, _, _, same, _⟩
  case inr.inr.inr.inl => exact wanted
  all_goals
    rw [same] at starts
    cases starts

mutual

/-- The words of a well-shaped statement are derived. -/
theorem Stmt.Spells.derives {isName : Bytes → Prop} {s : Stmt} {words : List Word} :
    s.Spells words → s.Shaped → s.Proper isName → Derives (symbol .stmt) (kindsOf words)
  | .assign _ _ _ value, shaped, proper =>
      derives_stmt.mpr (.inl ⟨_, by simp [kindsOf], Expr.derives_expr shaped proper.2⟩)
  | .read .., _, _ => derives_stmt.mpr (.inr (.inl (by simp [kindsOf])))
  | .print _ value, shaped, proper =>
      derives_stmt.mpr (.inr (.inr (.inl ⟨_, by simp [kindsOf], Expr.derives_expr shaped proper⟩)))
  | .ifOnly _ cond inside, shaped, proper =>
      derives_stmt.mpr (.inr (.inr (.inr (.inl (derives_ifStmt.mpr ⟨_, _, [], by simp [kindsOf],
        Expr.derives_expr shaped.1 proper.1,
        derives_braced (Stmt.SpellAll.derives inside shaped.2.1 proper.2.1), .inl rfl⟩)))))
  | .ifElse _ cond inside otherwise, shaped, proper =>
      derives_stmt.mpr (.inr (.inr (.inr (.inl (derives_ifStmt.mpr ⟨_, _, _, by simp [kindsOf],
        Expr.derives_expr shaped.1 proper.1,
        derives_braced (Stmt.SpellAll.derives inside shaped.2.1 proper.2.1), .inr ⟨_, rfl, .inl
          (derives_braced (Stmt.SpellAll.derives otherwise shaped.2.2 proper.2.2.1))⟩⟩)))))
  | .elseIf _ cond inside conditional otherwise, shaped, proper =>
      derives_stmt.mpr (.inr (.inr (.inr (.inl (derives_ifStmt.mpr ⟨_, _, _, by simp [kindsOf],
        Expr.derives_expr shaped.1 proper.1,
        derives_braced (Stmt.SpellAll.derives inside shaped.2.1 proper.2.1), .inr ⟨_, rfl, .inr
          (derives_conditional otherwise conditional
            (Stmt.Spells.derives otherwise shaped.2.2.1 proper.2.2.1.1))⟩⟩)))))
  | .whileLoop _ cond inside, shaped, proper =>
      derives_stmt.mpr (.inr (.inr (.inr (.inr (.inl ⟨_, _, by simp [kindsOf],
        Expr.derives_expr shaped.1 proper.1,
        derives_braced (Stmt.SpellAll.derives inside shaped.2 proper.2)⟩)))))
  | .forLoop _ name _ start stop step inside, shaped, proper => by
      refine derives_stmt.mpr (.inr (.inr (.inr (.inr (.inr ⟨_, _,
        kindsOf (if step.isAbsent then [] else TokenKind.kwStep.word :: step.words), _,
        by simp [kindsOf], Expr.derives_expr shaped.1 proper.2.1,
        Expr.derives_expr shaped.2.1 proper.2.2.1, ?_,
        derives_braced (Stmt.SpellAll.derives inside shaped.2.2.2 proper.2.2.2.2)⟩)))))
      cases absent : step.isAbsent with
      | true => exact .inl rfl
      | false => exact .inr ⟨kindsOf step.words, rfl,
          Expr.derives_expr (shaped.2.2.1 absent) (proper.2.2.2.1 absent)⟩

theorem Stmt.SpellAll.derives {isName : Bytes → Prop} {body : List Stmt} {words : List Word} :
    Stmt.SpellAll body words → Stmt.AllShaped body → Stmt.AllProper isName body →
      Derives (symbol .program) (kindsOf words)
  | .nil, _, _ => .symbol .done
  | .cons first more, shaped, proper => by
      rw [kindsOf, List.map_append]
      exact .symbol (.more (Stmt.Spells.derives first shaped.1 proper.1)
        (derives_symbol.mp (Stmt.SpellAll.derives more shaped.2 proper.2)))

end

end Minilang
