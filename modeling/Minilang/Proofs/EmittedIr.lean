import Minilang.Compile
import Minilang.Proofs.FileTokens
import Minilang.Proofs.IrText
import Minilang.Proofs.SsaForm

/-! The text that is emitted for a file. Identifiers and made names are written with the bytes of
names and never meet, so the text of a program without undefined references is read back as its
body, which is in static single assignment form. -/

namespace Minilang

namespace Ir

@[simp] theorem isName_temp (n : Nat) : IsName (temp n) := by
  refine ⟨nofun, fun b member => ?_⟩
  rcases List.mem_cons.mp member with rfl | digit
  · rfl
  · simp [isNameByte, Bytes.isDigit_of_mem_dec digit]

@[simp] theorem Operand.written_imm (value : Int32) : (Operand.imm value).Written := trivial

@[simp] theorem Operand.written_temp (n : Nat) : (Operand.reg (temp n)).Written := isName_temp n

/-- A flow to a last terminator opens and closes its blocks in turn. -/
theorem Flow.wellBlocked {scope : Bytes → Set Bytes} {before last : Option (Set Bytes)}
    {items : List Item} (flow : Flow scope before items last) (ends : last = none) :
    Ir.wellBlocked before.isNone items = true := by
  induction flow with
  | forget => cases ends
  | gone => rfl
  | insn goesOn uses flow ih => simpa [Ir.wellBlocked, goesOn] using ih ends
  | leave closes uses brings flow ih => simpa [Ir.wellBlocked, closes] using ih ends
  | enter flow ih => simpa [Ir.wellBlocked] using ih ends

/-- Items that can all be written. -/
def AllWritten (items : List Item) : Prop := ∀ item ∈ items, item.Written

namespace AllWritten

variable {items rest : List Item} {action : Action} {n : Nat}

@[simp] theorem nil : AllWritten [] := nofun

@[simp] theorem append_iff :
    AllWritten (items ++ rest) ↔ AllWritten items ∧ AllWritten rest := List.forall_mem_append

theorem cons_iff {item : Item} :
    AllWritten (item :: rest) ↔ item.Written ∧ AllWritten rest := List.forall_mem_cons

@[simp] theorem plain_iff : AllWritten (plain action :: rest) ↔
    (action.Written ∧ action.yields = false) ∧ AllWritten rest := by
  rw [cons_iff]
  refine and_congr_left fun _ => ⟨fun ⟨written, yields, _⟩ => ⟨written, ?_⟩, fun ⟨written, free⟩ => ?_⟩
  · exact Bool.eq_false_iff.mpr fun some_ => nomatch yields some_
  · exact ⟨written, fun some_ => (nomatch free.symm.trans some_), nofun⟩

@[simp] theorem result_iff : AllWritten (result n action :: rest) ↔
    action.Written ∧ AllWritten rest := by
  rw [cons_iff]
  refine and_congr_left fun _ => ⟨fun written => written.action, fun written => ⟨written, ?_, ?_⟩⟩
  · exact fun _ => rfl
  · intro name same
    cases same
    exact isName_temp n

@[simp] theorem mark_iff : AllWritten (mark n :: rest) ↔ AllWritten rest := by
  rw [cons_iff]
  exact and_iff_right (isName_temp n)

end AllWritten

end Ir

open Ir

@[simp] theorem Expr.operand_written (e : Expr) (n : Nat) : (e.operand n).Written := by
  induction e with
  | intLit => trivial
  | paren site inner ih => exact ih
  | unary site op operand ih =>
    cases op with
    | plus => exact ih
    | _ => exact isName_temp _
  | absent | hollow | unknown | varRef | read | binary => exact isName_temp _

@[simp] theorem Expr.stepOperand_written (step : Expr) (n : Nat) : (step.stepOperand n).Written := by
  rw [Expr.stepOperand]
  split
  · trivial
  · exact step.operand_written n

/-- The instructions of an expression can be written when its variables are names. -/
theorem Expr.items_written (e : Expr) (proper : e.Proper IsName) (n : Nat) :
    AllWritten (e.items n) := by
  induction e generalizing n with
  | absent | hollow | unknown => exact proper.elim
  | intLit => exact .nil
  | varRef site name => simp [Expr.items, Action.Written, show IsName name from proper]
  | read site => simp [Expr.items, Action.Written, Action.yields]
  | paren site inner ih => exact ih proper n
  | unary site op operand ih =>
    have inner := ih proper.2 n
    rcases proper.1 with rfl | rfl | rfl
    · simpa [Expr.items] using inner
    all_goals
      simp [Expr.items, inner, Action.Written]
  | binary site form op left right leftIh rightIh =>
    have first := leftIh proper.2.1
    have second := rightIh proper.2.2
    cases form <;> simp [Expr.items, first, second, Action.Written, Action.yields]

mutual

theorem Stmt.items_written : (s : Stmt) → s.Proper IsName → (n : Nat) → AllWritten (s.items n)
  | .absent, proper, _ | .hollow .., proper, _ | .unknown _, proper, _ => proper.elim
  | .assign _ name _ value, proper, n => by
    simp [Stmt.items, value.items_written proper.2, Action.Written, Action.yields, proper.1]
  | .read _ name _, proper, n => by
    simp [Stmt.items, Action.Written, Action.yields, show IsName name from proper]
  | .print _ value, proper, n => by
    simp [Stmt.items, value.items_written proper, Action.Written, Action.yields]
  | .ifElse _ cond thenBody elseBody hasElse, proper, n => by
    have test := cond.items_written proper.1
    have yes := Stmt.allItems_written thenBody proper.2.1
    have no := Stmt.allItems_written elseBody proper.2.2.1
    cases hasElse <;> simp [Stmt.items, test, yes, no, Action.Written, Action.yields]
  | .whileLoop _ cond body, proper, n => by
    have test := cond.items_written proper.1
    have round := Stmt.allItems_written body proper.2
    simp [Stmt.items, test, round, Action.Written, Action.yields]
  | .forLoop _ name _ start stop step body, proper, n => by
    obtain ⟨counter, first, last, increment, inside⟩ := proper
    have bounds := And.intro (start.items_written first) (stop.items_written last)
    have stride : ∀ n, AllWritten (step.items n) := by
      intro n
      cases present : step.isAbsent with
      | true =>
        cases step with
        | absent => exact .nil
        | _ => cases present
      | false => exact step.items_written (increment present) n
    have round := Stmt.allItems_written body inside
    simp [Stmt.items, bounds, stride, round, Action.Written, Action.yields, counter]

theorem Stmt.allItems_written : (body : List Stmt) → Stmt.AllProper IsName body → (n : Nat) →
    AllWritten (Stmt.allItems n body)
  | [], _, _ => .nil
  | s :: rest, proper, n =>
    AllWritten.append_iff.mpr
      ⟨s.items_written proper.1 n, Stmt.allItems_written rest proper.2 _⟩

end

/-- The text of a program of names is read back. -/
theorem Program.Ready.readable {program : Program} {vars : Variables} (ready : program.Ready vars)
    (named : ∀ name, vars.has name = true → IsName name)
    (proper : Stmt.AllProper IsName program.stmts) : Readable (program.irItems vars) where
  written := by
    intro item member
    rcases mem_irItems.mp member with entry | inside | rfl
    · obtain ⟨name, known, same⟩ := entry_items entry
      have written : IsName name := by
        rcases List.mem_append.mp known with listed | made
        · obtain ⟨i, inside, rfl⟩ := List.mem_iff_getElem.mp listed
          exact named _ (Variables.has_iff.mpr ⟨i, (ready.sound _ i).mpr (by simp)⟩)
        · obtain ⟨n, -, rfl⟩ := List.mem_map.mp made
          exact isName_temp n
      rcases same with rfl | rfl
      · exact ⟨trivial, fun _ => rfl, fun other same => Option.some.inj same ▸ written⟩
      · exact ⟨⟨trivial, written⟩, nofun, nofun⟩
    · exact Stmt.allItems_written program.stmts proper 0 item inside
    · exact ⟨trivial, nofun, nofun⟩
  blocked := by
    obtain ⟨scope, flow⟩ := ready.flow
    exact flow.wellBlocked rfl
  names := ready.names_nodup
  targets insn member := (ready.fits member).1
  uses insn member name use := mem_resultsOf.mpr ((ready.fits member).2 name use)

theorem IsIdentifier.isName {text : Bytes} (identifier : IsIdentifier text) : IsName text := by
  obtain ⟨first, rest, rfl, -, inside⟩ := identifier
  refine ⟨nofun, fun b member => ?_⟩
  have continues := inside b member
  simp only [Lexeme.isIdentContinue, Lexeme.isIdentStart, Bool.or_eq_true] at continues
  simp only [isNameByte, Bool.or_eq_true]
  grind

theorem IsIdentifier.ne_temp {text : Bytes} (identifier : IsIdentifier text) (n : Nat) :
    text ≠ temp n := by
  obtain ⟨first, rest, rfl, start, -⟩ := identifier
  intro same
  cases (List.cons.inj same).1
  cases start

section file

variable (file : SourceFile) (options : ParseOptions)

theorem SourceFile.program_identifiers :
    Stmt.AllProper IsIdentifier (Program.parse options file.tokens).program.stmts :=
  Program.parse_proper options fun token member => (file.tokens_whole.faithful token member).ident

variable {file options} {program : Program} {vars : Variables}

/-- The program of a file in which every reference is to a variable. -/
theorem SourceFile.program_ready (parsed : program = (Program.parse options file.tokens).program)
    (indexed : vars = Variables.ofProgram program) (defined : program.undefinedReports vars = []) :
    program.Ready vars where
  sound := indexed ▸ Variables.ofProgram_sound program
  proper := by
    have identifiers := parsed ▸ file.program_identifiers options
    have known := indexed ▸ Program.assignsOnly program
    exact Stmt.allProper_of_defined _ identifiers known defined
  apart name known := by
    have identifiers := parsed ▸ file.program_identifiers options
    exact (Program.variable_isName identifiers (indexed ▸ known)).ne_temp

end file

/-- Without undefined references the text of a file's program is read back as its body, which is
in static single assignment form. -/
theorem emitted_code_is_valid_ssa (file : SourceFile) (parsing : ParseOptions)
    (options : CompileOptions) (sourceName : Bytes) (lineOf : Option (Span → Nat))
    (oneLine : 10 ∉ sourceName) :
    let program := (Program.parse parsing file.tokens).program
    let vars := Variables.ofProgram program
    program.undefinedReports vars = [] →
      ∃ body text code, program.emitAs vars options .llvm sourceName lineOf = (.ok text, []) ∧
        Code.read text = .ok code ∧ code.Holds body ∧ ValidSsa body := by
  intro program vars defined
  have ready : program.Ready vars := SourceFile.program_ready rfl rfl defined
  have identifiers := file.program_identifiers parsing
  have names : Stmt.AllProper IsName program.stmts := Program.parse_proper parsing
    fun token member ident => ((file.tokens_whole.faithful token member).ident ident).isName
  have readable := ready.readable
    (fun name known => (Program.variable_isName identifiers known).isName) names
  refine ⟨program.irItems vars, render options.dialect sourceName (program.irItems vars),
    codeOf options.dialect sourceName (program.irItems vars), ?_, readable.read oneLine,
    readable.holds, ready.validSsa⟩
  have lowered := Program.toIr_eq vars names
  rw [defined] at lowered
  rw [Program.emitAs, lowered]

/-- A program whose variables are all assigned somewhere has no undefined references. -/
theorem Program.undefinedReports_nil {program : Program}
    (assigned : ∀ node ∈ program.nodes, (match node with
      | .expr (.varRef _ name) => program.nodes.any fun other => other.target? == some name
      | _ => true) = true) :
    program.undefinedReports (Variables.ofProgram program) = [] := by
  rw [Program.undefinedReports_eq, List.filterMap_eq_nil_iff]
  intro node member
  have here := assigned node member
  unfold Node.undefined?
  split
  next site name =>
    obtain ⟨other, present, target⟩ := List.any_eq_true.mp here
    have known := (Variables.has_foldl program.nodes {} name).mpr
      (.inl ⟨other, present, eq_of_beq target⟩)
    exact if_pos known
  next => rfl

/-- A counting loop around a join in the middle of an expression. -/
theorem emitted_loop_is_valid_ssa :
    let file := SourceFile.make 0 "loop.mini" "for i = 1 to 3 \x7b print i && read; \x7d" {}
    let program := (Program.parse {} file.tokens).program
    ∃ body text code, program.emitAs (Variables.ofProgram program) { target := some .llvm } .llvm
        file.path none = (.ok text, []) ∧
      Code.read text = .ok code ∧ code.Holds body ∧ ValidSsa body := by
  intro file program
  refine emitted_code_is_valid_ssa file {} { target := some .llvm } file.path none (by decide) ?_
  exact Program.undefinedReports_nil (by decide +kernel)

end Minilang
