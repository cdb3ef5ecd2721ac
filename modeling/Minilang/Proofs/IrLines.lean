import Minilang.Ir.Read
import Minilang.Ir.Render
import Minilang.Proofs.DecimalText
import Minilang.Proofs.PlainText

/-! The lines of intermediate code: the text of an instruction is read as that instruction, and it
holds none of the bytes that mark a label, a comment or the end of the function. -/

namespace Minilang.Ir

open Text (Phrase isSolid)

/-- A name that can be written. -/
def IsName (name : Bytes) : Prop := name ≠ [] ∧ ∀ b ∈ name, isNameByte b = true

instance : DecidablePred IsName := fun name =>
  inferInstanceAs (Decidable (name ≠ [] ∧ ∀ b ∈ name, isNameByte b = true))

/-- A byte of a name, a number or a type. -/
def isInner (b : UInt8) : Bool :=
  isSolid b && !(b == 40 || b == 41 || b == 44 || b == 58 || b == 59 || b == 91 || b == 93 || b == 125)

theorem isSolid_of_inner {b : UInt8} (inner : isInner b = true) : isSolid b = true := by
  simp only [isInner, Bool.and_eq_true] at inner
  exact inner.1

theorem isInner_of_nameByte {b : UInt8} : isNameByte b = true → isInner b = true := by
  revert b
  apply Bytes.forall_byte
  decide +kernel

theorem isInner_of_digit {b : UInt8} : Bytes.isDigit b = true → isInner b = true := by
  revert b
  apply Bytes.forall_byte
  decide +kernel

/-- A piece of a line: words of inner bytes with single blanks between them. -/
structure Piece (text : Bytes) : Prop where
  phrase : Phrase text
  inner : ∀ b ∈ text, isInner b = true ∨ b = 32

theorem Piece.word {text : Bytes} (some_ : text ≠ []) (inner : ∀ b ∈ text, isInner b = true) :
    Piece text :=
  ⟨.of_solid some_ fun b member => isSolid_of_inner (inner b member),
    fun b member => .inl (inner b member)⟩

theorem Piece.pair {first second : Bytes} (begins : Piece first) (ends : Piece second) :
    Piece (first ++ 32 :: second) where
  phrase := begins.phrase.pair ends.phrase
  inner := by
    simp only [List.mem_append, List.mem_cons, or_imp, forall_and, forall_eq]
    exact ⟨begins.inner, .inr trivial, ends.inner⟩

/-- An operand whose name can be written. -/
def Operand.Written : Operand → Prop
  | .imm _ => True
  | .reg name => IsName name

theorem Operand.text_ne_nil (operand : Operand) : operand.text ≠ [] := by
  cases operand with
  | imm value =>
    rw [Operand.text]
    cases value.toInt with
    | ofNat n => exact Bytes.dec_ne_nil n
    | negSucc n => exact nofun
  | reg name => exact nofun

theorem Operand.text_inner {operand : Operand} (written : operand.Written) :
    ∀ b ∈ operand.text, isInner b = true := by
  intro b member
  cases operand with
  | imm value =>
    rw [Operand.text] at member
    cases whole : value.toInt with
    | ofNat n =>
      rw [whole] at member
      exact isInner_of_digit (Bytes.isDigit_of_mem_dec member)
    | negSucc n =>
      rw [whole] at member
      rcases List.mem_cons.mp member with rfl | digit
      · rfl
      · exact isInner_of_digit (Bytes.isDigit_of_mem_dec digit)
  | reg name =>
    rcases List.mem_cons.mp member with rfl | inside
    · rfl
    · exact isInner_of_nameByte (written.2 b inside)

theorem Operand.piece {operand : Operand} (written : operand.Written) : Piece operand.text :=
  .word operand.text_ne_nil (Operand.text_inner written)

theorem readOperand_text {operand : Operand} (written : operand.Written) :
    readOperand operand.text = .ok operand := by
  rw [readOperand, Text.trim_phrase (Operand.piece written).phrase]
  cases operand with
  | imm value =>
    have read := Text.int32?_int value
    have unsigned : ∀ name, Bytes.int value.toInt ≠ 37 :: name := by
      intro name same
      cases whole : value.toInt with
      | ofNat n =>
        rw [whole] at same
        have digit := Bytes.isDigit_of_mem_dec (n := n) (b := 37)
          (by rw [Bytes.int] at same; rw [same]; exact List.mem_cons_self)
        cases digit
      | negSucc n =>
        rw [whole] at same
        cases same
    simp only [Operand.text, read]
  | reg name =>
    have some_ := written.1
    have inner : name.all isNameByte = true := List.all_eq_true.mpr written.2
    show (if name.isEmpty || !name.all isNameByte then Except.error _
      else Except.ok (Operand.reg name)) = _
    rw [if_neg (by simp [inner, some_])]

/-- A pointer to a cell is read back. -/
theorem readPointer_cell (dialect : Dialect) {name : Bytes} (written : IsName name) :
    readPointer (dialect.cell name) = .ok name := by
  have named : (Operand.reg name).Written := written
  have operand := readOperand_text named
  have cell : dialect.cell name = dialect.cellPointer ++ 32 :: (Operand.reg name).text := by
    cases dialect <;> rfl
  have solid : ∀ b ∈ (Operand.reg name).text, isSolid b = true := fun b member =>
    isSolid_of_inner (Operand.text_inner named b member)
  rw [readPointer, cell, Text.words_pair (by cases dialect <;> decide)
    (Operand.text_ne_nil _) (by cases dialect <;> decide) solid]
  simp only [operand]
  cases dialect <;> rfl

theorem cell_piece (dialect : Dialect) {name : Bytes} (written : IsName name) :
    Piece (dialect.cell name) := by
  have cell : dialect.cell name = dialect.cellPointer ++ 32 :: (Operand.reg name).text := by
    cases dialect <;> rfl
  have type : Piece dialect.cellPointer := by
    cases dialect <;> exact .word (by decide) (by decide)
  have named : (Operand.reg name).Written := written
  rw [cell]
  exact type.pair (Operand.piece named)

/-- The piece of a typed operand. -/
theorem typed_piece (type : Bytes) {operand : Operand} (some_ : type ≠ [])
    (inner : ∀ b ∈ type, isInner b = true) (written : operand.Written) :
    Piece (type ++ 32 :: operand.text) :=
  Piece.pair (.word some_ inner) (Operand.piece written)

private theorem argumentsLoop_inner {before : Bytes}
    (inner : ∀ b ∈ before, isInner b = true ∨ b = 32) (rest : Bytes) (depth : Int) (piece : Bytes)
    (done : List Bytes) :
    argumentsLoop (before ++ rest) depth piece done =
      argumentsLoop rest depth (before.reverse ++ piece) done := by
  induction before generalizing piece with
  | nil => rfl
  | cons b before ih =>
    obtain ⟨here, later⟩ := List.forall_mem_cons.mp inner
    have apart : b ≠ 40 ∧ b ≠ 91 ∧ b ≠ 41 ∧ b ≠ 93 ∧ b ≠ 44 := by
      refine ⟨?_, ?_, ?_, ?_, ?_⟩ <;> rintro rfl <;> rcases here with wrong | wrong <;> cases wrong
    rw [List.cons_append, argumentsLoop, if_neg (by simp [apart]), if_neg (by simp [apart]),
      if_neg (by simp [apart]), ih later]
    simp

/-- Texts behind commas. -/
def commas (pieces : List Bytes) : Bytes := pieces.flatMap fun piece => 44 :: 32 :: piece

private theorem argumentsLoop_pieces {piece read : Bytes} {pieces : List Bytes}
    (trimmed : Text.trim read.reverse = piece) (all : ∀ p ∈ pieces, Piece p) (done : List Bytes) :
    argumentsLoop (commas pieces) 0 read done = done.reverse ++ piece :: pieces := by
  induction pieces generalizing piece read done with
  | nil => simp [commas, argumentsLoop, trimmed]
  | cons next pieces ih =>
    obtain ⟨here, later⟩ := List.forall_mem_cons.mp all
    have inner : ∀ b ∈ 32 :: next, isInner b = true ∨ b = 32 := by simpa using here.inner
    have shown : Text.trim ((32 :: next).reverse ++ []).reverse = next := by
      simpa [Text.trim_space] using Text.trim_phrase here.phrase
    rw [commas, List.flatMap_cons, List.cons_append, argumentsLoop, if_neg (by decide),
      if_neg (by decide), if_pos (by decide), trimmed, argumentsLoop_inner inner]
    exact (ih shown later _).trans (by simp)

/-- Pieces between commas are read back. -/
theorem arguments_pieces {piece : Bytes} (begins : Piece piece) {pieces : List Bytes}
    (all : ∀ p ∈ pieces, Piece p) : arguments (piece ++ commas pieces) = piece :: pieces := by
  have shown : Text.trim (piece.reverse ++ []).reverse = piece := by
    simpa using Text.trim_phrase begins.phrase
  rw [arguments, argumentsLoop_inner begins.inner, argumentsLoop_pieces shown all]
  rfl

/-- An action whose names can be written and whose format is the one it needs. -/
def Action.Written : Action → Prop
  | .alloca => True
  | .store value cell => value.Written ∧ IsName cell
  | .load cell => IsName cell
  | .compute _ left right | .compare _ left right => left.Written ∧ right.Written
  | .widen flag => flag.Written
  | .jump label => IsName label
  | .branch flag yes no => flag.Written ∧ IsName yes ∧ IsName no
  | .print format value => format = outFormat.name ∧ value.Written
  | .scan format cell => format = inFormat.name ∧ IsName cell
  | .ret value => value.Written

/-- Whether the result of an action must have a name. -/
def Action.yields : Action → Bool
  | .alloca | .load _ | .compute .. | .compare .. | .widen _ => true
  | _ => false

theorem cutSpace_word {word : Bytes} (solid : 32 ∉ word) (rest : Bytes) :
    cutSpace (word ++ 32 :: rest) = (word, rest) := by
  rw [cutSpace, Bytes.cut?_append solid]
  rfl

theorem after?_typed (type text : Bytes) :
    Bytes.after? (type ++ [32]) (type ++ 32 :: text) = some text := by
  have whole : type ++ 32 :: text = (type ++ [32]) ++ text := by simp
  rw [whole, Bytes.after?_append]

private theorem int_piece {operand : Operand} (written : operand.Written) :
    Piece ("i32" ++ 32 :: operand.text) := typed_piece "i32" (by decide) (by decide) written

private theorem after?_int (text : Bytes) :
    Bytes.after? "i32 " (("i32" : Bytes) ++ 32 :: text) = some text := after?_typed "i32" text

private theorem after?_bit (text : Bytes) :
    Bytes.after? "i1 " (("i1" : Bytes) ++ 32 :: text) = some text := after?_typed "i1" text

private theorem cell_pieces (dialect : Dialect) {name : Bytes} (written : IsName name) :
    ∀ piece ∈ [dialect.cell name, "align 4"], Piece piece := by
  have align : Piece ("align" : Bytes) := .word (by decide) (by decide)
  have four : Piece ("4" : Bytes) := .word (by decide) (by decide)
  simpa using ⟨cell_piece dialect written, align.pair four⟩

private theorem bit_piece {flag : Operand} (written : flag.Written) :
    Piece ("i1" ++ 32 :: flag.text) := typed_piece "i1" (by decide) (by decide) written

private theorem target_piece {label : Bytes} (named : IsName label) :
    Piece (("label %" : Bytes) ++ label) := by
  have word : Piece ("label" : Bytes) := .word (by decide) (by decide)
  have operand : (Operand.reg label).Written := named
  exact word.pair (Operand.piece operand)

private theorem target_pieces {yes no : Bytes} (first : IsName yes) (second : IsName no) :
    ∀ piece ∈ [("label %" : Bytes) ++ yes, ("label %" : Bytes) ++ no], Piece piece := by
  simpa using ⟨target_piece first, target_piece second⟩

section

variable (dialect : Dialect) (result : Option Bytes)

private theorem store_line (value : Operand) (cell : Bytes) :
    (Action.store value cell).render dialect = ("store" : Bytes) ++ 32 ::
      ((("i32" : Bytes) ++ 32 :: value.text) ++ commas [dialect.cell cell, "align 4"]) := by
  simp only [Action.render, commas, List.flatMap_cons, List.flatMap_nil, List.append_assoc,
    List.cons_append, List.append_nil]
  rfl

private theorem readAction_store {value : Operand} {cell : Bytes} (written : value.Written)
    (named : IsName cell) : readAction result ((Action.store value cell).render dialect) =
      .ok { result, action := .store value cell } := by
  have pieces := arguments_pieces (int_piece written) (cell_pieces dialect named)
  rw [readAction, store_line, cutSpace_word (by decide)]
  simp only [pieces]
  rw [if_neg (by decide), if_pos trivial]
  simp only [after?_int, readOperand_text written, readPointer_cell dialect named, ok_bind,
    pure_eq_ok]

private theorem load_line (cell : Bytes) :
    (Action.load cell).render dialect = ("load" : Bytes) ++ 32 ::
      (("i32" : Bytes) ++ commas [dialect.cell cell, "align 4"]) := by
  simp only [Action.render, commas, List.flatMap_cons, List.flatMap_nil, List.append_assoc,
    List.cons_append, List.append_nil]
  rfl

private theorem readAction_load {cell : Bytes} (named : IsName cell)
    (yields : result.isSome = true) : readAction result ((Action.load cell).render dialect) =
      .ok { result, action := .load cell } := by
  have type : Piece ("i32" : Bytes) := .word (by decide) (by decide)
  have pieces := arguments_pieces type (cell_pieces dialect named)
  rw [readAction, load_line, cutSpace_word (by decide)]
  simp only [pieces]
  rw [if_neg (by decide), if_neg (by decide), if_pos trivial, if_pos trivial]
  simp [readPointer_cell dialect named, Ir.named, Option.isNone_iff_eq_none,
    Option.isSome_iff_ne_none.mp yields]

private theorem readPair_operands (word line : Bytes) {left right : Operand} (first : left.Written)
    (second : right.Written) :
    readPair word line [("i32" : Bytes) ++ 32 :: left.text, right.text] = .ok (left, right) := by
  simp only [readPair, after?_int, readOperand_text first, readOperand_text second, ok_bind,
    pure_eq_ok]

private theorem arguments_operands {left right : Operand} (first : left.Written)
    (second : right.Written) :
    arguments ((("i32" : Bytes) ++ 32 :: left.text) ++ commas [right.text]) =
      [("i32" : Bytes) ++ 32 :: left.text, right.text] :=
  arguments_pieces (int_piece first) (by simpa using Operand.piece second)

private theorem compute_line (op : Calc) (left right : Operand) :
    (Action.compute op left right).render dialect = op.name ++ 32 ::
      ((("i32" : Bytes) ++ 32 :: left.text) ++ commas [right.text]) := by
  simp only [Action.render, commas, List.flatMap_cons, List.flatMap_nil, List.append_assoc,
    List.cons_append, List.append_nil]
  rfl

private theorem readAction_compute (op : Calc) {left right : Operand} (first : left.Written)
    (second : right.Written) (yields : result.isSome = true) :
    readAction result ((Action.compute op left right).render dialect) =
      .ok { result, action := .compute op left right } := by
  have known : Calc.ofName? op.name = some op := by cases op <;> rfl
  rw [readAction, compute_line, cutSpace_word (by cases op <;> decide)]
  simp only [arguments_operands first second, known]
  rw [if_neg (by cases op <;> decide), if_neg (by cases op <;> decide),
    if_neg (by cases op <;> decide), readPair_operands _ _ first second]
  simp [Ir.named, Option.isSome_iff_ne_none.mp yields]

private theorem compare_line (test : Test) (left right : Operand) :
    (Action.compare test left right).render dialect = ("icmp" : Bytes) ++ 32 ::
      (test.name ++ 32 :: ((("i32" : Bytes) ++ 32 :: left.text) ++ commas [right.text])) := by
  simp only [Action.render, commas, List.flatMap_cons, List.flatMap_nil, List.append_assoc,
    List.cons_append, List.append_nil]
  rfl

private theorem readAction_compare (test : Test) {left right : Operand} (first : left.Written)
    (second : right.Written) (yields : result.isSome = true) :
    readAction result ((Action.compare test left right).render dialect) =
      .ok { result, action := .compare test left right } := by
  have known : Test.ofName? test.name = some test := by cases test <;> rfl
  have other : Calc.ofName? ("icmp" : Bytes) = none := rfl
  rw [readAction, compare_line, cutSpace_word (by decide)]
  simp only [other, cutSpace_word (show 32 ∉ test.name by cases test <;> decide), known,
    arguments_operands first second, readPair_operands _ _ first second]
  rw [if_neg (by decide), if_neg (by decide), if_neg (by decide), if_pos trivial]
  simp [Ir.named, Option.isSome_iff_ne_none.mp yields]

private theorem widen_line (flag : Operand) :
    (Action.widen flag).render dialect = ("zext" : Bytes) ++ 32 ::
      (("i1" : Bytes) ++ 32 :: (flag.text ++ (" to i32" : Bytes))) := by
  simp only [Action.render, List.append_assoc]
  rfl

private theorem readAction_widen {flag : Operand} (written : flag.Written)
    (yields : result.isSome = true) : readAction result ((Action.widen flag).render dialect) =
      .ok { result, action := .widen flag } := by
  have other : Calc.ofName? ("zext" : Bytes) = none := rfl
  rw [readAction, widen_line, cutSpace_word (by decide)]
  simp only [other, after?_bit, Option.bind_some, Bytes.before?_append, readOperand_text written]
  rw [if_neg (by decide), if_neg (by decide), if_neg (by decide), if_neg (by decide),
    if_pos trivial]
  simp [Ir.named, Option.isSome_iff_ne_none.mp yields]

private theorem jump_line (label : Bytes) :
    (Action.jump label).render dialect = ("br" : Bytes) ++ 32 ::
      (("label %" : Bytes) ++ label) := rfl

private theorem readAction_jump (label : Bytes) :
    readAction result ((Action.jump label).render dialect) =
      .ok { result, action := .jump label } := by
  have other : Calc.ofName? ("br" : Bytes) = none := rfl
  rw [readAction, jump_line, cutSpace_word (by decide)]
  simp only [other, Bytes.after?_append]
  rw [if_neg (by decide), if_neg (by decide), if_neg (by decide), if_neg (by decide),
    if_neg (by decide), if_pos trivial]
  rfl

private theorem branch_line (flag : Operand) (yes no : Bytes) :
    (Action.branch flag yes no).render dialect = ("br" : Bytes) ++ 32 ::
      ((("i1" : Bytes) ++ 32 :: flag.text) ++
        commas [("label %" : Bytes) ++ yes, ("label %" : Bytes) ++ no]) := by
  simp only [Action.render, commas, List.flatMap_cons, List.flatMap_nil, List.append_assoc,
    List.cons_append, List.append_nil]
  rfl

private theorem readAction_branch {flag : Operand} {yes no : Bytes} (written : flag.Written)
    (first : IsName yes) (second : IsName no) :
    readAction result ((Action.branch flag yes no).render dialect) =
      .ok { result, action := .branch flag yes no } := by
  have pieces := arguments_pieces (bit_piece written) (target_pieces first second)
  have other : Calc.ofName? ("br" : Bytes) = none := rfl
  have notJump : Bytes.after? ("label %" : Bytes) ((("i1" : Bytes) ++ 32 :: flag.text) ++
      commas [("label %" : Bytes) ++ yes, ("label %" : Bytes) ++ no]) = none := rfl
  rw [readAction, branch_line, cutSpace_word (by decide)]
  simp only [other, pieces, notJump, after?_bit, readOperand_text written, readBranchTarget,
    Bytes.after?_append]
  rw [if_neg (by decide), if_neg (by decide), if_neg (by decide), if_neg (by decide),
    if_neg (by decide), if_pos trivial]
  simp only [ok_bind, pure_eq_ok]

private theorem ret_line (value : Operand) :
    (Action.ret value).render dialect = ("ret" : Bytes) ++ 32 ::
      (("i32" : Bytes) ++ 32 :: value.text) := rfl

private theorem readAction_ret {value : Operand} (written : value.Written) :
    readAction result ((Action.ret value).render dialect) =
      .ok { result, action := .ret value } := by
  have other : Calc.ofName? ("ret" : Bytes) = none := rfl
  rw [readAction, ret_line, cutSpace_word (by decide)]
  simp only [other, after?_int, readOperand_text written]
  rw [if_neg (by decide), if_neg (by decide), if_neg (by decide), if_neg (by decide),
    if_neg (by decide), if_neg (by decide), if_neg (by decide), if_pos trivial]
  simp only [ok_bind, pure_eq_ok]

private theorem leadingName_append {name : Bytes} (written : ∀ b ∈ name, isNameByte b = true)
    (rest : Bytes) : leadingName (name ++ 40 :: rest) = name := by
  rw [leadingName, List.takeWhile_append_of_pos written, List.takeWhile_cons_of_neg (by decide),
    List.append_nil]

set_option maxRecDepth 4000 in
/-- A format is named in front of an argument. -/
private theorem arguments_call {format argument : Bytes}
    (known : format = outFormat.name ∨ format = inFormat.name) (piece : Piece argument) :
    arguments (dialect.formatArgument format ++ commas [argument]) =
      [dialect.formatArgument format, argument] := by
  have shown : Text.trim (dialect.formatArgument format).reverse.reverse =
      dialect.formatArgument format := by
    rcases known with rfl | rfl <;> cases dialect <;> decide +kernel
  have taken : ∀ rest, argumentsLoop (dialect.formatArgument format ++ rest) 0 [] [] =
      argumentsLoop rest 0 (dialect.formatArgument format).reverse [] := by
    intro rest
    rcases known with rfl | rfl <;> cases dialect <;> rfl
  rw [arguments, taken, argumentsLoop_pieces shown (by simpa using piece)]
  rfl

private theorem format_named {format : Bytes}
    (known : format = outFormat.name ∨ format = inFormat.name) :
    ∃ at_, Bytes.findLast? 64 (dialect.formatArgument format) = some at_ ∧
      leadingName ((dialect.formatArgument format).drop (at_ + 1)) = format := by
  rcases known with rfl | rfl <;> cases dialect
  · exact ⟨4, by decide, by decide⟩
  · exact ⟨48, by decide, by decide⟩
  · exact ⟨4, by decide, by decide⟩
  · exact ⟨48, by decide, by decide⟩

/-- What follows the word of a call. -/
private def callText (callee format argument : Bytes) : Bytes :=
  ("i32 (" : Bytes) ++ dialect.bytePointer ++ (", ...) " : Bytes) ++
    64 :: (callee ++ 40 :: ((dialect.formatArgument format ++ commas [argument]) ++ [41]))

/-- A call is read with its format and its argument. -/
private theorem readCall_eq (callee : Bytes) {format argument : Bytes}
    (library : ∀ b ∈ callee, isNameByte b = true)
    (known : format = outFormat.name ∨ format = inFormat.name) (piece : Piece argument) :
    readCall (callText dialect callee format argument) =
      if callee = ("printf" : Bytes) then
        match Bytes.after? "i32 " argument with
        | none => .error (.printValue argument)
        | some value => do return .print format (← readOperand value)
      else if callee = ("scanf" : Bytes) then do return .scan format (← readPointer argument)
      else .error (.unsupportedCallee callee) := by
  obtain ⟨at_, last, named⟩ := format_named dialect known
  have ends : Bytes.before? ")" ((dialect.formatArgument format ++ commas [argument]) ++ [41]) =
      some (dialect.formatArgument format ++ commas [argument]) := Bytes.before?_append _ _
  have read := readCall.eq_1 (callText dialect callee format argument)
  rw [callText, Bytes.cut?_append (by cases dialect <;> decide)] at read
  simp only [leadingName_append library, List.drop_left, ends, arguments_call dialect known piece,
    last, named] at read
  exact read

private theorem call_line (callee format argument : Bytes) :
    dialect.call callee format argument =
      ("call" : Bytes) ++ 32 :: callText dialect callee format argument := by
  simp only [Dialect.call, callText, commas, List.flatMap_cons, List.flatMap_nil,
    List.append_assoc, List.cons_append, List.append_nil]
  rfl

private theorem readAction_call {callee format argument : Bytes} {action : Action}
    (read : readCall (callText dialect callee format argument) = .ok action) :
    readAction result (dialect.call callee format argument) = .ok { result, action } := by
  have other : Calc.ofName? ("call" : Bytes) = none := rfl
  rw [readAction, call_line, cutSpace_word (by decide)]
  simp only [other, read]
  rw [if_neg (by decide), if_neg (by decide), if_neg (by decide), if_neg (by decide),
    if_neg (by decide), if_neg (by decide), if_pos trivial]
  simp only [ok_bind, pure_eq_ok]

private theorem readAction_print {value : Operand} (written : value.Written) :
    readAction result ((Action.print outFormat.name value).render dialect) =
      .ok { result, action := .print outFormat.name value } := by
  have read := readCall_eq dialect "printf" (by decide) (.inl rfl) (int_piece written)
  refine readAction_call dialect result (read.trans ?_)
  rw [if_pos rfl, after?_int]
  simp only [readOperand_text written, ok_bind, pure_eq_ok]

private theorem readAction_scan {cell : Bytes} (named : IsName cell) :
    readAction result ((Action.scan inFormat.name cell).render dialect) =
      .ok { result, action := .scan inFormat.name cell } := by
  have read := readCall_eq dialect "scanf" (by decide) (.inr rfl)
    (cell_piece dialect named)
  refine readAction_call dialect result (read.trans ?_)
  rw [if_neg (by decide), if_pos rfl]
  simp only [readPointer_cell dialect named, ok_bind, pure_eq_ok]

/-- An action is read back from its text. -/
theorem readAction_render {action : Action} (written : action.Written)
    (named : action.yields = true → result.isSome = true) :
    readAction result (action.render dialect) = .ok { result, action } := by
  cases action with
  | alloca =>
    have line : (Action.alloca).render dialect = ("alloca i32, align 4" : Bytes) := rfl
    have some_ := Option.isSome_iff_ne_none.mp (named rfl)
    have word : cutSpace ("alloca i32, align 4" : Bytes) =
        (("alloca" : Bytes), ("i32, align 4" : Bytes)) := by
      decide
    have pieces : arguments ("i32, align 4" : Bytes) =
        [("i32" : Bytes), ("align 4" : Bytes)] := by decide +kernel
    rw [readAction, line, word]
    simp [pieces, Ir.named, some_]
  | store value cell => exact readAction_store dialect result written.1 written.2
  | load cell => exact readAction_load dialect result written (named rfl)
  | compute op left right =>
    exact readAction_compute dialect result op written.1 written.2 (named rfl)
  | compare test left right =>
    exact readAction_compare dialect result test written.1 written.2 (named rfl)
  | widen flag => exact readAction_widen dialect result written (named rfl)
  | jump label => exact readAction_jump dialect result label
  | branch flag yes no =>
    exact readAction_branch dialect result written.1 written.2.1 written.2.2
  | print format value =>
    obtain ⟨rfl, written⟩ := written
    exact readAction_print dialect result written
  | scan format cell =>
    obtain ⟨rfl, written⟩ := written
    exact readAction_scan dialect result written
  | ret value => exact readAction_ret dialect result written

end

private theorem phrase_commas {piece : Bytes} {pieces : List Bytes} (begins : Phrase piece)
    (all : ∀ p ∈ pieces, Piece p) : Phrase (piece ++ commas pieces) := by
  induction pieces generalizing piece with
  | nil => simpa [commas] using begins
  | cons next rest ih =>
    obtain ⟨here, later⟩ := List.forall_mem_cons.mp all
    have longer : Phrase (piece ++ ([44, 32] ++ next)) :=
      begins.append here.phrase (by decide)
    simpa [commas] using ih longer later

private theorem call_phrase (dialect : Dialect) (callee : Bytes) {format argument : Bytes}
    (library : ∀ b ∈ callee, isNameByte b = true)
    (known : format = outFormat.name ∨ format = inFormat.name) (piece : Piece argument) :
    Phrase (dialect.call callee format argument) := by
  have word : Phrase ("call" : Bytes) := .of_solid (by decide) (by decide)
  have paren : Phrase (")" : Bytes) := .of_solid (by decide) (by decide)
  have line : dialect.call callee format argument = ("call" : Bytes) ++
      ((" i32 (" : Bytes) ++ (dialect.bytePointer ++ ((", ...) @" : Bytes) ++ (callee ++
        (("(" : Bytes) ++ (dialect.formatArgument format ++ ((", " : Bytes) ++ argument)))))) ++
        (")" : Bytes)) := by
    simp only [Dialect.call, List.append_assoc]
    rfl
  rw [line]
  refine word.append paren ?_
  simp only [List.mem_append, or_imp, forall_and]
  refine ⟨by decide, ?_, by decide, ?_, by decide, ?_, by decide, piece.phrase.visible⟩
  · cases dialect <;> decide
  · intro b member
    exact .inl (isSolid_of_inner (isInner_of_nameByte (library b member)))
  · rcases known with rfl | rfl <;> cases dialect <;> decide

/-- Trimming leaves the text of an action alone. -/
theorem Action.render_phrase (dialect : Dialect) {action : Action} (written : action.Written) :
    Phrase (action.render dialect) := by
  cases action with
  | alloca =>
    have first : Phrase ("alloca" : Bytes) := .of_solid (by decide) (by decide)
    have last : Phrase ("4" : Bytes) := .of_solid (by decide) (by decide)
    have line : Action.alloca.render dialect =
        ("alloca" : Bytes) ++ ((" i32, align " : Bytes) ++ ("4" : Bytes)) := rfl
    rw [line]
    exact first.append last (by decide)
  | store value cell =>
    rw [store_line]
    exact Phrase.pair (.of_solid (by decide) (by decide))
      (phrase_commas (int_piece written.1).phrase (cell_pieces dialect written.2))
  | load cell =>
    rw [load_line]
    exact Phrase.pair (.of_solid (by decide) (by decide))
      (phrase_commas (.of_solid (by decide) (by decide)) (cell_pieces dialect written))
  | compute op left right =>
    rw [compute_line]
    exact Phrase.pair (by cases op <;> exact .of_solid (by decide) (by decide))
      (phrase_commas (int_piece written.1).phrase (by simpa using Operand.piece written.2))
  | compare test left right =>
    rw [compare_line]
    exact Phrase.pair (.of_solid (by decide) (by decide))
      (Phrase.pair (by cases test <;> exact .of_solid (by decide) (by decide))
        (phrase_commas (int_piece written.1).phrase (by simpa using Operand.piece written.2)))
  | widen flag =>
    have type : Phrase ("i32" : Bytes) := .of_solid (by decide) (by decide)
    have behind : (" to i32" : Bytes) = (" to " : Bytes) ++ ("i32" : Bytes) := rfl
    rw [widen_line, behind]
    exact Phrase.pair (.of_solid (by decide) (by decide))
      (Phrase.pair (.of_solid (by decide) (by decide))
        ((Operand.piece written).phrase.append type (by decide)))
  | jump label =>
    rw [jump_line]
    exact Phrase.pair (.of_solid (by decide) (by decide)) (target_piece written).phrase
  | branch flag yes no =>
    rw [branch_line]
    exact Phrase.pair (.of_solid (by decide) (by decide))
      (phrase_commas (bit_piece written.1).phrase (target_pieces written.2.1 written.2.2))
  | print format value =>
    obtain ⟨rfl, written⟩ := written
    exact call_phrase dialect "printf" (by decide) (.inl rfl) (int_piece written)
  | scan format cell =>
    obtain ⟨rfl, written⟩ := written
    exact call_phrase dialect "scanf" (by decide) (.inr rfl) (cell_piece dialect written)
  | ret value =>
    rw [ret_line]
    exact Phrase.pair (.of_solid (by decide) (by decide)) (int_piece written).phrase

/-- An instruction that can be written: a result that must have a name has one. -/
structure Insn.Written (insn : Insn) : Prop where
  action : insn.action.Written
  yields : insn.action.yields = true → insn.result.isSome = true
  result : ∀ name, insn.result = some name → IsName name

theorem Insn.written_iff {insn : Insn} : insn.Written ↔ insn.action.Written ∧
    (insn.action.yields = true → insn.result.isSome = true) ∧
    ∀ name, insn.result = some name → IsName name :=
  ⟨fun ⟨action, yields, result⟩ => ⟨action, yields, result⟩,
    fun ⟨action, yields, result⟩ => ⟨action, yields, result⟩⟩

private theorem Action.render_head (dialect : Dialect) {action : Action} :
    (action.render dialect).head? ≠ some 37 := by
  cases action with
  | compute op => cases op <;> exact nofun
  | alloca | store | load | compare | widen | jump | branch | print | scan | ret => exact nofun

private theorem result_eq (dialect : Dialect) (name : Bytes) (action : Action) :
    ({ result := some name, action } : Insn).render dialect =
      (Operand.reg name).text ++ ((" = " : Bytes) ++ action.render dialect) := by
  simp only [Insn.render, Option.map_some, Option.getD_some, List.append_assoc]
  rfl

/-- An instruction is read back from its text. -/
theorem readInsn_render (dialect : Dialect) {insn : Insn} (written : insn.Written) :
    readInsn (insn.render dialect) = .ok insn := by
  obtain ⟨result, action⟩ := insn
  have read := readAction_render dialect result written.action written.yields
  cases result with
  | none =>
    have line : ({ result := none, action } : Insn).render dialect = action.render dialect := rfl
    rw [readInsn, line, if_neg (Action.render_head dialect), read]
  | some name =>
    have named : (Operand.reg name).Written := written.result name rfl
    have blank : 32 ∉ (Operand.reg name).text := by
      intro member
      cases Operand.text_inner named 32 member
    have place := Bytes.find?_append blank (" = " : Bytes).tail (action.render dialect)
    have found : Bytes.find? " = " ((Operand.reg name).text ++ ((" = " : Bytes) ++
        action.render dialect)) = some (Operand.reg name).text.length := place
    rw [readInsn, result_eq, if_pos (by rfl)]
    simp only [found, List.take_left, readOperand_text named, ok_bind]
    rw [← read]
    congr 1
    simp
    rfl

theorem Insn.render_phrase (dialect : Dialect) {insn : Insn} (written : insn.Written) :
    Phrase (insn.render dialect) := by
  obtain ⟨result, action⟩ := insn
  have body := Action.render_phrase dialect written.action
  cases result with
  | none => exact body
  | some name =>
    have named : (Operand.reg name).Written := written.result name rfl
    rw [result_eq]
    exact (Operand.piece named).phrase.append body (by decide)

/-- Not one of the bytes that the reader of lines looks for: line feed, colon, semicolon and the
closing brace. -/
def isQuiet (b : UInt8) : Bool := b != 10 && b != 58 && b != 59 && b != 125

def Quiet (text : Bytes) : Prop := ∀ b ∈ text, isQuiet b = true

instance (text : Bytes) : Decidable (Quiet text) :=
  inferInstanceAs (Decidable (∀ b ∈ text, isQuiet b = true))

private theorem quiet_append {first second : Bytes} :
    Quiet (first ++ second) ↔ Quiet first ∧ Quiet second := List.forall_mem_append

private theorem quiet_inner {text : Bytes} (inner : ∀ b ∈ text, isInner b = true) : Quiet text := by
  intro b member
  have here := inner b member
  simp only [isQuiet, Bool.and_eq_true, bne_iff_ne]
  refine ⟨⟨⟨?_, ?_⟩, ?_⟩, ?_⟩ <;> rintro rfl <;> cases here

private theorem quiet_operand {operand : Operand} (written : operand.Written) :
    Quiet operand.text := quiet_inner (Operand.text_inner written)

private theorem quiet_name {name : Bytes} (written : IsName name) : Quiet name :=
  quiet_inner fun b member => isInner_of_nameByte (written.2 b member)

private theorem quiet_cell (dialect : Dialect) {name : Bytes} (written : IsName name) :
    Quiet (dialect.cell name) := by
  simp only [Dialect.cell, quiet_append]
  exact ⟨⟨by cases dialect <;> decide, by decide⟩, quiet_name written⟩

private theorem quiet_call (dialect : Dialect) {callee format argument : Bytes}
    (library : Quiet callee) (known : format = outFormat.name ∨ format = inFormat.name)
    (quiet : Quiet argument) : Quiet (dialect.call callee format argument) := by
  have named : Quiet (dialect.formatArgument format) := by
    rcases known with rfl | rfl <;> cases dialect <;> decide
  have pointer : Quiet dialect.bytePointer := by cases dialect <;> decide
  simp only [Dialect.call, quiet_append]
  exact ⟨⟨⟨⟨⟨⟨⟨⟨by decide, pointer⟩, by decide⟩, library⟩, by decide⟩, named⟩, by decide⟩, quiet⟩,
    by decide⟩

theorem Action.render_quiet (dialect : Dialect) {action : Action} (written : action.Written) :
    Quiet (action.render dialect) := by
  cases action with
  | alloca =>
    show Quiet ("alloca i32, align 4" : Bytes)
    decide
  | store value cell =>
    simp only [Action.render, quiet_append]
    exact ⟨⟨⟨⟨by decide, quiet_operand written.1⟩, by decide⟩, quiet_cell dialect written.2⟩,
      by decide⟩
  | load cell =>
    simp only [Action.render, quiet_append]
    exact ⟨⟨by decide, quiet_cell dialect written⟩, by decide⟩
  | compute op left right =>
    simp only [Action.render, quiet_append]
    exact ⟨⟨⟨⟨by cases op <;> decide, by decide⟩, quiet_operand written.1⟩, by decide⟩,
      quiet_operand written.2⟩
  | compare test left right =>
    simp only [Action.render, quiet_append]
    exact ⟨⟨⟨⟨⟨by decide, by cases test <;> decide⟩, by decide⟩, quiet_operand written.1⟩,
      by decide⟩, quiet_operand written.2⟩
  | widen flag =>
    simp only [Action.render, quiet_append]
    exact ⟨⟨by decide, quiet_operand written⟩, by decide⟩
  | jump label =>
    simp only [Action.render, quiet_append]
    exact ⟨by decide, quiet_name written⟩
  | branch flag yes no =>
    simp only [Action.render, quiet_append]
    exact ⟨⟨⟨⟨⟨by decide, quiet_operand written.1⟩, by decide⟩, quiet_name written.2.1⟩,
      by decide⟩, quiet_name written.2.2⟩
  | print format value =>
    refine quiet_call dialect (by decide) (.inl written.1) ?_
    exact quiet_append.mpr ⟨by decide, quiet_operand written.2⟩
  | scan format cell =>
    exact quiet_call dialect (by decide) (.inr written.1) (quiet_cell dialect written.2)
  | ret value =>
    simp only [Action.render, quiet_append]
    exact ⟨by decide, quiet_operand written⟩

theorem Insn.render_quiet (dialect : Dialect) {insn : Insn} (written : insn.Written) :
    Quiet (insn.render dialect) := by
  obtain ⟨result, action⟩ := insn
  have body := Action.render_quiet dialect written.action
  cases result with
  | none => exact body
  | some name =>
    have named : (Operand.reg name).Written := written.result name rfl
    rw [result_eq, quiet_append, quiet_append]
    exact ⟨quiet_operand named, by decide, body⟩

end Minilang.Ir
