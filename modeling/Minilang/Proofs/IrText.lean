import Mathlib
import Minilang.Proofs.IrLines
import Minilang.Proofs.IrNames

/-! Intermediate code is read back from its text. The lines of a body are taken one by one, and
what has been taken is a function of the items; a body whose blocks are closed and whose names are
defined once passes the check. -/

namespace Minilang.Ir

open Text (Phrase isSolid)

/-- The line of an item, without the line feed. -/
def Item.line (dialect : Dialect) : Item → Bytes
  | .label name => name ++ [58]
  | .insn body => 32 :: 32 :: body.render dialect

theorem Item.render_eq (dialect : Dialect) (item : Item) :
    item.render dialect = item.line dialect ++ [10] := by
  cases item with
  | label name => simp [Item.render, Item.line]; rfl
  | insn body => simp [Item.render, Item.line]; rfl

def Item.Written : Item → Prop
  | .label name => IsName name
  | .insn body => body.Written

namespace Reading

/-- The state behind the line of an item. -/
def take (state : Reading) (number : Nat) : Item → Reading
  | .label name =>
      let labels := state.code.labels.insert name state.code.insns.size
      { state with code := { state.code with labels }, closed := false }
  | .insn body =>
      let insns := state.code.insns.push ⟨body, number⟩
      { state with code := { state.code with insns }, closed := body.action.isTerminator }

def takeAll (state : Reading) : Nat → List Item → Reading
  | _, [] => state
  | number, item :: rest => (state.take number item).takeAll (number + 1) rest

/-- The library functions are declared and their formats known. -/
structure Prepared (state : Reading) : Prop where
  inside : state.inMain = true
  printf : state.declared.contains "printf" = true
  scanf : state.declared.contains "scanf" = true
  output : state.code.globals.contains outFormat.name = true
  input : state.code.globals.contains inFormat.name = true

theorem Prepared.take {state : Reading} (prepared : state.Prepared) (number : Nat) (item : Item) :
    (state.take number item).Prepared := by
  cases item <;> exact ⟨prepared.1, prepared.2, prepared.3, prepared.4, prepared.5⟩

/-- The last block is closed, so that a label is due. -/
def shut (state : Reading) : Bool := state.closed && !state.code.insns.isEmpty

theorem addLine_label {state : Reading} (inside : state.inMain = true) (dialect : Dialect)
    {name : Bytes} (written : IsName name) (number : Nat) :
    state.addLine number ((Item.label name).line dialect) = state.openBlock name := by
  have solid : ∀ b ∈ name ++ [58], isSolid b = true := by
    simp only [List.mem_append, or_imp, forall_and]
    exact ⟨fun b member => isSolid_of_inner (isInner_of_nameByte (written.2 b member)), by decide⟩
  have trimmed := Text.trim_phrase (Phrase.of_solid (by simp) solid)
  obtain ⟨b, rest, rfl⟩ := List.exists_cons_of_ne_nil written.1
  have first : isNameByte b = true := written.2 b List.mem_cons_self
  have blanks : ((b :: rest) ++ [58]).any (fun b => b = 32 || b = 9) = false := by
    rw [List.any_eq_false]
    intro c member blank
    have visible := solid c member
    simp only [Bool.or_eq_true, decide_eq_true_eq] at blank
    rcases blank with rfl | rfl <;> cases visible
  have ends : Bytes.before? ":" ((b :: rest) ++ [58]) = some (b :: rest) := Bytes.before?_append _ _
  rw [addLine, Item.line, trimmed]
  simp only [List.cons_append, List.isEmpty_cons, List.head?_cons, Bool.false_or]
  rw [if_neg (by simp; rintro rfl; cases first), if_pos inside, Reading.inside,
    if_neg (by simp)]
  rw [List.cons_append] at ends blanks
  simp only [ends, blanks]
  rfl

theorem addLine_insn {state : Reading} (inside : state.inMain = true) (dialect : Dialect)
    {insn : Insn} (written : insn.Written) (number : Nat) :
    state.addLine number ((Item.insn insn).line dialect) =
      state.addInsn number (insn.render dialect) := by
  have phrase := Insn.render_phrase dialect written
  have quiet := Insn.render_quiet dialect written
  have trimmed : Text.trim ((Item.insn insn).line dialect) = insn.render dialect := by
    rw [Item.line, Text.trim_space, Text.trim_space, Text.trim_phrase phrase]
  obtain ⟨b, rest, same, -⟩ := phrase.first
  have first : isQuiet b = true := quiet b (by rw [same]; exact List.mem_cons_self)
  have open_ : Bytes.before? ":" (insn.render dialect) = none := by
    rw [Bytes.before?, if_neg]
    intro ends
    have member := (List.isSuffixOf_iff_suffix.mp ends).subset (List.mem_singleton.mpr rfl)
    cases quiet 58 member
  rw [addLine, trimmed]
  simp only [same, List.isEmpty_cons, List.head?_cons, Bool.false_or]
  rw [if_neg (by simp; rintro rfl; cases first), if_pos inside, Reading.inside,
    if_neg (by simp; rintro rfl; cases first), ← same]
  simp only [open_]

theorem addInsn_take {state : Reading} (prepared : state.Prepared) (isOpen : state.shut = false)
    (dialect : Dialect) {insn : Insn} (written : insn.Written) (number : Nat) :
    state.addInsn number (insn.render dialect) = .ok (state.take number (.insn insn)) := by
  have known := written.action
  rw [addInsn, if_neg (by simpa [shut] using isOpen), readInsn_render dialect written]
  simp only [pure_eq_ok, ok_bind]
  split
  next format value same =>
    rw [same] at known
    simp only [checkCall, known.1, prepared.printf, prepared.output]
    rfl
  next format cell same =>
    rw [same] at known
    simp only [checkCall, known.1, prepared.scanf, prepared.input]
    rfl
  next => rfl

theorem openBlock_take {state : Reading} (isShut : state.shut = true) {name : Bytes}
    (fresh : state.code.labels.contains name = false) (number : Nat) :
    state.openBlock name = .ok (state.take number (.label name)) := by
  have closed : state.closed = true := by
    simp only [shut, Bool.and_eq_true] at isShut
    exact isShut.1
  rw [openBlock, if_neg (by simp [fresh]), if_neg (by simp [closed])]
  rfl

end Reading

/-- Whether labels stand where a block is closed, instructions where one is open, and the last
block is closed. -/
def wellBlocked : Bool → List Item → Bool
  | shut, [] => shut
  | shut, .label _ :: rest => shut && wellBlocked false rest
  | shut, .insn body :: rest => !shut && wellBlocked body.action.isTerminator rest

/-- The labels of items. -/
def labelsOf (items : List Item) : List Bytes :=
  items.filterMap fun
    | .label name => some name
    | .insn _ => none

namespace Reading

/-- The lines of items are taken one by one. -/
theorem addLines_items (dialect : Dialect) {items : List Item} {state : Reading}
    (prepared : state.Prepared) (written : ∀ item ∈ items, item.Written)
    (blocked : wellBlocked state.shut items = true) (distinct : (labelsOf items).Nodup)
    (fresh : ∀ name ∈ labelsOf items, state.code.labels.contains name = false) (number : Nat)
    (rest : List Bytes) :
    state.addLines number (items.map (Item.line dialect) ++ rest) =
      (state.takeAll number items).addLines (number + items.length) rest := by
  induction items generalizing state number with
  | nil => rfl
  | cons item items ih =>
    obtain ⟨here, later⟩ := List.forall_mem_cons.mp written
    have added : state.addLine number (item.line dialect) = .ok (state.take number item) ∧
        wellBlocked (state.take number item).shut items = true ∧ (labelsOf items).Nodup ∧
        ∀ name ∈ labelsOf items, (state.take number item).code.labels.contains name = false := by
      cases item with
      | label name =>
        simp only [wellBlocked, Bool.and_eq_true] at blocked
        obtain ⟨apart, distinct⟩ := List.nodup_cons.mp distinct
        obtain ⟨unknown, fresh⟩ := List.forall_mem_cons.mp fresh
        refine ⟨?_, blocked.2, distinct, fun other member => ?_⟩
        · rw [addLine_label prepared.inside dialect here, openBlock_take blocked.1 unknown number]
        · have differ : name ≠ other := by
            rintro rfl
            exact apart member
          simpa [take, Std.HashMap.contains_insert, differ] using fresh other member
      | insn body =>
        simp only [wellBlocked, Bool.and_eq_true, Bool.not_eq_true'] at blocked
        refine ⟨?_, ?_, distinct, fresh⟩
        · rw [addLine_insn prepared.inside dialect here, addInsn_take prepared blocked.1 dialect here]
        · simpa [take, shut] using blocked.2
    obtain ⟨taken, blocked, distinct, fresh⟩ := added
    rw [List.map_cons, List.cons_append, addLines, taken]
    simp only
    rw [ih (prepared.take number item) later blocked distinct fresh, takeAll, List.length_cons]
    congr 1
    omega

theorem takeAll_append (state : Reading) (number : Nat) (first second : List Item) :
    state.takeAll number (first ++ second) =
      (state.takeAll number first).takeAll (number + first.length) second := by
  induction first generalizing state number with
  | nil => rfl
  | cons item first ih =>
    rw [List.cons_append, takeAll, takeAll, ih, List.length_cons]
    congr 1
    omega

/-- What taking items leaves alone. -/
theorem takeAll_same (state : Reading) (number : Nat) (items : List Item) :
    (state.takeAll number items).inMain = state.inMain ∧
      (state.takeAll number items).sawMain = state.sawMain ∧
      (state.takeAll number items).code.globals = state.code.globals := by
  induction items generalizing state number with
  | nil => exact ⟨rfl, rfl, rfl⟩
  | cons item items ih =>
    rw [takeAll]
    have rest := ih (state.take number item) (number + 1)
    cases item <;> exact rest

theorem takeAll_shut {state : Reading} {items : List Item}
    (blocked : wellBlocked state.shut items = true) (number : Nat) :
    (state.takeAll number items).shut = true := by
  induction items generalizing state number with
  | nil => exact blocked
  | cons item items ih =>
    refine ih ?_ (number + 1)
    cases item with
    | label name =>
      simp only [wellBlocked, Bool.and_eq_true] at blocked
      exact blocked.2
    | insn body =>
      simp only [wellBlocked, Bool.and_eq_true] at blocked
      simpa [take, shut] using blocked.2

end Reading

/-- The instructions of items. -/
def insnsOf (items : List Item) : List Insn :=
  items.filterMap fun
    | .label _ => none
    | .insn body => some body

namespace Reading

theorem takeAll_insns (state : Reading) (number : Nat) (items : List Item) :
    (state.takeAll number items).code.insns.toList.map Placed.insn =
      state.code.insns.toList.map Placed.insn ++ insnsOf items := by
  induction items generalizing state number with
  | nil => simp [takeAll, insnsOf]
  | cons item items ih =>
    rw [takeAll, ih]
    cases item with
    | label name => rfl
    | insn body => simp [take, insnsOf]

theorem takeAll_size (state : Reading) (number : Nat) (items : List Item) :
    (state.takeAll number items).code.insns.size =
      state.code.insns.size + (insnsOf items).length := by
  simpa using congrArg List.length (takeAll_insns state number items)

theorem takeAll_other (state : Reading) (number : Nat) {items : List Item} {name : Bytes}
    (absent : name ∉ labelsOf items) :
    (state.takeAll number items).code.labels[name]? = state.code.labels[name]? := by
  induction items generalizing state number with
  | nil => rfl
  | cons item items ih =>
    cases item with
    | label label =>
      have apart : label ≠ name ∧ name ∉ labelsOf items := by
        simpa [labelsOf, eq_comm] using absent
      rw [takeAll, ih _ _ apart.2]
      simp [take, Std.HashMap.getElem?_insert, apart.1]
    | insn body =>
      rw [takeAll, ih _ _ (by simpa [labelsOf] using absent)]
      rfl

/-- A label leads to the instruction behind it. -/
theorem takeAll_label (state : Reading) (number : Nat) {before after : List Item} {name : Bytes}
    (last : name ∉ labelsOf after) :
    (state.takeAll number (before ++ .label name :: after)).code.labels[name]? =
      some (state.code.insns.size + (insnsOf before).length) := by
  rw [takeAll_append, takeAll, takeAll_other _ _ last]
  simp [take, takeAll_size]

end Reading

/-- The lines that name the source. -/
def sourceLines (sourceName : Bytes) : List Bytes :=
  if sourceName = [] then []
  else
    [("; ModuleID = '" : Bytes) ++ (sourceName ++ ("'" : Bytes)),
      ("source_filename = " : Bytes) ++ Text.quoted sourceName, []]

def outLine : Bytes := "@out_fmt = private unnamed_addr constant [4 x i8] c\"%d\\0A\\00\", align 1"

def inLine : Bytes := "@in_fmt = private unnamed_addr constant [3 x i8] c\"%d\\00\", align 1"

/-- The line that declares a library function. -/
def declareLine (dialect : Dialect) (callee : Bytes) : Bytes :=
  ("declare i32 @" : Bytes) ++ callee ++ ("(" : Bytes) ++ dialect.bytePointer ++ (", ...)" : Bytes)

def defineLine : Bytes := "define i32 @main() \x7b"

/-- The lines up to the body. -/
def headerLines (dialect : Dialect) (sourceName : Bytes) : List Bytes :=
  sourceLines sourceName ++ [outLine, inLine, [], declareLine dialect "printf",
    declareLine dialect "scanf", [], defineLine]

/-- The lines that say the same in every module. -/
theorem headerLines_phrase (dialect : Dialect) : ∀ line ∈ [outLine, inLine, [],
    declareLine dialect "printf", declareLine dialect "scanf", [], defineLine],
      line = [] ∨ Phrase line := by
  have checked : ∀ line ∈ [outLine, inLine, [], declareLine dialect "printf",
      declareLine dialect "scanf", [], defineLine], line = [] ∨
        (∀ b ∈ line, isSolid b = true ∨ b = 32) ∧ line.head?.any isSolid = true ∧
          line.getLast?.any isSolid = true := by
    cases dialect <;> decide
  intro line member
  exact (checked line member).imp_right fun ⟨visible, begins, ends⟩ => .of_ends visible begins ends

/-- A text of lines that all end. -/
def unlines (lines : List Bytes) : Bytes := lines.flatMap (· ++ [10])

theorem header_eq (dialect : Dialect) (sourceName : Bytes) :
    header dialect sourceName ++ ("define i32 @main() \x7b\n" : Bytes) =
      unlines (headerLines dialect sourceName) := by
  have source : Bytes.onlyIf (!sourceName.isEmpty) (("; ModuleID = '" : Bytes) ++ sourceName ++
      ("'\nsource_filename = " : Bytes) ++ Text.quoted sourceName ++ ("\n\n" : Bytes)) =
      unlines (sourceLines sourceName) := by
    cases sourceName with
    | nil => rfl
    | cons b rest =>
      rw [sourceLines, if_neg (by simp)]
      simp only [Bytes.onlyIf, List.isEmpty_cons, Bool.not_false, if_true, unlines,
        List.flatMap_cons, List.flatMap_nil, List.append_assoc]
      rfl
  have formats : outFormat.definition ++ inFormat.definition = unlines [outLine, inLine] := by
    decide +kernel
  have declares : ("\ndeclare i32 @printf(" : Bytes) ++ (dialect.bytePointer ++
      ((", ...)\ndeclare i32 @scanf(" : Bytes) ++ (dialect.bytePointer ++
        ((", ...)\n\n" : Bytes) ++ ("define i32 @main() \x7b\n" : Bytes))))) =
      unlines [[], declareLine dialect "printf", declareLine dialect "scanf", [], defineLine] := by
    cases dialect <;> decide
  have split : headerLines dialect sourceName = sourceLines sourceName ++ [outLine, inLine] ++
      [[], declareLine dialect "printf", declareLine dialect "scanf", [], defineLine] := by
    simp [headerLines]
  rw [split, unlines, List.flatMap_append, List.flatMap_append]
  simp only [unlines] at source formats declares
  rw [← source, ← formats, ← declares, header]
  simp only [List.append_assoc]

theorem render_eq (dialect : Dialect) (sourceName : Bytes) (body : List Item) :
    render dialect sourceName body =
      unlines (headerLines dialect sourceName ++ body.map (Item.line dialect) ++ [[125]]) := by
  have items : body.flatMap (Item.render dialect) = unlines (body.map (Item.line dialect)) := by
    rw [unlines, List.flatMap_map]
    congr 1
    funext item
    exact item.render_eq dialect
  have brace : ("\x7d\n" : Bytes) = unlines [[125]] := rfl
  rw [render, header_eq, items, brace]
  simp [unlines]

theorem split_unlines {lines : List Bytes} (whole : ∀ line ∈ lines, 10 ∉ line) :
    Bytes.split 10 (unlines lines) = lines ++ [[]] := by
  induction lines with
  | nil => rfl
  | cons line lines ih =>
    obtain ⟨here, later⟩ := List.forall_mem_cons.mp whole
    have cut : unlines (line :: lines) = line ++ 10 :: unlines lines := by simp [unlines]
    rw [cut, Bytes.split_line here, ih later]
    rfl

private theorem hexDigit_ne {n : Nat} (small : n < 16) : Bytes.hexDigit n ≠ 10 := by
  revert n
  decide

private theorem hexPadded_bytes (width n : Nat) : 10 ∉ Bytes.hexPadded width n := by
  induction width generalizing n with
  | zero => exact nofun
  | succ width ih =>
    intro member
    rcases List.mem_append.mp member with before | last
    · exact ih _ before
    · exact hexDigit_ne (Nat.mod_lt n (by decide)) (List.mem_singleton.mp last).symm

private theorem hex_bytes (text : Bytes) : 10 ∉ Bytes.hex text := by
  intro member
  obtain ⟨b, -, digit⟩ := List.mem_flatMap.mp member
  have small := b.toNat_lt
  simp only [List.mem_cons, List.not_mem_nil, or_false] at digit
  rcases digit with high | low
  · exact hexDigit_ne (by omega) high.symm
  · exact hexDigit_ne (Nat.mod_lt _ (by decide)) low.symm

private theorem quotedRune_bytes {rune : Utf8.Rune} (oneLine : 10 ∉ rune.bytes) :
    10 ∉ Text.quotedRune rune := by
  have escaped : ∀ {mark digits : Bytes}, 10 ∉ mark → 10 ∉ digits → 10 ∉ mark ++ digits :=
    fun first second => by simpa using ⟨first, second⟩
  unfold Text.quotedRune
  split
  · exact escaped (by decide) (hex_bytes _)
  · split
    · decide
    · split
      · decide
      · split
        · exact oneLine
        · split
          · decide
          · decide
          · decide
          · decide
          · decide
          · decide
          · decide
          · split
            · exact escaped (by decide) (hexPadded_bytes 2 _)
            · split
              · exact escaped (by decide) (hexPadded_bytes 4 _)
              · exact escaped (by decide) (hexPadded_bytes 8 _)

/-- Quoting keeps a text on one line. -/
theorem quoted_bytes {text : Bytes} (oneLine : 10 ∉ text) : 10 ∉ Text.quoted text := by
  have inner : 10 ∉ (Utf8.runes text).flatMap Text.quotedRune := by
    intro member
    obtain ⟨rune, present, here⟩ := List.mem_flatMap.mp member
    refine quotedRune_bytes (fun inside => oneLine ?_) here
    rw [← Utf8.runes_bytes text]
    exact List.mem_flatMap.mpr ⟨rune, present, inside⟩
  simp only [Text.quoted, List.mem_append, not_or]
  exact ⟨⟨by decide, inner⟩, by decide⟩

theorem headerLines_whole (dialect : Dialect) {sourceName : Bytes} (oneLine : 10 ∉ sourceName) :
    ∀ line ∈ headerLines dialect sourceName, 10 ∉ line := by
  have fixed : ∀ line ∈ [outLine, inLine, [], declareLine dialect "printf",
      declareLine dialect "scanf", [], defineLine], 10 ∉ line := by
    intro line member inside
    have phrase := (headerLines_phrase dialect line member).resolve_left
      (List.ne_nil_of_mem inside)
    rcases phrase.visible 10 inside with solid | blank
    · exact absurd solid (by decide)
    · exact absurd blank (by decide)
  have source : ∀ line ∈ sourceLines sourceName, 10 ∉ line := by
    rw [sourceLines]
    split
    · exact nofun
    · simp only [List.mem_cons, List.not_mem_nil, or_false, forall_eq_or_imp, forall_eq,
        List.mem_append, not_or]
      exact ⟨⟨by decide, oneLine, by decide⟩, ⟨by decide, quoted_bytes oneLine⟩, not_false⟩
  exact List.forall_mem_append.mpr ⟨source, fixed⟩

theorem Item.line_whole (dialect : Dialect) {item : Item} (written : item.Written) :
    10 ∉ item.line dialect := by
  cases item with
  | label name =>
    intro member
    rcases List.mem_append.mp member with inside | colon
    · cases isInner_of_nameByte (written.2 10 inside)
    · cases List.mem_singleton.mp colon
  | insn body =>
    intro member
    simp only [Item.line, List.mem_cons] at member
    rcases member with wrong | wrong | inside
    · cases wrong
    · cases wrong
    · cases Insn.render_quiet dialect written 10 inside

namespace Reading

private theorem addLine_empty (state : Reading) (number : Nat) :
    state.addLine number [] = .ok state := by
  have trimmed : Text.trim [] = [] := by decide +kernel
  rw [addLine, trimmed]
  rfl

private theorem addLine_comment (state : Reading) (number : Nat) (text : Bytes) :
    state.addLine number (("; ModuleID = '" : Bytes) ++ text) = .ok state := by
  have start : Phrase ([59] : Bytes) := .of_solid (by decide) (by decide)
  obtain ⟨kept, trimmed⟩ := Text.trim_prefix start ((" ModuleID = '" : Bytes) ++ text)
  have line : ("; ModuleID = '" : Bytes) ++ text = [59] ++ ((" ModuleID = '" : Bytes) ++ text) := rfl
  rw [addLine, line, trimmed]
  rfl

private theorem addLine_source {state : Reading} (outside : state.inMain = false) (number : Nat)
    (text : Bytes) : state.addLine number (("source_filename = " : Bytes) ++ text) = .ok state := by
  have start : Phrase ("source_filename" : Bytes) := .of_solid (by decide) (by decide)
  obtain ⟨kept, trimmed⟩ := Text.trim_prefix start ((" = " : Bytes) ++ text)
  have word : ("source_filename = " : Bytes) = ("source_filename" : Bytes) ++ (" = " : Bytes) := by
    decide
  rw [addLine, word, List.append_assoc, trimmed]
  simp only [outside]
  rfl

/-- The lines that name the source say nothing. -/
private theorem addLines_source {state : Reading} (outside : state.inMain = false)
    (sourceName : Bytes) (number : Nat) (rest : List Bytes) :
    state.addLines number (sourceLines sourceName ++ rest) =
      state.addLines (number + (sourceLines sourceName).length) rest := by
  rw [sourceLines]
  split
  · rfl
  · simp only [List.cons_append, List.nil_append, addLines, addLine_comment,
      addLine_source outside, addLine_empty]
    rfl

/-- The state before the body. -/
def started : Reading :=
  { code :=
      { globals := (({} : Std.HashMap Bytes Bytes).insert outFormat.name outFormat.text).insert
          inFormat.name inFormat.text }
    declared := ["scanf", "printf"]
    inMain := true
    sawMain := true }

private theorem addLine_topLevel {state : Reading} (outside : state.inMain = false) (number : Nat)
    {line : Bytes} (trimmed : Text.trim line = line)
    (said : (line.isEmpty || line.head? = some 59) = false) :
    state.addLine number line = state.topLevel line := by
  rw [addLine, trimmed]
  simp only [said, outside]
  rfl

private theorem addLine_global {state : Reading} (outside : state.inMain = false) (number : Nat)
    {line : Bytes} {format : Global} (known : line = outLine ∧ format = outFormat ∨
      line = inLine ∧ format = inFormat) :
    state.addLine number line = .ok { state with code := { state.code with
      globals := state.code.globals.insert format.name format.text } } := by
  have trimmed : Text.trim line = line := by
    refine Text.trim_phrase ((headerLines_phrase .opaquePointers line ?_).resolve_left ?_)
    · rcases known with ⟨rfl, -⟩ | ⟨rfl, -⟩ <;> simp
    · rcases known with ⟨rfl, -⟩ | ⟨rfl, -⟩ <;> decide
  -- One evaluation of each line answers all other questions about it.
  have known : (line.isEmpty || line.head? = some 59) = false ∧
      (line.startsWith "source_filename" || line.startsWith "target ") = false ∧
      line.startsWith "@" = true ∧ readGlobal line = .ok (format.name, format.text) := by
    rcases known with ⟨rfl, rfl⟩ | ⟨rfl, rfl⟩ <;> decide +kernel
  obtain ⟨said, other, global, read⟩ := known
  rw [addLine_topLevel outside number trimmed said, topLevel, read, other, global]
  rfl

private theorem addLine_declare {state : Reading} (outside : state.inMain = false) (number : Nat)
    (dialect : Dialect) {callee : Bytes} (known : callee = "printf" ∨ callee = "scanf") :
    state.addLine number (declareLine dialect callee) =
      .ok { state with declared := callee :: state.declared } := by
  have trimmed : Text.trim (declareLine dialect callee) = declareLine dialect callee := by
    refine Text.trim_phrase ((headerLines_phrase dialect _ ?_).resolve_left ?_)
    · rcases known with rfl | rfl <;> simp
    · rcases known with rfl | rfl <;> cases dialect <;> decide
  have known : let line := declareLine dialect callee
      (line.isEmpty || line.head? = some 59) = false ∧
      (line.startsWith "source_filename" || line.startsWith "target ") = false ∧
      line.startsWith "@" = false ∧ line.startsWith "declare " = true ∧
      (Bytes.cut? 64 line).map (fun cut => leadingName cut.2) = some callee := by
    rcases known with rfl | rfl <;> cases dialect <;> decide
  obtain ⟨said, other, global, declares, named⟩ := known
  obtain ⟨⟨before, tail⟩, found, named⟩ := Option.map_eq_some_iff.mp named
  rw [addLine_topLevel outside number trimmed said, topLevel, found, other, global, declares]
  simp only [named]
  rfl

private theorem addLine_define {state : Reading} (outside : state.inMain = false)
    (first : state.sawMain = false) (number : Nat) :
    state.addLine number defineLine = .ok { state with inMain := true, sawMain := true } := by
  have trimmed : Text.trim defineLine = defineLine :=
    Text.trim_phrase ((headerLines_phrase .opaquePointers defineLine (by simp)).resolve_left
      (by decide))
  have known : (defineLine.isEmpty || defineLine.head? = some 59) = false ∧
      (defineLine.startsWith "source_filename" || defineLine.startsWith "target ") = false ∧
      defineLine.startsWith "@" = false ∧ defineLine.startsWith "declare " = false := by
    decide
  obtain ⟨said, other, global, declares⟩ := known
  rw [addLine_topLevel outside number trimmed said, topLevel, other, global, declares, first]
  rfl

theorem addLines_header (dialect : Dialect) (sourceName : Bytes) (rest : List Bytes) :
    ({} : Reading).addLines 1 (headerLines dialect sourceName ++ rest) =
      started.addLines (1 + (headerLines dialect sourceName).length) rest := by
  rw [headerLines, List.append_assoc, addLines_source rfl]
  simp only [List.cons_append, List.nil_append]
  rw [addLines, addLine_global rfl _ (.inl ⟨rfl, rfl⟩)]
  simp only
  rw [addLines, addLine_global rfl _ (.inr ⟨rfl, rfl⟩)]
  simp only
  rw [addLines, addLine_empty]
  simp only
  rw [addLines, addLine_declare rfl _ dialect (.inl rfl)]
  simp only
  rw [addLines, addLine_declare rfl _ dialect (.inr rfl)]
  simp only
  rw [addLines, addLine_empty]
  simp only
  rw [addLines, addLine_define rfl rfl]
  simp only [List.length_append]
  rfl

theorem started_prepared : started.Prepared where
  inside := rfl
  printf := by decide
  scanf := by decide
  output := by simp [started]
  input := by simp [started]

/-- The brace behind the body closes the function. -/
private theorem addLines_brace {state : Reading} (inside : state.inMain = true)
    (closed : state.closed = true) (number : Nat) :
    state.addLines number [[125], []] = .ok { state with inMain := false } := by
  have trimmed : Text.trim [125] = [125] := Text.trim_phrase (.of_solid (by decide) (by decide))
  have last : state.addLine number [125] = .ok { state with inMain := false } := by
    rw [addLine, trimmed, if_neg (by decide), if_pos inside, Reading.inside, if_pos rfl,
      if_pos closed]
  rw [addLines, last]
  simp only
  rw [addLines, addLine_empty]
  rfl

end Reading

namespace Code

/-- Definitions of different names that are no labels are all collected. -/
theorem definitions_ok {code : Code} {insns : List Placed} {before : Std.HashMap Bytes Nat}
    (distinct : (insns.filterMap (·.insn.result)).Nodup)
    (fresh : ∀ name ∈ insns.filterMap (·.insn.result), before[name]? = none ∧
      code.labels.contains name = false) :
    ∃ after, code.definitions insns before = .ok after ∧ (∀ name ∈ before, name ∈ after) ∧
      ∀ name ∈ insns.filterMap (·.insn.result), name ∈ after := by
  induction insns generalizing before with
  | nil => exact ⟨before, rfl, fun _ => id, nofun⟩
  | cons placed rest ih =>
    cases named : placed.insn.result with
    | none =>
      rw [List.filterMap_cons_none (f := fun placed : Placed => placed.insn.result) named] at distinct fresh ⊢
      simpa only [definitions, named] using ih distinct fresh
    | some result =>
      rw [List.filterMap_cons_some (f := fun placed : Placed => placed.insn.result) named] at distinct fresh ⊢
      obtain ⟨apart, distinct⟩ := List.nodup_cons.mp distinct
      obtain ⟨⟨unknown, notLabel⟩, fresh⟩ := List.forall_mem_cons.mp fresh
      obtain ⟨after, collected, kept, new⟩ := @ih (before.insert result placed.line) distinct
        fun name member => by
          have differ : result ≠ name := by
            rintro rfl
            exact apart member
          simpa [Std.HashMap.getElem?_insert, differ] using fresh name member
      refine ⟨after, ?_, ?_, ?_⟩
      · simpa [definitions, named, unknown, notLabel] using collected
      · intro name member
        exact kept name (Std.HashMap.mem_insert.mpr (.inr member))
      · refine List.forall_mem_cons.mpr ⟨?_, new⟩
        exact kept result (Std.HashMap.mem_insert.mpr (.inl (beq_self_eq_true result)))

theorem checkUses_ok {code : Code} {defined : Std.HashMap Bytes Nat} {insns : List Placed}
    (known : ∀ placed ∈ insns, (∀ name ∈ placed.insn.action.uses, name ∈ defined) ∧
      ∀ label ∈ placed.insn.action.targets, label ∈ code.labels) :
    code.checkUses defined insns = .ok () := by
  induction insns with
  | nil => rfl
  | cons placed rest ih =>
    obtain ⟨⟨uses, targets⟩, later⟩ := List.forall_mem_cons.mp known
    have used : placed.insn.action.uses.find? (fun name => !defined.contains name) = none := by
      simpa using uses
    have branches : placed.insn.action.targets.find? (fun label =>
        !label.isEmpty && !code.labels.contains label) = none := by
      simpa using fun label member _ => targets label member
    rw [checkUses]
    simp only [used, branches]
    exact ih later

end Code

/-- A body whose text can be read. -/
structure Readable (body : List Item) : Prop where
  written : ∀ item ∈ body, item.Written
  blocked : wellBlocked false body = true
  names : (namesOf body).Nodup
  targets : ∀ insn, Item.insn insn ∈ body → ∀ label ∈ insn.action.targets, Item.label label ∈ body
  uses : ∀ insn, Item.insn insn ∈ body → ∀ name ∈ insn.action.uses, name ∈ resultsOf body

/-- The code that the text of a body is read as. -/
def codeOf (dialect : Dialect) (sourceName : Bytes) (body : List Item) : Code :=
  (Reading.started.takeAll (1 + (headerLines dialect sourceName).length) body).code

theorem mem_insnsOf {items : List Item} {insn : Insn} :
    insn ∈ insnsOf items ↔ Item.insn insn ∈ items := by
  simp only [insnsOf, List.mem_filterMap]
  constructor
  · rintro ⟨item, member, same⟩
    cases item with
    | label => cases same
    | insn => cases same; exact member
  · intro member
    exact ⟨_, member, rfl⟩

theorem mem_labelsOf {items : List Item} {name : Bytes} :
    name ∈ labelsOf items ↔ Item.label name ∈ items := by
  simp only [labelsOf, List.mem_filterMap]
  constructor
  · rintro ⟨item, member, same⟩
    cases item with
    | label => cases same; exact member
    | insn => cases same
  · intro member
    exact ⟨_, member, rfl⟩

theorem insnsOf_results (items : List Item) :
    (insnsOf items).filterMap (·.result) = resultsOf items := by
  simp only [insnsOf, resultsOf, List.filterMap_filterMap]
  congr 1
  funext item
  cases item <;> rfl

/-- Labels and results are parted out of the names. -/
theorem namesOf_perm (items : List Item) :
    (namesOf items).Perm (labelsOf items ++ resultsOf items) := by
  induction items with
  | nil => exact .nil
  | cons item rest ih =>
    cases item with
    | label name => exact ih.cons name
    | insn body =>
      cases named : body.result with
      | none => simpa [namesOf, labelsOf, resultsOf, Item.name?, named] using ih
      | some name =>
        have here := (ih.cons name).trans List.perm_middle.symm
        simpa [namesOf, labelsOf, resultsOf, Item.name?, named] using here

section codeOf

variable {dialect : Dialect} {sourceName : Bytes} {body : List Item}

theorem codeOf_insns :
    (codeOf dialect sourceName body).insns.toList.map Placed.insn = insnsOf body := by
  rw [codeOf, Reading.takeAll_insns]
  rfl

theorem codeOf_results :
    (codeOf dialect sourceName body).insns.toList.filterMap (·.insn.result) = resultsOf body := by
  rw [← insnsOf_results, ← @codeOf_insns dialect sourceName, List.filterMap_map]
  rfl

theorem codeOf_globals : (codeOf dialect sourceName body).globals = Reading.started.code.globals :=
  (Reading.takeAll_same _ _ _).2.2

/-- A label leads to the instruction behind it. -/
theorem codeOf_label {before after : List Item} {name : Bytes}
    (distinct : (labelsOf (before ++ .label name :: after)).Nodup) :
    (codeOf dialect sourceName (before ++ .label name :: after)).labels[name]? =
      some (insnsOf before).length := by
  have parted : (labelsOf before ++ name :: labelsOf after).Nodup := by
    simpa [labelsOf] using distinct
  have last := (List.nodup_cons.mp (List.nodup_append.mp parted).2.1).1
  rw [codeOf, Reading.takeAll_label _ _ last]
  simp [Reading.started]

theorem codeOf_unlabelled {name : Bytes} (absent : name ∉ labelsOf body) :
    (codeOf dialect sourceName body).labels[name]? = none := by
  rw [codeOf, Reading.takeAll_other _ _ absent]
  simp [Reading.started]

end codeOf

/-- The code has the instructions of a body, and each label leads to the instruction behind it. -/
structure Code.Holds (code : Code) (body : List Item) : Prop where
  insns : code.insns.toList.map Placed.insn = insnsOf body
  labels : ∀ (name : Bytes) index, code.labels[name]? = some index ↔
    ∃ before after, body = before ++ .label name :: after ∧ index = (insnsOf before).length

namespace Readable

variable {dialect : Dialect} {sourceName : Bytes} {body : List Item}

theorem labels_nodup (readable : Readable body) : (labelsOf body).Nodup :=
  (List.nodup_append.mp ((namesOf_perm body).nodup_iff.mp readable.names)).1

theorem holds (readable : Readable body) : (codeOf dialect sourceName body).Holds body where
  insns := codeOf_insns
  labels := by
    have distinct := readable.labels_nodup
    intro name index
    constructor
    · intro found
      by_cases listed : Item.label name ∈ body
      · obtain ⟨before, after, rfl⟩ := List.append_of_mem listed
        rw [codeOf_label distinct] at found
        exact ⟨before, after, rfl, (Option.some.inj found).symm⟩
      · rw [codeOf_unlabelled (by rwa [mem_labelsOf])] at found
        cases found
    · rintro ⟨before, after, rfl, rfl⟩
      exact codeOf_label distinct

theorem check (readable : Readable body) :
    (codeOf dialect sourceName body).check = .ok () := by
  have distinct := (namesOf_perm body).nodup_iff.mp readable.names
  obtain ⟨-, results, apart⟩ := List.nodup_append.mp distinct
  have fresh : ∀ name ∈ resultsOf body, ({} : Std.HashMap Bytes Nat)[name]? = none ∧
      (codeOf dialect sourceName body).labels.contains name = false := by
    intro name member
    have unlabelled : name ∉ labelsOf body := fun label => apart name label name member rfl
    simpa using @codeOf_unlabelled dialect sourceName body name unlabelled
  rw [← @codeOf_results dialect sourceName body] at results fresh
  obtain ⟨defined, collected, -, known⟩ := Code.definitions_ok results fresh
  rw [codeOf_results] at known
  rw [Code.check, collected, ok_bind]
  refine Code.checkUses_ok fun placed member => ?_
  have present : Item.insn placed.insn ∈ body := by
    rw [← mem_insnsOf, ← @codeOf_insns dialect sourceName body]
    exact List.mem_map_of_mem member
  refine ⟨fun name use => known name (readable.uses _ present name use), fun label target => ?_⟩
  obtain ⟨before, after, split⟩ := List.append_of_mem (readable.targets _ present label target)
  have found := ((@holds dialect sourceName body readable).labels label _).mpr
    ⟨before, after, split, rfl⟩
  exact Std.HashMap.mem_iff_isSome_getElem?.mpr (by rw [found]; rfl)

/-- The text of a body is read as the body. -/
theorem read (readable : Readable body) (oneLine : 10 ∉ sourceName) :
    Code.read (render dialect sourceName body) = .ok (codeOf dialect sourceName body) := by
  have whole : ∀ line ∈ headerLines dialect sourceName ++ body.map (Item.line dialect) ++ [[125]],
      10 ∉ line := by
    simp only [List.forall_mem_append, List.forall_mem_map]
    exact ⟨⟨headerLines_whole dialect oneLine,
      fun item member => item.line_whole dialect (readable.written item member)⟩, by decide⟩
  have lines := Reading.addLines_header dialect sourceName
    (body.map (Item.line dialect) ++ [[125], []])
  rw [Reading.addLines_items dialect Reading.started_prepared readable.written
    readable.blocked readable.labels_nodup (by simp [Reading.started])] at lines
  obtain ⟨inside, sawMain, -⟩ := Reading.takeAll_same Reading.started
    (1 + (headerLines dialect sourceName).length) body
  have shut := @Reading.takeAll_shut Reading.started body readable.blocked
    (1 + (headerLines dialect sourceName).length)
  rw [Reading.shut, Bool.and_eq_true] at shut
  rw [Reading.addLines_brace inside shut.1] at lines
  have taken : Reading.addLines {} 1 (Bytes.split 10 (render dialect sourceName body)) =
      .ok { Reading.started.takeAll (1 + (headerLines dialect sourceName).length) body with
        inMain := false } := by
    rw [render_eq, split_unlines whole, ← lines]
    simp
  have sound := @check dialect sourceName body readable
  rw [codeOf] at sound
  rw [Code.read, taken]
  simp only [ok_bind, sawMain, sound]
  rfl

end Readable

end Minilang.Ir
