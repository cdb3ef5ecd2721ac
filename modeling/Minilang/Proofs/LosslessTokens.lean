import Minilang.Proofs.FileTokens
import Minilang.Proofs.PlainText

/-! Lexing loses nothing. Tokens and their leading trivia tile the content from its start, up to
blanks and comments at the end that belong to no token, and looking ahead changes neither the
tokens nor what is reported. -/

namespace Minilang

def Span.slice (span : Span) (content : Bytes) : Bytes :=
  (content.drop span.start.toNat).take (span.stop.toNat - span.start.toNat)

/-- A stretch of the content: a token or a piece of trivia. -/
structure Stretch where
  span : Span
  text : Bytes

def Trivia.stretch (trivia : Trivia) : Stretch := ⟨trivia.span, trivia.text⟩

def Token.stretch (token : Token) : Stretch := ⟨token.span, token.text⟩

/-- The trivia in front of a token and the token itself. -/
def Token.pieces (token : Token) : List Stretch :=
  token.leading.map Trivia.stretch ++ [token.stretch]

theorem Token.stretches_among (tokens : List Token) :
    (tokens.map Token.stretch).Sublist (tokens.flatMap Token.pieces) := by
  induction tokens with
  | nil => exact .slnil
  | cons token rest ih =>
    rw [List.map_cons, List.flatMap_cons, Token.pieces, List.append_assoc]
    exact (ih.cons_cons token.stretch).trans (List.sublist_append_right _ _)

namespace Lexeme

/-- Nothing but whitespace and comments. A comment goes on to the end of its line. -/
inductive TriviaOnly : Bytes → Prop where
  | nil : TriviaOnly []
  | space {b : UInt8} {rest : Bytes} (white : isSpace b = true ∨ b = 10) (more : TriviaOnly rest) :
      TriviaOnly (b :: rest)
  | comment {text rest : Bytes} (line : 10 ∉ text) (more : TriviaOnly (10 :: rest)) :
      TriviaOnly (35 :: text ++ 10 :: rest)
  | lastComment {text : Bytes} (line : 10 ∉ text) : TriviaOnly (35 :: text)

theorem TriviaOnly.spaces {text rest : Bytes} (white : ∀ b ∈ text, isSpace b = true ∨ b = 10)
    (more : TriviaOnly rest) : TriviaOnly (text ++ rest) := by
  induction text with
  | nil => exact more
  | cons b text ih =>
    rw [List.forall_mem_cons] at white
    exact .space white.1 (ih white.2)

end Lexeme

open Lexeme

namespace Cursor

/-- The cursor stands in a content, and its offset says where. -/
structure Inside (content : Bytes) (cursor : Cursor) : Prop where
  rest : cursor.rest = content.drop cursor.offset.toNat
  total : cursor.offset.toNat + cursor.rest.length = content.length

/-- A piece comes next, and the cursor moves behind it. -/
structure Takes (cursor : Cursor) (piece : Stretch) (next : Cursor) : Prop where
  moved : next = cursor.skip piece.text.length
  start : piece.text <+: cursor.rest
  some_ : piece.text ≠ []
  span : piece.span = next.spanFrom cursor.offset

/-- Pieces come next, one right behind the other. -/
inductive Covers : Cursor → List Stretch → Cursor → Prop where
  | nil (cursor : Cursor) : Covers cursor [] cursor
  | cons {cursor next last : Cursor} {piece : Stretch} {more : List Stretch}
      (first : cursor.Takes piece next) (rest : Covers next more last) :
      Covers cursor (piece :: more) last

theorem Covers.trans {cursor next last : Cursor} {pieces more : List Stretch}
    (first : Covers cursor pieces next) (second : Covers next more last) :
    Covers cursor (pieces ++ more) last := by
  induction first with
  | nil => exact second
  | cons takes _ ih => exact .cons takes (ih second)

theorem skip_skip (cursor : Cursor) (first second : Nat) :
    (cursor.skip first).skip second = cursor.skip (first + second) := by
  simp only [skip, List.drop_drop, Nat.toUInt32_eq, UInt32.ofNat_add, UInt32.add_assoc]

theorem Takes.rest {cursor next : Cursor} {piece : Stretch} (takes : cursor.Takes piece next) :
    cursor.rest = piece.text ++ next.rest := by
  obtain ⟨tail, whole⟩ := takes.start
  rw [takes.moved, ← whole]
  simp [skip, ← whole]

theorem Takes.inside {content : Bytes} {cursor next : Cursor} {piece : Stretch}
    (takes : cursor.Takes piece next) (inside : cursor.Inside content)
    (short : content.length < 2 ^ 32) :
    next.Inside content ∧ next.offset.toNat = cursor.offset.toNat + piece.text.length := by
  have length : cursor.rest.length = piece.text.length + next.rest.length := by
    rw [takes.rest, List.length_append]
  have total := inside.total
  have offset : next.offset.toNat = cursor.offset.toNat + piece.text.length := by
    rw [takes.moved]
    simp only [skip, UInt32.toNat_add, Nat.toUInt32_eq, UInt32.toNat_ofNat']
    omega
  refine ⟨⟨?_, by omega⟩, offset⟩
  rw [offset, ← List.drop_drop, ← inside.rest, takes.moved]
  rfl

theorem Takes.slice {content : Bytes} {cursor next : Cursor} {piece : Stretch}
    (takes : cursor.Takes piece next) (inside : cursor.Inside content)
    (short : content.length < 2 ^ 32) : piece.text = piece.span.slice content := by
  obtain ⟨-, offset⟩ := takes.inside inside short
  have length : piece.span.stop.toNat - piece.span.start.toNat = piece.text.length := by
    rw [takes.span]
    simp only [spanFrom]
    omega
  rw [Span.slice, length, takes.span]
  simp only [spanFrom, ← inside.rest]
  rw [takes.rest, List.take_left]

theorem takeWhile_takes (cursor : Cursor) {b : UInt8} {rest : Bytes} {test : UInt8 → Bool}
    (here : cursor.rest = b :: rest) (taken : test b = true) :
    cursor.Takes ⟨(cursor.takeWhile test).2.spanFrom cursor.offset, (cursor.takeWhile test).1⟩
      (cursor.takeWhile test).2 where
  moved := rfl
  start := List.takeWhile_prefix test
  some_ := by
    simp only [takeWhile, here, List.takeWhile_cons_of_pos taken]
    exact List.cons_ne_nil _ _
  span := rfl

/-- A run of bytes that pass a test and the rest, which does not start with one. -/
theorem takeWhile_split (cursor : Cursor) (test : UInt8 → Bool) :
    cursor.rest = (cursor.takeWhile test).1 ++ (cursor.takeWhile test).2.rest ∧
      (∀ b ∈ (cursor.takeWhile test).1, test b = true) ∧
      ∀ b rest, (cursor.takeWhile test).2.rest = b :: rest → test b = false := by
  have whole : cursor.rest.takeWhile test ++ cursor.rest.dropWhile test = cursor.rest :=
    List.takeWhile_append_dropWhile
  have rest : (cursor.takeWhile test).2.rest = cursor.rest.dropWhile test :=
    (congrArg (List.drop _) whole).symm.trans List.drop_left
  refine ⟨?_, List.all_eq_true.mp List.all_takeWhile, fun b tail here => ?_⟩
  · rw [rest]
    exact whole.symm
  · rw [rest] at here
    have stops := List.head?_dropWhile_not test cursor.rest
    simpa only [here, List.head?_cons] using stops

theorem trivia?_takes {cursor next : Cursor} {piece : Trivia}
    (step : cursor.trivia? = some (piece, next)) :
    cursor.Takes piece.stretch next ∧ (TriviaOnly next.rest → TriviaOnly cursor.rest) := by
  unfold Cursor.trivia? at step
  split at step
  · cases step
  next b rest here =>
    split at step
    next space =>
      cases step
      obtain ⟨whole, white, -⟩ := cursor.takeWhile_split isSpace
      refine ⟨takeWhile_takes cursor here space, fun more => ?_⟩
      rw [whole]
      exact .spaces (fun b member => .inl (white b member)) more
    next =>
      split at step
      next feed =>
        cases step
        obtain ⟨whole, feeds, -⟩ := cursor.takeWhile_split (· == 10)
        refine ⟨takeWhile_takes cursor here (by simp [feed]), fun more => ?_⟩
        rw [whole]
        exact .spaces (fun b member => .inr (by simpa using feeds b member)) more
      next =>
        split at step
        next hash =>
          cases step
          obtain ⟨whole, line, ends⟩ := cursor.takeWhile_split (· != 10)
          refine ⟨takeWhile_takes cursor here (by simp [hash]), fun more => ?_⟩
          have begins : (cursor.takeWhile (· != 10)).1 = 35 :: rest.takeWhile (· != 10) := by
            simp [takeWhile, here, hash]
          have text : 10 ∉ rest.takeWhile (· != 10) := fun member => by
            simpa using line 10 (by rw [begins]; exact List.mem_cons_of_mem _ member)
          rw [whole, begins]
          cases tail : (cursor.takeWhile (· != 10)).2.rest with
          | nil =>
            rw [List.append_nil]
            exact .lastComment text
          | cons c tail' =>
            obtain rfl : c = 10 := by simpa using ends c tail' tail
            exact .comment text (tail ▸ more)
        next => cases step

theorem triviaLoop_covers (cursor : Cursor) (done : List Trivia) :
    ∃ pieces, (cursor.triviaLoop done).1 = done.reverse ++ pieces ∧
      cursor.Covers (pieces.map Trivia.stretch) (cursor.triviaLoop done).2 ∧
      (TriviaOnly (cursor.triviaLoop done).2.rest → TriviaOnly cursor.rest) := by
  fun_induction Cursor.triviaLoop cursor done with
  | case1 cursor done piece next step shorter ih =>
    obtain ⟨takes, blank⟩ := trivia?_takes step
    obtain ⟨pieces, split, covers, blanks⟩ := ih
    refine ⟨piece :: pieces, by simpa using split, ?_, fun more => blank (blanks more)⟩
    exact .cons takes covers
  | case2 cursor done step => exact ⟨[], by simp, .nil cursor, id⟩

theorem skipTrivia_end {cursor : Cursor} (ended : cursor.rest = []) :
    cursor.skipTrivia = ([], cursor) := by
  have none_ : cursor.trivia? = none := by rw [trivia?, ended]
  rw [skipTrivia, triviaLoop]
  split
  next found => simp [none_] at found
  next => rfl

theorem scanWord_takes {cursor : Cursor} {b : UInt8} {rest : Bytes} (here : cursor.rest = b :: rest)
    (start : isIdentStart b = true) : cursor.Takes cursor.scanWord.1.stretch cursor.scanWord.2 :=
  takeWhile_takes cursor here (by simp [isIdentContinue, start])

theorem scanNumber_takes {cursor : Cursor} {b : UInt8} {rest : Bytes}
    (here : cursor.rest = b :: rest) (digit : Bytes.isDigit b = true) :
    cursor.Takes cursor.scanNumber.1.stretch cursor.scanNumber.2 := by
  obtain ⟨digits, behind, read⟩ : ∃ digits behind,
      cursor.takeWhile Bytes.isDigit = (digits, behind) := ⟨_, _, rfl⟩
  obtain ⟨tail, next, more⟩ : ∃ tail next, behind.takeWhile isIdentContinue = (tail, next) :=
    ⟨_, _, rfl⟩
  have first := takeWhile_takes cursor here digit
  have whole := (behind.takeWhile_split isIdentContinue).1
  rw [read] at first
  rw [more] at whole
  have moved : next = cursor.skip (digits ++ tail).length := by
    have last : next = behind.skip tail.length := by
      cases more
      rfl
    rw [List.length_append, ← skip_skip, last]
    exact congrArg (skip · tail.length) first.moved
  have rest : cursor.rest = digits ++ tail ++ next.rest := by
    rw [List.append_assoc, ← whole]
    exact first.rest
  -- Whether the number is valid or not, it is the digits with what sticks to them.
  have token : cursor.scanNumber.1.stretch = ⟨next.spanFrom cursor.offset, digits ++ tail⟩ ∧
      cursor.scanNumber.2 = next := by
    simp only [scanNumber, read, more]
    split
    · exact ⟨rfl, rfl⟩
    · split <;> exact ⟨rfl, rfl⟩
  rw [token.1, token.2]
  exact ⟨moved, ⟨next.rest, rest.symm⟩, by simp [first.some_], rfl⟩

end Cursor

theorem Utf8.next?_small {text rest : Bytes} {rune : Rune} (step : next? text = some (rune, rest)) :
    rune.bytes ≠ [] ∧ rune.bytes.length ≤ 4 := by
  unfold next? at step
  cases text with
  | nil => cases step
  | cons a tail =>
    dsimp only at step
    repeat' split at step
    all_goals
      rw [← (Prod.mk.inj (Option.some.inj step)).1]
      exact ⟨List.cons_ne_nil _ _, by simp⟩

theorem Utf8.next?_isSome (b : UInt8) (rest : Bytes) : (next? (b :: rest)).isSome = true := by
  unfold next?
  grind

namespace Cursor

theorem scanSymbol_takes {cursor : Cursor} {b : UInt8} {rest : Bytes}
    (here : cursor.rest = b :: rest) :
    cursor.Takes cursor.scanSymbol.1.stretch cursor.scanSymbol.2 := by
  unfold Cursor.scanSymbol
  cases found : operator? cursor.rest with
  | some entry =>
    obtain ⟨-, -, some_, start⟩ := operator?_eq_some found
    exact ⟨rfl, start, some_, rfl⟩
  | none =>
    obtain ⟨⟨rune, after⟩, read⟩ := Option.isSome_iff_exists.mp (Utf8.next?_isSome b rest)
    rw [← here] at read
    have whole := Utf8.next?_bytes read
    obtain ⟨some_, small⟩ := Utf8.next?_small read
    have bumped : cursor.bumpRune = cursor.skip rune.bytes.length := by rw [bumpRune, read]
    have length : ((cursor.skip rune.bytes.length).offset - cursor.offset).toNat =
        rune.bytes.length := by
      have added : cursor.offset + rune.bytes.length.toUInt32 - cursor.offset =
          rune.bytes.length.toUInt32 := by rw [UInt32.add_comm, UInt32.add_sub_cancel]
      simp only [skip, added, Nat.toUInt32_eq, UInt32.toNat_ofNat']
      omega
    have text : cursor.rest.take rune.bytes.length = rune.bytes := by
      rw [whole, List.take_left]
    simp only [bumped, length, text, Token.stretch]
    exact ⟨rfl, ⟨after, whole.symm⟩, some_, rfl⟩

/-- A scan gives the end token where only trivia is left, and otherwise the token that comes
next. -/
theorem scan_covers (cursor : Cursor) :
    (cursor.scan.1 = { kind := .eof, span := cursor.scan.2.spanFrom cursor.scan.2.offset } ∧
      cursor.scan.2.rest = [] ∧ TriviaOnly cursor.rest ∧
      ∃ pieces, cursor.Covers pieces cursor.scan.2) ∨
    (cursor.scan.1.kind ≠ .eof ∧ cursor.Covers cursor.scan.1.pieces cursor.scan.2) := by
  obtain ⟨pieces, split, covers, blank⟩ := triviaLoop_covers cursor []
  rw [List.reverse_nil, List.nil_append] at split
  change cursor.Covers _ cursor.skipTrivia.2 at covers
  change TriviaOnly cursor.skipTrivia.2.rest → _ at blank
  change cursor.skipTrivia.1 = pieces at split
  subst split
  cases here : cursor.skipTrivia.2.rest with
  | nil =>
    left
    simp only [scan, here]
    exact ⟨trivial, trivial, blank (here ▸ .nil), _, covers⟩
  | cons b rest =>
    have scanned : ∀ result, result = (if isIdentStart b then cursor.skipTrivia.2.scanWord
        else if Bytes.isDigit b then cursor.skipTrivia.2.scanNumber
        else cursor.skipTrivia.2.scanSymbol) →
        result.1.kind ≠ .eof ∧ cursor.skipTrivia.2.Takes result.1.stretch result.2 := by
      rintro result rfl
      split
      next start => exact ⟨(scanWord_scans here start).inside, scanWord_takes here start⟩
      next =>
        split
        next digit => exact ⟨(scanNumber_scans here digit).inside, scanNumber_takes here digit⟩
        next => exact ⟨(scanSymbol_scans here).inside, scanSymbol_takes here⟩
    obtain ⟨inside, takes⟩ := scanned _ rfl
    right
    simp only [scan, here, Token.pieces]
    exact ⟨inside, covers.trans (.cons takes (.nil _))⟩

/-- The cursor behind the first tokens. -/
def after (cursor : Cursor) : Nat → Cursor
  | 0 => cursor
  | count + 1 => (cursor.after count).scan.2

/-- The token with a number, counted from zero. -/
def nth (cursor : Cursor) (index : Nat) : Token := (cursor.after index).scan.1

def firsts (cursor : Cursor) (count : Nat) : List Token := (List.range count).map cursor.nth

theorem firsts_succ (cursor : Cursor) (count : Nat) :
    cursor.firsts (count + 1) = cursor.firsts count ++ [cursor.nth count] := by
  simp [firsts, List.range_succ]

theorem scan_again {cursor : Cursor} (ended : cursor.scan.1.kind = .eof) :
    cursor.scan.2.scan = cursor.scan := by
  rcases cursor.scan_covers with ⟨token, rest, -⟩ | ⟨inside, -⟩
  · refine Prod.ext ?_ ?_ <;> simp only [scan.eq_def cursor.scan.2, skipTrivia_end rest, rest]
    exact token.symm
  · exact absurd ended inside

theorem after_end {cursor : Cursor} {index : Nat} (ended : (cursor.nth index).kind = .eof)
    (more : Nat) : cursor.nth (index + more) = cursor.nth index := by
  have stays : cursor.after (index + more + 1) = cursor.after (index + 1) ∧
      (cursor.after (index + more)).scan = (cursor.after index).scan := by
    induction more with
    | zero => exact ⟨rfl, rfl⟩
    | succ more ih =>
      have again : (cursor.after (index + more + 1)).scan = (cursor.after index).scan := by
        rw [ih.1]
        exact scan_again ended
      exact ⟨congrArg Prod.snd again, again⟩
  exact congrArg Prod.fst stays.2

/-- Behind the tokens in front of the end comes the end, as often as one asks. -/
theorem firsts_past {cursor : Cursor} {total : Nat} (ended : (cursor.nth total).kind = .eof)
    (count : Nat) : cursor.firsts count =
      (cursor.firsts total ++ List.replicate count (cursor.nth total)).take count := by
  refine List.ext_getElem (by simp [firsts]) fun index less _ => ?_
  simp only [firsts, List.getElem_take, List.getElem_append, List.length_map, List.length_range,
    List.getElem_map, List.getElem_range, List.getElem_replicate]
  split
  · rfl
  next past =>
    have again := after_end ended (index - total)
    rwa [Nat.add_sub_of_le (by omega)] at again

/-- Tokens in front of the end tile what they are read from. -/
theorem firsts_cover {cursor : Cursor} {count : Nat}
    (inside : ∀ index < count, (cursor.nth index).kind ≠ .eof) :
    cursor.Covers ((cursor.firsts count).flatMap Token.pieces) (cursor.after count) := by
  induction count with
  | zero => exact .nil cursor
  | succ count ih =>
    rw [firsts_succ, List.flatMap_append, List.flatMap_singleton]
    refine (ih fun index less => inside index (by omega)).trans ?_
    rcases (cursor.after count).scan_covers with ⟨token, -⟩ | ⟨-, covers⟩
    · exact absurd (congrArg Token.kind token) (inside count (by omega))
    · exact covers

end Cursor

namespace Lexer

/-- What can be asked of a lexer. -/
inductive Call where
  | peek
  | next
  deriving DecidableEq

/-- Makes calls in order; the tokens are those that were consumed. -/
def play : List Call → Lexer → List Token × Lexer
  | [], lexer => ([], lexer)
  | .peek :: calls, lexer => play calls lexer.peek.2
  | .next :: calls, lexer =>
      let (token, after) := lexer.next
      let (tokens, last) := play calls after
      (token :: tokens, last)

/-- A lexer that has given `count` tokens and seen `seen`, one more if it has looked ahead. -/
structure Stands (start : Cursor) (count seen : Nat) (lexer : Lexer) : Prop where
  cursor : lexer.cursor = start.after seen
  ahead : lexer.ahead = none ∧ seen = count ∨
    lexer.ahead = some (start.nth count) ∧ seen = count + 1
  reports : lexer.reports = (start.firsts seen).flatMap Token.reports

variable {start : Cursor} {count seen : Nat} {lexer : Lexer}

theorem Stands.pull (stands : lexer.Stands start count seen) (free : lexer.ahead = none) :
    lexer.pull.1 = start.nth count ∧ lexer.pull.2.cursor = start.after (count + 1) ∧
      lexer.pull.2.reports = (start.firsts (count + 1)).flatMap Token.reports := by
  obtain rfl : seen = count := by
    rcases stands.ahead with ⟨-, same⟩ | ⟨some_, -⟩
    · exact same
    · rw [free] at some_
      cases some_
  have token : lexer.cursor.scan.1 = start.nth seen := by rw [stands.cursor]; rfl
  refine ⟨token, ?_, ?_⟩
  · change lexer.cursor.scan.2 = _
    rw [stands.cursor]
    rfl
  · change (lexer.cursor.scan.1.reports.reverse ++ lexer.log).reverse = _
    rw [List.reverse_append, List.reverse_reverse, Cursor.firsts_succ, List.flatMap_append,
      List.flatMap_singleton, token]
    exact congrArg (· ++ _) stands.reports

theorem Stands.next (stands : lexer.Stands start count seen) :
    lexer.next.1 = start.nth count ∧ lexer.next.2.Stands start (count + 1) (count + 1) := by
  unfold Lexer.next
  rcases stands.ahead with ⟨free, rfl⟩ | ⟨held, rfl⟩
  · obtain ⟨token, cursor, reports⟩ := stands.pull free
    rw [free]
    exact ⟨token, cursor, .inl ⟨free, rfl⟩, reports⟩
  · rw [held]
    exact ⟨rfl, stands.cursor, .inl ⟨rfl, rfl⟩, stands.reports⟩

theorem Stands.peek (stands : lexer.Stands start count seen) :
    lexer.peek.2.Stands start count (count + 1) := by
  unfold Lexer.peek
  rcases stands.ahead with ⟨free, rfl⟩ | ⟨held, rfl⟩
  · obtain ⟨token, cursor, reports⟩ := stands.pull free
    rw [free]
    exact ⟨cursor, .inr ⟨congrArg some token, rfl⟩, reports⟩
  · rw [held]
    exact ⟨stands.cursor, .inr ⟨held, rfl⟩, stands.reports⟩

/-- Whatever the calls, the tokens come in order, and at most one more has been seen. -/
theorem Stands.play (stands : lexer.Stands start count seen) (calls : List Call) :
    start.firsts count ++ (lexer.play calls).1 = start.firsts (count + calls.count .next) ∧
      (lexer.play calls).2.Stands start (count + calls.count .next)
        (match calls.getLast? with
          | none => seen
          | some .peek => count + calls.count .next + 1
          | some .next => count + calls.count .next) := by
  induction calls generalizing lexer count seen with
  | nil => exact ⟨List.append_nil _, stands⟩
  | cons call calls ih =>
    rw [List.getLast?_cons]
    cases call with
    | peek =>
      obtain ⟨tokens, later⟩ := ih stands.peek
      rw [List.count_cons_of_ne (by decide)]
      refine ⟨tokens, ?_⟩
      cases ends : calls.getLast? with
      | none =>
        obtain rfl := List.getLast?_eq_none_iff.mp ends
        exact later
      | some last =>
        rw [ends] at later
        cases last <;> exact later
    | next =>
      obtain ⟨token, moved⟩ := stands.next
      obtain ⟨tokens, later⟩ := ih moved
      have total : count + List.count Call.next (.next :: calls) =
          count + 1 + calls.count .next := by
        rw [List.count_cons_self]
        omega
      rw [total]
      refine ⟨?_, ?_⟩
      · rw [← tokens, Cursor.firsts_succ, List.append_assoc, ← token]
        rfl
      · cases ends : calls.getLast? with
        | none =>
          obtain rfl := List.getLast?_eq_none_iff.mp ends
          exact later
        | some last =>
          rw [ends] at later
          cases last <;> exact later

theorem allLoop_firsts (fuel : Nat) {done : Array Token} (stands : lexer.Stands start count count)
    (free : lexer.ahead = none) (sofar : done.toList = start.firsts count) :
    ∃ total, (Lexer.allLoop fuel lexer done).1.toList = start.firsts total ∧
      (Lexer.allLoop fuel lexer done).2.Stands start total total := by
  induction fuel generalizing lexer done count with
  | zero => exact ⟨count, sofar, stands⟩
  | succ fuel ih =>
    obtain ⟨token, later⟩ := stands.next
    have more : (done.push lexer.next.1).toList = start.firsts (count + 1) := by
      rw [Array.toList_push, sofar, token, Cursor.firsts_succ]
    have step : Lexer.allLoop (fuel + 1) lexer done =
        if lexer.next.1.kind == .eof then (done.push lexer.next.1, lexer.next.2)
        else Lexer.allLoop fuel lexer.next.2 (done.push lexer.next.1) := rfl
    rw [step]
    split
    · exact ⟨count + 1, more, later⟩
    · refine ih later ?_ more
      rcases later.ahead with ⟨none_, -⟩ | ⟨-, wrong⟩
      · exact none_
      · omega

end Lexer

theorem Lexer.stands_ofFile (file : SourceFile) :
    (Lexer.ofFile file).Stands (Cursor.ofFile file) 0 0 :=
  ⟨rfl, .inl ⟨rfl, rfl⟩, rfl⟩

/-- From the start on, a lexer has seen what it has given and what it was last made to look at. -/
theorem Lexer.seen_of_play (file : SourceFile) (calls : List Call) : ∃ seen,
    calls.count .next + (if calls.getLast? = some .peek then 1 else 0) = seen ∧
      ((Lexer.ofFile file).play calls).2.Stands (Cursor.ofFile file) (calls.count .next) seen := by
  have played := ((Lexer.stands_ofFile file).play calls).2
  rw [Nat.zero_add] at played
  refine ⟨_, ?_, played⟩
  cases ends : calls.getLast? with
  | none =>
    obtain rfl := List.getLast?_eq_none_iff.mp ends
    rfl
  | some call => cases call <;> rfl

/-- Each piece begins where the one before it ends. -/
def Stretch.Adjacent : UInt32 → List Stretch → Prop
  | _, [] => True
  | place, piece :: rest => piece.span.start = place ∧ Stretch.Adjacent piece.span.stop rest

namespace Cursor

variable {content : Bytes} {cursor last : Cursor} {tiles : List Stretch}

theorem Covers.adjacent (covers : cursor.Covers tiles last) :
    Stretch.Adjacent cursor.offset tiles := by
  induction covers with
  | nil => trivial
  | cons takes _ ih =>
    rw [Stretch.Adjacent, takes.span]
    exact ⟨rfl, ih⟩

theorem Covers.rest (covers : cursor.Covers tiles last) :
    cursor.rest = tiles.flatMap Stretch.text ++ last.rest := by
  induction covers with
  | nil => rfl
  | cons takes _ ih => rw [takes.rest, ih, List.flatMap_cons, List.append_assoc]

theorem Covers.inside (covers : cursor.Covers tiles last) (inside : cursor.Inside content)
    (short : content.length < 2 ^ 32) : last.Inside content := by
  induction covers with
  | nil => exact inside
  | cons takes _ ih => exact ih (takes.inside inside short).1

theorem Covers.file (covers : cursor.Covers tiles last) : last.file = cursor.file := by
  induction covers with
  | nil => rfl
  | cons takes _ ih => rw [ih, takes.moved]; rfl

theorem Covers.faithful (covers : cursor.Covers tiles last) (inside : cursor.Inside content)
    (short : content.length < 2 ^ 32) : ∀ piece ∈ tiles,
      piece.text ≠ [] ∧ piece.span.file = cursor.file ∧ piece.text = piece.span.slice content := by
  induction covers with
  | nil =>
    intro piece member
    cases member
  | @cons cursor next last piece more takes _ ih =>
    have file : next.file = cursor.file := by rw [takes.moved]; rfl
    rw [List.forall_mem_cons]
    refine ⟨⟨takes.some_, ?_, takes.slice inside short⟩, ?_⟩
    · rw [takes.span]
      exact file
    · rw [← file]
      exact ih (takes.inside inside short).1

/-- Every piece starts where the cursor stands or later, and none starts before another. -/
theorem Covers.ascending (covers : cursor.Covers tiles last) (inside : cursor.Inside content)
    (short : content.length < 2 ^ 32) :
    tiles.Pairwise (fun a b => a.span.start.toNat < b.span.start.toNat) ∧
      cursor.offset.toNat ≤ last.offset.toNat ∧ ∀ piece ∈ tiles,
        cursor.offset.toNat ≤ piece.span.start.toNat ∧
          piece.span.start.toNat < last.offset.toNat := by
  induction covers with
  | nil => exact ⟨.nil, Nat.le_refl _, fun _ member => absurd member List.not_mem_nil⟩
  | @cons cursor next last piece more takes _ ih =>
    obtain ⟨inside', offset⟩ := takes.inside inside short
    obtain ⟨ordered, forward, behind⟩ := ih inside'
    have start : piece.span.start = cursor.offset := by rw [takes.span]; rfl
    have some_ := List.length_pos_iff.mpr takes.some_
    refine ⟨.cons (fun other member => ?_) ordered, by omega, ?_⟩
    · have := behind other member
      rw [start]
      omega
    · rw [List.forall_mem_cons, start]
      refine ⟨⟨Nat.le_refl _, by omega⟩, fun other member => ?_⟩
      have := behind other member
      omega

end Cursor

def SourceFile.endToken (file : SourceFile) : Token where
  kind := .eof
  span := ⟨file.id, file.content.length.toUInt32, file.content.length.toUInt32⟩

/-- Nothing of a file is lost by a lexer that has some tokens in front of the end. -/
structure SourceFile.Lossless (file : SourceFile) (body : List Token) : Prop where
  tokens : file.tokens = body ++ [file.endToken]
  some_ : ∀ token ∈ body, token.kind ≠ .eof ∧ token.text ≠ []
  /-- Tokens that are consumed do not depend on looking ahead, and the end comes again. -/
  given : ∀ calls, ((Lexer.ofFile file).play calls).1 =
    (body ++ List.replicate (calls.count .next) file.endToken).take (calls.count .next)
  /-- Looking ahead brings a report forward, and does nothing else to reports. -/
  reports : ∀ calls, ((Lexer.ofFile file).play calls).2.reports =
    (body.take (calls.count .next + if calls.getLast? = some .peek then 1 else 0)).flatMap
      Token.reports
  faithful : ∀ piece ∈ body.flatMap Token.pieces,
    piece.span.file = file.id ∧ piece.text = piece.span.slice file.content
  adjacent : Stretch.Adjacent 0 (body.flatMap Token.pieces)
  rest : ∃ rest, (body.flatMap Token.pieces).flatMap Stretch.text ++ rest = file.content ∧
    TriviaOnly rest

namespace SourceFile

/-- The tokens of a file up to the end: how many there are and what its lexer gives for them. -/
theorem tokens_firsts (file : SourceFile) : ∃ total,
    file.tokens = (Cursor.ofFile file).firsts total ++ [(Cursor.ofFile file).nth total] ∧
      ((Cursor.ofFile file).nth total).kind = .eof ∧
      ∀ index < total, ((Cursor.ofFile file).nth index).kind ≠ .eof := by
  obtain ⟨body, last, whole, ended, inside⟩ := file.tokens_whole.ends
  obtain ⟨size, tokens, -⟩ :=
    Lexer.allLoop_firsts (file.content.length + 2) (Lexer.stands_ofFile file) rfl rfl
  change file.tokens = (Cursor.ofFile file).firsts size at tokens
  have length : size = body.length + 1 := by
    simpa [whole, Cursor.firsts] using (congrArg List.length tokens).symm
  subst length
  rw [Cursor.firsts_succ] at tokens
  obtain ⟨bodies, lasts⟩ := List.append_inj' (whole.symm.trans tokens) rfl
  refine ⟨body.length, tokens, ?_, fun index less => ?_⟩
  · rw [← List.singleton_inj.mp lasts]
    exact ended
  · refine inside _ ?_
    rw [bodies]
    exact List.mem_map_of_mem (List.mem_range.mpr less)

theorem inside_ofFile (file : SourceFile) : (Cursor.ofFile file).Inside file.content :=
  ⟨rfl, Nat.zero_add _⟩

theorem scan_end {file : SourceFile} {cursor : Cursor} (inside : cursor.Inside file.content)
    (short : file.content.length < 2 ^ 32) (home : cursor.file = file.id)
    (ended : cursor.scan.1.kind = .eof) :
    cursor.scan.1 = file.endToken ∧ TriviaOnly cursor.rest := by
  rcases cursor.scan_covers with ⟨token, rest, blank, tiles, covers⟩ | ⟨wrong, -⟩
  · have behind := (covers.inside inside short).total
    rw [rest, List.length_nil, Nat.add_zero] at behind
    have offset : cursor.scan.2.offset = file.content.length.toUInt32 := by
      rw [← behind]
      exact UInt32.ofNat_toNat.symm
    refine ⟨?_, blank⟩
    rw [token, Cursor.spanFrom, covers.file, home, offset]
    rfl
  · exact absurd ended wrong

/-- In a file that offsets can count, every token starts behind the one before it. -/
theorem tokens_ascending (file : SourceFile) (short : file.content.length < 2 ^ 32) :
    file.tokens.Pairwise fun a b => a.span.start.toNat < b.span.start.toNat := by
  obtain ⟨total, tokens, ended, inside⟩ := file.tokens_firsts
  have covers := Cursor.firsts_cover inside
  have last := (scan_end (covers.inside file.inside_ofFile short) short covers.file ended).1
  obtain ⟨ordered, -, behind⟩ := covers.ascending file.inside_ofFile short
  have among := Token.stretches_among ((Cursor.ofFile file).firsts total)
  have apart := ordered.sublist among
  rw [List.pairwise_map] at apart
  have bound := (covers.inside file.inside_ofFile short).total
  change (Cursor.ofFile file).nth total = file.endToken at last
  rw [tokens, last, List.pairwise_append]
  refine ⟨apart, List.pairwise_singleton _ _, ?_⟩
  intro token member other same
  rw [List.mem_singleton.mp same]
  have before := (behind token.stretch (among.mem (List.mem_map_of_mem member))).2
  have place : file.endToken.span.start.toNat = file.content.length := by
    simp only [endToken, Nat.toUInt32_eq, UInt32.toNat_ofNat']
    omega
  rw [place]
  exact Nat.lt_of_lt_of_le before (by omega)

/-- A lexer reaches the end of every file that offsets can count, loses nothing but trivia there,
and looking ahead makes no difference to what it gives. -/
theorem lexing_is_lossless (file : SourceFile) (short : file.content.length < 2 ^ 32) :
    ∃ body, file.Lossless body := by
  obtain ⟨total, tokens, ended, inside⟩ := file.tokens_firsts
  have covers := Cursor.firsts_cover inside
  obtain ⟨last, blank⟩ := scan_end (covers.inside file.inside_ofFile short) short covers.file ended
  change (Cursor.ofFile file).nth total = file.endToken at last
  have firsts : ∀ count, (Cursor.ofFile file).firsts count =
      ((Cursor.ofFile file).firsts total ++ List.replicate count file.endToken).take count := by
    rw [← last]
    exact Cursor.firsts_past ended
  have pieces := covers.faithful file.inside_ofFile short
  have played := (Lexer.stands_ofFile file).play
  refine ⟨(Cursor.ofFile file).firsts total, last ▸ tokens, fun token member => ?_, fun calls => ?_,
    fun calls => ?_, fun piece member => (pieces piece member).2, covers.adjacent,
    _, covers.rest.symm, blank⟩
  · obtain ⟨index, less, rfl⟩ := List.mem_map.mp member
    refine ⟨inside index (List.mem_range.mp less), (pieces (Token.stretch _) ?_).1⟩
    exact List.mem_flatMap.mpr ⟨_, member, List.mem_append_right _ (List.mem_singleton.mpr rfl)⟩
  · have given := (played calls).1
    rw [Nat.zero_add] at given
    exact given.trans (firsts _)
  · obtain ⟨seen, same, stands⟩ := Lexer.seen_of_play file calls
    rw [same, stands.reports, firsts, List.take_append, List.flatMap_append]
    refine (congrArg _ (List.flatMap_eq_nil_iff.mpr fun token member => ?_)).trans
      (List.append_nil _)
    rw [List.eq_of_mem_replicate (List.mem_of_mem_take member)]
    rfl

/-- A comment at the end belongs to no token. -/
theorem comment_at_end_is_lossless :
    let file := SourceFile.make 0 "sum.mini" "s = 2 $ 3; # six?" {}
    file.content.length < 2 ^ 32 ∧ ∃ body, file.Lossless body :=
  ⟨by decide, lexing_is_lossless _ (by decide)⟩

end SourceFile

end Minilang
