import Minilang.Token.Scan

/-! The tokens of a file. The list ends with the only end token, complaints are lexical errors and
belong to invalid tokens alone, and every token has the text that its kind asks for. -/

namespace Minilang

/-- The codes of lexical errors. -/
def Code.lexicalErrors : List Code := [.unknownChar, .badNumber]

/-- A text that can name a variable. -/
def IsIdentifier (text : Bytes) : Prop :=
  ∃ first rest, text = first :: rest ∧ Lexeme.isIdentStart first = true ∧
    ∀ b ∈ text, Lexeme.isIdentContinue b = true

namespace Token

/-- A token that is what its kind says. -/
structure Faithful (token : Token) : Prop where
  invalid : token.kind = .invalid → ∃ code ∈ Code.lexicalErrors, ∃ message,
    token.complaint = some (code, message)
  valid : token.kind ≠ .invalid → token.complaint = none
  ident : token.kind = .ident → IsIdentifier token.text
  literal : token.kind = .intLit → token.text ≠ [] ∧
    (∀ b ∈ token.text, Bytes.isDigit b = true) ∧ Bytes.digitsValue token.text ≤ Lexeme.maxLiteral
  fixed : token.kind.tokenClass = .keyword ∨ token.kind.tokenClass = .operator →
    token.text = token.kind.name

/-- A faithful token complains of lexical errors only. -/
theorem Faithful.reports {token : Token} (faithful : token.Faithful) {d : Diagnostic}
    (member : d ∈ token.reports) : d.severity = .error ∧ d.code ∈ Code.lexicalErrors := by
  by_cases wrong : token.kind = .invalid
  · obtain ⟨code, lexical, message, complaint⟩ := faithful.invalid wrong
    rw [Token.reports, complaint, List.mem_singleton] at member
    exact ⟨member ▸ rfl, member ▸ lexical⟩
  · rw [Token.reports, faithful.valid wrong] at member
    cases member

end Token

theorem TokenKind.ofKeyword?_eq_some {text : Bytes} {kind : TokenKind}
    (found : TokenKind.ofKeyword? text = some kind) :
    kind.tokenClass = .keyword ∧ kind.name = text := by
  have member := List.mem_of_find?_eq_some found
  have same := List.find?_some found
  refine ⟨?_, by simpa using same⟩
  revert member
  cases kind <;> decide

theorem Lexeme.operator?_eq_some {text word : Bytes} {kind : TokenKind}
    (found : Lexeme.operator? text = some (word, kind)) :
    kind.tokenClass = .operator ∧ kind.name = word ∧ word ≠ [] ∧ word <+: text := by
  have member := List.mem_of_find?_eq_some found
  have start := List.find?_some found
  have tables : ∀ entry ∈ Lexeme.pairs ++ Lexeme.singles,
      entry.2.tokenClass = .operator ∧ entry.2.name = entry.1 ∧ entry.1 ≠ [] := by decide
  obtain ⟨operator, spelled, some_⟩ := tables _ member
  exact ⟨operator, spelled, some_, by simpa using start⟩

namespace Cursor

theorem length_skip (cursor : Cursor) (count : Nat) :
    (cursor.skip count).rest.length = cursor.rest.length - count := by
  simp [Cursor.skip]

/-- What a scanner at a non-empty rest has to give: a faithful token, not the end, and progress. -/
structure Scans (cursor : Cursor) (result : Token × Cursor) : Prop where
  faithful : result.1.Faithful
  inside : result.1.kind ≠ .eof
  shorter : result.2.rest.length < cursor.rest.length

theorem scanWord_scans {cursor : Cursor} {b : UInt8} {rest : Bytes} (here : cursor.rest = b :: rest)
    (start : Lexeme.isIdentStart b = true) : cursor.Scans cursor.scanWord := by
  have goes : Lexeme.isIdentContinue b = true := by simp [Lexeme.isIdentContinue, start]
  have taken : cursor.rest.takeWhile Lexeme.isIdentContinue =
      b :: rest.takeWhile Lexeme.isIdentContinue := by rw [here, List.takeWhile_cons_of_pos goes]
  have identifier : IsIdentifier (cursor.rest.takeWhile Lexeme.isIdentContinue) :=
    ⟨b, _, taken, start, List.all_eq_true.mp List.all_takeWhile⟩
  have shorter : (cursor.skip (cursor.rest.takeWhile Lexeme.isIdentContinue).length).rest.length <
      cursor.rest.length := by
    rw [length_skip, taken, here, List.length_cons, List.length_cons]
    omega
  cases found : TokenKind.ofKeyword? (cursor.rest.takeWhile Lexeme.isIdentContinue) with
  | none =>
    refine ⟨⟨?_, ?_, ?_, ?_, ?_⟩, ?_, shorter⟩ <;>
      simp [Cursor.scanWord, Cursor.takeWhile, found, identifier, TokenKind.tokenClass]
  | some kind =>
    obtain ⟨keyword, spelled⟩ := TokenKind.ofKeyword?_eq_some found
    refine ⟨⟨?_, ?_, ?_, ?_, ?_⟩, ?_, shorter⟩ <;>
      simp only [Cursor.scanWord, Cursor.takeWhile, found, Option.getD_some]
    · rintro rfl; cases keyword
    · exact fun _ => trivial
    · rintro rfl; cases keyword
    · rintro rfl; cases keyword
    · exact fun _ => spelled.symm
    · rintro rfl; cases keyword

theorem scanNumber_scans {cursor : Cursor} {b : UInt8} {rest : Bytes} (here : cursor.rest = b :: rest)
    (digit : Bytes.isDigit b = true) : cursor.Scans cursor.scanNumber := by
  obtain ⟨digits, behind, read⟩ : ∃ digits behind, cursor.takeWhile Bytes.isDigit = (digits, behind) :=
    ⟨_, _, rfl⟩
  obtain ⟨tail, next, more⟩ : ∃ tail next,
      behind.takeWhile Lexeme.isIdentContinue = (tail, next) := ⟨_, _, rfl⟩
  have shorter : next.rest.length < cursor.rest.length := by
    cases read
    cases more
    rw [length_skip, length_skip, here, List.takeWhile_cons_of_pos digit, List.length_cons,
      List.length_cons]
    omega
  have taken : digits ≠ [] ∧ ∀ b ∈ digits, Bytes.isDigit b = true := by
    cases read
    exact ⟨by rw [here, List.takeWhile_cons_of_pos digit]; exact List.cons_ne_nil _ _,
      List.all_eq_true.mp List.all_takeWhile⟩
  have scanned : cursor.scanNumber.2 = next ∧ cursor.scanNumber.1.kind ≠ .eof ∧
      cursor.scanNumber.1.Faithful := by
    rw [Cursor.scanNumber, read]
    simp only [more]
    cases tail with
    | cons c tail =>
      exact ⟨rfl, by simp, fun _ => ⟨.badNumber, by decide, _, rfl⟩, by simp, by simp, by simp, by simp [TokenKind.tokenClass]⟩
    | nil =>
      by_cases large : Lexeme.maxLiteral < Bytes.digitsValue digits
      · simp only [List.isEmpty_nil, Bool.not_true, Bool.false_eq_true, ↓reduceIte, large]
        exact ⟨trivial, by simp, fun _ => ⟨.badNumber, by decide, _, rfl⟩, by simp, by simp, by simp,
          by simp [TokenKind.tokenClass]⟩
      · simp only [List.isEmpty_nil, Bool.not_true, Bool.false_eq_true, ↓reduceIte, large]
        exact ⟨trivial, by simp, by simp, by simp, by simp,
          fun _ => by simpa using ⟨taken.1, taken.2, Nat.le_of_not_lt large⟩,
          by simp [TokenKind.tokenClass]⟩
  exact ⟨scanned.2.2, scanned.2.1, scanned.1 ▸ shorter⟩

theorem scanSymbol_scans {cursor : Cursor} {b : UInt8} {rest : Bytes} (here : cursor.rest = b :: rest) :
    cursor.Scans cursor.scanSymbol := by
  unfold Cursor.scanSymbol
  cases found : Lexeme.operator? cursor.rest with
  | some entry =>
    obtain ⟨operator, spelled, word, start⟩ := Lexeme.operator?_eq_some found
    have progress : (cursor.skip entry.1.length).rest.length < cursor.rest.length := by
      have := List.length_pos_iff.mpr word
      rw [length_skip, here, List.length_cons]
      omega
    refine ⟨⟨fun wrong => ?_, fun _ => rfl, fun wrong => ?_, fun wrong => ?_, fun _ => spelled.symm⟩,
      fun wrong => ?_, progress⟩
    all_goals
      change entry.2 = _ at wrong
      rw [wrong] at operator
      cases operator
  | none =>
    refine ⟨⟨fun _ => ⟨.unknownChar, by decide, _, rfl⟩, by simp, by simp, by simp,
      by simp [TokenKind.tokenClass]⟩, by simp, ?_⟩
    change cursor.bumpRune.rest.length < _
    cases read : Utf8.next? cursor.rest with
    | none =>
      rw [here] at read
      unfold Utf8.next? at read
      grind
    | some entry =>
      have bytes : entry.1.bytes ≠ [] := by
        rw [here] at read
        unfold Utf8.next? at read
        grind
      have := List.length_pos_iff.mpr bytes
      rw [Cursor.bumpRune, read, length_skip, here, List.length_cons]
      omega

theorem triviaLoop_rest (cursor : Cursor) (done : List Trivia) :
    (cursor.triviaLoop done).2.rest.length ≤ cursor.rest.length := by
  fun_induction Cursor.triviaLoop cursor done with
  | case1 cursor done piece next step shorter ih => omega
  | case2 cursor done step => exact Nat.le_refl _

/-- A scan gives the end token at the end and otherwise makes progress. -/
theorem scan_cases (cursor : Cursor) :
    (cursor.scan.1.kind = .eof ∧ cursor.scan.1.Faithful) ∨ cursor.Scans cursor.scan := by
  have before : cursor.skipTrivia.2.rest.length ≤ cursor.rest.length := triviaLoop_rest cursor []
  cases here : cursor.skipTrivia.2.rest with
  | nil =>
    simp only [Cursor.scan, here]
    exact .inl ⟨trivial, by simp, by simp, by simp, by simp, by simp [TokenKind.tokenClass]⟩
  | cons b rest =>
    have scanned : cursor.skipTrivia.2.Scans
        (if Lexeme.isIdentStart b then cursor.skipTrivia.2.scanWord
          else if Bytes.isDigit b then cursor.skipTrivia.2.scanNumber
          else cursor.skipTrivia.2.scanSymbol) := by
      split
      next start => exact scanWord_scans here start
      next =>
        split
        next digit => exact scanNumber_scans here digit
        next => exact scanSymbol_scans here
    obtain ⟨⟨invalid, valid, ident, literal, fixed⟩, inside, shorter⟩ := scanned
    simp only [Cursor.scan, here]
    exact .inr ⟨⟨invalid, valid, ident, literal, fixed⟩, inside, Nat.lt_of_lt_of_le shorter before⟩

end Cursor

/-- Tokens up to the end of a file. -/
structure Tokens.Whole (tokens : List Token) : Prop where
  faithful : ∀ token ∈ tokens, token.Faithful
  ends : ∃ body last, tokens = body ++ [last] ∧ last.kind = .eof ∧ ∀ token ∈ body, token.kind ≠ .eof

namespace Lexer

theorem allLoop_whole {fuel : Nat} {lexer : Lexer} {done : Array Token} (none : lexer.ahead = none)
    (enough : lexer.cursor.rest.length < fuel) (faithful : ∀ token ∈ done, token.Faithful)
    (inside : ∀ token ∈ done, token.kind ≠ .eof) :
    Tokens.Whole (Lexer.allLoop fuel lexer done).1.toList := by
  induction fuel generalizing lexer done with
  | zero => omega
  | succ fuel ih =>
    have pulled : lexer.next = lexer.pull := by rw [Lexer.next, none]
    have step : Lexer.allLoop (fuel + 1) lexer done =
        if lexer.cursor.scan.1.kind == .eof then (done.push lexer.cursor.scan.1, lexer.pull.2)
        else Lexer.allLoop fuel lexer.pull.2 (done.push lexer.cursor.scan.1) := by
      rw [Lexer.allLoop, pulled]
      rfl
    have more : ∀ token ∈ done.push lexer.cursor.scan.1, token ∈ done ∨ token = lexer.cursor.scan.1 :=
      fun token member => by simpa using member
    rcases lexer.cursor.scan_cases with ⟨ended, last⟩ | scans
    · rw [step, if_pos (by simpa using ended)]
      refine ⟨fun token member => ?_, done.toList, lexer.cursor.scan.1, by simp, ended,
        by simpa using inside⟩
      rcases more token (by simpa using member) with old | rfl
      · exact faithful token old
      · exact last
    · rw [step, if_neg (by simpa using scans.inside)]
      refine ih none ?_ (fun token member => ?_) fun token member => ?_
      · have := scans.shorter
        change lexer.cursor.scan.2.rest.length < fuel
        omega
      · rcases more token member with old | rfl
        · exact faithful token old
        · exact scans.faithful
      · rcases more token member with old | rfl
        · exact inside token old
        · exact scans.inside

end Lexer

/-- The tokens of a file are whole. -/
theorem SourceFile.tokens_whole (file : SourceFile) : Tokens.Whole file.tokens := by
  have enough : (Lexer.ofFile file).cursor.rest.length <
      (Lexer.ofFile file).cursor.rest.length + 2 := by omega
  exact Lexer.allLoop_whole rfl enough (by simp) (by simp)

end Minilang
