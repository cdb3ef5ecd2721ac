import Minilang.Proofs.LosslessTokens
import Minilang.Proofs.ValidText

/-! Every token is the longest lexeme that can be read at its place, its kind depends on its text
alone, and what the lexer reports are its invalid tokens, in order. -/

namespace Minilang

namespace Lexeme

/-- Digits, with an identifier that may stick to them. -/
def IsNumeral (text : Bytes) : Prop :=
  ∃ digits tail, text = digits ++ tail ∧ digits ≠ [] ∧ (∀ b ∈ digits, Bytes.isDigit b = true) ∧
    (tail = [] ∨ IsIdentifier tail)

def IsOperator (text : Bytes) : Prop := ∃ kind, (text, kind) ∈ pairs ++ singles

def IsCharacter (text : Bytes) : Prop :=
  (∃ code, IsScalar code ∧ encodeScalar code = text) ∨ text.length = 1

/-- What can be read where the first byte is known. -/
def IsLexeme (first : UInt8) (text : Bytes) : Prop :=
  if isIdentStart first then IsIdentifier text
  else if Bytes.isDigit first then IsNumeral text
  else IsOperator text ∨ IsCharacter text

/-- The longest text of a language at the start of what is left. -/
structure Longest (language : Bytes → Prop) (text rest : Bytes) : Prop where
  member : language text
  start : text <+: rest
  longest : ∀ other, language other → other <+: rest → other.length ≤ text.length

end Lexeme

open Lexeme

/-- A token of what is left: the longest lexeme there, and of the kind that its text has. -/
structure Token.Classified (rest : Bytes) (token : Token) : Prop where
  longest : ∃ first more, rest = first :: more ∧ Longest (IsLexeme first) token.text rest
  keyword : ∀ kind ∈ TokenKind.keywords, token.kind = kind ↔ token.text = kind.name
  ident : token.kind = .ident ↔
    IsIdentifier token.text ∧ ∀ kind ∈ TokenKind.keywords, token.text ≠ kind.name
  literal : token.kind = .intLit ↔ token.text ≠ [] ∧
    (∀ b ∈ token.text, Bytes.isDigit b = true) ∧ Bytes.digitsValue token.text ≤ 2147483647
  operator : ∀ entry ∈ pairs ++ singles, token.kind = entry.2 ↔ token.text = entry.1
  /-- What is none of these is invalid. -/
  inside : token.kind ≠ .eof

namespace Lexeme

/-- A run of bytes is the longest of those that a test admits. -/
theorem prefix_takeWhile {test : UInt8 → Bool} {other rest : Bytes}
    (passes : ∀ b ∈ other, test b = true) (start : other <+: rest) :
    other <+: rest.takeWhile test := by
  obtain ⟨tail, rfl⟩ := start
  rw [List.takeWhile_append_of_pos passes]
  exact List.prefix_append _ _

theorem takeWhile_append_takeWhile {strong weak : UInt8 → Bool}
    (weaker : ∀ b, strong b = true → weak b = true) (rest : Bytes) :
    rest.takeWhile strong ++ (rest.drop (rest.takeWhile strong).length).takeWhile weak =
      rest.takeWhile weak := by
  induction rest with
  | nil => rfl
  | cons b rest ih =>
    by_cases passes : strong b = true
    · rw [List.takeWhile_cons_of_pos passes, List.takeWhile_cons_of_pos (weaker b passes),
        List.length_cons, List.drop_succ_cons, List.cons_append, ih]
    · rw [List.takeWhile_cons_of_neg passes, List.length_nil, List.drop_zero, List.nil_append]

theorem isIdentContinue_of_isDigit (b : UInt8) (digit : Bytes.isDigit b = true) :
    isIdentContinue b = true := by
  rw [isIdentContinue, digit, Bool.or_true]

theorem IsNumeral.continues {text : Bytes} (numeral : IsNumeral text) :
    ∀ b ∈ text, isIdentContinue b = true := by
  obtain ⟨digits, tail, rfl, -, run, more⟩ := numeral
  intro b member
  rcases List.mem_append.mp member with inside | inside
  · exact isIdentContinue_of_isDigit b (run b inside)
  · rcases more with rfl | ⟨-, -, -, -, all⟩
    · cases inside
    · exact all b inside

theorem longest_word {first : UInt8} (more : Bytes) (start : isIdentStart first = true) :
    Longest IsIdentifier ((first :: more).takeWhile isIdentContinue) (first :: more) where
  member := by
    have goes : isIdentContinue first = true := by rw [isIdentContinue, start, Bool.true_or]
    exact ⟨first, _, List.takeWhile_cons_of_pos goes, start, List.all_eq_true.mp List.all_takeWhile⟩
  start := List.takeWhile_prefix _
  longest other identifier begins := by
    obtain ⟨-, -, -, -, all⟩ := identifier
    exact (prefix_takeWhile all begins).length_le

theorem head_of_takeWhile {test : UInt8 → Bool} {rest : Bytes} {b : UInt8} {run : Bytes}
    (taken : rest.takeWhile test = b :: run) : ∃ behind, rest = b :: behind := by
  obtain ⟨behind, whole⟩ := List.takeWhile_prefix test (l := rest)
  rw [taken] at whole
  exact ⟨_, whole.symm⟩

/-- A number is a run of digits with what sticks to it, and it is all digits if nothing does. -/
theorem longest_number {rest : Bytes} {b : UInt8} {more : Bytes} (here : rest = b :: more)
    (digit : Bytes.isDigit b = true) : ∃ digits tail,
      rest.takeWhile Bytes.isDigit = digits ∧
      (rest.drop digits.length).takeWhile isIdentContinue = tail ∧
      Longest IsNumeral (digits ++ tail) rest ∧
      ((∀ c ∈ digits ++ tail, Bytes.isDigit c = true) ↔ tail = []) := by
  obtain ⟨digits, run⟩ : ∃ digits, rest.takeWhile Bytes.isDigit = digits := ⟨_, rfl⟩
  obtain ⟨tail, sticks⟩ : ∃ tail, (rest.drop digits.length).takeWhile isIdentContinue = tail :=
    ⟨_, rfl⟩
  have one : digits ++ tail = rest.takeWhile isIdentContinue := by
    rw [← sticks, ← run]
    exact takeWhile_append_takeWhile isIdentContinue_of_isDigit rest
  have all : ∀ c ∈ digits, Bytes.isDigit c = true := by
    rw [← run]
    exact List.all_eq_true.mp List.all_takeWhile
  have word : tail = [] ∨ IsIdentifier tail ∧ ∃ c ∈ tail, Bytes.isDigit c = false := by
    cases tail with
    | nil => exact .inl rfl
    | cons c tail =>
      have goes : ∀ d ∈ c :: tail, isIdentContinue d = true := by
        rw [← sticks]
        exact List.all_eq_true.mp List.all_takeWhile
      obtain ⟨behind, left⟩ := head_of_takeWhile sticks
      have stop : Bytes.isDigit c = false := by
        have ends := List.head?_dropWhile_not Bytes.isDigit rest
        have same : rest.dropWhile Bytes.isDigit = c :: behind := by
          rw [← left, ← run]
          have whole := List.takeWhile_append_dropWhile (p := Bytes.isDigit) (l := rest)
          exact (congrArg (List.drop _) whole).symm.trans List.drop_left |>.symm
        simpa only [same, List.head?_cons] using ends
      have letter : isIdentStart c = true := by
        have here := goes c List.mem_cons_self
        rwa [isIdentContinue, stop, Bool.or_false] at here
      exact .inr ⟨⟨c, tail, rfl, letter, goes⟩, c, List.mem_cons_self, stop⟩
  refine ⟨digits, tail, run, sticks, ⟨?_, ?_, fun other numeral begins => ?_⟩, fun every => ?_,
    fun none_ => by rwa [none_, List.append_nil]⟩
  · refine ⟨digits, tail, rfl, ?_, all, word.imp_right And.left⟩
    rw [← run, here, List.takeWhile_cons_of_pos digit]
    exact List.cons_ne_nil _ _
  · rw [one]
    exact List.takeWhile_prefix _
  · rw [one]
    exact (prefix_takeWhile numeral.continues begins).length_le
  · refine word.resolve_right fun sticking => ?_
    obtain ⟨-, c, member, stop⟩ := sticking
    rw [every c (List.mem_append_right _ member)] at stop
    cases stop

theorem operator?_longest {rest word : Bytes} {kind : TokenKind}
    (found : operator? rest = some (word, kind)) :
    (word, kind) ∈ pairs ++ singles ∧
      ∀ other, IsOperator other → other <+: rest → other.length ≤ word.length := by
  have sizes : (∀ entry ∈ pairs, entry.1.length = 2) ∧ ∀ entry ∈ singles, entry.1.length = 1 := by
    decide
  refine ⟨List.mem_of_find?_eq_some found, fun other operator begins => ?_⟩
  obtain ⟨named, member⟩ := operator
  rw [operator?, List.find?_append, Option.or_eq_some_iff] at found
  rcases found with pair | ⟨none_, single⟩
  · have size : word.length = 2 := sizes.1 _ (List.mem_of_find?_eq_some pair)
    rcases List.mem_append.mp member with two | one
    · have same : other.length = 2 := sizes.1 _ two
      omega
    · have less : other.length = 1 := sizes.2 _ one
      omega
  · have size : word.length = 1 := sizes.2 _ (List.mem_of_find?_eq_some single)
    rcases List.mem_append.mp member with two | one
    · have absent := List.find?_eq_none.mp none_ _ two
      exact absurd (List.isPrefixOf_iff_prefix.mpr begins) absent
    · have same : other.length = 1 := sizes.2 _ one
      omega

theorem IsCharacter.length_le {text rest after : Bytes} {rune : Utf8.Rune}
    (character : IsCharacter text) (begins : text <+: rest)
    (read : Utf8.next? rest = some (rune, after)) : text.length ≤ rune.bytes.length := by
  rcases character with ⟨code, scalar, rfl⟩ | single
  · obtain ⟨tail, rfl⟩ := begins
    rw [(Utf8.spelling_encodeScalar scalar).next? tail] at read
    cases read
    exact Nat.le_refl _
  · have some_ := List.length_pos_iff.mpr (Utf8.next?_small read).1
    omega

theorem isCharacter_of_next? {rest after : Bytes} {rune : Utf8.Rune}
    (read : Utf8.next? rest = some (rune, after)) : IsCharacter rune.bytes := by
  cases bad : rune.isBad with
  | true =>
    simp only [Utf8.Rune.isBad, Bool.and_eq_true, beq_iff_eq] at bad
    exact .inr bad.2
  | false =>
    have spelt := (Utf8.Spelling.of_next? read bad).1
    exact .inl ⟨rune.code, spelt.encodeScalar⟩

/-- Operators begin with bytes that begin nothing else. -/
theorem operator_start : ∀ entry ∈ pairs ++ singles, ∃ b more, entry.1 = b :: more ∧
    isIdentStart b = false ∧ Bytes.isDigit b = false ∧ b < 0x80 := by
  have all : ∀ entry ∈ pairs ++ singles, entry.1.head?.any (fun b =>
      !isIdentStart b && !Bytes.isDigit b && decide (b < 0x80)) = true := by decide
  rintro ⟨_ | ⟨b, more⟩, kind⟩ member
  · exact absurd (all _ member) Bool.false_ne_true
  · have start := all _ member
    simp only [List.head?_cons, Option.any_some, Bool.and_eq_true, Bool.not_eq_true',
      decide_eq_true_eq] at start
    exact ⟨b, more, rfl, start.1.1, start.1.2, start.2⟩

theorem keyword_start : ∀ kind ∈ TokenKind.keywords, ∃ b more, kind.name = b :: more ∧
    isIdentStart b = true := by
  have all : ∀ kind ∈ TokenKind.keywords, kind.name.head?.any isIdentStart = true := by
    decide
  intro kind member
  have start := all kind member
  cases name : kind.name with
  | nil =>
    rw [name] at start
    cases start
  | cons b more =>
    rw [name] at start
    exact ⟨b, more, rfl, start⟩

/-- The table of operators has each text and each kind once. -/
theorem operators_distinct : ∀ entry ∈ pairs ++ singles, ∀ other ∈ pairs ++ singles,
    entry.2 = other.2 ↔ entry.1 = other.1 := by
  decide

theorem operators_class : ∀ entry ∈ pairs ++ singles, entry.2.tokenClass = .operator := by
  decide

theorem keywords_class : ∀ kind ∈ TokenKind.keywords, kind.tokenClass = .keyword := by
  decide

theorem isDigit_of_isIdentStart {b : UInt8} (start : isIdentStart b = true) :
    Bytes.isDigit b = false := by
  simp only [isIdentStart, Bytes.isLetter, Bytes.isLower, Bytes.isUpper, Bytes.isDigit,
    Bool.or_eq_true, Bool.and_eq_true, Bool.and_eq_false_iff, decide_eq_true_eq,
    decide_eq_false_iff_not, beq_iff_eq, ← UInt8.toNat_inj, UInt8.le_iff_toNat_le] at start ⊢
  simp only [UInt8.reduceToNat] at start ⊢
  omega

end Lexeme

theorem TokenKind.ofKeyword?_name : ∀ kind ∈ keywords, ofKeyword? kind.name = some kind := by
  decide

/-- A word is of the kind of its keyword, or an identifier if it is none. -/
theorem TokenKind.ofKeyword?_class (text : Bytes) :
    ((ofKeyword? text).getD .ident).tokenClass = .keyword ∨
      (ofKeyword? text).getD .ident = .ident := by
  cases found : ofKeyword? text with
  | none => exact .inr rfl
  | some word => exact .inl (ofKeyword?_eq_some found).1

theorem TokenKind.ofKeyword?_keyword (text : Bytes) {word : TokenKind} (member : word ∈ keywords) :
    (ofKeyword? text).getD .ident = word ↔ text = word.name := by
  constructor
  · intro same
    cases found : ofKeyword? text with
    | none =>
      rw [found] at same
      subst same
      exact absurd (keywords_class _ member) (by decide)
    | some other =>
      rw [found] at same
      subst same
      exact (ofKeyword?_eq_some found).2.symm
  · rintro rfl
    rw [ofKeyword?_name word member]
    rfl

theorem TokenKind.ofKeyword?_ident (text : Bytes) :
    (ofKeyword? text).getD .ident = .ident ↔ ∀ word ∈ keywords, text ≠ word.name := by
  constructor
  · intro same word member spells
    rw [(ofKeyword?_keyword text member).mpr spells] at same
    subst same
    exact absurd (keywords_class _ member) (by decide)
  · intro other
    cases found : ofKeyword? text with
    | none => rfl
    | some word =>
      have member := List.mem_of_find?_eq_some found
      exact absurd (ofKeyword?_eq_some found).2.symm (other word member)

theorem Lexeme.not_word {text : Bytes} {b : UInt8} {more : Bytes} (begins : text = b :: more)
    (other : isIdentStart b = false) :
    ¬ IsIdentifier text ∧ ∀ kind ∈ TokenKind.keywords, text ≠ kind.name := by
  refine ⟨?_, fun kind member same => ?_⟩
  · rintro ⟨first, rest, same, start, -⟩
    rw [begins] at same
    rw [(List.cons.inj same).1, start] at other
    cases other
  · obtain ⟨first, rest, name, start⟩ := keyword_start kind member
    rw [begins, name] at same
    rw [(List.cons.inj same).1, start] at other
    cases other

theorem Token.Classified.of_notWord {token : Token} {rest : Bytes} {b : UInt8} {more behind : Bytes}
    (here : rest = b :: more) (begins : token.text = b :: behind) (other : isIdentStart b = false)
    (longest : Longest (IsLexeme b) token.text rest)
    (kind : token.kind.tokenClass ≠ .keyword ∧ token.kind.tokenClass ≠ .ident)
    (literal : token.kind = .intLit ↔ (∀ c ∈ token.text, Bytes.isDigit c = true) ∧
      Bytes.digitsValue token.text ≤ 2147483647)
    (operator : ∀ entry ∈ pairs ++ singles, token.kind = entry.2 ↔ token.text = entry.1)
    (inside : token.kind ≠ .eof) : token.Classified rest := by
  obtain ⟨noIdentifier, noKeyword⟩ := not_word begins other
  refine ⟨⟨b, more, here, longest⟩, fun word member => ?_, ?_, ?_, operator, inside⟩
  · refine ⟨fun same => ?_, fun same => absurd same (noKeyword word member)⟩
    exact absurd (same ▸ keywords_class word member) kind.1
  · exact ⟨fun same => absurd (by rw [same]; rfl) kind.2, fun word => absurd word.1 noIdentifier⟩
  · rw [literal, begins]
    simp only [ne_eq, reduceCtorEq, not_false_eq_true, true_and]

/-- Where neither a word nor a number begins, a lexeme is an operator or one character. -/
theorem Lexeme.isLexeme_symbol {b : UInt8} (other : isIdentStart b = false)
    (notDigit : Bytes.isDigit b = false) :
    IsLexeme b = fun text => IsOperator text ∨ IsCharacter text := by
  funext text
  rw [IsLexeme, other, notDigit, if_neg Bool.false_ne_true, if_neg Bool.false_ne_true]

namespace Cursor

theorem scanWord_classified {cursor : Cursor} {b : UInt8} {more : Bytes}
    (here : cursor.rest = b :: more) (start : isIdentStart b = true) :
    cursor.scanWord.1.Classified cursor.rest := by
  have longest := longest_word more start
  rw [← here] at longest
  obtain ⟨text, read⟩ : ∃ text, cursor.rest.takeWhile isIdentContinue = text := ⟨_, rfl⟩
  have kind : cursor.scanWord.1.kind = (TokenKind.ofKeyword? text).getD .ident := by
    rw [← read]
    rfl
  have spelt : cursor.scanWord.1.text = text := read
  rw [read] at longest
  obtain ⟨first, tail, begins, -⟩ := longest.member
  obtain rfl : first = b := by
    obtain ⟨behind, whole⟩ := longest.start
    rw [begins, here] at whole
    exact (List.cons.inj whole).1
  have notDigits : ¬ ∀ c ∈ text, Bytes.isDigit c = true := by
    intro digits
    have digit := digits first (begins ▸ List.mem_cons_self)
    rw [isDigit_of_isIdentStart start] at digit
    cases digit
  have notOperator : ∀ entry ∈ pairs ++ singles, text ≠ entry.1 := by
    intro entry member same
    obtain ⟨c, rest, starts, other, -⟩ := operator_start entry member
    rw [same, starts] at begins
    rw [(List.cons.inj begins).1, start] at other
    cases other
  have class_ := TokenKind.ofKeyword?_class text
  rw [← kind] at class_
  refine ⟨⟨first, more, here, ?_⟩, ?_, ?_, ?_, ?_, ?_⟩
  · rw [spelt]
    refine ⟨?_, longest.start, ?_⟩
    · rw [IsLexeme, if_pos start]
      exact longest.member
    · intro other lexeme
      rw [IsLexeme, if_pos start] at lexeme
      exact longest.longest other lexeme
  · intro word member
    rw [kind, spelt]
    exact TokenKind.ofKeyword?_keyword text member
  · rw [kind, spelt, TokenKind.ofKeyword?_ident]
    exact ⟨fun other => ⟨longest.member, other⟩, And.right⟩
  · rw [spelt]
    refine ⟨fun same => ?_, fun numeral => absurd numeral.2.1 notDigits⟩
    rcases class_ with wrong | wrong <;> rw [same] at wrong <;> cases wrong
  · intro entry member
    rw [spelt]
    refine ⟨fun same => ?_, fun same => absurd same (notOperator entry member)⟩
    have operator := operators_class entry member
    rw [← same] at operator
    rcases class_ with wrong | wrong <;> rw [wrong] at operator <;> cases operator
  · intro wrong
    rcases class_ with other | other <;> rw [wrong] at other <;> cases other

theorem scanNumber_classified {cursor : Cursor} {b : UInt8} {more : Bytes}
    (here : cursor.rest = b :: more) (digit : Bytes.isDigit b = true) :
    cursor.scanNumber.1.Classified cursor.rest := by
  have other : isIdentStart b = false := by
    by_contra start
    rw [Bool.not_eq_false] at start
    rw [isDigit_of_isIdentStart start] at digit
    cases digit
  obtain ⟨digits, tail, run, sticks, longest, digitsOnly⟩ := longest_number here digit
  have spelt : cursor.scanNumber.1.text = digits ++ tail := by
    simp only [scanNumber, takeWhile, skip, run, sticks]
    split
    · rfl
    · split <;> rfl
  have kind : cursor.scanNumber.1.kind =
      if tail = [] ∧ Bytes.digitsValue (digits ++ tail) ≤ 2147483647 then .intLit
      else .invalid := by
    simp only [scanNumber, takeWhile, skip, run, sticks, maxLiteral]
    cases tail with
    | nil =>
      rw [List.append_nil]
      by_cases large : 2147483647 < Bytes.digitsValue digits
      · simp [large]
      · simp [large, Nat.le_of_not_lt large]
    | cons c tail => simp
  have valid : cursor.scanNumber.1.kind = .intLit ∨ cursor.scanNumber.1.kind = .invalid := by
    rw [kind]
    split
    · exact .inl rfl
    · exact .inr rfl
  obtain ⟨behind, begins⟩ : ∃ behind, digits ++ tail = b :: behind := by
    rw [← run, here, List.takeWhile_cons_of_pos digit]
    exact ⟨_, rfl⟩
  refine .of_notWord here (spelt.trans begins) other ?_ ?_ ?_ (fun entry member => ?_) ?_
  · rw [spelt]
    have class_ : IsLexeme b = IsNumeral := by
      funext text
      rw [IsLexeme, other, if_neg Bool.false_ne_true, if_pos digit]
    rwa [class_]
  · rcases valid with same | same <;> rw [same] <;> decide
  · rw [kind, spelt, digitsOnly]
    split
    next holds => exact ⟨fun _ => holds, fun _ => rfl⟩
    next fails => exact ⟨fun wrong => (by cases wrong), fun holds => absurd holds fails⟩
  · have operator := operators_class entry member
    obtain ⟨c, rest, starts, -, notDigit, -⟩ := operator_start entry member
    refine ⟨fun same => ?_, fun same => ?_⟩
    · rw [← same] at operator
      rcases valid with wrong | wrong <;> rw [wrong] at operator <;> cases operator
    · rw [spelt, begins, starts] at same
      rw [← (List.cons.inj same).1, digit] at notDigit
      cases notDigit
  · rcases valid with same | same <;> rw [same] <;> decide

section

variable {cursor : Cursor} {b : UInt8} {more : Bytes} (here : cursor.rest = b :: more)
  (other : isIdentStart b = false) (notDigit : Bytes.isDigit b = false)

include here

theorem scanSymbol_begins : ∃ behind, cursor.scanSymbol.1.text = b :: behind := by
  have takes := scanSymbol_takes here
  have some_ : cursor.scanSymbol.1.text ≠ [] := takes.some_
  obtain ⟨tail, whole⟩ : cursor.scanSymbol.1.text <+: cursor.rest := takes.start
  cases text : cursor.scanSymbol.1.text with
  | nil => exact absurd text some_
  | cons c behind =>
    rw [text, here] at whole
    exact ⟨behind, by rw [(List.cons.inj whole).1]⟩

include notDigit in
theorem scanSymbol_not_digits : ¬ ∀ c ∈ cursor.scanSymbol.1.text, Bytes.isDigit c = true := by
  intro digits
  obtain ⟨behind, begins⟩ := scanSymbol_begins here
  rw [digits b (begins ▸ List.mem_cons_self)] at notDigit
  cases notDigit

include other notDigit

theorem scanSymbol_operator {word : Bytes} {kind : TokenKind}
    (found : operator? cursor.rest = some (word, kind)) :
    cursor.scanSymbol.1.Classified cursor.rest := by
  have takes := scanSymbol_takes here
  obtain ⟨behind, begins⟩ := scanSymbol_begins here
  have token : cursor.scanSymbol.1.text = word ∧ cursor.scanSymbol.1.kind = kind := by
    simp only [scanSymbol, found]
    exact ⟨trivial, trivial⟩
  obtain ⟨member, longest⟩ := operator?_longest found
  have operator := operators_class _ member
  refine .of_notWord here begins other ?_ ?_ ?_ (fun entry known => ?_) ?_
  · rw [isLexeme_symbol other notDigit, token.1]
    refine ⟨.inl ⟨kind, member⟩, token.1 ▸ takes.start, fun text lexeme starts => ?_⟩
    rcases lexeme with same | character
    · exact longest text same starts
    · -- an operator begins with ASCII, which is a character by itself
      obtain ⟨c, rest, spelt, -, -, ascii⟩ := operator_start _ member
      have first : c = b := by
        rw [token.1] at begins
        rw [show word = c :: rest from spelt] at begins
        exact (List.cons.inj begins).1
      have read := Utf8.next?_ascii (first ▸ ascii) more
      rw [← here] at read
      have small : text.length ≤ 1 := character.length_le starts read
      have some_ := List.length_pos_iff.mpr (token.1 ▸ takes.some_ : word ≠ [])
      omega
  · rw [token.2, operator]
    decide
  · rw [token.2]
    refine ⟨fun wrong => ?_, fun literal => absurd literal.1 (scanSymbol_not_digits here notDigit)⟩
    rw [show kind = _ from wrong] at operator
    cases operator
  · rw [token.1, token.2]
    exact operators_distinct _ member entry known
  · rw [token.2]
    rintro rfl
    cases operator

theorem scanSymbol_character (found : operator? cursor.rest = none) :
    cursor.scanSymbol.1.Classified cursor.rest := by
  have takes := scanSymbol_takes here
  obtain ⟨behind, begins⟩ := scanSymbol_begins here
  obtain ⟨⟨rune, after⟩, read⟩ := Option.isSome_iff_exists.mp (Utf8.next?_isSome b more)
  rw [← here] at read
  have absent : ∀ entry ∈ pairs ++ singles, ¬ entry.1 <+: cursor.rest := by
    intro entry member starts
    exact List.find?_eq_none.mp found entry member (List.isPrefixOf_iff_prefix.mpr starts)
  have kind : cursor.scanSymbol.1.kind = .invalid := by simp only [scanSymbol, found]
  have text : cursor.scanSymbol.1.text = rune.bytes := by
    have left : cursor.scanSymbol.2.rest = after := by
      simp only [scanSymbol, found, bumpRune, read, skip]
      rw [Utf8.next?_bytes read, List.drop_left]
    have whole := takes.rest
    rw [left, Utf8.next?_bytes read] at whole
    exact (List.append_cancel_right whole).symm
  refine .of_notWord here begins other ?_ ?_ ?_ (fun entry known => ?_) ?_
  · rw [isLexeme_symbol other notDigit, text]
    refine ⟨.inr (isCharacter_of_next? read), text ▸ takes.start, fun lexeme known starts => ?_⟩
    rcases known with ⟨named, member⟩ | character
    · exact absurd starts (absent _ member)
    · exact character.length_le starts read
  · rw [kind]
    decide
  · rw [kind]
    exact ⟨fun wrong => (by cases wrong),
      fun literal => absurd literal.1 (scanSymbol_not_digits here notDigit)⟩
  · rw [kind]
    refine ⟨fun wrong => ?_, fun same => ?_⟩
    · have operator := operators_class entry known
      rw [← wrong] at operator
      cases operator
    · exact absurd (same ▸ takes.start) (absent entry known)
  · rw [kind]
    decide

theorem scanSymbol_classified : cursor.scanSymbol.1.Classified cursor.rest := by
  cases found : operator? cursor.rest with
  | some entry => exact scanSymbol_operator here other notDigit found
  | none => exact scanSymbol_character here other notDigit found

end

/-- A token that is not the end begins behind its trivia and is classified there. -/
theorem scan_classified {cursor : Cursor} (inside : cursor.scan.1.kind ≠ .eof) :
    cursor.scan.1.Classified cursor.skipTrivia.2.rest ∧
      cursor.scan.1.span.start = cursor.skipTrivia.2.offset := by
  cases here : cursor.skipTrivia.2.rest with
  | nil =>
    simp only [scan, here] at inside
    exact absurd rfl inside
  | cons b more =>
    have scanned : ∀ result, result = (if isIdentStart b then cursor.skipTrivia.2.scanWord
        else if Bytes.isDigit b then cursor.skipTrivia.2.scanNumber
        else cursor.skipTrivia.2.scanSymbol) →
        result.1.Classified (b :: more) ∧ result.1.span.start = cursor.skipTrivia.2.offset := by
      rintro result rfl
      split
      next start =>
        have takes := scanWord_takes here start
        exact ⟨here ▸ scanWord_classified here start, congrArg Span.start takes.span⟩
      next other =>
        rw [Bool.not_eq_true] at other
        split
        next digit =>
          have takes := scanNumber_takes here digit
          exact ⟨here ▸ scanNumber_classified here digit, congrArg Span.start takes.span⟩
        next notDigit =>
          rw [Bool.not_eq_true] at notDigit
          have takes := scanSymbol_takes here
          exact ⟨here ▸ scanSymbol_classified here other notDigit,
            congrArg Span.start takes.span⟩
    obtain ⟨⟨longest, keyword, ident, literal, operator, inside⟩, start⟩ := scanned _ rfl
    simp only [scan, here]
    exact ⟨⟨longest, keyword, ident, literal, operator, inside⟩, start⟩

end Cursor

/-- Faithful tokens report one error for each of them that is invalid, where it stands. -/
theorem Token.reports_of_faithful {tokens : List Token}
    (faithful : ∀ token ∈ tokens, token.Faithful) :
    (tokens.flatMap Token.reports).map (fun report => (report.severity, report.span)) =
      (tokens.filter (·.kind = .invalid)).map fun token => (.error, token.span) := by
  induction tokens with
  | nil => rfl
  | cons token rest ih =>
    rw [List.forall_mem_cons] at faithful
    rw [List.flatMap_cons, List.map_append, ih faithful.2, List.filter_cons]
    by_cases invalid : token.kind = .invalid
    · obtain ⟨code, -, message, complaint⟩ := faithful.1.invalid invalid
      rw [if_pos (by simpa using invalid), Token.reports, complaint]
      rfl
    · rw [if_neg (by simpa using invalid), Token.reports, faithful.1.valid invalid]
      rfl

theorem Lexer.reports_of_all (file : SourceFile) :
    (Lexer.ofFile file).all.2.reports = file.tokens.flatMap Token.reports := by
  obtain ⟨size, tokens, stands⟩ :=
    Lexer.allLoop_firsts (file.content.length + 2) (Lexer.stands_ofFile file) rfl rfl
  change file.tokens = (Cursor.ofFile file).firsts size at tokens
  rw [tokens]
  exact stands.reports

/-- No identifier has a dollar sign in it, so names that do are free for other uses. -/
theorem IsIdentifier.no_dollar {text : Bytes} (identifier : IsIdentifier text) : 36 ∉ text := by
  obtain ⟨-, -, -, -, goes⟩ := identifier
  intro member
  have letter := goes 36 member
  revert letter
  decide

namespace SourceFile

/-- Each token in front of the end is classified where it starts. -/
theorem firsts_classified {file : SourceFile} {count : Nat} (short : file.content.length < 2 ^ 32)
    (inside : ∀ index < count, ((Cursor.ofFile file).nth index).kind ≠ .eof) :
    ∀ index < count, ((Cursor.ofFile file).nth index).Classified
      (file.content.drop ((Cursor.ofFile file).nth index).span.start.toNat) := by
  intro index less
  have covers := Cursor.firsts_cover fun earlier before => inside earlier (before.trans less)
  obtain ⟨pieces, -, blanks, -⟩ := ((Cursor.ofFile file).after index).triviaLoop_covers []
  have stands := blanks.inside (covers.inside file.inside_ofFile short) short
  obtain ⟨classified, start⟩ := Cursor.scan_classified (inside index less)
  rw [Cursor.nth, start]
  exact stands.rest ▸ classified

/-- The tokens of a file are the longest lexemes at their places, each of the kind that its text
has. The lexer reports its invalid tokens in their order, each once. -/
theorem tokens_are_longest_lexemes (file : SourceFile) (short : file.content.length < 2 ^ 32) :
    ∃ body, file.tokens = body ++ [file.endToken] ∧
      (∀ token ∈ body, token.text = token.span.slice file.content ∧
        token.Classified (file.content.drop token.span.start.toNat) ∧
        (token.kind = .ident → 36 ∉ token.text)) ∧
      (Lexer.ofFile file).all.2.reports.map (fun report => (report.severity, report.span)) =
        (body.filter (·.kind = .invalid)).map fun token => (.error, token.span) := by
  obtain ⟨total, tokens, ended, inside⟩ := file.tokens_firsts
  have covers := Cursor.firsts_cover inside
  have last := (scan_end (covers.inside file.inside_ofFile short) short covers.file ended).1
  change (Cursor.ofFile file).nth total = file.endToken at last
  rw [last] at tokens
  refine ⟨_, tokens, fun token member => ?_, ?_⟩
  · obtain ⟨index, less, rfl⟩ := List.mem_map.mp member
    have classified := firsts_classified short inside index (List.mem_range.mp less)
    refine ⟨?_, classified, fun ident => (classified.ident.mp ident).1.no_dollar⟩
    refine ((covers.faithful file.inside_ofFile short) (Token.stretch _) ?_).2.2
    exact List.mem_flatMap.mpr ⟨_, member, List.mem_append_right _ (List.mem_singleton.mpr rfl)⟩
  · rw [Lexer.reports_of_all, Token.reports_of_faithful file.tokens_whole.faithful, tokens,
      List.filter_append]
    exact congrArg _ (List.append_nil _)

/-- Numbers with a tail or past the greatest literal, an operator cut short by the end and a code
point cut short. -/
theorem garbage_is_longest_lexemes :
    let content : Bytes := ("12ab 2147483648 007 <=" : Bytes) ++ [0xE2, 0x82, 61]
    let file := SourceFile.make 0 "bad.mini" content {}
    file.content.length < 2 ^ 32 ∧ ∃ body, file.tokens = body ++ [file.endToken] ∧
      (∀ token ∈ body, token.text = token.span.slice file.content ∧
        token.Classified (file.content.drop token.span.start.toNat) ∧
        (token.kind = .ident → 36 ∉ token.text)) ∧
      (Lexer.ofFile file).all.2.reports.map (fun report => (report.severity, report.span)) =
        (body.filter (·.kind = .invalid)).map fun token => (.error, token.span) :=
  ⟨by decide, tokens_are_longest_lexemes _ (by decide)⟩

end SourceFile

end Minilang
