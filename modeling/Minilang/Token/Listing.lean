import Minilang.Token.Scan
import Minilang.Text.Json

/-! Token listings for people and for tools. -/

namespace Minilang.Token

private def leadingNames (token : Token) : List Bytes := token.leading.map fun t => t.kind.name

private def numbered : Nat → List Token → List (Nat × Token)
  | _, [] => []
  | n, token :: rest => (n, token) :: numbered (n + 1) rest

private def listingLine (file : SourceFile) (entry : Nat × Token) : Bytes :=
  let (n, token) := entry
  let first := file.position token.span.start
  let last := file.position token.span.stop
  let quoted : Bytes := if token.text.isEmpty then [] else " " ++ Text.quoted token.text
  let leading := leadingNames token
  let trivia : Bytes :=
    if leading.isEmpty then [] else " (leading: " ++ Bytes.join ", " leading ++ ")"
  Bytes.padLeft 3 (Bytes.dec n) ++ ": " ++ Bytes.padRight 10 token.kind.name ++ quoted ++ " at " ++
    Bytes.dec first.line.toNat ++ ":" ++ Bytes.dec first.column.toNat ++ "-" ++
    Bytes.dec last.line.toNat ++ ":" ++ Bytes.dec last.column.toNat ++ trivia ++ "\n"

/-- One line for each token. -/
def listing (file : SourceFile) (tokens : List Token) : Bytes :=
  (numbered 1 tokens).flatMap (listingLine file)

private def json (file : SourceFile) (token : Token) : Json :=
  let position := file.position token.span.start
  let leading := leadingNames token
  .fields ([Json.member "kind" (.text token.kind.name),
      Json.member "class" (.text token.kind.tokenClass.name)]
    ++ Json.memberIf (!token.text.isEmpty) "text" (.text token.text)
    ++ [Json.member "line" (.number position.line.toNat),
      Json.member "col" (.number position.column.toNat),
      Json.member "start" (.number token.span.start.toNat),
      Json.member "end" (.number token.span.stop.toNat)]
    ++ Json.memberIf (!leading.isEmpty) "leading" (.list (leading.map .text)))

/-- The tokens as a JSON list. -/
def document (file : SourceFile) (tokens : List Token) : Bytes :=
  Json.document (.list (tokens.map (json file)))

end Minilang.Token
