import TreeWalk.Decimal.Layout
import TreeWalk.Text.Json
import TreeWalk.Token.Basic

namespace TreeWalk

open Text

namespace TokenKind

def numberStyle : WholeStyle :=
  ⟨some (Nat.pow 2 63), ".0", true⟩

def literal : TokenKind → String
  | string contents => contents
  | number value => (Binary64.ofFloat value).text numberStyle
  | symbol _ | keyword _ | identifier | finish => "null"

end TokenKind

namespace Token

def display (token : Token) : String :=
  token.kind.label ++ " " ++ token.lexeme ++ " " ++ token.kind.literal

end Token

namespace TokenKind

def json (kind : TokenKind) : String :=
  let object (value : String) :=
    Json.block "\x7b" "\x7d" 4 [Json.field 6 kind.label value]
  match kind with
  | string contents => object (Json.quote contents)
  | number value => object (Binary64.ofFloat value).json
  | symbol _ | keyword _ | identifier | finish => Json.quote kind.label

end TokenKind

namespace Token

def json (token : Token) : String :=
  "  " ++ Json.block "\x7b" "\x7d" 2
    [Json.field 4 "token_type" token.kind.json,
      Json.field 4 "lexeme" (Json.quote token.lexeme),
      Json.field 4 "line" token.line.repr]

def jsonArray (tokens : List Token) : String :=
  Json.block "[" "]" 0 (tokens.map json)

end Token

end TreeWalk
