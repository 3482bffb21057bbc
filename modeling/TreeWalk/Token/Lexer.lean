import TreeWalk.Text.Lines
import TreeWalk.Token.Basic

namespace TreeWalk

-- No rule matches at the start of `rest`, the end of a line.
structure LexError where
  line : Nat
  rest : String

namespace Lexer

def isSpace (c : Char) : Bool :=
  c == ' ' || c == '\t' || c == '\n' || c == '\r' || c == '\x0c'

def isWordPart (c : Char) : Bool :=
  c.isAlphanum || c == '_'

def cutComment : List Char → List Char
  | '/' :: '/' :: _ => []
  | c :: rest => c :: cutComment rest
  | [] => []

inductive Match where
  | token (kind : TokenKind) (width : Nat)
  | nothing (width : Nat)

namespace Match

def width : Match → Nat
  | token _ width | nothing width => width

end Match

-- A string runs to the next quote. Without one the error takes the rest of the line.
def matchString (rest : List Char) : Match :=
  let contents := rest.takeWhile (· != '"')
  if contents.length < rest.length then
    .token (.string (String.ofList contents)) (contents.length + 2)
  else
    .nothing (rest.length + 1)

def digitsValue (digits : List Char) : Nat :=
  digits.foldl (fun n c => 10 * n + (c.toNat - '0'.toNat)) 0

def numberValue (whole fraction : List Char) : Float :=
  Float.ofScientific (digitsValue (whole ++ fraction)) true fraction.length

-- A point belongs to a number only if a digit follows it.
def matchNumber (text : List Char) : Match :=
  let whole := text.takeWhile Char.isDigit
  match text.drop whole.length with
  | '.' :: rest =>
      let fraction := rest.takeWhile Char.isDigit
      if fraction.isEmpty then .token (.number (numberValue whole [])) whole.length
      else .token (.number (numberValue whole fraction)) (whole.length + 1 + fraction.length)
  | _ => .token (.number (numberValue whole [])) whole.length

def wordKind (word : String) : TokenKind :=
  match Keyword.ofText? word with
  | some keyword => .keyword keyword
  | none => .identifier

def matchWord (text : List Char) : Match :=
  let word := text.takeWhile isWordPart
  .token (wordKind (String.ofList word)) word.length

-- A symbol of two characters goes before one of one character.
def matchSymbol (first : Char) (rest : List Char) : Match :=
  match rest.head?.bind (Symbol.double? first) with
  | some symbol => .token (.symbol symbol) 2
  | none =>
      match Symbol.single? first with
      | some symbol => .token (.symbol symbol) 1
      | none => .nothing 1

def matchAt (first : Char) (rest : List Char) : Match :=
  if first == '"' then matchString rest
  else if first.isDigit then matchNumber (first :: rest)
  else if first.isAlpha then matchWord (first :: rest)
  else matchSymbol first rest

def item (line : Nat) (text : List Char) : Match → Except LexError Token
  | .token kind width => .ok ⟨kind, String.ofList (text.take width), line⟩
  | .nothing _ => .error ⟨line, String.ofList text⟩

-- Scans a line without its comment, of which the next `skip` characters are taken already.
def scan (line skip : Nat) : List Char → List (Except LexError Token)
  | [] => []
  | c :: rest =>
      match skip with
      | skip + 1 => scan line skip rest
      | 0 =>
          if isSpace c then scan line 0 rest
          else
            let found := matchAt c rest
            item line (c :: rest) found :: scan line (found.width - 1) rest

def scanLines (line : Nat) : List (List Char) → List (Except LexError Token)
  | [] => [.ok (.finish (line - 1))]
  | text :: rest => scan line 0 (cutComment text) ++ scanLines (line + 1) rest

def items (lines : List (List Char)) : List (Except LexError Token) :=
  scanLines 1 lines

end Lexer

def tokenize (source : String) : Except LexError (List Token) :=
  (Lexer.items (Text.lines source.toList)).mapM id

end TreeWalk
