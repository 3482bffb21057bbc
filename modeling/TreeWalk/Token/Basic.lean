namespace TreeWalk

inductive Symbol where
  | leftParen | rightParen | leftBrace | rightBrace
  | comma | dot | minus | plus | semicolon | slash | star
  | bang | bangEqual | equal | equalEqual
  | greater | greaterEqual | less | lessEqual
deriving DecidableEq, Repr

namespace Symbol

def text : Symbol → String
  | leftParen => "(" | rightParen => ")" | leftBrace => "\x7b" | rightBrace => "\x7d"
  | comma => "," | dot => "." | minus => "-" | plus => "+" | semicolon => ";"
  | slash => "/" | star => "*"
  | bang => "!" | bangEqual => "!=" | equal => "=" | equalEqual => "=="
  | greater => ">" | greaterEqual => ">=" | less => "<" | lessEqual => "<="

def label : Symbol → String
  | leftParen => "LEFT_PAREN" | rightParen => "RIGHT_PAREN"
  | leftBrace => "LEFT_BRACE" | rightBrace => "RIGHT_BRACE"
  | comma => "COMMA" | dot => "DOT" | minus => "MINUS" | plus => "PLUS"
  | semicolon => "SEMICOLON" | slash => "SLASH" | star => "STAR"
  | bang => "BANG" | bangEqual => "BANG_EQUAL" | equal => "EQUAL" | equalEqual => "EQUAL_EQUAL"
  | greater => "GREATER" | greaterEqual => "GREATER_EQUAL"
  | less => "LESS" | lessEqual => "LESS_EQUAL"

def double? : Char → Char → Option Symbol
  | '!', '=' => some bangEqual
  | '=', '=' => some equalEqual
  | '>', '=' => some greaterEqual
  | '<', '=' => some lessEqual
  | _, _ => none

def single? : Char → Option Symbol
  | '(' => some leftParen | ')' => some rightParen
  | '{' => some leftBrace | '}' => some rightBrace
  | ',' => some comma | '.' => some dot | '-' => some minus | '+' => some plus
  | ';' => some semicolon | '/' => some slash | '*' => some star
  | '!' => some bang | '=' => some equal | '>' => some greater | '<' => some less
  | _ => none

end Symbol

inductive Keyword where
  | and | «class» | else | false | func | for | if | none | or | parent | return | this | true
  | var | while
deriving DecidableEq, Repr

namespace Keyword

def all : List Keyword :=
  [.and, .class, .else, .false, .func, .for, .if, .none, .or, .parent, .return, .this, .true,
    .var, .while]

def text : Keyword → String
  | .and => "and" | .class => "class" | .else => "else" | .false => "false" | .func => "func"
  | .for => "for" | .if => "if" | .none => "none" | .or => "or" | .parent => "parent"
  | .return => "return" | .this => "this" | .true => "true" | .var => "var" | .while => "while"

def label : Keyword → String
  | .and => "AND" | .class => "CLASS" | .else => "ELSE" | .false => "FALSE" | .func => "FUNC"
  | .for => "FOR" | .if => "IF" | .none => "NONE" | .or => "OR" | .parent => "PARENT"
  | .return => "RETURN" | .this => "THIS" | .true => "TRUE" | .var => "VAR" | .while => "WHILE"

def ofText? (text : String) : Option Keyword :=
  all.find? fun keyword => keyword.text == text

end Keyword

inductive TokenKind where
  | symbol (symbol : Symbol)
  | keyword (keyword : Keyword)
  | identifier
  | string (contents : String)
  | number (value : Float)
  | finish

namespace TokenKind

def label : TokenKind → String
  | symbol s => s.label
  | keyword k => k.label
  | identifier => "IDENTIFIER"
  | string _ => "STRING"
  | number _ => "NUMBER"
  | finish => "EOF"

def isSymbol (kind : TokenKind) (wanted : Symbol) : Bool :=
  match kind with
  | symbol s => s == wanted
  | _ => false

def isKeyword (kind : TokenKind) (wanted : Keyword) : Bool :=
  match kind with
  | keyword k => k == wanted
  | _ => false

def isFinish : TokenKind → Bool
  | finish => true
  | _ => false

end TokenKind

structure Token where
  kind : TokenKind
  lexeme : String
  line : Nat

namespace Token

def finish (line : Nat) : Token :=
  ⟨.finish, "", line⟩

end Token

end TreeWalk
