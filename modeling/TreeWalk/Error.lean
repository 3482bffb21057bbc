import TreeWalk.Fault
import TreeWalk.Scope
import TreeWalk.Syntax.Error
import TreeWalk.Token.Lexer

namespace TreeWalk

inductive Diagnostic where
  | lexical (line : Nat) (text : String)
  -- `found` is the text of the token in the way, and nothing at the end of the input.
  | grammar (line : Nat) (found : Option String) (text : String)
  | scoping (line : Nat) (text : String)
  | runtime (line : Nat) (text : String)
  | stream (text : String)
deriving DecidableEq, Repr

namespace Diagnostic

def foundText : Option String → String
  | some lexeme => "'" ++ lexeme ++ "'"
  | none => "end"

def atLine (line : Nat) (text : String) : String :=
  "[line " ++ line.repr ++ "] " ++ text

def message : Diagnostic → String
  | lexical line text => atLine line ("Error: " ++ text)
  | grammar line found text => atLine line ("Error at " ++ foundText found ++ ": " ++ text)
  | scoping line text => atLine line ("Error: " ++ text)
  | runtime line text => atLine line ("Runtime error: " ++ text)
  | stream text => text

def line? : Diagnostic → Option Nat
  | lexical line _ | grammar line _ _ | scoping line _ | runtime line _ => some line
  | stream _ => none

def isStatic : Diagnostic → Bool
  | lexical _ _ | grammar _ _ _ | scoping _ _ => true
  | runtime _ _ | stream _ => false

end Diagnostic

inductive Error where
  | lexical (error : LexError)
  | grammar (error : ParseError)
  | scoping (error : ScopeError)
  | runtime (error : RuntimeError)
  | stream (error : StreamError)

namespace LexError

def text (error : LexError) : String :=
  "Can't parse token at substring: " ++ error.rest

end LexError

namespace Error

def diagnostic : Error → Diagnostic
  | lexical e => .lexical e.line e.text
  | grammar e => .grammar e.line e.found e.expected.text
  | scoping e => .scoping e.line e.fault.text
  | runtime e => .runtime e.line e.fault.text
  | stream e => .stream e.text

def message (error : Error) : String :=
  error.diagnostic.message

def isStatic (error : Error) : Bool :=
  error.diagnostic.isStatic

end Error

end TreeWalk
