import TreeWalk.Token.Basic

namespace TreeWalk

structure Name where
  text : String
  line : Nat
deriving DecidableEq, Repr

structure Mark where
  id : Nat
  line : Nat
deriving DecidableEq, Repr

inductive Literal where
  | number (value : Float)
  | string (contents : String)
  | bool (value : Bool)
  | none

inductive Expr where
  | literal (mark : Mark) (value : Literal)
  | grouping (mark : Mark) (inner : Expr)
  | unary (mark : Mark) (operator : Token) (right : Expr)
  | binary (mark : Mark) (left : Expr) (operator : Token) (right : Expr)
  -- An operator that evaluates its right side only if the left side leaves the result open.
  | logical (mark : Mark) (left : Expr) (operator : Token) (right : Expr)
  | ident (mark : Mark) (name : Name)
  | assign (mark : Mark) (name : Name) (value : Expr)
  -- A call whose closing parenthesis stands on `line`.
  | call (mark : Mark) (callee : Expr) (arguments : List Expr) (line : Nat)
  | get (mark : Mark) (object : Expr) (name : Name)
  | set (mark : Mark) (object : Expr) (name : Name) (value : Expr)
  -- The receiver of a method, named `this`.
  | this (mark : Mark) (name : Name)

namespace Expr

def mark : Expr → Mark
  | literal mark .. | grouping mark .. | unary mark .. | binary mark .. | logical mark ..
  | ident mark .. | assign mark .. | call mark .. | get mark .. | set mark .. | this mark .. =>
      mark

def id (e : Expr) : Nat :=
  e.mark.id

def line (e : Expr) : Nat :=
  e.mark.line

end Expr

mutual
inductive Stmt where
  | expression (e : Expr)
  | var (name : Name) (initializer : Option Expr)
  | block (body : List Stmt)
  | branch (condition : Expr) (body : List Stmt) (alternative : Alternative)
  | while (condition : Expr) (body : List Stmt)
  | function (routine : Routine)
  -- A return whose keyword stands on `line`.
  | return (line : Nat) (value : Option Expr)
  | class (name : Name) (methods : List Routine)

inductive Alternative where
  | none
  | elseIf (condition : Expr) (body : List Stmt) (alternative : Alternative)
  | block (body : List Stmt)

structure Routine where
  name : Name
  parameters : List Name
  body : List Stmt
end

namespace Routine

def constructorName : String :=
  "constructor"

def isConstructor (routine : Routine) : Bool :=
  routine.name.text == constructorName

end Routine

abbrev Program := List Stmt

end TreeWalk
