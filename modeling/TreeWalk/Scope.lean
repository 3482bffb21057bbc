import TreeWalk.Bindings
import TreeWalk.Syntax.Basic
import Std.Data.TreeMap

namespace TreeWalk

inductive ScopeFault where
  | selfInitialized
  | thisOutsideClass
  | constructorCalled
  | returnOutsideFunction
  | constructorReturnsValue
  | redeclared (name : String)
  | methodRepeated (method className : String)
  | alreadyLocal (id : Nat)
  | undeclared (name : String)
  | noOpenScope
deriving DecidableEq, Repr

namespace ScopeFault

def text : ScopeFault → String
  | selfInitialized => "Can't initialize local variable with itself"
  | thisOutsideClass => "Can't use 'this' outside of a class"
  | constructorCalled => "A constructor can't be called directly"
  | returnOutsideFunction => "Unexpected return outside a function"
  | constructorReturnsValue => "Can't return a value from a constructor"
  | redeclared name => "Attempt to redeclare an identifier: " ++ name
  | methodRepeated method className =>
      "Method '" ++ method ++ "' is declared twice in class " ++ className
  | alreadyLocal id => "Can't add a local expression: ExprId(" ++ id.repr ++ ")"
  | undeclared name => "Attempt to define an undeclared variable: " ++ name
  | noOpenScope => "Can't close the scope"

end ScopeFault

structure ScopeError where
  line : Nat
  fault : ScopeFault
deriving DecidableEq, Repr

abbrev Distances := Std.TreeMap Nat Nat

namespace Distances

def note (distances : Distances) (id distance line : Nat) : Except ScopeError Distances :=
  if distances.contains id then .error ⟨line, .alreadyLocal id⟩
  else .ok (distances.insert id distance)

end Distances

abbrev Scope := Bindings Bool

inductive Surrounding where
  | topLevel | function | method | constructor
deriving DecidableEq, Repr

-- Open scopes go from the innermost outward. `line` is that of the last name or expression.
structure Scoping where
  scopes : List Scope
  surrounding : Surrounding
  inClass : Bool
  line : Nat
  distances : Distances

abbrev Resolving := EStateM ScopeError Scoping

namespace Resolving

def refuse {α : Type} (line : Nat) (fault : ScopeFault) : Resolving α :=
  throw ⟨line, fault⟩

def visit (line : Nat) : Resolving Unit :=
  modify fun s => { s with line }

def openScope (scope : Scope) : Resolving Unit :=
  modify fun s => { s with scopes := scope :: s.scopes }

def closeScope : Resolving Unit := do
  let s ← get
  match s.scopes with
  | _ :: outer => set { s with scopes := outer }
  | [] => refuse s.line .noOpenScope

def inScope (scope : Scope) (inner : Resolving Unit) : Resolving Unit := do
  openScope scope
  inner
  closeScope

-- A name is declared before its initial value and defined behind it.
def declare (name : Name) : Resolving Unit := do
  visit name.line
  let s ← get
  match s.scopes with
  | [] => return ()
  | scope :: outer =>
      if scope.contains name.text then refuse name.line (.redeclared name.text)
      else set { s with scopes := scope.insert name.text false :: outer }

def define (name : Name) : Resolving Unit := do
  let s ← get
  match s.scopes with
  | [] => return ()
  | scope :: outer =>
      if scope.contains name.text then
        set { s with scopes := scope.insert name.text true :: outer }
      else refuse name.line (.undeclared name.text)

def declareAll : List Name → Resolving Unit
  | [] => return ()
  | name :: rest => do
      declare name
      define name
      declareAll rest

def locate (id : Nat) (name : Name) : Resolving Unit := do
  let s ← get
  match s.scopes.findIdx? (·.contains name.text) with
  | none => return ()
  | some distance =>
      match s.distances.note id distance name.line with
      | .ok distances => set { s with distances }
      | .error e => throw e

def repeated? (seen : List String) : List Routine → Option Name
  | [] => none
  | method :: rest =>
      if seen.contains method.name.text then some method.name
      else repeated? (method.name.text :: seen) rest

def methodKind (method : Routine) : Surrounding :=
  if method.isConstructor then .constructor else .method

def receiverScope : Scope :=
  Bindings.empty.insert "this" true

def checkCallee : Expr → Resolving Unit
  | .get _ _ name =>
      if name.text == Routine.constructorName then refuse name.line .constructorCalled
      else return ()
  | _ => return ()

def checkRead (name : Name) : Resolving Unit := do
  match (← get).scopes with
  | [] => return ()
  | scope :: _ =>
      if scope.find? name.text == some false then refuse name.line .selfInitialized
      else return ()

def checkThis (name : Name) : Resolving Unit := do
  if (← get).inClass then return () else refuse name.line .thisOutsideClass

def checkReturn (line : Nat) (hasValue : Bool) : Resolving Unit := do
  match (← get).surrounding with
  | .topLevel => refuse line .returnOutsideFunction
  | .constructor => if hasValue then refuse line .constructorReturnsValue else return ()
  | .function | .method => return ()

end Resolving

open Resolving

mutual
def Expr.resolve : Expr → Resolving Unit
  | .literal mark _ => visit mark.line
  | .grouping mark inner => do
      visit mark.line
      inner.resolve
  | .unary mark _ right => do
      visit mark.line
      right.resolve
  | .binary mark left _ right => do
      visit mark.line
      left.resolve
      right.resolve
  | .logical mark left _ right => do
      visit mark.line
      left.resolve
      right.resolve
  | .ident mark name => do
      visit mark.line
      checkRead name
      locate mark.id name
  | .assign mark name value => do
      visit mark.line
      value.resolve
      locate mark.id name
  | .call mark callee arguments _ => do
      visit mark.line
      checkCallee callee
      callee.resolve
      Expr.resolveAll arguments
  | .get mark object _ => do
      visit mark.line
      object.resolve
  | .set mark object _ value => do
      visit mark.line
      value.resolve
      object.resolve
  | .this mark name => do
      visit mark.line
      checkThis name
      locate mark.id name

def Expr.resolveAll : List Expr → Resolving Unit
  | [] => return ()
  | e :: rest => do
      e.resolve
      Expr.resolveAll rest
end

mutual
def Stmt.resolve : Stmt → Resolving Unit
  | .expression e => e.resolve
  | .var name none => do
      declare name
      define name
  | .var name (some e) => do
      declare name
      e.resolve
      define name
  | .block body => inScope Bindings.empty (Stmt.resolveAll body)
  | .branch condition body alternative => do
      condition.resolve
      inScope Bindings.empty (Stmt.resolveAll body)
      alternative.resolve
  | .while condition body => do
      condition.resolve
      inScope Bindings.empty (Stmt.resolveAll body)
  | .function routine => do
      declare routine.name
      define routine.name
      routine.resolve .function
  | .return line none => checkReturn line false
  | .return line (some e) => do
      checkReturn line true
      e.resolve
  | .class name methods => do
      declare name
      define name
      match repeated? [] methods with
      | some method => refuse method.line (.methodRepeated method.text name.text)
      | none =>
          let outside := (← get).inClass
          modify fun s => { s with inClass := true }
          inScope receiverScope (Routine.resolveAll methods)
          modify fun s => { s with inClass := outside }

def Alternative.resolve : Alternative → Resolving Unit
  | .none => return ()
  | .elseIf condition body alternative => do
      condition.resolve
      inScope Bindings.empty (Stmt.resolveAll body)
      alternative.resolve
  | .block body => inScope Bindings.empty (Stmt.resolveAll body)

def Routine.resolve (kind : Surrounding) : Routine → Resolving Unit
  | ⟨_, parameters, body⟩ => do
      let outside := (← get).surrounding
      modify fun s => { s with surrounding := kind }
      inScope Bindings.empty do
        declareAll parameters
        Stmt.resolveAll body
      modify fun s => { s with surrounding := outside }

def Stmt.resolveAll : List Stmt → Resolving Unit
  | [] => return ()
  | s :: rest => do
      s.resolve
      Stmt.resolveAll rest

def Routine.resolveAll : List Routine → Resolving Unit
  | [] => return ()
  | method :: rest => do
      method.resolve (methodKind method)
      Routine.resolveAll rest
end

namespace Scoping

def start (distances : Distances) : Scoping :=
  { scopes := [], surrounding := .topLevel, inClass := false, line := 0, distances }

end Scoping

-- Checks a program and adds the distances of its names. Those found before an error are kept.
def Program.resolve (program : Program) (distances : Distances) :
    Except ScopeError Unit × Distances :=
  match (Stmt.resolveAll program).run (.start distances) with
  | .ok _ s => (.ok (), s.distances)
  | .error e s => (.error e, s.distances)

end TreeWalk
