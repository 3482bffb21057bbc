import TreeWalk.Syntax.Basic

namespace TreeWalk

structure Reference where
  name : String
  id : Nat
deriving DecidableEq, Repr

mutual
def Expr.references : Expr → List Reference
  | .literal _ _ => []
  | .grouping _ inner => inner.references
  | .unary _ _ right => right.references
  | .binary _ left _ right => left.references ++ right.references
  | .logical _ left _ right => left.references ++ right.references
  | .ident mark name => [⟨name.text, mark.id⟩]
  | .assign mark name value => ⟨name.text, mark.id⟩ :: value.references
  | .call _ callee arguments _ => callee.references ++ Expr.referencesAll arguments
  | .get _ object _ => object.references
  | .set _ object _ value => object.references ++ value.references
  | .this mark name => [⟨name.text, mark.id⟩]

def Expr.referencesAll : List Expr → List Reference
  | [] => []
  | e :: rest => e.references ++ Expr.referencesAll rest
end

mutual
def Stmt.references : Stmt → List Reference
  | .expression e => e.references
  | .var _ none => []
  | .var _ (some e) => e.references
  | .block body => Stmt.referencesAll body
  | .branch condition body alternative =>
      condition.references ++ Stmt.referencesAll body ++ alternative.references
  | .while condition body => condition.references ++ Stmt.referencesAll body
  | .function routine => routine.references
  | .return _ none => []
  | .return _ (some e) => e.references
  | .class _ methods => Routine.referencesAll methods

def Alternative.references : Alternative → List Reference
  | .none => []
  | .elseIf condition body alternative =>
      condition.references ++ Stmt.referencesAll body ++ alternative.references
  | .block body => Stmt.referencesAll body

def Routine.references : Routine → List Reference
  | ⟨_, _, body⟩ => Stmt.referencesAll body

def Stmt.referencesAll : List Stmt → List Reference
  | [] => []
  | s :: rest => s.references ++ Stmt.referencesAll rest

def Routine.referencesAll : List Routine → List Reference
  | [] => []
  | routine :: rest => routine.references ++ Routine.referencesAll rest
end

namespace Program

def references (program : Program) : List Reference :=
  Stmt.referencesAll program

end Program

end TreeWalk
