import TreeWalk.Decimal.Layout
import TreeWalk.Syntax.Basic

namespace TreeWalk

def node (parts : List String) : String :=
  "(" ++ String.intercalate " " parts ++ ")"

namespace Literal

def numberStyle : WholeStyle :=
  ⟨Option.none, ".0", true⟩

def print : Literal → String
  | number value => (Binary64.ofFloat value).text numberStyle
  | string contents => "\"" ++ contents ++ "\""
  | bool true => "true"
  | bool false => "false"
  | none => "none"

end Literal

mutual
def Expr.print : Expr → String
  | .literal _ value => value.print
  | .grouping _ inner => node ["group", inner.print]
  | .unary _ operator right => node [operator.lexeme, right.print]
  | .binary _ left operator right => node [operator.lexeme, left.print, right.print]
  | .logical _ left operator right => node [operator.lexeme, left.print, right.print]
  | .ident _ name => name.text
  | .assign _ name value => node ["=", name.text, value.print]
  | .call _ callee arguments _ => node ("call" :: callee.print :: Expr.printAll arguments)
  | .get _ object name => node [".", object.print, name.text]
  | .set _ object name value => node ["set", object.print, name.text, value.print]
  | .this _ _ => "this"

def Expr.printAll : List Expr → List String
  | [] => []
  | e :: rest => e.print :: Expr.printAll rest
end

mutual
def Stmt.print : Stmt → String
  | .expression e => node ["expr", e.print]
  | .var name none => node ["var", name.text]
  | .var name (some e) => node ["var", name.text, e.print]
  | .block body => node ("block" :: Stmt.printAll body)
  | .branch condition body alternative =>
      node ("if" :: condition.print :: node ("then" :: Stmt.printAll body) :: alternative.print)
  | .while condition body => node ["while", condition.print, node ("do" :: Stmt.printAll body)]
  | .function routine => routine.print
  | .return _ none => node ["return"]
  | .return _ (some e) => node ["return", e.print]
  | .class name methods => node ("class" :: name.text :: Routine.printAll methods)

def Alternative.print : Alternative → List String
  | .none => []
  | .elseIf condition body alternative =>
      [node ["else",
        node ("if" :: condition.print :: node ("then" :: Stmt.printAll body) ::
          alternative.print)]]
  | .block body => [node ("else" :: Stmt.printAll body)]

def Routine.print : Routine → String
  | ⟨name, parameters, body⟩ =>
      node ["func", name.text, node (parameters.map Name.text),
        node ("body" :: Stmt.printAll body)]

def Stmt.printAll : List Stmt → List String
  | [] => []
  | s :: rest => s.print :: Stmt.printAll rest

def Routine.printAll : List Routine → List String
  | [] => []
  | routine :: rest => routine.print :: Routine.printAll rest
end

namespace Program

def print (program : Program) : String :=
  String.intercalate "\n" (Stmt.printAll program)

end Program

end TreeWalk
