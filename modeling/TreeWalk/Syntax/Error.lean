import TreeWalk.Token.Basic

namespace TreeWalk

inductive Expectation where
  | variableName | variableEnd
  | functionName | parametersOpen | parameterName | parametersClose | functionBody
  | className | classOpen | classClose
  | ifOpen | ifClose | ifBody | elseBody
  | whileOpen | whileClose | whileBody
  | forOpen | forConditionEnd | forClose | forBody
  | returnEnd | expressionEnd | blockClose
  | assignmentTarget | propertyName | argumentsClose | groupingClose | expression
deriving DecidableEq, Repr

namespace Expectation

def text : Expectation → String
  | variableName => "Expected variable identifier"
  | variableEnd => "Expected ';' after variable declaration"
  | functionName => "Expected a function name"
  | parametersOpen => "Expected '(' after function declaration"
  | parameterName => "Expected a parameter name"
  | parametersClose => "Expected ')' after function params"
  | functionBody => "Expected '\x7b' before function body"
  | className => "Expected class name"
  | classOpen => "Expected '\x7b' before class body"
  | classClose => "Expected '\x7d' after class body"
  | ifOpen => "Expected '(' after if statement"
  | ifClose => "Expected enclosing ')' after expression in if statement"
  | ifBody => "Expected '\x7b' after if condition"
  | elseBody => "Expected '\x7b' after else"
  | whileOpen => "Expected '(' after while statement"
  | whileClose => "Expected enclosing ')' after expression in while statement"
  | whileBody => "Expected '\x7b' after while condition"
  | forOpen => "Expected '(' after for statement"
  | forConditionEnd => "Expected ';' after for loop condition"
  | forClose => "Expected ')' after for loop"
  | forBody => "Expected '\x7b' in for loop body"
  | returnEnd => "Expected ';' after return statement"
  | expressionEnd => "Expected ';' after expression"
  | blockClose => "Expected '\x7d' after block statement"
  | assignmentTarget => "Invalid assignment target"
  | propertyName => "Expected prop name after '.'"
  | argumentsClose => "Expected ')' after arguments"
  | groupingClose => "Expected ')' after expression"
  | expression => "Expected an expression"

end Expectation

structure ParseError where
  line : Nat
  found : Option String
  expected : Expectation
deriving DecidableEq, Repr

namespace ParseError

def ofToken (token : Token) (expected : Expectation) : ParseError :=
  ⟨token.line, if token.kind.isFinish then none else some token.lexeme, expected⟩

end ParseError

end TreeWalk
