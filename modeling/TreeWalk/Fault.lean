import TreeWalk.Stream
import TreeWalk.Value

namespace TreeWalk

inductive Construct where
  | ifStatement
  | whileStatement
deriving DecidableEq, Repr

namespace Construct

def text : Construct → String
  | ifStatement => "if"
  | whileStatement => "while"

end Construct

inductive RuntimeFault where
  | redefined (name : String)
  | undefined (name : String)
  | unassignable (name : String)
  | noLayer (distance : Nat)
  | notCondition (construct : Construct) (value : Value)
  | notLogical (operator : String)
  | notUnary (operator : String)
  | notBinary (operator : String)
  | notNumber
  | notBool
  | notNumbers (operator : String)
  | notSummable
  | divisionByZero
  | notCallable (value : Value)
  | argumentCount (expected got : Nat)
  | noProperties (value : Value)
  | noFields
  | noProperty (name className : String)
  | noParity (native : Native) (value : Value)
  | noType (value : Value)
  | stream (native : Native) (error : StreamError)

namespace RuntimeFault

def text : RuntimeFault → String
  | redefined name => "Attempt to redefine identifier: " ++ name
  | undefined name => "Undefined variable: " ++ name
  | unassignable name => "Variable '" ++ name ++ "' is not defined"
  | noLayer distance => "No environment " ++ distance.repr ++ " scope(s) up"
  | notCondition construct value =>
      "Expression result in " ++ construct.text ++ " statement must be a bool value, got " ++
        value.text
  | notLogical operator => operator ++ ": expression result must be a bool type"
  | notUnary operator => "Invalid unary operator '" ++ operator ++ "'"
  | notBinary operator => "Invalid binary operator '" ++ operator ++ "'"
  | notNumber => "-: Operand must be a number"
  | notBool => "!: Operand must be a boolean"
  | notNumbers operator => operator ++ ": Operands must be numbers"
  | notSummable => "+: Operands must be either strings or numbers"
  | divisionByZero => "/: Division by zero"
  | notCallable value => value.text ++ " is not callable"
  | argumentCount expected got =>
      "Expected " ++ expected.repr ++ " arguments but got " ++ got.repr
  | noProperties value => "Only instances have properties, got " ++ value.text
  | noFields => "Only instances have fields"
  | noProperty name className =>
      "Can't access the property " ++ name ++ " of class " ++ className
  | noParity native value => native.name ++ " expects a number, got " ++ value.text
  | noType value => "Can't get type of " ++ value.text
  | stream native error => native.name ++ " failed: " ++ error.text

end RuntimeFault

structure RuntimeError where
  line : Nat
  fault : RuntimeFault

end TreeWalk
