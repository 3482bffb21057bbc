import TreeWalk.Fault

namespace TreeWalk

namespace Value

def applyUnary (operator : Token) (right : Value) : Except RuntimeFault Value :=
  match operator.kind with
  | .symbol .minus =>
      match right with
      | .number n => .ok (.number (-n))
      | _ => .error .notNumber
  | .symbol .bang =>
      match right with
      | .bool b => .ok (.bool (!b))
      | _ => .error .notBool
  | _ => .error (.notUnary operator.lexeme)

def add : Value → Value → Except RuntimeFault Value
  | .number a, .number b => .ok (.number (a + b))
  | .string a, .string b => .ok (.string (a ++ b))
  | _, _ => .error .notSummable

def calculate (operator : Token) (a b : Float) : Except RuntimeFault Value :=
  match operator.kind with
  | .symbol .minus => .ok (.number (a - b))
  | .symbol .star => .ok (.number (a * b))
  | .symbol .slash => if b == 0 then .error .divisionByZero else .ok (.number (a / b))
  | .symbol .greater => .ok (.bool (a > b))
  | .symbol .greaterEqual => .ok (.bool (a ≥ b))
  | .symbol .less => .ok (.bool (a < b))
  | .symbol .lessEqual => .ok (.bool (a ≤ b))
  | _ => .error (.notBinary operator.lexeme)

-- Operands that are no numbers are refused before the operator is looked at.
def applyBinary (operator : Token) (left right : Value) : Except RuntimeFault Value :=
  match operator.kind with
  | .symbol .plus => add left right
  | .symbol .equalEqual => .ok (.bool (left.isEqual right))
  | .symbol .bangEqual => .ok (.bool (!left.isEqual right))
  | _ =>
      match left, right with
      | .number a, .number b => calculate operator a b
      | _, _ => .error (.notNumbers operator.lexeme)

-- Whether the left side `truth` of a logical operator is the result already: `or` stops at
-- `true`, any other operator at `false`.
def settles (operator : Token) (truth : Bool) : Bool :=
  if operator.kind.isKeyword .or then truth else !truth

end Value

end TreeWalk
