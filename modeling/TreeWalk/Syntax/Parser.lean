import TreeWalk.Syntax.Basic
import TreeWalk.Syntax.Error

namespace TreeWalk

structure Cursor where
  rest : List Token
  nextId : Nat

namespace Cursor

def peek (c : Cursor) : Token :=
  c.rest.headD (.finish 0)

def advance (c : Cursor) : Cursor :=
  if c.peek.kind.isFinish then c else { c with rest := c.rest.tail }

end Cursor

namespace Parser

inductive Stop where
  | refused (error : ParseError)
  | exhausted

end Parser

abbrev Parser := EStateM Parser.Stop Cursor

namespace Parser

def peek : Parser Token :=
  return (← get).peek

def advance : Parser Unit :=
  modify Cursor.advance

def refuse {α : Type} (token : Token) (expected : Expectation) : Parser α :=
  throw (.refused (.ofToken token expected))

def acceptSymbol (symbol : Symbol) : Parser Bool := do
  if (← peek).kind.isSymbol symbol then
    advance
    return true
  else
    return false

def acceptKeyword (keyword : Keyword) : Parser Bool := do
  if (← peek).kind.isKeyword keyword then
    advance
    return true
  else
    return false

def expectSymbol (symbol : Symbol) (expected : Expectation) : Parser Nat := do
  let token ← peek
  if token.kind.isSymbol symbol then
    advance
    return token.line
  else
    refuse token expected

def expectName (expected : Expectation) : Parser Name := do
  let token ← peek
  match token.kind with
  | .identifier =>
      advance
      return ⟨token.lexeme, token.line⟩
  | _ => refuse token expected

-- Identities are given out in the order in which expressions are finished.
def mark (line : Nat) : Parser Mark :=
  modifyGet fun c => (⟨c.nextId, line⟩, { c with nextId := c.nextId + 1 })

inductive Level where
  | disjunction | conjunction | equality | comparison | sum | product
deriving DecidableEq, Repr

namespace Level

def ladder : List Level :=
  [disjunction, conjunction, equality, comparison, sum, product]

def holds (level : Level) (kind : TokenKind) : Bool :=
  match level, kind with
  | disjunction, .keyword .or => true
  | conjunction, .keyword .and => true
  | equality, .symbol s => s == .bangEqual || s == .equalEqual
  | comparison, .symbol s =>
      s == .greater || s == .greaterEqual || s == .less || s == .lessEqual
  | sum, .symbol s => s == .minus || s == .plus
  | product, .symbol s => s == .slash || s == .star
  | _, _ => false

def isLogical : Level → Bool
  | disjunction | conjunction => true
  | equality | comparison | sum | product => false

def node (level : Level) (mark : Mark) (left : Expr) (operator : Token) (right : Expr) : Expr :=
  if level.isLogical then .logical mark left operator right
  else .binary mark left operator right

end Level

def assignTo (target : Expr) (equals : Token) (value : Expr) : Parser Expr :=
  match target with
  | .ident _ name => return .assign (← mark target.line) name value
  | .get _ object name => return .set (← mark target.line) object name value
  | _ => refuse equals .assignmentTarget

def atom? (token : Token) (mark : Mark) : Option Expr :=
  match token.kind with
  | .keyword .false => some (.literal mark (.bool false))
  | .keyword .true => some (.literal mark (.bool true))
  | .keyword .none => some (.literal mark .none)
  | .keyword .this => some (.this mark ⟨token.lexeme, token.line⟩)
  | .number value => some (.literal mark (.number value))
  | .string contents => some (.literal mark (.string contents))
  | .identifier => some (.ident mark ⟨token.lexeme, token.line⟩)
  | _ => none

def atom (token : Token) : Parser Expr := do
  match atom? token ⟨(← get).nextId, token.line⟩ with
  | some e =>
      advance
      let _ ← mark token.line
      return e
  | none => refuse token .expression

mutual
def expression : Nat → Parser Expr
  | 0 => throw .exhausted
  | steps + 1 => do
      let target ← operation steps Level.ladder
      let equals ← peek
      if ← acceptSymbol .equal then
        let value ← expression steps
        assignTo target equals value
      else
        return target

def operation : Nat → List Level → Parser Expr
  | 0, _ => throw .exhausted
  | steps + 1, [] => unary steps
  | steps + 1, level :: tighter => do
      let left ← operation steps tighter
      operands steps level tighter left

def operands : Nat → Level → List Level → Expr → Parser Expr
  | 0, _, _, _ => throw .exhausted
  | steps + 1, level, tighter, left => do
      let operator ← peek
      if level.holds operator.kind then
        advance
        let right ← operation steps tighter
        let e := level.node (← mark left.line) left operator right
        operands steps level tighter e
      else
        return left

def unary : Nat → Parser Expr
  | 0 => throw .exhausted
  | steps + 1 => do
      let operator ← peek
      if operator.kind.isSymbol .bang || operator.kind.isSymbol .minus then
        advance
        let right ← unary steps
        return .unary (← mark operator.line) operator right
      else
        let callee ← primary steps
        suffixes steps callee

def suffixes : Nat → Expr → Parser Expr
  | 0, _ => throw .exhausted
  | steps + 1, e => do
      if ← acceptSymbol .leftParen then
        let (arguments, line) ← arguments steps
        suffixes steps (.call (← mark e.line) e arguments line)
      else if ← acceptSymbol .dot then
        let name ← expectName .propertyName
        suffixes steps (.get (← mark e.line) e name)
      else
        return e

def arguments : Nat → Parser (List Expr × Nat)
  | 0 => throw .exhausted
  | steps + 1 => do
      let arguments ←
        if (← peek).kind.isSymbol .rightParen then pure []
        else expressions steps
      let line ← expectSymbol .rightParen .argumentsClose
      return (arguments, line)

def expressions : Nat → Parser (List Expr)
  | 0 => throw .exhausted
  | steps + 1 => do
      let first ← expression steps
      if ← acceptSymbol .comma then
        return first :: (← expressions steps)
      else
        return [first]

def primary : Nat → Parser Expr
  | 0 => throw .exhausted
  | steps + 1 => do
      let token ← peek
      if token.kind.isSymbol .leftParen then
        advance
        let inner ← expression steps
        let _ ← expectSymbol .rightParen .groupingClose
        return .grouping (← mark token.line) inner
      else
        atom token
end

def parameters : Nat → Parser (List Name)
  | 0 => throw .exhausted
  | steps + 1 => do
      let first ← expectName .parameterName
      if ← acceptSymbol .comma then
        return first :: (← parameters steps)
      else
        return [first]

def expressionUnless (steps : Nat) (symbol : Symbol) : Parser (Option Expr) := do
  if (← peek).kind.isSymbol symbol then return none
  else return some (← expression steps)

def expressionStatement (steps : Nat) : Parser Stmt := do
  let e ← expression steps
  let _ ← expectSymbol .semicolon .expressionEnd
  return .expression e

def varDeclaration (steps : Nat) : Parser Stmt := do
  let name ← expectName .variableName
  let initializer ← if ← acceptSymbol .equal then some <$> expression steps else pure none
  let _ ← expectSymbol .semicolon .variableEnd
  return .var name initializer

def returned (steps : Nat) (line : Nat) : Parser Stmt := do
  let value ← expressionUnless steps .semicolon
  let _ ← expectSymbol .semicolon .returnEnd
  return .return line value

def condition (steps : Nat) (opened closed braced : Expectation) : Parser Expr := do
  let _ ← expectSymbol .leftParen opened
  let e ← expression steps
  let _ ← expectSymbol .rightParen closed
  let _ ← expectSymbol .leftBrace braced
  return e

def loopStart (steps : Nat) : Parser (Option Stmt) := do
  if ← acceptSymbol .semicolon then return none
  else if ← acceptKeyword .var then return some (← varDeclaration steps)
  else return some (← expressionStatement steps)

def loopCondition (steps : Nat) (line : Nat) : Parser Expr := do
  match ← expressionUnless steps .semicolon with
  | some e => return e
  | none => return .literal (← mark line) (.bool true)

-- A `for` is a `while` that runs its action behind its body, in a block with its first part.
def loop (start : Option Stmt) (condition : Expr) (action : Option Expr) (body : List Stmt) :
    Stmt :=
  let body := match action with
    | some e => [.block body, .expression e]
    | none => body
  match start with
  | some s => .block [s, .while condition body]
  | none => .while condition body

mutual
def declaration : Nat → Parser Stmt
  | 0 => throw .exhausted
  | steps + 1 => do
      let token ← peek
      match token.kind with
      | .keyword .var => advance; varDeclaration steps
      | .keyword .func => advance; return .function (← routine steps)
      | .keyword .class => advance; classDeclaration steps
      | .keyword .if => advance; ifStatement steps
      | .keyword .while => advance; whileStatement steps
      | .keyword .for => advance; forStatement steps token.line
      | .keyword .return => advance; returned steps token.line
      | .symbol .leftBrace => advance; return .block (← body steps)
      | _ => expressionStatement steps

def body : Nat → Parser (List Stmt)
  | 0 => throw .exhausted
  | steps + 1 => do
      let token ← peek
      if token.kind.isSymbol .rightBrace || token.kind.isFinish then
        let _ ← expectSymbol .rightBrace .blockClose
        return []
      else
        let first ← declaration steps
        return first :: (← body steps)

def routine : Nat → Parser Routine
  | 0 => throw .exhausted
  | steps + 1 => do
      let name ← expectName .functionName
      let _ ← expectSymbol .leftParen .parametersOpen
      let parameters ←
        if (← peek).kind.isSymbol .rightParen then pure []
        else parameters steps
      let _ ← expectSymbol .rightParen .parametersClose
      let _ ← expectSymbol .leftBrace .functionBody
      return ⟨name, parameters, ← body steps⟩

def classDeclaration : Nat → Parser Stmt
  | 0 => throw .exhausted
  | steps + 1 => do
      let name ← expectName .className
      let _ ← expectSymbol .leftBrace .classOpen
      return .class name (← methods steps)

def methods : Nat → Parser (List Routine)
  | 0 => throw .exhausted
  | steps + 1 => do
      let token ← peek
      if token.kind.isSymbol .rightBrace || token.kind.isFinish then
        let _ ← expectSymbol .rightBrace .classClose
        return []
      else
        let first ← routine steps
        return first :: (← methods steps)

def ifStatement : Nat → Parser Stmt
  | 0 => throw .exhausted
  | steps + 1 => do
      let e ← condition steps .ifOpen .ifClose .ifBody
      let body ← body steps
      return .branch e body (← alternative steps)

def alternative : Nat → Parser Alternative
  | 0 => throw .exhausted
  | steps + 1 => do
      if ← acceptKeyword .else then
        if ← acceptKeyword .if then
          let e ← condition steps .ifOpen .ifClose .ifBody
          let body ← body steps
          return .elseIf e body (← alternative steps)
        else
          let _ ← expectSymbol .leftBrace .elseBody
          return .block (← body steps)
      else
        return .none

def whileStatement : Nat → Parser Stmt
  | 0 => throw .exhausted
  | steps + 1 => do
      let e ← condition steps .whileOpen .whileClose .whileBody
      return .while e (← body steps)

def forStatement : Nat → Nat → Parser Stmt
  | 0, _ => throw .exhausted
  | steps + 1, line => do
      let _ ← expectSymbol .leftParen .forOpen
      let start ← loopStart steps
      let condition ← loopCondition steps line
      let _ ← expectSymbol .semicolon .forConditionEnd
      let action ← expressionUnless steps .rightParen
      let _ ← expectSymbol .rightParen .forClose
      let _ ← expectSymbol .leftBrace .forBody
      return loop start condition action (← body steps)
end

def program : Nat → Parser Program
  | 0 => throw .exhausted
  | steps + 1 => do
      if (← peek).kind.isFinish then return []
      else
        let first ← declaration steps
        return first :: (← program steps)

-- No token takes more steps than there are rules between two parentheses.
def stepBound (tokens : List Token) : Nat :=
  16 * (tokens.length + 1)

end Parser

-- The program of a list of tokens, which ends with its only token of the end, and the identity
-- after those of its expressions. The bound on the steps is never reached.
def parse (firstId : Nat) (tokens : List Token) : Except ParseError (Program × Nat) :=
  match (Parser.program (Parser.stepBound tokens)).run ⟨tokens, firstId⟩ with
  | .ok program c => .ok (program, c.nextId)
  | .error (.refused error) _ => .error error
  | .error .exhausted c => .error (.ofToken c.peek .expression)

end TreeWalk
