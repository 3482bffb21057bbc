import TreeWalk.Proofs.Runs
import TreeWalk.Syntax.Parser

set_option autoImplicit false

namespace TreeWalk

namespace Parser

inductive Task where
  | program | declaration | body | routine | classDeclaration | methods | ifStatement | alternative
  | whileStatement | forStatement (line : Nat) | parameters
  | expression | operation (levels : List Level) | operands (level : Level) (tighter : List Level) (left : Expr)
  | unary | suffixes (callee : Expr) | arguments | expressions | primary

@[reducible]
def Task.Answer : Task → Type
  | program => Program
  | declaration | classDeclaration | ifStatement | whileStatement | forStatement _ => Stmt
  | body => List Stmt
  | routine => Routine
  | methods => List Routine
  | alternative => Alternative
  | parameters => List Name
  | expression | operation _ | operands _ _ _ | unary | suffixes _ | primary => Expr
  | arguments => List Expr × Nat
  | expressions => List Expr

def Task.read : (task : Task) → Nat → Parser task.Answer
  | program, n => Parser.program n
  | declaration, n => Parser.declaration n
  | body, n => Parser.body n
  | routine, n => Parser.routine n
  | classDeclaration, n => Parser.classDeclaration n
  | methods, n => Parser.methods n
  | ifStatement, n => Parser.ifStatement n
  | alternative, n => Parser.alternative n
  | whileStatement, n => Parser.whileStatement n
  | forStatement line, n => Parser.forStatement n line
  | parameters, n => Parser.parameters n
  | expression, n => Parser.expression n
  | operation levels, n => Parser.operation n levels
  | operands level tighter left, n => Parser.operands n level tighter left
  | unary, n => Parser.unary n
  | suffixes callee, n => Parser.suffixes n callee
  | arguments, n => Parser.arguments n
  | expressions, n => Parser.expressions n
  | primary, n => Parser.primary n

inductive Script (α : Type) where
  | done (a : α)
  | refused (token : Token) (expected : Expectation)
  | looks (next : Token → Script α)
  | advances (next : Script α)
  | counts (next : Nat → Script α)
  | marks (line : Nat) (next : Mark → Script α)
  | calls (task : Task) (next : task.Answer → Script α)

namespace Script

variable {α β : Type}

def bind : Script α → (α → Script β) → Script β
  | done a, f => f a
  | refused token expected, _ => refused token expected
  | looks next, f => looks fun token => (next token).bind f
  | advances next, f => advances (next.bind f)
  | counts next, f => counts fun id => (next id).bind f
  | marks line next, f => marks line fun mark => (next mark).bind f
  | calls task next, f => calls task fun answer => (next answer).bind f

instance : Monad Script where
  pure := done
  bind := bind

def peek : Script Token :=
  looks done

def advance : Script Unit :=
  advances (done ⟨⟩)

def refuse (token : Token) (expected : Expectation) : Script α :=
  refused token expected

def nextId : Script Nat :=
  counts done

def mark (line : Nat) : Script Mark :=
  marks line done

def call (task : Task) : Script task.Answer :=
  calls task done

def play (n : Nat) : Script α → Parser α
  | done a => pure a
  | refused token expected => Parser.refuse token expected
  | looks next => do play n (next (← Parser.peek))
  | advances next => do Parser.advance; play n next
  | counts next => do play n (next (← get).nextId)
  | marks line next => do play n (next (← Parser.mark line))
  | calls task next => do play n (next (← task.read n))

section Parts

def acceptSymbol (symbol : Symbol) : Script Bool := do
  if (← peek).kind.isSymbol symbol then
    advance
    return true
  else
    return false

def acceptKeyword (keyword : Keyword) : Script Bool := do
  if (← peek).kind.isKeyword keyword then
    advance
    return true
  else
    return false

def expectSymbol (symbol : Symbol) (expected : Expectation) : Script Nat := do
  let token ← peek
  if token.kind.isSymbol symbol then
    advance
    return token.line
  else
    refuse token expected

def expectName (expected : Expectation) : Script Name := do
  let token ← peek
  match token.kind with
  | .identifier =>
      advance
      return ⟨token.lexeme, token.line⟩
  | _ => refuse token expected

def assignTo (target : Expr) (equals : Token) (value : Expr) : Script Expr :=
  match target with
  | .ident _ name => return .assign (← mark target.line) name value
  | .get _ object name => return .set (← mark target.line) object name value
  | _ => refuse equals .assignmentTarget

def atom (token : Token) : Script Expr := do
  match atom? token ⟨← nextId, token.line⟩ with
  | some e =>
      advance
      let _ ← mark token.line
      return e
  | none => refuse token .expression

def expressionUnless (symbol : Symbol) : Script (Option Expr) := do
  if (← peek).kind.isSymbol symbol then return none
  else return some (← call .expression)

def expressionStatement : Script Stmt := do
  let e ← call .expression
  let _ ← expectSymbol .semicolon .expressionEnd
  return .expression e

def varDeclaration : Script Stmt := do
  let name ← expectName .variableName
  let initializer ← if ← acceptSymbol .equal then some <$> call .expression else pure none
  let _ ← expectSymbol .semicolon .variableEnd
  return .var name initializer

def returned (line : Nat) : Script Stmt := do
  let value ← expressionUnless .semicolon
  let _ ← expectSymbol .semicolon .returnEnd
  return .return line value

def condition (opened closed braced : Expectation) : Script Expr := do
  let _ ← expectSymbol .leftParen opened
  let e ← call .expression
  let _ ← expectSymbol .rightParen closed
  let _ ← expectSymbol .leftBrace braced
  return e

def loopStart : Script (Option Stmt) := do
  if ← acceptSymbol .semicolon then return none
  else if ← acceptKeyword .var then return some (← varDeclaration)
  else return some (← expressionStatement)

def loopCondition (line : Nat) : Script Expr := do
  match ← expressionUnless .semicolon with
  | some e => return e
  | none => return .literal (← mark line) (.bool true)

end Parts

end Script

def Task.script : (task : Task) → Script task.Answer
  | program => do
      if (← Script.peek).kind.isFinish then return []
      else
        let first ← Script.call .declaration
        return first :: (← Script.call .program)
  | declaration => do
      let token ← Script.peek
      match token.kind with
      | .keyword .var => Script.advance; Script.varDeclaration
      | .keyword .func => Script.advance; return .function (← Script.call .routine)
      | .keyword .class => Script.advance; Script.call .classDeclaration
      | .keyword .if => Script.advance; Script.call .ifStatement
      | .keyword .while => Script.advance; Script.call .whileStatement
      | .keyword .for => Script.advance; Script.call (.forStatement token.line)
      | .keyword .return => Script.advance; Script.returned token.line
      | .symbol .leftBrace => Script.advance; return .block (← Script.call .body)
      | _ => Script.expressionStatement
  | body => do
      let token ← Script.peek
      if token.kind.isSymbol .rightBrace || token.kind.isFinish then
        let _ ← Script.expectSymbol .rightBrace .blockClose
        return []
      else
        let first ← Script.call .declaration
        return first :: (← Script.call .body)
  | routine => do
      let name ← Script.expectName .functionName
      let _ ← Script.expectSymbol .leftParen .parametersOpen
      let parameters ←
        if (← Script.peek).kind.isSymbol .rightParen then pure []
        else Script.call .parameters
      let _ ← Script.expectSymbol .rightParen .parametersClose
      let _ ← Script.expectSymbol .leftBrace .functionBody
      return ⟨name, parameters, ← Script.call .body⟩
  | classDeclaration => do
      let name ← Script.expectName .className
      let _ ← Script.expectSymbol .leftBrace .classOpen
      return .class name (← Script.call .methods)
  | methods => do
      let token ← Script.peek
      if token.kind.isSymbol .rightBrace || token.kind.isFinish then
        let _ ← Script.expectSymbol .rightBrace .classClose
        return []
      else
        let first ← Script.call .routine
        return first :: (← Script.call .methods)
  | ifStatement => do
      let e ← Script.condition .ifOpen .ifClose .ifBody
      let body ← Script.call .body
      return .branch e body (← Script.call .alternative)
  | alternative => do
      if ← Script.acceptKeyword .else then
        if ← Script.acceptKeyword .if then
          let e ← Script.condition .ifOpen .ifClose .ifBody
          let body ← Script.call .body
          return .elseIf e body (← Script.call .alternative)
        else
          let _ ← Script.expectSymbol .leftBrace .elseBody
          return .block (← Script.call .body)
      else
        return .none
  | whileStatement => do
      let e ← Script.condition .whileOpen .whileClose .whileBody
      return .while e (← Script.call .body)
  | forStatement line => do
      let _ ← Script.expectSymbol .leftParen .forOpen
      let start ← Script.loopStart
      let condition ← Script.loopCondition line
      let _ ← Script.expectSymbol .semicolon .forConditionEnd
      let action ← Script.expressionUnless .rightParen
      let _ ← Script.expectSymbol .rightParen .forClose
      let _ ← Script.expectSymbol .leftBrace .forBody
      return loop start condition action (← Script.call .body)
  | parameters => do
      let first ← Script.expectName .parameterName
      if ← Script.acceptSymbol .comma then
        return first :: (← Script.call .parameters)
      else
        return [first]
  | expression => do
      let target ← Script.call (.operation Level.ladder)
      let equals ← Script.peek
      if ← Script.acceptSymbol .equal then
        let value ← Script.call .expression
        Script.assignTo target equals value
      else
        return target
  | operation [] => Script.call .unary
  | operation (level :: tighter) => do
      let left ← Script.call (.operation tighter)
      Script.call (.operands level tighter left)
  | operands level tighter left => do
      let operator ← Script.peek
      if level.holds operator.kind then
        Script.advance
        let right ← Script.call (.operation tighter)
        let e := level.node (← Script.mark left.line) left operator right
        Script.call (.operands level tighter e)
      else
        return left
  | unary => do
      let operator ← Script.peek
      if operator.kind.isSymbol .bang || operator.kind.isSymbol .minus then
        Script.advance
        let right ← Script.call .unary
        return .unary (← Script.mark operator.line) operator right
      else
        let callee ← Script.call .primary
        Script.call (.suffixes callee)
  | suffixes e => do
      if ← Script.acceptSymbol .leftParen then
        let (given, line) ← Script.call .arguments
        Script.call (.suffixes (.call (← Script.mark e.line) e given line))
      else if ← Script.acceptSymbol .dot then
        let name ← Script.expectName .propertyName
        Script.call (.suffixes (.get (← Script.mark e.line) e name))
      else
        return e
  | arguments => do
      let given ←
        if (← Script.peek).kind.isSymbol .rightParen then pure []
        else Script.call .expressions
      let line ← Script.expectSymbol .rightParen .argumentsClose
      return (given, line)
  | expressions => do
      let first ← Script.call .expression
      if ← Script.acceptSymbol .comma then
        return first :: (← Script.call .expressions)
      else
        return [first]
  | primary => do
      let token ← Script.peek
      if token.kind.isSymbol .leftParen then
        Script.advance
        let inner ← Script.call .expression
        let _ ← Script.expectSymbol .rightParen .groupingClose
        return .grouping (← Script.mark token.line) inner
      else
        Script.atom token

namespace Script

section Playing

variable {α β : Type} (n : Nat)

theorem play_pure (a : α) : (pure a : Script α).play n = pure a :=
  rfl

theorem play_bind (s : Script α) (f : α → Script β) : (s >>= f).play n = s.play n >>= fun a => (f a).play n := by
  show (s.bind f).play n = _
  induction s with
  | done a => rfl
  | refused token expected => rfl
  | looks next ih => simp only [bind, play, ih, bind_assoc]
  | advances next ih => simp only [bind, play, ih, bind_assoc]
  | counts next ih => simp only [bind, play, ih, bind_assoc]
  | marks line next ih => simp only [bind, play, ih, bind_assoc]
  | calls task next ih => simp only [bind, play, ih, bind_assoc]

theorem play_map (s : Script α) (f : α → β) : (f <$> s).play n = f <$> s.play n := by
  have parts : f <$> s = s >>= fun a => pure (f a) := rfl
  rw [parts, play_bind, map_eq_pure_bind]
  rfl

theorem play_peek : peek.play n = Parser.peek := rfl

theorem play_advance : advance.play n = Parser.advance := rfl

theorem play_refuse (token : Token) (expected : Expectation) :
    (refuse token expected : Script α).play n = Parser.refuse token expected := rfl

theorem play_next_id : nextId.play n = (do return (← get).nextId) := rfl

theorem play_mark (line : Nat) : (mark line).play n = Parser.mark line := rfl

theorem play_if (condition : Prop) [Decidable condition] (s t : Script α) :
    (if condition then s else t).play n = if condition then s.play n else t.play n :=
  apply_ite (play n) condition s t

theorem play_accept_symbol (symbol : Symbol) : (acceptSymbol symbol).play n = Parser.acceptSymbol symbol := by
  unfold acceptSymbol Parser.acceptSymbol
  simp only [play_bind, play_if, play_peek, play_advance, play_pure]

theorem play_accept_keyword (keyword : Keyword) : (acceptKeyword keyword).play n = Parser.acceptKeyword keyword := by
  unfold acceptKeyword Parser.acceptKeyword
  simp only [play_bind, play_if, play_peek, play_advance, play_pure]

theorem play_expect_symbol (symbol : Symbol) (expected : Expectation) :
    (expectSymbol symbol expected).play n = Parser.expectSymbol symbol expected := by
  unfold expectSymbol Parser.expectSymbol
  simp only [play_bind, play_if, play_peek, play_advance, play_pure, play_refuse]

theorem play_expect_name (expected : Expectation) : (expectName expected).play n = Parser.expectName expected := by
  unfold expectName Parser.expectName
  simp only [play_bind, play_peek]
  congr 1
  funext token
  generalize token.kind = kind
  cases kind <;> rfl

theorem play_assign_to (target : Expr) (equals : Token) (value : Expr) :
    (assignTo target equals value).play n = Parser.assignTo target equals value := by
  cases target <;> rfl

theorem play_atom (token : Token) : (atom token).play n = Parser.atom token := by
  unfold atom Parser.atom
  simp only [play_bind, play_next_id, bind_assoc, pure_bind]
  congr 1
  funext c
  cases atom? token ⟨c.nextId, token.line⟩ <;> rfl

theorem play_expression_unless (symbol : Symbol) :
    (expressionUnless symbol).play n = Parser.expressionUnless n symbol := by
  unfold expressionUnless Parser.expressionUnless
  simp only [play_bind, play_if, play_peek, play_pure, call, play, bind_pure, Task.read]

theorem play_expression_statement : expressionStatement.play n = Parser.expressionStatement n := by
  unfold expressionStatement Parser.expressionStatement
  simp only [play_bind, play_expect_symbol, play_pure, call, play, bind_pure, Task.read]

theorem play_var_declaration : varDeclaration.play n = Parser.varDeclaration n := by
  unfold varDeclaration Parser.varDeclaration
  simp only [play_bind, play_if, play_map, play_accept_symbol, play_expect_symbol, play_expect_name, play_pure, call, play, bind_pure, Task.read]

theorem play_returned (line : Nat) : (returned line).play n = Parser.returned n line := by
  unfold returned Parser.returned
  simp only [play_bind, play_expression_unless, play_expect_symbol, play_pure]

theorem play_condition (opened closed braced : Expectation) :
    (condition opened closed braced).play n = Parser.condition n opened closed braced := by
  unfold condition Parser.condition
  simp only [play_bind, play_expect_symbol, play_pure, call, play, bind_pure, Task.read]

theorem play_loop_start : loopStart.play n = Parser.loopStart n := by
  unfold loopStart Parser.loopStart
  simp only [play_bind, play_if, play_accept_symbol, play_accept_keyword, play_var_declaration,
    play_expression_statement, play_pure]

theorem play_loop_condition (line : Nat) : (loopCondition line).play n = Parser.loopCondition n line := by
  unfold loopCondition Parser.loopCondition
  simp only [play_bind, play_expression_unless]
  congr 1
  funext value
  cases value <;> rfl

theorem play_script (task : Task) : task.script.play n = task.read (n + 1) := by
  cases task with
  | program =>
      unfold Task.script Task.read Parser.program
      simp only [play_bind, play_if, play_peek, play_pure, call, play, bind_pure, Task.read]
  | declaration =>
      unfold Task.script Task.read Parser.declaration
      simp only [play_bind, play_peek]
      congr 1
      funext token
      generalize token.kind = kind
      cases kind with
      | keyword k =>
          cases k <;> simp only [play_bind, play_advance, play_var_declaration, play_returned,
            play_expression_statement, play_pure, call, play, bind_pure, Task.read]
      | symbol s =>
          cases s <;> simp only [play_bind, play_advance, play_expression_statement, play_pure, call, play, bind_pure,
            Task.read]
      | _ => exact play_expression_statement n
  | body =>
      unfold Task.script Task.read Parser.body
      simp only [play_bind, play_if, play_peek, play_expect_symbol, play_pure, call, play, bind_pure, Task.read]
  | routine =>
      unfold Task.script Task.read Parser.routine
      simp only [play_bind, play_if, play_peek, play_expect_symbol, play_expect_name, play_pure, call, play, bind_pure, Task.read]
  | classDeclaration =>
      unfold Task.script Task.read Parser.classDeclaration
      simp only [play_bind, play_expect_symbol, play_expect_name, play_pure, call, play, bind_pure, Task.read]
  | methods =>
      unfold Task.script Task.read Parser.methods
      simp only [play_bind, play_if, play_peek, play_expect_symbol, play_pure, call, play, bind_pure, Task.read]
  | ifStatement =>
      unfold Task.script Task.read Parser.ifStatement
      simp only [play_bind, play_condition, play_pure, call, play, bind_pure, Task.read]
  | alternative =>
      unfold Task.script Task.read Parser.alternative
      simp only [play_bind, play_if, play_accept_keyword, play_condition, play_expect_symbol, play_pure, call, play, bind_pure, Task.read]
  | whileStatement =>
      unfold Task.script Task.read Parser.whileStatement
      simp only [play_bind, play_condition, play_pure, call, play, bind_pure, Task.read]
  | forStatement line =>
      unfold Task.script Task.read Parser.forStatement
      simp only [play_bind, play_expect_symbol, play_loop_start, play_loop_condition, play_expression_unless, play_pure, call, play, bind_pure, Task.read]
  | parameters =>
      unfold Task.script Task.read Parser.parameters
      simp only [play_bind, play_if, play_expect_name, play_accept_symbol, play_pure, call, play, bind_pure, Task.read]
  | expression =>
      unfold Task.script Task.read Parser.expression
      simp only [play_bind, play_if, play_peek, play_accept_symbol, play_assign_to, play_pure, call, play, bind_pure, Task.read]
  | operation levels =>
      cases levels with
      | nil =>
          unfold Task.script Task.read Parser.operation
          simp only [call, play, bind_pure, Task.read]
      | cons level tighter =>
          unfold Task.script Task.read Parser.operation
          simp only [play_bind, call, play, bind_pure, Task.read]
  | operands level tighter left =>
      unfold Task.script Task.read Parser.operands
      simp only [play_bind, play_if, play_peek, play_advance, play_mark, play_pure, call, play, bind_pure, Task.read]
  | unary =>
      unfold Task.script Task.read Parser.unary
      simp only [play_bind, play_if, play_peek, play_advance, play_mark, play_pure, call, play, bind_pure, Task.read]
  | suffixes callee =>
      unfold Task.script Task.read Parser.suffixes
      simp only [play_bind, play_if, play_accept_symbol, play_expect_name, play_mark, play_pure, call, play, bind_pure, Task.read]
  | arguments =>
      unfold Task.script Task.read Parser.arguments
      simp only [play_bind, play_if, play_peek, play_expect_symbol, play_pure, call, play, bind_pure, Task.read]
  | expressions =>
      unfold Task.script Task.read Parser.expressions
      simp only [play_bind, play_if, play_accept_symbol, play_pure, call, play, bind_pure, Task.read]
  | primary =>
      unfold Task.script Task.read Parser.primary
      simp only [play_bind, play_if, play_peek, play_advance, play_expect_symbol, play_mark, play_atom, play_pure, call, play, bind_pure, Task.read]

end Playing

end Script

end Parser

end TreeWalk
