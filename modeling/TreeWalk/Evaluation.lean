import TreeWalk.Machine
import TreeWalk.Operators

namespace TreeWalk

inductive Flow where
  | normal
  | returned (value : Value)

namespace Eval

def distance? (id : Nat) : Eval (Option Nat) :=
  return (← get).distances[id]?

-- A name with a distance is read from that layer, and any other from the globals.
def readName (id : Nat) (name : Name) : Eval Value := do
  match ← distance? id with
  | some distance => onStore name.line (Store.getAt (← currentEnv) distance name.text)
  | none => onStore name.line (Store.get Machine.globals name.text)

def writeName (id : Nat) (name : Name) (value : Value) : Eval Unit := do
  match ← distance? id with
  | some distance => onStore name.line (Store.assignAt (← currentEnv) distance name.text value)
  | none => onStore name.line (Store.assign Machine.globals name.text value)

def asCondition (construct : Construct) (line : Nat) : Value → Eval Bool
  | .bool b => return b
  | value => fail line (.notCondition construct value)

def checkArity (value : Value) (arguments : List Value) (line : Nat) : Eval Unit :=
  match value.arity? with
  | none => fail line (.notCallable value)
  | some arity =>
      if arguments.length = arity then return ()
      else fail line (.argumentCount arity arguments.length)

def defineAll (env : Env) : List Name → List Value → Eval Unit
  | name :: names, value :: values => do
      onStore name.line (Store.define env name.text value)
      defineAll env names values
  | _, _ => return ()

def defineFunction (routine : Routine) : Eval Unit := do
  let identity ← onStore routine.name.line Store.newIdentity
  define routine.name (.function identity ⟨routine, ← currentEnv, false⟩)

def defineClass (name : Name) (methods : List Routine) : Eval Unit := do
  define name .none
  let env ← currentEnv
  let table := Bindings.ofList (methods.map fun m => (m.name.text, ⟨m, env, m.isConstructor⟩))
  let identity ← onStore name.line Store.newIdentity
  onStore name.line (Store.assign env name.text (.class ⟨identity, name.text, table⟩))

def property (name : Name) : Value → Eval Value
  | .object object => onStore name.line (Store.property object name.text)
  | value => fail name.line (.noProperties value)

-- What a call answers: a constructor its receiver, any other routine what it returned.
def answer (closure : Closure) (flow : Flow) : Eval Value :=
  if closure.isConstructor then
    onStore closure.routine.name.line (Store.getAt closure.env 0 "this")
  else match flow with
    | .returned value => return value
    | .normal => return .none

end Eval

-- What the walk leaves open: how a name is read and written from an expression with an identity,
-- and the environment of the next round of a loop, given that of the round behind it.
structure Regime where
  read : Nat → Name → Eval Value
  write : Nat → Name → Value → Eval Unit
  renew : Env → Eval Env

namespace Regime

open Eval

-- Names are found by their distance. All rounds of a loop share one layer, which is emptied
-- between them.
def standard : Regime where
  read := readName
  write := writeName
  renew env := do
    onStore 0 (Store.clear env)
    return env

-- Names are found by a search through the layers, from the innermost outwards.
def outward : Regime :=
  { standard with
    read := fun _ name => do
      onStore name.line (Store.get (← currentEnv) name.text)
    write := fun _ name value => do
      onStore name.line (Store.assign (← currentEnv) name.text value) }

-- Every round of a loop has a layer of its own.
def freshRounds : Regime :=
  { standard with renew := fun _ => childEnv }

variable (regime : Regime)

mutual
def evaluate : Nat → Expr → Eval Value
  | 0, _ => throw .exhausted
  | steps + 1, e =>
      match e with
      | .literal _ value => return value.value
      | .grouping _ inner => evaluate steps inner
      | .unary _ operator right => do
          let right ← evaluate steps right
          ofExcept operator.line (right.applyUnary operator)
      | .binary _ left operator right => do
          let left ← evaluate steps left
          let right ← evaluate steps right
          ofExcept operator.line (left.applyBinary operator right)
      | .logical _ left operator right => do
          match ← evaluate steps left with
          | .bool truth =>
              if Value.settles operator truth then return .bool truth
              else evaluate steps right
          | _ => fail operator.line (.notLogical operator.lexeme)
      | .ident mark name => regime.read mark.id name
      | .this mark name => regime.read mark.id name
      | .assign mark name value => do
          let value ← evaluate steps value
          regime.write mark.id name value
          return value
      | .call _ callee arguments line => do
          let callee ← evaluate steps callee
          let arguments ← evaluateAll steps arguments
          checkArity callee arguments line
          call steps callee arguments line
      | .get _ object name => do
          property name (← evaluate steps object)
      | .set _ object name value => do
          match ← evaluate steps object with
          | .object object =>
              let value ← evaluate steps value
              onStore name.line (Store.setField object name.text value)
              return value
          | _ => fail name.line .noFields

def evaluateAll : Nat → List Expr → Eval (List Value)
  | 0, _ => throw .exhausted
  | _ + 1, [] => return []
  | steps + 1, e :: rest => do
      let value ← evaluate steps e
      return value :: (← evaluateAll steps rest)

def call : Nat → Value → List Value → Nat → Eval Value
  | 0, _, _, _ => throw .exhausted
  | steps + 1, callee, arguments, line =>
      match callee with
      | .native native => native.call arguments line
      | .function _ closure => enter steps closure arguments
      | .class c => do
          let object ← onStore line (Store.newInstance c)
          match c.constructor? with
          | some method =>
              let bound ← onStore line (Store.bind method object)
              let _ ← enter steps bound arguments
              return .object object
          | none => return .object object
      | value => fail line (.notCallable value)

def enter : Nat → Closure → List Value → Eval Value
  | 0, _, _ => throw .exhausted
  | steps + 1, closure, arguments => do
      let env ← onStore 0 (Store.nest closure.env .empty)
      defineAll env closure.routine.parameters arguments
      let flow ← within env (executeAll steps closure.routine.body)
      answer closure flow

def execute : Nat → Stmt → Eval Flow
  | 0, _ => throw .exhausted
  | steps + 1, s =>
      match s with
      | .expression e => do
          let _ ← evaluate steps e
          return .normal
      | .var name none => do
          define name .none
          return .normal
      | .var name (some e) => do
          define name (← evaluate steps e)
          return .normal
      | .block body => do
          within (← childEnv) (executeAll steps body)
      | .branch condition body alternative => choose steps condition body alternative
      | .while condition body => do
          repeatWhile steps condition body (← childEnv)
      | .function routine => do
          defineFunction routine
          return .normal
      | .return _ none => return .returned .none
      | .return _ (some e) => do
          return .returned (← evaluate steps e)
      | .class name methods => do
          defineClass name methods
          return .normal

def executeAll : Nat → List Stmt → Eval Flow
  | 0, _ => throw .exhausted
  | _ + 1, [] => return .normal
  | steps + 1, s :: rest => do
      match ← execute steps s with
      | .normal => executeAll steps rest
      | .returned value => return .returned value

def choose : Nat → Expr → List Stmt → Alternative → Eval Flow
  | 0, _, _, _ => throw .exhausted
  | steps + 1, condition, body, alternative => do
      if ← asCondition .ifStatement condition.line (← evaluate steps condition) then
        within (← childEnv) (executeAll steps body)
      else
        match alternative with
        | .none => return .normal
        | .elseIf condition body alternative => choose steps condition body alternative
        | .block body => within (← childEnv) (executeAll steps body)

def repeatWhile : Nat → Expr → List Stmt → Env → Eval Flow
  | 0, _, _, _ => throw .exhausted
  | steps + 1, condition, body, env => do
      if ← asCondition .whileStatement condition.line (← evaluate steps condition) then
        match ← within env (executeAll steps body) with
        | .normal =>
            repeatWhile steps condition body (← regime.renew env)
        | .returned value => return .returned value
      else
        return .normal
end

def executeProgram (steps : Nat) : Program → Eval Unit
  | [] => return ()
  | s :: rest => do
      match ← regime.execute steps s with
      | .normal => executeProgram steps rest
      | .returned _ => return ()

def interpret (steps : Nat) (program : Program) : Eval Unit := do
  regime.executeProgram steps program
  flush

end Regime

end TreeWalk
