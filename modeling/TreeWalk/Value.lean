import TreeWalk.Bindings
import TreeWalk.Decimal.Layout
import TreeWalk.Syntax.Basic

namespace TreeWalk

structure Env where
  inner : Nat
  outer : List Nat
deriving DecidableEq, Repr

namespace Env

def chain (env : Env) : List Nat :=
  env.inner :: env.outer

def child (env : Env) (layer : Nat) : Env :=
  ⟨layer, env.chain⟩

end Env

inductive Native where
  | print | input | isOdd | isEven | typeOf
deriving DecidableEq, Repr

namespace Native

def all : List Native :=
  [print, input, isOdd, isEven, typeOf]

def name : Native → String
  | print => "Print" | input => "Input" | isOdd => "IsOdd" | isEven => "IsEven"
  | typeOf => "TypeOf"

def arity : Native → Nat
  | input => 0
  | print | isOdd | isEven | typeOf => 1

end Native

structure Closure where
  routine : Routine
  env : Env
  isConstructor : Bool

namespace Closure

def arity (closure : Closure) : Nat :=
  closure.routine.parameters.length

end Closure

structure ClassValue where
  identity : Nat
  name : String
  methods : Bindings Closure

namespace ClassValue

def constructor? (c : ClassValue) : Option Closure :=
  c.methods.find? Routine.constructorName

def arity (c : ClassValue) : Nat :=
  match c.constructor? with
  | some closure => closure.arity
  | none => 0

end ClassValue

structure Instance where
  identity : Nat
  ofClass : ClassValue

inductive Value where
  | number (value : Float)
  | string (contents : String)
  | bool (value : Bool)
  | none
  | native (native : Native)
  | function (identity : Nat) (closure : Closure)
  | class (c : ClassValue)
  | object (object : Instance)

namespace Value

-- A whole number below `10 ^ 15` is written without a point.
def numberStyle : WholeStyle :=
  ⟨some (Nat.pow 10 15), "", false⟩

def text : Value → String
  | number value => (Binary64.ofFloat value).text numberStyle
  | string contents => contents
  | bool true => "true"
  | bool false => "false"
  | none => "none"
  | native n => "[native func " ++ n.name ++ "]"
  | function _ closure => "[func " ++ closure.routine.name.text ++ "]"
  | .class c => "[class " ++ c.name ++ "]"
  | object o => "[" ++ o.ofClass.name ++ " class instance]"

-- Numbers are equal as floats, strings and truth values by content, the rest by identity.
def isEqual : Value → Value → Bool
  | number a, number b => a == b
  | string a, string b => a == b
  | bool a, bool b => a == b
  | none, none => true
  | native a, native b => a == b
  | function a _, function b _ => a == b
  | .class a, .class b => a.identity == b.identity
  | object a, object b => a.identity == b.identity
  | _, _ => false

-- Instances have no type name.
def typeName? : Value → Option String
  | number _ => some "number"
  | string _ => some "string"
  | bool _ => some "bool"
  | none => some "none"
  | native _ | function _ _ | .class _ => some "function"
  | object _ => Option.none

-- How many arguments a call takes, for what can be called.
def arity? : Value → Option Nat
  | native n => some n.arity
  | function _ closure => some closure.arity
  | .class c => some c.arity
  | number _ | string _ | bool _ | none | object _ => Option.none

end Value

namespace Literal

def value : Literal → Value
  | number value => .number value
  | string contents => .string contents
  | bool value => .bool value
  | none => .none

end Literal

end TreeWalk
