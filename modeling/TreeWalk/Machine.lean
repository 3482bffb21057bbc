import TreeWalk.Error
import TreeWalk.Store

namespace TreeWalk

structure Machine where
  store : Store
  env : Env
  distances : Distances
  source : Source
  sink : Sink

inductive Halt where
  | failed (error : Error)
  | exhausted

abbrev Eval := EStateM Halt Machine

namespace Machine

def globals : Env :=
  ⟨0, []⟩

def start (source : Source) (sink : Sink) : Machine :=
  { store := { Store.empty with layers := #[Store.natives] }
    env := globals
    distances := ∅
    source
    sink }

end Machine

namespace Eval

def fail {α : Type} (line : Nat) (fault : RuntimeFault) : Eval α :=
  throw (.failed (.runtime ⟨line, fault⟩))

@[inline]
def onStore {α : Type} (line : Nat) (act : StoreM α) : Eval α := fun m =>
  let store := m.store
  let m := { m with store := .empty }
  match act store with
  | .ok a store => .ok a { m with store }
  | .error fault store => .error (.failed (.runtime ⟨line, fault⟩)) { m with store }

@[inline]
def onSink {α : Type} (error : StreamError → Error) (act : EStateM StreamError Sink α) :
    Eval α := fun m =>
  let sink := m.sink
  let m := { m with sink := .unlimited }
  match act sink with
  | .ok a sink => .ok a { m with sink }
  | .error e sink => .error (.failed (error e)) { m with sink }

@[inline]
def onSource {α : Type} (error : StreamError → Error) (act : EStateM StreamError Source α) :
    Eval α := fun m =>
  match act m.source with
  | .ok a source => .ok a { m with source }
  | .error e source => .error (.failed (error e)) { m with source }

def ofExcept {α : Type} (line : Nat) : Except RuntimeFault α → Eval α
  | .ok a => return a
  | .error fault => fail line fault

@[inline]
def within {α : Type} (env : Env) (act : Eval α) : Eval α := fun m =>
  let here := m.env
  match act { m with env } with
  | .ok a m => .ok a { m with env := here }
  | .error halt m => .error halt { m with env := here }

def currentEnv : Eval Env :=
  return (← get).env

def childEnv : Eval Env := do
  onStore 0 (Store.nest (← currentEnv) .empty)

def define (name : Name) (value : Value) : Eval Unit := do
  onStore name.line (Store.define (← currentEnv) name.text value)

def note (id distance line : Nat) : Eval Unit := fun m =>
  match m.distances.note id distance line with
  | .ok distances => .ok () { m with distances }
  | .error e => .error (.failed (.scoping e)) m

def flush : Eval Unit :=
  onSink .stream Sink.flush

end Eval

namespace Native

def streamError (native : Native) (line : Nat) (error : StreamError) : Error :=
  .runtime ⟨line, .stream native error⟩

def writeLine (native : Native) (line : Nat) (text : String) : Eval Unit :=
  Eval.onSink (native.streamError line) (Sink.write (text ++ "\n"))

-- A line without the line feeds and carriage returns at its end.
def trimLine (text : String) : String :=
  String.ofList (text.toList.reverse.dropWhile fun c => c == '\n' || c == '\r').reverse

def parity (native : Native) (line : Nat) : Value → Eval Bool
  | .number n => return (Binary64.ofFloat n).isEven
  | value => Eval.fail line (.noParity native value)

def call (native : Native) (arguments : List Value) (line : Nat) : Eval Value := do
  let value := arguments.headD .none
  match native with
  | print =>
      native.writeLine line value.text
      return .none
  | input =>
      Eval.onSink (native.streamError line) Sink.flush
      return .string (trimLine (← Eval.onSource (native.streamError line) Source.readLine))
  | isOdd => return .bool !(← native.parity line value)
  | isEven => return .bool (← native.parity line value)
  | typeOf =>
      match value.typeName? with
      | some name =>
          native.writeLine line name
          return .none
      | none => Eval.fail line (.noType value)

end Native

end TreeWalk
