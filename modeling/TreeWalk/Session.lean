import TreeWalk.Evaluation
import TreeWalk.Syntax.Parser
import TreeWalk.Text.Blank

namespace TreeWalk

structure Session where
  machine : Machine
  nextId : Nat

abbrev SessionM := EStateM Halt Session

namespace Session

def start (source : Source) (sink : Sink) : Session :=
  ⟨.start source sink, 0⟩

def fail {α : Type} (error : Error) : SessionM α :=
  throw (.failed error)

@[inline]
def onMachine {α : Type} (act : Eval α) : SessionM α := fun s =>
  match act s.machine with
  | .ok a machine => .ok a { s with machine }
  | .error halt machine => .error halt { s with machine }

-- The program of a text. Only a text that is a program uses up identities.
def parse (source : String) : SessionM Program := do
  match tokenize source with
  | .error e => fail (.lexical e)
  | .ok tokens =>
      match TreeWalk.parse (← get).nextId tokens with
      | .error e => fail (.grammar e)
      | .ok (program, nextId) =>
          modify fun s => { s with nextId }
          return program

def resolve (program : Program) : Eval Unit := fun m =>
  match program.resolve m.distances with
  | (.ok _, distances) => .ok () { m with distances }
  | (.error e, distances) => .error (.failed (.scoping e)) { m with distances }

def runUnder (regime : Regime) (steps : Nat) (source : String) : SessionM Unit := do
  let program ← parse source
  onMachine do
    resolve program
    regime.interpret steps program

def run (steps : Nat) (source : String) : SessionM Unit :=
  runUnder .standard steps source

inductive Turn where
  | over
  | done
  | failed (error : Error)

def write (text : String) : SessionM Unit :=
  onMachine (Eval.onSink .stream (Sink.write text))

def turn (steps : Nat) (prompt : String) : SessionM Turn := do
  write prompt
  onMachine Eval.flush
  let line ← onMachine (Eval.onSource .stream Source.readLine)
  if line.isEmpty then
    write "\n"
    return .over
  else if line.toList.all Text.isBlank then
    return .done
  else fun s =>
    match run steps line s with
    | .ok _ s => .ok .done s
    | .error (.failed error) s => .ok (.failed error) s
    | .error .exhausted s => .error .exhausted s

structure Transcript where
  failures : List Error
  ending : Except Halt Unit

def takeTurns (steps : Nat) (prompt : String) (reported : List Error) :
    Nat → Session → Transcript × Session
  | 0, s => (⟨reported.reverse, .error .exhausted⟩, s)
  | turns + 1, s =>
      match turn steps prompt s with
      | .ok .over s => (⟨reported.reverse, .ok ()⟩, s)
      | .ok .done s => takeTurns steps prompt reported turns s
      | .ok (.failed error) s => takeTurns steps prompt (error :: reported) turns s
      | .error halt s => (⟨reported.reverse, .error halt⟩, s)

def repl (steps : Nat) (prompt : String) (s : Session) : Transcript × Session :=
  takeTurns steps prompt [] (s.machine.source.rest.length + 1) s

end Session

end TreeWalk
