import TreeWalk.CommandLine.Arguments
import TreeWalk.CommandLine.Directory
import TreeWalk.Console
import TreeWalk.Session
import TreeWalk.Syntax.Printer
import TreeWalk.Token.Printer

namespace TreeWalk.CommandLine

structure World where
  arguments : List String
  directory : Directory
  input : List UInt8
  environment : List (String × String)

structure Outcome where
  exitCode : Nat
  stdout : String
  stderr : String
  directory : Directory

def versionText : String :=
  "enkel 0.1.0"

def logName : String :=
  "enkel.log"

namespace World

def lexErrors (items : List (Except LexError Token)) : List Error :=
  items.filterMap fun
    | .ok _ => none
    | .error e => some (.lexical e)

def tokensOf (items : List (Except LexError Token)) : List Token :=
  items.filterMap fun
    | .ok token => some token
    | .error _ => none

def colourVariables : List String :=
  ["NO_COLOR", "FORCE_COLOR", "CLICOLOR_FORCE"]

def ansi (w : World) : Bool :=
  let isSet (name : String) := w.environment.any (·.1 == name)
  let isOn (name : String) := w.environment.any fun v => v.1 == name && v.2 != "0"
  !isSet "NO_COLOR" && (isSet "FORCE_COLOR" || isOn "CLICOLOR_FORCE")

def message (w : World) (level : Level) (text : String) : String :=
  level.paint text w.ansi ++ "\n"

def warning (w : World) (error : Error) : String :=
  w.message .warning error.message

def warnings (w : World) (errors : List Error) : String :=
  String.join (errors.map w.warning)

def outcome (w : World) (exitCode : Nat) (stdout stderr : String) : Outcome :=
  ⟨exitCode, stdout, stderr, w.directory⟩

-- Whether the input can make a difference: a script reads it only by the name of the native.
def needsInput (directory : Directory) : Command → Bool
  | .repl => true
  | .run path =>
      match directory.read path with
      | .ok source =>
          (tokensOf (Lexer.items (Text.lines source.toList))).any fun token =>
            token.lexeme == Native.input.name
      | .error _ => false
  | .tokenize _ _ | .parse _ => false

def refusal (w : World) (context : String) (cause : ReadError) : Outcome :=
  w.outcome 1 "" ("Error: " ++ context ++ "\n\nCaused by:\n    " ++ cause.text ++ "\n")

def cannotFind (path : String) : String :=
  "Can't find file '" ++ path ++ "' script in path"

def withSource (w : World) (path : String) (act : String → Outcome) : Outcome :=
  match w.directory.read path with
  | .ok source => act source
  | .error cause => w.refusal (cannotFind path) cause

def exitCode (error : Error) : Nat :=
  if error.isStatic then 65 else 70

def outOfSteps : String :=
  "Error: out of steps\n"

def runSource (w : World) (steps : Nat) (path source : String) : Outcome :=
  let heading := w.message .info ("Running script: " ++ fileName path)
  match Session.run steps source (.start (.ofOctets w.input) .unlimited) with
  | .ok _ s => w.outcome 0 s.machine.sink.text heading
  | .error (.failed error) s =>
      w.outcome (exitCode error) s.machine.sink.text (heading ++ w.warning error)
  | .error .exhausted s => w.outcome 70 s.machine.sink.text (heading ++ outOfSteps)

def run (w : World) (steps : Nat) (path : String) : Outcome :=
  if w.directory.contains path then w.withSource path (w.runSource steps path)
  else w.outcome 66 "" (w.message .critical (cannotFind (fileName path)))

def repl (w : World) (steps : Nat) : Outcome :=
  let (transcript, s) := Session.repl steps "> " (.start (.ofOctets w.input) .unlimited)
  let stdout := s.machine.sink.text
  let stderr := w.warnings transcript.failures
  match transcript.ending with
  | .ok _ => w.outcome 0 stdout stderr
  | .error (.failed error) => w.outcome 1 stdout (stderr ++ "Error: " ++ error.message ++ "\n")
  | .error .exhausted => w.outcome 1 stdout (stderr ++ outOfSteps)

def tokenize (w : World) (json : Bool) (source : String) : Outcome :=
  let items := Lexer.items (Text.lines source.toList)
  let tokens := tokensOf items
  let errors := lexErrors items
  let stdout :=
    if json then Token.jsonArray tokens ++ "\n"
    else String.join (tokens.map fun token => token.display ++ "\n")
  w.outcome (if errors.isEmpty then 0 else 65) stdout (w.warnings errors)

def parse (w : World) (source : String) : Outcome :=
  match Session.parse source (.start ⟨[]⟩ .unlimited) with
  | .ok program _ => w.outcome 0 (program.print ++ "\n") ""
  | .error (.failed error) _ => w.outcome 65 "" (w.warning error)
  | .error .exhausted _ => w.outcome 65 "" outOfSteps

def perform (w : World) (steps : Nat) : Command → Outcome
  | .run path => w.run steps path
  | .repl => w.repl steps
  | .tokenize path json => w.withSource path (w.tokenize json)
  | .parse path => w.withSource path w.parse

def logged (w : World) : World :=
  { w with directory := w.directory.write logName [] }

def withLog (w : World) (act : World → Outcome) : Outcome :=
  match w.directory.find logName with
  | .ok .directory => w.refusal ("Failed to create " ++ logName) .isDirectory
  | _ => act w.logged

def answer (w : World) (steps : Nat) : Outcome :=
  match Request.read false w.arguments with
  | .version => w.outcome 0 (versionText ++ "\n") ""
  | .usage argument => w.outcome 2 "" ("error: unexpected or missing argument '" ++ argument ++ "'\n")
  | .perform command log =>
      if log then w.withLog fun w => w.perform steps command
      else w.perform steps command

end World

end TreeWalk.CommandLine
