namespace TreeWalk.CommandLine

inductive Command where
  | run (path : String)
  | repl
  | tokenize (path : String) (json : Bool)
  | parse (path : String)
deriving DecidableEq, Repr

namespace Command

def path? : Command → Option String
  | run path | tokenize path _ | parse path => some path
  | repl => none

end Command

inductive Request where
  | perform (command : Command) (log : Bool)
  | version
  | usage (argument : String)
deriving DecidableEq, Repr

inductive CommandName where
  | run | repl | tokenize | parse
deriving DecidableEq, Repr

namespace CommandName

def ofText? : String → Option CommandName
  | "run" => some run
  | "repl" => some repl
  | "tokenize" => some tokenize
  | "parse" => some parse
  | _ => none

end CommandName

structure Arguments where
  path : Option String
  json : Bool
  log : Bool
deriving DecidableEq, Repr

namespace Arguments

def command? (arguments : Arguments) : CommandName → Option Command
  | .run => arguments.path.map Command.run
  | .repl => some .repl
  | .tokenize => arguments.path.map (Command.tokenize · arguments.json)
  | .parse => arguments.path.map Command.parse

def takesPath (arguments : Arguments) (name : CommandName) : Bool :=
  name != .repl && arguments.path.isNone

def isOption (argument : String) : Bool :=
  argument.startsWith "-" && argument != "-"

-- Reads the arguments behind a command. Behind `--` there are no options, and no path is empty.
def read (name : CommandName) (log : Bool) (options : Bool) (arguments : Arguments) :
    List String → Request
  | [] =>
      match arguments.command? name with
      | some command => .perform command (log || arguments.log)
      | none => .usage "FILENAME"
  | argument :: rest =>
      if options && argument == "--" then read name log false arguments rest
      else if options && argument == "--log" && !arguments.log then
        read name log options { arguments with log := true } rest
      else if options && argument == "--json" && name == .tokenize && !arguments.json then
        read name log options { arguments with json := true } rest
      else if (options && isOption argument) || argument.isEmpty || !arguments.takesPath name then
        .usage argument
      else read name log options { arguments with path := some argument } rest

end Arguments

-- Whether the version is asked for. Of letters behind one dash the first counts.
def asksVersion (argument : String) : Bool :=
  argument == "--version" || argument.startsWith "-V"

def Request.read (log : Bool) : List String → Request
  | [] | ["--"] => .perform .repl log
  | argument :: rest =>
      if argument == "--log" && !log then read true rest
      else if asksVersion argument then .version
      else match CommandName.ofText? argument with
        | some name => Arguments.read name log true ⟨none, false, false⟩ rest
        | none => .usage argument

end TreeWalk.CommandLine
