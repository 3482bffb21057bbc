namespace TreeWalk

inductive Level where
  | info
  | warning
  | critical
deriving DecidableEq, Repr

namespace Level

def colour : Level → String
  | info => "36"
  | warning => "93"
  | critical => "91"

def paint (level : Level) (message : String) (ansi : Bool) : String :=
  if ansi then "\x1b[" ++ level.colour ++ "m" ++ message ++ "\x1b[39m" else message

end Level

end TreeWalk
