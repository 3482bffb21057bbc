import TreeWalk.Proofs.Enough
import TreeWalk.Proofs.Programs
import TreeWalk.Proofs.Recognized

set_option autoImplicit false

namespace TreeWalk

open Grammar

namespace Grammar

end Grammar

namespace Parser

variable {α : Type}

section More

variable {c next : Cursor} {p : Parser α} {q : Nat → Parser α} {good : List Token → α → Prop}

end More

section Misreading

end Misreading

section Whole

variable {firstId : Nat} {tokens before after : List Token} {token : Token} {error : ParseError}

end Whole

end Parser

open TreeWalk.Parser

def Grammar.stray (value : List Token) : List Token :=
  ⟨.keyword .true, "true", 1⟩ :: ⟨.symbol .equal, "=", 1⟩ :: (value ++ [⟨.symbol .semicolon, ";", 1⟩, Token.finish 1])

end TreeWalk
