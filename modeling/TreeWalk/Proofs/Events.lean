import TreeWalk.Machine
import TreeWalk.Syntax.References

set_option autoImplicit false

namespace TreeWalk

inductive Site where
  | block (body : List Stmt)
  | branch (body : List Stmt)
  | otherwise (body : List Stmt)
  | loop (body : List Stmt)
  | routine (routine : Routine)
  | receiver (name : Name) (methods : List Routine)

namespace Site

def isDeferred : Site → Bool
  | routine _ | receiver _ _ => true
  | block _ | branch _ | otherwise _ | loop _ => false

end Site

structure Frame where
  site : Site
  scope : Scope

namespace Expr

def reference? : Expr → Option Reference
  | ident mark name | assign mark name _ | this mark name => some ⟨name.text, mark.id⟩
  | _ => none

end Expr

structure Visit where
  node : Expr
  sites : List Site
  scopes : List Scope

namespace Visit

def ofFrames (node : Expr) (frames : List Frame) : Visit :=
  ⟨node, frames.map Frame.site, frames.map Frame.scope⟩

def reference? (v : Visit) : Option Reference :=
  v.node.reference?

def found (v : Visit) : Option Nat :=
  v.node.reference?.bind fun r => v.scopes.findIdx? fun scope => scope.contains r.name

def isReady (v : Visit) : Option Bool :=
  v.node.reference?.bind fun r => v.scopes.findSome? fun scope => scope.find? r.name

end Visit

inductive Cause where
  | creation
  | property (name : Name)

inductive Event where
  -- A reference was checked, in a program that was accepted.
  | visited (visit : Visit)
  -- A layer was made for a scope.
  | opened (site : Site) (layer : Nat)
  | named (layer : Nat) (name : String)
  -- A loop took every binding out of its layer.
  | emptied (layer : Nat)
  | declared (name : Name) (methods : List Routine) (made : ClassValue)
  -- A method got its innermost layer, which holds `this`.
  | bound (cause : Cause) (closure : Closure) (object : Instance)
  | called (callee : Expr)
  -- A closure was called, and its body is to run.
  | entered (closure : Closure) (machine : Machine)
  -- A reference is about to be looked up.
  | reached (node : Expr) (machine : Machine)

def OpenedFor (events : List Event) (site : Site) (layer : Nat) : Prop :=
  match site with
  | .receiver name methods => ∃ cause closure object,
      Event.bound cause closure object ∈ events ∧ closure.env.inner = layer ∧
        Event.declared name methods object.ofClass ∈ events
  | site => Event.opened site layer ∈ events

def Lost (events : List Event) (layer : Nat) (name : String) : Prop :=
  ∃ newer older, events = newer ++ .emptied layer :: older ∧ Event.named layer name ∉ newer

end TreeWalk
