import Mathlib.Logic.Relation
import TreeWalk.Proofs.Calls
import TreeWalk.Proofs.Identities
import TreeWalk.Proofs.Reflected

set_option autoImplicit false

namespace TreeWalk

namespace Site

def given : Site → List String
  | routine r => r.parameters.map Name.text
  | receiver _ _ => [receiverName]
  | block _ | branch _ | otherwise _ | loop _ => []

def statements : Site → List Stmt
  | block body | branch body | otherwise body | loop body => body
  | routine r => r.body
  | receiver _ _ => []

def names (site : Site) : List String :=
  site.given ++ Stmt.ownAll site.statements

end Site

-- A scope around a part of a program, with the names that it declares in front of the part.
structure Enclosure where
  site : Site
  earlier : List String

theorem plain_not_receiver {site : Site} (plain : site.isDeferred = false) : site.isReceiver = false := by
  cases site <;> first | rfl | cases plain

namespace Enclosure

-- Scopes go from the innermost outward, and the top level of a program is none. A declaration
-- belongs to the innermost one.
def declare (names : List String) : List Enclosure → List Enclosure
  | [] => []
  | scope :: outer => { scope with earlier := scope.earlier ++ names } :: outer

theorem declare_nil (scopes : List Enclosure) : declare [] scopes = scopes := by
  cases scopes with
  | nil => rfl
  | cons scope outer => simp only [declare, List.append_nil]

theorem declare_append (names others : List String) (scopes : List Enclosure) :
    declare (names ++ others) scopes = declare others (declare names scopes) := by
  cases scopes with
  | nil => rfl
  | cons scope outer => simp only [declare, List.append_assoc]

-- The innermost routine, with the scopes around it.
def routine? : List Enclosure → Option (Routine × List Enclosure)
  | [] => none
  | ⟨.routine r, _⟩ :: outer => some (r, outer)
  | _ :: outer => routine? outer

theorem routine_past {scope : Enclosure} (plain : scope.site.isDeferred = false) (scopes : List Enclosure) :
    routine? (scope :: scopes) = routine? scopes := by
  obtain ⟨site, earlier⟩ := scope
  cases site <;> first | rfl | cases plain

-- A routine that stands right in the scope of a class is a method.
def inClass (scopes : List Enclosure) : Bool :=
  scopes.head?.any fun scope => scope.site.isReceiver

end Enclosure

inductive Part where
  | statement (s : Stmt)
  -- An `if` is the first of its alternatives.
  | alternative (a : Alternative)
  | expression (e : Expr)
  | scope (site : Site)

-- A part of a program with the scopes around it.
structure Position where
  scopes : List Enclosure
  part : Part

namespace Expr

-- An expression holds itself, its children and all that they hold.
def Holds : Expr → Expr → Prop :=
  Relation.ReflTransGen fun e child => child ∈ e.children

end Expr

open Enclosure in
-- What stands right in a part, under the same scopes or under one more. The name of a variable is
-- declared in front of its first value, and that of a function or a class in front of its inside.
inductive Position.Has : Position → Position → Prop where
  | expression (scopes : List Enclosure) (e : Expr) :
      Has ⟨scopes, .statement (.expression e)⟩ ⟨scopes, .expression e⟩
  | initializer (scopes : List Enclosure) (name : Name) (e : Expr) :
      Has ⟨scopes, .statement (.var name (some e))⟩ ⟨declare [name.text] scopes, .expression e⟩
  | returned (scopes : List Enclosure) (line : Nat) (e : Expr) :
      Has ⟨scopes, .statement (.return line (some e))⟩ ⟨scopes, .expression e⟩
  | block (scopes : List Enclosure) (body : List Stmt) :
      Has ⟨scopes, .statement (.block body)⟩ ⟨scopes, .scope (.block body)⟩
  | branch (scopes : List Enclosure) (condition : Expr) (body : List Stmt) (alternative : Alternative) :
      Has ⟨scopes, .statement (.branch condition body alternative)⟩
        ⟨scopes, .alternative (.elseIf condition body alternative)⟩
  | repeated (scopes : List Enclosure) (condition : Expr) (body : List Stmt) :
      Has ⟨scopes, .statement (.while condition body)⟩ ⟨scopes, .expression condition⟩
  | loop (scopes : List Enclosure) (condition : Expr) (body : List Stmt) :
      Has ⟨scopes, .statement (.while condition body)⟩ ⟨scopes, .scope (.loop body)⟩
  | function (scopes : List Enclosure) (r : Routine) :
      Has ⟨scopes, .statement (.function r)⟩ ⟨declare [r.name.text] scopes, .scope (.routine r)⟩
  | class (scopes : List Enclosure) (name : Name) (methods : List Routine) :
      Has ⟨scopes, .statement (.class name methods)⟩ ⟨declare [name.text] scopes, .scope (.receiver name methods)⟩
  | condition (scopes : List Enclosure) (condition : Expr) (body : List Stmt) (alternative : Alternative) :
      Has ⟨scopes, .alternative (.elseIf condition body alternative)⟩ ⟨scopes, .expression condition⟩
  | chosen (scopes : List Enclosure) (condition : Expr) (body : List Stmt) (alternative : Alternative) :
      Has ⟨scopes, .alternative (.elseIf condition body alternative)⟩ ⟨scopes, .scope (.branch body)⟩
  | further (scopes : List Enclosure) (condition : Expr) (body : List Stmt) (alternative : Alternative) :
      Has ⟨scopes, .alternative (.elseIf condition body alternative)⟩ ⟨scopes, .alternative alternative⟩
  | otherwise (scopes : List Enclosure) (body : List Stmt) :
      Has ⟨scopes, .alternative (.block body)⟩ ⟨scopes, .scope (.otherwise body)⟩
  | child (scopes : List Enclosure) (e child : Expr) (member : child ∈ e.children) :
      Has ⟨scopes, .expression e⟩ ⟨scopes, .expression child⟩
  | statement (scopes : List Enclosure) (site : Site) (before : List Stmt) (s : Stmt) (after : List Stmt)
      (split : site.statements = before ++ s :: after) :
      Has ⟨scopes, .scope site⟩ ⟨⟨site, site.given ++ Stmt.ownAll before⟩ :: scopes, .statement s⟩
  | method (scopes : List Enclosure) (name : Name) (methods : List Routine) (method : Routine)
      (member : method ∈ methods) :
      Has ⟨scopes, .scope (.receiver name methods)⟩
        ⟨⟨.receiver name methods, [receiverName]⟩ :: scopes, .scope (.routine method)⟩

namespace Position

def Reaches : Position → Position → Prop :=
  Relation.ReflTransGen Has

theorem reaches_head_iff (property : Position → Prop) (p : Position) :
    (∀ q, p.Reaches q → property q) ↔ property p ∧ ∀ q, p.Has q → ∀ r, q.Reaches r → property r := by
  constructor
  · intro all
    exact ⟨all p .refl, fun q has r reaches => all r (.head has reaches)⟩
  · rintro ⟨here, inside⟩ q reaches
    rcases Relation.ReflTransGen.cases_head reaches with rfl | ⟨mid, has, further⟩
    · exact here
    · exact inside mid has q further

end Position

namespace Program

def Shows (program : Program) (p : Position) : Prop :=
  ∃ s ∈ program, Position.Reaches ⟨[], .statement s⟩ p

end Program

theorem shows_induction {program : Program} {property : Position → Prop}
    (start : ∀ s ∈ program, property ⟨[], .statement s⟩)
    (step : ∀ p q : Position, p.Has q → property p → property q) (p : Position) (shows_ : program.Shows p) :
    property p := by
  obtain ⟨s, member, reaches⟩ := shows_
  induction reaches with
  | refl => exact start s member
  | tail _ has ih => exact step _ _ has ih

end TreeWalk
