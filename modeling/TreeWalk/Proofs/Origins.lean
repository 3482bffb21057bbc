import TreeWalk.Proofs.Grammar
import TreeWalk.Proofs.Identities

set_option autoImplicit false

namespace TreeWalk

open Grammar

-- Where an expression is from: the tokens that it was read from, or a `for` that has no condition.
inductive Origin where
  | span (tokens : List Token)
  | implied (keyword : KeywordToken .for)

-- The first of the tokens, or the keyword where there are none.
def Origin.first? : Origin → Option Token
  | span tokens => tokens.head?
  | implied keyword => some keyword.1

-- The keyword of an expression without tokens.
def Origin.keyword? : Origin → Option Token
  | span _ => none
  | implied keyword => some keyword.1

structure Sourced where
  node : Expr
  origin : Origin

-- The expression is on the line of its first token.
def Sourced.Lined (sourced : Sourced) : Prop :=
  ∃ token, sourced.origin.first? = some token ∧ sourced.node.line = token.line

-- The parts of a program that are written in a piece.
inductive Tree where
  | expression (e : Expr)
  | arguments (es : List Expr)
  | optional (e : Option Expr)
  | statement (s : Stmt)
  | statements (body : List Stmt)
  | braced (body : List Stmt)
  | conditional (condition : Expr) (body : List Stmt) (alternative : Alternative)
  | alternative (alternative : Alternative)
  | start (s : Option Stmt)
  | test (keyword : KeywordToken .for) (condition : Expr)
  | parameters (names : List Name)
  | routine (routine : Routine)
  | routines (routines : List Routine)

def Tree.nodes : Tree → List Expr
  | .expression e | .test _ e => e.nodes
  | .arguments es => Expr.nodesAll es
  | .optional e => Expr.nodesAll e.toList
  | .statement s => s.nodes
  | .statements body | .braced body => Stmt.nodesAll body
  | .conditional condition body other => condition.nodes ++ Stmt.nodesAll body ++ other.nodes
  | .alternative other => other.nodes
  | .start s => Stmt.nodesAll s.toList
  | .parameters _ => []
  | .routine declared => declared.nodes
  | .routines methods => Routine.nodesAll methods

-- The keyword in front of a tree, which is not among its tokens.
def Tree.keyword? : Tree → Option Token
  | .test keyword _ => some keyword.1
  | _ => none

def Grammar.NameToken.named (token : NameToken) : Name :=
  ⟨token.1.lexeme, token.1.line⟩

-- Which token an expression begins with: its own, or the first one of its left part, which is among `all`.
def Sourced.Opened (all : List Sourced) (sourced : Sourced) : Prop :=
  match sourced.node with
  | .unary _ operator _ => sourced.origin.first? = some operator
  | .grouping .. => ∃ opened : SymbolToken .leftParen, sourced.origin.first? = some opened.1
  | .assign _ name _ => ∃ token : NameToken, sourced.origin.first? = some token.1 ∧ name = token.named
  | .binary _ left .. | .logical _ left .. | .call _ left .. | .get _ left _ | .set _ left .. =>
      ∃ other ∈ all, other.node = left ∧ sourced.origin.first? = other.origin.first?
  | .literal .. | .ident .. | .this .. => True

-- An expression above those that it is made of.
def Sourced.above (tokens : List Token) (node : Expr) (below : List Sourced) : List Sourced :=
  ⟨node, .span tokens⟩ :: below

open Sourced (above)

-- The tokens that a tree is written with, and all expressions in it, each above those that it is made of.
inductive Spells : List Token → Tree → List Sourced → Prop where
  | literal {value} (mark : Mark) (token : Token) (one : literal? token.kind = some value) :
      Spells [token] (.expression (.literal mark value)) (above [token] (.literal mark value) [])
  | this (mark : Mark) (token : KeywordToken .this) :
      Spells [token.1] (.expression (.this mark ⟨token.1.lexeme, token.1.line⟩))
        (above [token.1] (.this mark ⟨token.1.lexeme, token.1.line⟩) [])
  | ident (mark : Mark) (name : NameToken) :
      Spells [name.1] (.expression (.ident mark name.named)) (above [name.1] (.ident mark name.named) [])
  | grouping {ts inner ps} (mark : Mark) (opened : SymbolToken .leftParen) (closed : SymbolToken .rightParen)
      (inside : Spells ts (.expression inner) ps) :
      Spells (opened.1 :: (ts ++ [closed.1])) (.expression (.grouping mark inner))
        (above (opened.1 :: (ts ++ [closed.1])) (.grouping mark inner) ps)
  | unary {ts right ps} (mark : Mark) (operator : Token) (one : operator.kind ∈ prefixes)
      (operand : Spells ts (.expression right) ps) :
      Spells (operator :: ts) (.expression (.unary mark operator right))
        (above (operator :: ts) (.unary mark operator right) ps)
  | binary {ls left ps rs right qs} (mark : Mark) (level : Parser.Level) (plain : level.isLogical = false)
      (operator : Token) (one : operator.kind ∈ operators level) (first : Spells ls (.expression left) ps)
      (second : Spells rs (.expression right) qs) :
      Spells (ls ++ operator :: rs) (.expression (.binary mark left operator right))
        (above (ls ++ operator :: rs) (.binary mark left operator right) (ps ++ qs))
  | logical {ls left ps rs right qs} (mark : Mark) (level : Parser.Level) (logical : level.isLogical = true)
      (operator : Token) (one : operator.kind ∈ operators level) (first : Spells ls (.expression left) ps)
      (second : Spells rs (.expression right) qs) :
      Spells (ls ++ operator :: rs) (.expression (.logical mark left operator right))
        (above (ls ++ operator :: rs) (.logical mark left operator right) (ps ++ qs))
  | call {cs callee ps us list qs} (mark : Mark) (opened : SymbolToken .leftParen) (closed : SymbolToken .rightParen)
      (called : Spells cs (.expression callee) ps) (arguments : Spells us (.arguments list) qs) :
      Spells (cs ++ opened.1 :: (us ++ [closed.1])) (.expression (.call mark callee list closed.1.line))
        (above (cs ++ opened.1 :: (us ++ [closed.1])) (.call mark callee list closed.1.line) (ps ++ qs))
  | get {os object ps} (mark : Mark) (dot : SymbolToken .dot) (name : NameToken)
      (owner : Spells os (.expression object) ps) :
      Spells (os ++ [dot.1, name.1]) (.expression (.get mark object name.named))
        (above (os ++ [dot.1, name.1]) (.get mark object name.named) ps)
  | assign {ts value ps} (mark : Mark) (name : NameToken) (equal : SymbolToken .equal)
      (right : Spells ts (.expression value) ps) :
      Spells (name.1 :: equal.1 :: ts) (.expression (.assign mark name.named value))
        (above (name.1 :: equal.1 :: ts) (.assign mark name.named value) ps)
  | set {os object ps ts value qs} (mark : Mark) (dot : SymbolToken .dot) (name : NameToken) (equal : SymbolToken .equal)
      (owner : Spells os (.expression object) ps) (right : Spells ts (.expression value) qs) :
      Spells (os ++ dot.1 :: name.1 :: equal.1 :: ts) (.expression (.set mark object name.named value))
        (above (os ++ dot.1 :: name.1 :: equal.1 :: ts) (.set mark object name.named value) (ps ++ qs))

  | arguments_none : Spells [] (.arguments []) []
  | arguments_last {ts e ps} (expression : Spells ts (.expression e) ps) : Spells ts (.arguments [e]) ps
  | arguments_more {ts e ps us next rest qs} (comma : SymbolToken .comma) (first : Spells ts (.expression e) ps)
      (others : Spells us (.arguments (next :: rest)) qs) :
      Spells (ts ++ comma.1 :: us) (.arguments (e :: next :: rest)) (ps ++ qs)
  | optional_none : Spells [] (.optional none) []
  | optional_some {ts e ps} (expression : Spells ts (.expression e) ps) : Spells ts (.optional (some e)) ps

  | expression_statement {ts e ps} (ended : SymbolToken .semicolon) (expression : Spells ts (.expression e) ps) :
      Spells (ts ++ [ended.1]) (.statement (.expression e)) ps
  | var_none (keyword : KeywordToken .var) (name : NameToken) (ended : SymbolToken .semicolon) :
      Spells [keyword.1, name.1, ended.1] (.statement (.var name.named none)) []
  | var_some {ts e ps} (keyword : KeywordToken .var) (name : NameToken) (equal : SymbolToken .equal)
      (ended : SymbolToken .semicolon) (value : Spells ts (.expression e) ps) :
      Spells (keyword.1 :: name.1 :: equal.1 :: (ts ++ [ended.1])) (.statement (.var name.named (some e))) ps
  | returned {ts value ps} (keyword : KeywordToken .return) (ended : SymbolToken .semicolon)
      (result : Spells ts (.optional value) ps) :
      Spells (keyword.1 :: (ts ++ [ended.1])) (.statement (.return keyword.1.line value)) ps
  | block {ts body ps} (braces : Spells ts (.braced body) ps) : Spells ts (.statement (.block body)) ps
  | branch {ts condition body alternative ps} (keyword : KeywordToken .if)
      (rest : Spells ts (.conditional condition body alternative) ps) :
      Spells (keyword.1 :: ts) (.statement (.branch condition body alternative)) ps
  | whileLoop {es condition ps bs body qs} (keyword : KeywordToken .while) (opened : SymbolToken .leftParen)
      (closed : SymbolToken .rightParen) (test : Spells es (.expression condition) ps)
      (block : Spells bs (.braced body) qs) :
      Spells (keyword.1 :: opened.1 :: (es ++ closed.1 :: bs)) (.statement (.while condition body)) (ps ++ qs)
  -- The action stands in front of the body, and is run behind it.
  | forLoop {ss start ps cs condition qs ls action rs bs body us} (keyword : KeywordToken .for)
      (opened : SymbolToken .leftParen) (ended : SymbolToken .semicolon) (closed : SymbolToken .rightParen)
      (first : Spells ss (.start start) ps) (test : Spells cs (.test keyword condition) qs)
      (last : Spells ls (.optional action) rs) (block : Spells bs (.braced body) us) :
      Spells (keyword.1 :: opened.1 :: (ss ++ (cs ++ ended.1 :: (ls ++ closed.1 :: bs))))
        (.statement (Parser.loop start condition action body)) (ps ++ (qs ++ (us ++ rs)))
  | function {ts routine ps} (func : KeywordToken .func) (declared : Spells ts (.routine routine) ps) :
      Spells (func.1 :: ts) (.statement (.function routine)) ps
  | classOf {ts methods ps} (keyword : KeywordToken .class) (name : NameToken) (opened : SymbolToken .leftBrace)
      (closed : SymbolToken .rightBrace) (functions : Spells ts (.routines methods) ps) :
      Spells (keyword.1 :: name.1 :: opened.1 :: (ts ++ [closed.1])) (.statement (.class name.named methods)) ps

  | statements_none : Spells [] (.statements []) []
  | statements_more {ts s ps us rest qs} (first : Spells ts (.statement s) ps)
      (others : Spells us (.statements rest) qs) : Spells (ts ++ us) (.statements (s :: rest)) (ps ++ qs)
  | braced {ts body ps} (opened : SymbolToken .leftBrace) (closed : SymbolToken .rightBrace)
      (all : Spells ts (.statements body) ps) : Spells (opened.1 :: (ts ++ [closed.1])) (.braced body) ps
  | conditional {es condition ps bs body qs ls alternative rs} (opened : SymbolToken .leftParen)
      (closed : SymbolToken .rightParen) (test : Spells es (.expression condition) ps)
      (block : Spells bs (.braced body) qs) (others : Spells ls (.alternative alternative) rs) :
      Spells (opened.1 :: (es ++ closed.1 :: (bs ++ ls))) (.conditional condition body alternative) (ps ++ qs ++ rs)
  | alternative_none : Spells [] (.alternative .none) []
  | alternative_if {ts condition body alternative ps} (other : KeywordToken .else) (keyword : KeywordToken .if)
      (rest : Spells ts (.conditional condition body alternative) ps) :
      Spells (other.1 :: keyword.1 :: ts) (.alternative (.elseIf condition body alternative)) ps
  | alternative_block {ts body ps} (other : KeywordToken .else) (block : Spells ts (.braced body) ps) :
      Spells (other.1 :: ts) (.alternative (.block body)) ps
  | start_none (ended : SymbolToken .semicolon) : Spells [ended.1] (.start none) []
  | start_some {ts s ps} (statement : Spells ts (.statement s) ps) : Spells ts (.start (some s)) ps
  | test_given {ts condition ps} (keyword : KeywordToken .for) (expression : Spells ts (.expression condition) ps) :
      Spells ts (.test keyword condition) ps
  -- The only expression without tokens.
  | test_implied (keyword : KeywordToken .for) (mark : Mark) :
      Spells [] (.test keyword (.literal mark (.bool true))) [⟨.literal mark (.bool true), .implied keyword⟩]

  | parameters_none : Spells [] (.parameters []) []
  | parameters_last (name : NameToken) : Spells [name.1] (.parameters [name.named]) []
  | parameters_more {ts next rest ps} (name : NameToken) (comma : SymbolToken .comma)
      (others : Spells ts (.parameters (next :: rest)) ps) :
      Spells (name.1 :: comma.1 :: ts) (.parameters (name.named :: next :: rest)) ps
  | routine {ns parameters ps bs body qs} (name : NameToken) (opened : SymbolToken .leftParen)
      (closed : SymbolToken .rightParen) (names : Spells ns (.parameters parameters) ps)
      (block : Spells bs (.braced body) qs) :
      Spells (name.1 :: opened.1 :: (ns ++ closed.1 :: bs)) (.routine ⟨name.named, parameters, body⟩) (ps ++ qs)
  | routines_none : Spells [] (.routines []) []
  | routines_more {ts routine ps us rest qs} (first : Spells ts (.routine routine) ps)
      (others : Spells us (.routines rest) qs) : Spells (ts ++ us) (.routines (routine :: rest)) (ps ++ qs)

section Trees

variable {ts us : List Token} {tree : Tree} {sourced more : List Sourced}

theorem loop_nodes_order (start : Option Stmt) (condition : Expr) (action : Option Expr) (body : List Stmt) :
    (Parser.loop start condition action body).nodes =
      Stmt.nodesAll start.toList ++ (condition.nodes ++ (Stmt.nodesAll body ++ Expr.nodesAll action.toList)) := by
  cases start <;> cases action <;> simp [Parser.loop, Stmt.nodes, Stmt.nodesAll, Expr.nodesAll]

theorem spells_nodes (spells : Spells ts tree sourced) : sourced.map Sourced.node = tree.nodes := by
  induction spells with
  | forLoop keyword opened ended closed first test last block one two three four =>
      simp only [List.map_append, Tree.nodes, loop_nodes_order] at *
      rw [one, two, three, four]
  | @returned ts value ps keyword ended result ih =>
      cases value <;> simpa [Tree.nodes, Stmt.nodes, Expr.nodesAll] using ih
  | _ => simp_all [above, Tree.nodes, Expr.nodes, Expr.nodesAll, Stmt.nodes, Stmt.nodesAll, Alternative.nodes,
      Routine.nodes, Routine.nodesAll]

theorem spells_root {e : Expr} (spells : Spells ts (.expression e) sourced) :
    ts ≠ [] ∧ ∃ below, sourced = above ts e below := by
  cases spells <;> exact ⟨by simp, _, rfl⟩

theorem opened_mono {all : List Sourced} {one : Sourced} (opened : one.Opened all) (wider : all ⊆ more) :
    one.Opened more := by
  obtain ⟨node, origin⟩ := one
  cases node with
  | literal | ident | this | unary | grouping | assign => exact opened
  | binary | logical | call | get | set =>
      obtain ⟨other, member, same⟩ := opened
      exact ⟨other, wider member, same⟩

theorem opened_left {left : Expr} {all : List Sourced} (first : Spells ts (.expression left) sourced)
    (wider : sourced ⊆ all) : ∃ other ∈ all, other.node = left ∧ (ts ++ us).head? = other.origin.first? := by
  obtain ⟨filled, below, rfl⟩ := spells_root first
  exact ⟨⟨left, .span ts⟩, wider (List.mem_cons_self ..), rfl, by cases ts <;> trivial⟩

def Opening (sourced : List Sourced) : Prop :=
  ∀ one ∈ sourced, one.Opened sourced

theorem opening_nil : Opening [] :=
  nofun

theorem opening_above {e : Expr} (root : Sourced.Opened (above ts e sourced) ⟨e, .span ts⟩) (below : Opening sourced) :
    Opening (above ts e sourced) :=
  List.forall_mem_cons.mpr ⟨root, fun one member => opened_mono (below one member) (List.subset_cons_self _ _)⟩

theorem opening_append (left : Opening sourced) (right : Opening more) : Opening (sourced ++ more) :=
  List.forall_mem_append.mpr ⟨fun one member => opened_mono (left one member) (List.subset_append_left _ _),
    fun one member => opened_mono (right one member) (List.subset_append_right _ _)⟩

theorem spells_opening (spells : Spells ts tree sourced) : Opening sourced := by
  have below (node : Expr) (us : List Token) (left right : List Sourced) : left ⊆ above us node (left ++ right) :=
    fun _ member => List.mem_cons_of_mem _ (List.mem_append_left right member)
  induction spells with
  | literal | this | ident => exact opening_above trivial opening_nil
  | grouping mark opened closed inside ih => exact opening_above ⟨opened, rfl⟩ ih
  | unary mark operator one operand ih => exact opening_above rfl ih
  | binary mark level plain operator one first second ih others =>
      exact opening_above (opened_left first (below _ _ _ _)) (opening_append ih others)
  | logical mark level logical operator one first second ih others =>
      exact opening_above (opened_left first (below _ _ _ _)) (opening_append ih others)
  | call mark opened closed called arguments ih others =>
      exact opening_above (opened_left called (below _ _ _ _)) (opening_append ih others)
  | get mark dot name owner ih => exact opening_above (opened_left owner (List.subset_cons_self _ _)) ih
  | assign mark name equal right ih => exact opening_above ⟨name, rfl, rfl⟩ ih
  | set mark dot name equal owner right ih others =>
      exact opening_above (opened_left owner (below _ _ _ _)) (opening_append ih others)
  | test_implied keyword mark => exact List.forall_mem_singleton.mpr trivial
  | _ => grind [opening_nil, opening_append]

theorem literal_kind_plain {kind : TokenKind} {value : Literal} (one : literal? kind = some value) :
    kind.isFinish = false := by
  cases kind <;> first | rfl | cases one

theorem prefix_kind_plain {kind : TokenKind} (one : kind ∈ prefixes) : kind.isFinish = false := by
  cases kind <;> first | rfl | simp [prefixes] at one

theorem operator_kind_plain {kind : TokenKind} {level : Parser.Level} (one : kind ∈ operators level) :
    kind.isFinish = false := by
  cases level <;> cases kind <;> first | rfl | simp [operators] at one

theorem of_plain {kind : TokenKind} (more : kind.isFinish = false) (token : Of kind) :
    token.1.kind.isFinish = false := by
  rw [token.2, more]

theorem spells_plain (spells : Spells ts tree sourced) : ∀ token ∈ ts, token.kind.isFinish = false := by
  have symbol {symbol : Symbol} : ∀ token : SymbolToken symbol, token.1.kind.isFinish = false := of_plain rfl
  have keyword {keyword : Keyword} : ∀ token : KeywordToken keyword, token.1.kind.isFinish = false := of_plain rfl
  have name : ∀ token : NameToken, token.1.kind.isFinish = false := of_plain rfl
  induction spells with
  | literal mark token one => exact List.forall_mem_singleton.mpr (literal_kind_plain one)
  | _ => grind [prefix_kind_plain, operator_kind_plain]

def Inside (ts : List Token) (sourced : List Sourced) : Prop :=
  ∀ one ∈ sourced, ∀ span, one.origin = .span span → span <:+: ts

theorem inside_nil (ts : List Token) : Inside ts [] :=
  nofun

theorem inside_append : Inside ts (sourced ++ more) ↔ Inside ts sourced ∧ Inside ts more :=
  List.forall_mem_append

theorem inside_left (us : List Token) (inside : Inside ts sourced) : Inside (ts ++ us) sourced :=
  fun one member span same => (inside one member span same).trans (List.prefix_append ts us).isInfix

theorem inside_right (ts : List Token) (inside : Inside us sourced) : Inside (ts ++ us) sourced :=
  fun one member span same => (inside one member span same).trans (List.suffix_append ts us).isInfix

theorem inside_behind (token : Token) (inside : Inside ts sourced) : Inside (token :: ts) sourced :=
  inside_right [token] inside

theorem inside_above (node : Expr) (inside : Inside ts sourced) : Inside ts (above ts node sourced) := by
  intro one member span same
  rcases List.mem_cons.mp member with rfl | below
  · cases same
    exact List.infix_rfl
  · exact inside one below span same

theorem spells_inside (spells : Spells ts tree sourced) : Inside ts sourced := by
  induction spells with
  | test_implied keyword mark =>
      intro one member span same
      obtain rfl := List.mem_singleton.mp member
      cases same
  | _ => grind [inside_append, ← inside_nil, ← inside_left, ← inside_right, ← inside_behind, ← inside_above]

theorem spells_implied (spells : Spells ts tree sourced) : ∀ one ∈ sourced, ∀ token, one.origin.keyword? = some token →
    (∃ mark, one.node = .literal mark (.bool true)) ∧ (token ∈ ts ∨ tree.keyword? = some token) := by
  induction spells with
  | test_implied keyword mark =>
      intro one member token same
      obtain rfl := List.mem_singleton.mp member
      exact ⟨⟨mark, rfl⟩, .inr same⟩
  | _ => grind [above, Origin.keyword?, Tree.keyword?]

end Trees

end TreeWalk
