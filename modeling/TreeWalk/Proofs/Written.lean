import TreeWalk.Proofs.Lexemes
import TreeWalk.Proofs.Programs
import TreeWalk.Proofs.Recognized
import TreeWalk.Proofs.Unchained

set_option autoImplicit false

namespace TreeWalk

open Grammar

namespace Lexer

theorem lexeme_symbol {text : List Char} {s : Symbol} (is : Lexeme text (.symbol s)) : text = s.text.toList := by
  cases is
  rfl

theorem lexeme_keyword {text : List Char} {k : Keyword} (is : Lexeme text (.keyword k)) : text = k.text.toList := by
  cases is
  rfl

theorem lexeme_string {text : List Char} {contents : String} (is : Lexeme text (.string contents)) :
    '"' ∉ contents.toList := by
  cases is with
  | string _ unquoted => rwa [String.toList_ofList]

theorem item_lexeme (line : Nat) (first : Char) (rest : List Char) (token : Token)
    (read : item line (first :: rest) (matchAt first rest) = .ok token) : Lexeme token.lexeme.toList token.kind := by
  have finds := match_at_finds first rest
  cases matched : matchAt first rest with
  | nothing width => simp [matched, item] at read
  | token kind width =>
      simp only [matched, item, Except.ok.injEq] at read
      rw [matched] at finds
      obtain ⟨lexeme, begins, rfl, is⟩ := finds
      rw [← read, ← List.prefix_iff_eq_take.mp begins, String.toList_ofList]
      exact is

end Lexer

def Token.Spelt (token : Token) : Prop :=
  Lexer.Lexeme token.lexeme.toList token.kind

structure Name.Written (name : Name) : Prop where
  line : name.line = 0
  spelt : Lexer.Lexeme name.text.toList .identifier

structure Operator (kinds : List TokenKind) (token : Token) : Prop where
  line : token.line = 0
  one : token.kind ∈ kinds
  spelt : token.Spelt

def Literal.Written : Literal → Prop
  | .string contents => '"' ∉ contents.toList
  | .number _ | .bool _ | .none => True

def Grammar.calculations : List TokenKind :=
  [.symbol .bangEqual, .symbol .equalEqual, .symbol .greater, .symbol .greaterEqual, .symbol .less,
    .symbol .lessEqual, .symbol .minus, .symbol .plus, .symbol .slash, .symbol .star]

def Grammar.connectives : List TokenKind :=
  [.keyword .or, .keyword .and]

inductive Expr.Written : Expr → Prop where
  | literal {value} (clean : value.Written) : Written (.literal unmarked value)
  | grouping {inner} (inside : Written inner) : Written (.grouping unmarked inner)
  | unary {operator right} (sign : Operator prefixes operator) (operand : Written right) :
      Written (.unary unmarked operator right)
  | binary {left operator right} (sign : Operator calculations operator) (first : Written left) (second : Written right) :
      Written (.binary unmarked left operator right)
  | logical {left operator right} (sign : Operator connectives operator) (first : Written left) (second : Written right) :
      Written (.logical unmarked left operator right)
  | ident {name : Name} (named : name.Written) : Written (.ident unmarked name)
  | assign {name : Name} {value} (named : name.Written) (result : Written value) : Written (.assign unmarked name value)
  | call {callee arguments} (called : Written callee) (others : ∀ e ∈ arguments, Written e) :
      Written (.call unmarked callee arguments 0)
  | get {object} {name : Name} (owner : Written object) (named : name.Written) : Written (.get unmarked object name)
  | set {object} {name : Name} {value} (owner : Written object) (named : name.Written) (result : Written value) :
      Written (.set unmarked object name value)
  | this : Written (.this unmarked ⟨receiverName, 0⟩)

mutual
inductive Stmt.Written : Stmt → Prop where
  | expression {e : Expr} (value : e.Written) : Stmt.Written (.expression e)
  | var {name : Name} {initializer} (named : name.Written) (value : ∀ e ∈ initializer, Expr.Written e) :
      Stmt.Written (.var name initializer)
  | block {body} (inside : ∀ s ∈ body, Stmt.Written s) : Stmt.Written (.block body)
  | branch {condition : Expr} {body alternative} (test : condition.Written) (inside : ∀ s ∈ body, Stmt.Written s)
      (other : Alternative.Written alternative) : Stmt.Written (.branch condition body alternative)
  | while {condition : Expr} {body} (test : condition.Written) (inside : ∀ s ∈ body, Stmt.Written s) :
      Stmt.Written (.while condition body)
  | function {routine} (inside : Routine.Written routine) : Stmt.Written (.function routine)
  | return {value} (result : ∀ e ∈ value, Expr.Written e) : Stmt.Written (.return 0 value)
  | class {name : Name} {methods} (named : name.Written) (inside : ∀ method ∈ methods, Routine.Written method) :
      Stmt.Written (.class name methods)

inductive Alternative.Written : Alternative → Prop where
  | none : Alternative.Written .none
  | block {body} (inside : ∀ s ∈ body, Stmt.Written s) : Alternative.Written (.block body)

inductive Routine.Written : Routine → Prop where
  | routine {name : Name} {parameters : List Name} {body} (named : name.Written)
      (inputs : ∀ parameter ∈ parameters, parameter.Written) (inside : ∀ s ∈ body, Stmt.Written s) :
      Routine.Written ⟨name, parameters, body⟩
end

def Grammar.Suffix.Written : Suffix → Prop
  | .arguments list => ∀ e ∈ list, e.Written
  | .property name => name.Written

@[reducible]
def Grammar.Rule.Written : (rule : Rule) → rule.Result → Prop
  | .program, body | .declarations, body | .block, body => ∀ s ∈ Stmt.unchainedAll body, s.Written
  | .declaration, s | .varDeclaration, s | .statement, s | .expressionStatement, s => s.unchained.Written
  | .initializer, value | .optional, value => ∀ e ∈ value, Expr.Written e
  | .functions, methods => ∀ method ∈ Routine.unchainedAll methods, method.Written
  | .function, routine => routine.unchained.Written
  | .parameters, list | .names, list => ∀ name ∈ list, name.Written
  | .conditional, (test, body, other) =>
      test.Written ∧ (∀ s ∈ Stmt.unchainedAll body, s.Written) ∧ other.unchained.Written
  | .alternative, other => other.unchained.Written
  | .start, first => ∀ s ∈ first, (Stmt.unchained s).Written
  | .expression, e | .operation _, e | .unary, e | .call, e | .primary, e => e.Written
  | .operations level _, others => ∀ pair ∈ others, Operator (operators level) pair.1 ∧ pair.2.Written
  | .suffixes, list => ∀ suffix ∈ list, suffix.Written
  | .arguments, es | .expressions, es => ∀ e ∈ es, e.Written

section Rules

theorem some_written {α : Type} {good : α → Prop} {a : α} (holds : good a) : ∀ b ∈ some a, good b := by
  rintro _ ⟨⟩
  exact holds

theorem written_name (name : NameToken) (spelt : name.1.Spelt) : name.name.Written :=
  ⟨rfl, name.2 ▸ spelt⟩

theorem written_operator {kinds : List TokenKind} {operator : Token} (one : operator.kind ∈ kinds)
    (spelt : operator.Spelt) : Operator kinds (operator.rename .blank) :=
  ⟨rfl, one, spelt⟩

theorem written_joined {level : Parser.Level} {left : Expr} {pair : Token × Expr} (first : left.Written)
    (sign : Operator (operators level) pair.1) (second : pair.2.Written) : (joined level left pair).Written := by
  obtain ⟨line, one, spelt⟩ := sign
  have calculation : (∀ kind ∈ operators level, kind ∈ calculations) → Operator calculations pair.1 :=
    fun some => ⟨line, some _ one, spelt⟩
  have connective : (∀ kind ∈ operators level, kind ∈ connectives) → Operator connectives pair.1 :=
    fun some => ⟨line, some _ one, spelt⟩
  cases level with
  | disjunction | conjunction =>
      exact .logical (connective (by simp [operators, connectives])) first second
  | equality | comparison | sum | product =>
      exact .binary (calculation (by simp [operators, calculations])) first second

theorem written_operation {level : Parser.Level} {left : Expr} {others : List (Token × Expr)} (first : left.Written)
    (rest : ∀ pair ∈ others, Operator (operators level) pair.1 ∧ pair.2.Written) :
    (others.foldl (joined level) left).Written := by
  induction others generalizing left with
  | nil => exact first
  | cons pair others ih =>
      obtain ⟨⟨sign, second⟩, further⟩ := List.forall_mem_cons.mp rest
      exact ih (written_joined first sign second) further

theorem written_call {e : Expr} {list : List Suffix} (first : e.Written) (rest : ∀ suffix ∈ list, suffix.Written) :
    (list.foldl suffixed e).Written := by
  induction list generalizing e with
  | nil => exact first
  | cons suffix list ih =>
      obtain ⟨here, further⟩ := List.forall_mem_cons.mp rest
      refine ih ?_ further
      cases suffix with
      | arguments arguments => exact .call first here
      | property name => exact .get first here

theorem written_literal {token : Token} {value : Literal} (one : literal? token.kind = some value)
    (spelt : token.Spelt) : value.Written := by
  unfold Token.Spelt at spelt
  unfold literal? at one
  split at one
  · cases one
    trivial
  · rename_i kind
    cases one
    rw [kind] at spelt
    exact Lexer.lexeme_string spelt
  · cases one
    trivial
  · cases one
    trivial
  · cases one
    trivial
  · cases one

theorem written_unrolled {start : Option Stmt} {condition action : Option Expr} {body : List Stmt}
    (first : ∀ s ∈ start, (Stmt.unchained s).Written) (test : ∀ e ∈ condition, Expr.Written e)
    (last : ∀ e ∈ action, Expr.Written e) (inside : ∀ s ∈ Stmt.unchainedAll body, s.Written) :
    (unrolled start condition action body).unchained.Written := by
  have checked : (condition.getD (.literal unmarked (.bool true))).Written := by
    cases condition with
    | none => exact .literal trivial
    | some e => exact test e rfl
  have looped : ∀ round : List Stmt, (∀ s ∈ Stmt.unchainedAll round, s.Written) →
      (Stmt.while (condition.getD (.literal unmarked (.bool true))) round).unchained.Written :=
    fun _ => .while checked
  have round : ∀ e : Expr, e.Written → ∀ s ∈ Stmt.unchainedAll [.block body, .expression e], s.Written := fun e value =>
    List.forall_mem_cons.mpr ⟨.block inside, List.forall_mem_singleton.mpr (.expression value)⟩
  have begun : ∀ (s : Stmt) (loop : Stmt), s.unchained.Written → loop.unchained.Written →
      (Stmt.block [s, loop]).unchained.Written := fun s loop here there =>
    .block (List.forall_mem_cons.mpr ⟨here, List.forall_mem_singleton.mpr there⟩)
  cases start with
  | none =>
      cases action with
      | none => exact looped body inside
      | some e => exact looped _ (round e (last e rfl))
  | some s =>
      cases action with
      | none => exact begun s _ (first s rfl) (looped body inside)
      | some e => exact begun s _ (first s rfl) (looped _ (round e (last e rfl)))

theorem written_this (token : KeywordToken .this) (spelt : token.1.Spelt) :
    (Expr.this unmarked ⟨token.1.lexeme, 0⟩).Written := by
  unfold Token.Spelt at spelt
  rw [token.2] at spelt
  rw [String.toList_inj.mp (Lexer.lexeme_keyword spelt)]
  exact .this

end Rules

theorem derives_written {rule : Rule} {ts : List Token} {tree : rule.Result} (derives : Derives rule ts tree)
    (spelt : ∀ token ∈ ts, token.Spelt) : rule.Written tree := by
  induction derives with
  | program _ all => exact all spelt
  | declarations_none => exact nofun
  | declarations_more one others first further =>
      rw [List.forall_mem_append] at spelt
      exact List.forall_mem_cons.mpr ⟨first spelt.1, further spelt.2⟩
  | declaration_var _ var => exact var spelt
  | declaration_function func _ function => exact .function (function (List.forall_mem_cons.mp spelt).2)
  | declaration_class keyword name opened closed _ functions =>
      simp only [List.forall_mem_cons, List.forall_mem_append] at spelt
      exact .class (written_name name spelt.2.1) (functions spelt.2.2.2.1)
  | declaration_statement _ statement => exact statement spelt
  | var_declaration keyword name ended _ initializer =>
      simp only [List.forall_mem_cons, List.forall_mem_append] at spelt
      exact .var (written_name name spelt.2.1) (initializer spelt.2.2.1)
  | initializer_none => exact nofun
  | initializer_some equal _ value => exact some_written (value (List.forall_mem_cons.mp spelt).2)
  | functions_none => exact nofun
  | functions_more one _ first further =>
      rw [List.forall_mem_append] at spelt
      exact List.forall_mem_cons.mpr ⟨first spelt.1, further spelt.2⟩
  | function name opened closed _ _ names block =>
      simp only [List.forall_mem_cons, List.forall_mem_append] at spelt
      exact .routine (written_name name spelt.1) (names spelt.2.2.1) (block spelt.2.2.2.2)
  | parameters_none => exact nofun
  | parameters_some derives names => exact names spelt
  | names_last name =>
      exact List.forall_mem_singleton.mpr (written_name name (List.forall_mem_singleton.mp spelt))
  | names_more name comma _ further =>
      simp only [List.forall_mem_cons] at spelt
      exact List.forall_mem_cons.mpr ⟨written_name name spelt.1, further spelt.2.2⟩
  | block opened closed _ all =>
      simp only [List.forall_mem_cons, List.forall_mem_append] at spelt
      exact all spelt.2.1
  | statement_if keyword _ conditional =>
      obtain ⟨test, inside, other⟩ := conditional (List.forall_mem_cons.mp spelt).2
      exact .branch test inside other
  | statement_while keyword opened closed _ _ test block =>
      simp only [List.forall_mem_cons, List.forall_mem_append] at spelt
      exact .while (test spelt.2.2.1) (block spelt.2.2.2.2)
  | statement_for keyword opened ended closed _ _ _ _ first test last block =>
      simp only [List.forall_mem_cons, List.forall_mem_append] at spelt
      obtain ⟨_, _, ss, cs, _, ls, _, bs⟩ := spelt
      exact written_unrolled (first ss) (test cs) (last ls) (block bs)
  | statement_return keyword ended _ result =>
      simp only [List.forall_mem_cons, List.forall_mem_append] at spelt
      exact .return (result spelt.2.1)
  | statement_block _ block => exact .block (block spelt)
  | statement_expression derives expression => exact expression spelt
  | conditional opened closed _ _ _ test block others =>
      simp only [List.forall_mem_cons, List.forall_mem_append] at spelt
      obtain ⟨_, es, _, bs, ls⟩ := spelt
      exact ⟨test es, block bs, others ls⟩
  | alternative_none => exact .none
  | alternative_if other keyword _ conditional =>
      obtain ⟨test, inside, other⟩ := conditional (List.forall_mem_cons.mp (List.forall_mem_cons.mp spelt).2).2
      exact .block (List.forall_mem_singleton.mpr (.branch test inside other))
  | alternative_block other _ block => exact .block (block (List.forall_mem_cons.mp spelt).2)
  | start_none ended => exact nofun
  | start_var _ var => exact some_written (var spelt)
  | start_expression derives expression => exact some_written (expression spelt)
  | expression_statement ended _ expression => exact .expression (expression (List.forall_mem_append.mp spelt).1)
  | optional_none => exact nofun
  | optional_some derives expression => exact some_written (expression spelt)
  | assign_name name equal _ right =>
      simp only [List.forall_mem_cons] at spelt
      exact .assign (written_name name spelt.1) (right spelt.2.2)
  | assign_property dot name equal owner _ call right =>
      simp only [List.forall_mem_cons, List.forall_mem_append] at spelt
      obtain ⟨os, _, named, _, ts⟩ := spelt
      exact .set (call os) (written_name name named) (right ts)
  | unassigned _ operation => exact operation spelt
  | operand _ unary => exact unary spelt
  | operation _ behind first further =>
      rw [List.forall_mem_append] at spelt
      exact written_operation (first spelt.1) (further spelt.2)
  | operations_none => exact nofun
  | operations_more operator one _ behind first further =>
      simp only [List.forall_mem_cons, List.forall_mem_append] at spelt
      obtain ⟨sign, ts, more⟩ := spelt
      exact List.forall_mem_cons.mpr ⟨⟨written_operator one sign, first ts⟩, further more⟩
  | unary_operator operator one _ unary =>
      rw [List.forall_mem_cons] at spelt
      exact .unary (written_operator one spelt.1) (unary spelt.2)
  | unary_call derives call => exact call spelt
  | call _ _ first further =>
      rw [List.forall_mem_append] at spelt
      exact written_call (first spelt.1) (further spelt.2)
  | suffixes_none => exact nofun
  | suffixes_arguments opened closed _ _ first further =>
      simp only [List.forall_mem_cons, List.forall_mem_append] at spelt
      exact List.forall_mem_cons.mpr ⟨first spelt.2.1, further spelt.2.2.2⟩
  | suffixes_property dot name _ further =>
      simp only [List.forall_mem_cons] at spelt
      exact List.forall_mem_cons.mpr ⟨written_name name spelt.2.1, further spelt.2.2⟩
  | arguments_none => exact nofun
  | arguments_some derives expressions => exact expressions spelt
  | expressions_last _ expression => exact List.forall_mem_singleton.mpr (expression spelt)
  | expressions_more comma _ _ first further =>
      simp only [List.forall_mem_cons, List.forall_mem_append] at spelt
      exact List.forall_mem_cons.mpr ⟨first spelt.1, further spelt.2.2⟩
  | primary_literal token one => exact .literal (written_literal one (List.forall_mem_singleton.mp spelt))
  | primary_this token => exact written_this token (List.forall_mem_singleton.mp spelt)
  | primary_name name => exact .ident (written_name name (List.forall_mem_singleton.mp spelt))
  | primary_grouping opened closed _ expression =>
      simp only [List.forall_mem_cons, List.forall_mem_append] at spelt
      exact .grouping (expression spelt.2.1)

def Program.Parsed (program : Program) : Prop :=
  ∃ (lines : List (List Char)) (first next : Nat) (tokens : List Token),
    (Lexer.items lines).mapM id = .ok tokens ∧ parse first tokens = .ok (program, next)

theorem parsed_written {program : Program} (parsed : program.Parsed) :
    ∀ s ∈ Stmt.unchainedAll (Stmt.renameAll .blank program), s.Written := by
  obtain ⟨lines, first, next, tokens, read, parsed⟩ := parsed
  obtain ⟨ahead, items, rfl⟩ := tokens_of_items read
  refine derives_written (parse_derives (items_plain 1 _ ahead items) rfl parsed) fun token member => ?_
  apply Lexer.items_from_tokens Lexer.item_lexeme 1 lines token
  rw [items]
  exact List.mem_map_of_mem member

end TreeWalk
