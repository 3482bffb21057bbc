import TreeWalk.Proofs.Reading

set_option autoImplicit false

namespace TreeWalk

open Grammar

section Targets

theorem foldl_joined (level : Parser.Level) (left : Expr) : ∀ others : List (Token × Expr),
    (others.foldl (joined level) left).Assignable → others = [] := by
  intro others assignable
  rcases List.eq_nil_or_concat others with rfl | ⟨init, last, rfl⟩
  · rfl
  · rw [List.concat_eq_append, List.foldl_append] at assignable
    cases level <;> exact assignable.elim

theorem operation_target {levels : List Parser.Level} {ts : List Token} {e : Expr}
    (derives : Derives (.operation levels) ts e) (assignable : e.Assignable) : Derives .call ts e := by
  induction levels generalizing ts e with
  | nil =>
      cases derives with
      | operand unary =>
          cases unary with
          | unary_operator => exact assignable.elim
          | unary_call call => exact call
  | cons level tighter ih =>
      cases derives with
      | operation first rest =>
          obtain rfl := foldl_joined _ _ _ assignable
          cases rest with
          | operations_none =>
              rw [List.append_nil]
              exact ih first assignable

theorem foldl_suffixed_ident {e : Expr} {mark : Mark} {name : Name} : ∀ {list : List Suffix},
    list.foldl suffixed e = .ident mark name → list = [] := by
  intro list same
  rcases List.eq_nil_or_concat list with rfl | ⟨init, last, rfl⟩
  · rfl
  · rw [List.concat_eq_append, List.foldl_append] at same
    cases last <;> cases same

theorem call_ident {ts : List Token} {mark : Mark} {name : Name} (derives : Derives .call ts (.ident mark name)) :
    ∃ token : NameToken, ts = [token.1] ∧ name = token.name := by
  generalize tree : Expr.ident mark name = e at derives
  cases derives with
  | call first rest =>
      obtain rfl := foldl_suffixed_ident tree.symm
      cases rest with
      | suffixes_none =>
          rw [List.foldl_nil] at tree
          subst tree
          cases first with
          | primary_name token => exact ⟨token, rfl, rfl⟩

theorem suffixes_last {list : List Suffix} {name : Name} : ∀ {ts : List Token},
    Derives .suffixes ts (list ++ [.property name]) →
      ∃ (us : List Token) (dot : SymbolToken .dot) (token : NameToken),
        ts = us ++ [dot.1, token.1] ∧ name = token.name ∧ Derives .suffixes us list := by
  induction list with
  | nil =>
      intro ts derives
      cases derives with
      | suffixes_property dot token others =>
          cases others with
          | suffixes_none => exact ⟨[], dot, token, rfl, rfl, .suffixes_none⟩
  | cons suffix list ih =>
      intro ts derives
      cases derives with
      | suffixes_property dot token others =>
          obtain ⟨us, last, property, rfl, rfl, before⟩ := ih others
          exact ⟨_ :: _ :: us, last, property, rfl, rfl, .suffixes_property dot token before⟩
      | suffixes_arguments opened closed first others =>
          obtain ⟨us, last, property, rfl, rfl, before⟩ := ih others
          refine ⟨_, last, property, ?_, rfl, .suffixes_arguments opened closed first before⟩
          simp

theorem call_get {ts : List Token} {mark : Mark} {object : Expr} {name : Name}
    (derives : Derives .call ts (.get mark object name)) :
    ∃ (os : List Token) (dot : SymbolToken .dot) (token : NameToken),
      ts = os ++ [dot.1, token.1] ∧ name = token.name ∧ Derives .call os object := by
  generalize tree : Expr.get mark object name = e at derives
  cases derives with
  | @call ps base ss list first rest =>
      rcases List.eq_nil_or_concat list with rfl | ⟨init, last, rfl⟩
      · rw [List.foldl_nil] at tree
        subst tree
        cases first
      · rw [List.concat_eq_append] at tree rest
        rw [List.foldl_append] at tree
        cases last with
        | arguments arguments => cases tree
        | property property =>
            obtain ⟨rfl, rfl, rfl⟩ := Expr.get.inj tree
            obtain ⟨us, dot, token, rfl, rfl, before⟩ := suffixes_last rest
            exact ⟨ps ++ us, dot, token, (List.append_assoc _ _ _).symm, rfl, .call first before⟩

end Targets

namespace Parser

variable {α : Type}

theorem holds_operator (level : Level) (kind : TokenKind) : level.holds kind = true ↔ kind ∈ operators level := by
  cases level <;> cases kind with
  | keyword keyword => cases keyword <;> simp [Level.holds, operators]
  | _ => simp [Level.holds, operators, or_assoc]

theorem node_blank (level : Level) (mark : Mark) (left : Expr) (operator : Token) (right : Expr) :
    (level.node mark left operator right).rename .blank =
      joined level (left.rename .blank) (operator.rename .blank, right.rename .blank) := by
  cases level <;> rfl

theorem atom_derived {token : Token} {mark : Mark} {e : Expr} (single : atom? token mark = some e) :
    token.kind.isFinish = false ∧ Derives .primary [token] (e.rename .blank) := by
  obtain ⟨kind, lexeme, line⟩ := token
  cases kind with
  | keyword keyword =>
      cases keyword <;> cases single
      · exact ⟨rfl, .primary_literal _ rfl⟩
      · exact ⟨rfl, .primary_literal _ rfl⟩
      · exact ⟨rfl, .primary_this ⟨_, rfl⟩⟩
      · exact ⟨rfl, .primary_literal _ rfl⟩
  | identifier =>
      cases single
      exact ⟨rfl, .primary_name ⟨_, rfl⟩⟩
  | number | string =>
      cases single
      exact ⟨rfl, .primary_literal _ rfl⟩
  | _ => cases single

theorem reads_atom (c : Cursor) :
    Reads c (atom c.peek) (fun _ => atom c.peek) fun ts e => Derives .primary ts (e.rename .blank) := by
  apply reads_get
  · intro _ d same
    rw [same]
  split
  · rename_i e single
    obtain ⟨more, derives⟩ := atom_derived single
    exact reads_advance rfl more fun next => reads_mark _ fun _ last => reads_pure last _ _ derives
  · exact reads_refuse c _ _ ⟨_, .ident unmarked aName.name, .primary_name aName⟩

theorem reads_assign_to (c : Cursor) (equal : SymbolToken .equal) (target value : Expr) (equals : Token)
    (ls rs : List Token) (assignable : target.Assignable) (left : Derives (.operation precedence) ls (target.rename .blank))
    (right : Derives .expression rs (value.rename .blank)) :
    Reads c (assignTo target equals value) (fun _ => assignTo target equals value) fun ts e =>
      Derives .expression (ls ++ (equal.1 :: (rs ++ ts))) (e.rename .blank) := by
  unfold assignTo
  split
  · obtain ⟨token, rfl, same⟩ := call_ident (operation_target left trivial)
    refine reads_mark _ fun given next => reads_pure next _ _ ?_
    rw [List.append_nil]
    have derives := Derives.assign_name token equal right
    rwa [← same] at derives
  · obtain ⟨os, dot, token, rfl, same, object⟩ := call_get (operation_target left trivial)
    refine reads_mark _ fun given next => reads_pure next _ _ ?_
    rw [List.append_nil, List.append_assoc]
    have derives := Derives.assign_property dot token equal object right
    rwa [← same] at derives
  · cases target <;> first | exact assignable.elim | grind

def assignment (steps : Nat) (target : Expr) : Parser Expr := do
  let equals ← peek
  if ← acceptSymbol .equal then
    let value ← expression steps
    assignTo target equals value
  else
    return target

theorem assignment_refuses (steps id : Nat) {target : Expr} (equals : SymbolToken .equal) (not : ¬ target.Assignable)
    (other : List Token) :
    ∃ last, assignment steps target ⟨equals.1 :: other, id⟩ =
      .error (valueStop equals.1 (expression steps ⟨other, id⟩)) last := by
  obtain ⟨⟨kind, lexeme, line⟩, is⟩ := equals
  obtain rfl : kind = .symbol .equal := is
  have refused : ∀ (token : Token) value, assignTo target token value = refuse token .assignmentTarget := by
    intro token value
    unfold assignTo
    split <;> first | exact (not trivial).elim | rfl
  have behind : assignment steps target ⟨⟨.symbol .equal, lexeme, line⟩ :: other, id⟩ =
      (do assignTo target ⟨.symbol .equal, lexeme, line⟩ (← expression steps) : Parser Expr) ⟨other, id⟩ := rfl
  cases run : expression steps ⟨other, id⟩ with
  | ok value last =>
      rw [behind, bind_ok _ run, refused]
      exact ⟨last, rfl⟩
  | error stop last =>
      rw [behind, bind_error _ run]
      exact ⟨last, rfl⟩

theorem assignment_untargeted (n : Nat) (c : Cursor) {ls : List Token} {target : Expr}
    (not : ¬ target.Assignable) (left : Derives (.operation precedence) ls (target.rename .blank)) :
    ReadsBehind ls c (assignment n target) (fun k => assignment (k + n) target) fun ts e =>
      Derives .expression (ls ++ ts) (e.rename .blank) := by
  have whole : Derives .expression (ls ++ []) (target.rename .blank) := by
    rw [List.append_nil]
    exact .unassigned left
  by_cases equal : c.peek.kind = .symbol .equal
  · refine ⟨⟨[], target, whole⟩, fun ended => ?_⟩
    obtain ⟨token, after, tokens⟩ := ended_cons ended
    have kind : token.kind = .symbol .equal := by simpa [Cursor.peek, tokens] using equal
    have stops := fun steps => assignment_refuses steps c.nextId ⟨token, kind⟩ not
    obtain ⟨last, run⟩ := stops n after
    unfold Ends
    rw [← tokens] at run
    rw [show c = ⟨c.rest, c.nextId⟩ from rfl, run]
    refine .inr ⟨[], token, after, _, tokens, by simp, ⟨[], target, whole⟩, .target n _ kind ?_,
      fun k => stops (k + n)⟩
    exact ⟨[], ls ++ [], target.rename .blank, by simp, by simpa using left, by cases target <;> exact not⟩
  · apply reads_behind
    have plain : ∀ steps (d : Cursor), d.peek = c.peek → assignment steps target d = .ok target d := by
      intro steps d same
      have no : d.peek.kind.isSymbol .equal = false := eq_false_of_ne_true (mt symbol_kind.mp (same ▸ equal))
      simp [assignment, acceptSymbol, peek, bind, EStateM.bind, pure, EStateM.pure, get_run, no]
    exact reads_congr (reads_pure c target _ whole) (plain n c rfl) fun k _ _ _ other tokens =>
      plain (k + n) _ (peek_seen tokens other _)

structure ExpressionsRead (n : Nat) : Prop where
  expression : ∀ c, Reads c (expression n) (fun k => expression (k + n)) fun ts e =>
    Derives .expression ts (e.rename .blank)
  operation : ∀ c levels, Reads c (operation n levels) (fun k => operation (k + n) levels) fun ts e =>
    Derives (.operation levels) ts (e.rename .blank)
  operands : ∀ c level tighter left,
    Reads c (operands n level tighter left) (fun k => operands (k + n) level tighter left) fun ts e =>
      ∃ others, Derives (.operations level tighter) ts others ∧
        e.rename .blank = others.foldl (joined level) (left.rename .blank)
  unary : ∀ c, Reads c (unary n) (fun k => unary (k + n)) fun ts e => Derives .unary ts (e.rename .blank)
  suffixes : ∀ c callee, Reads c (suffixes n callee) (fun k => suffixes (k + n) callee) fun ts e =>
    ∃ list, Derives .suffixes ts list ∧ e.rename .blank = list.foldl suffixed (callee.rename .blank)
  arguments : ∀ c, Reads c (arguments n) (fun k => arguments (k + n)) fun ts read =>
    ∃ us, ∃ closed : SymbolToken .rightParen, ts = us ++ [closed.1] ∧ Derives .arguments us (Expr.renameAll .blank read.1)
  expressions : ∀ c, Reads c (expressions n) (fun k => expressions (k + n)) fun ts es =>
    Derives .expressions ts (Expr.renameAll .blank es)
  primary : ∀ c, Reads c (primary n) (fun k => primary (k + n)) fun ts e => Derives .primary ts (e.rename .blank)

section Step

variable {n : Nat} (ih : ExpressionsRead n)
include ih

theorem expression_reads (c : Cursor) :
    Reads c (expression (n + 1)) (fun k => expression (k + n + 1)) fun ts e => Derives .expression ts (e.rename .blank) := by
  refine reads_bind_behind (f := assignment n) (g := fun k => assignment (k + n)) _ (ih.operation c Level.ladder) ?_
  intro mid ls target left
  by_cases assignable : target.Assignable
  · apply reads_behind
    apply reads_peek
    apply reads_accept_symbol
    · intro equal next
      apply reads_bind _ (ih.expression next)
      intro last rs value right
      exact reads_assign_to last equal target value mid.peek ls rs assignable left right
    · intro next
      exact reads_pure next _ _ (by rw [List.append_nil]; exact .unassigned left)
  · exact assignment_untargeted n mid assignable left

theorem operation_reads (c : Cursor) (levels : List Level) :
    Reads c (operation (n + 1) levels) (fun k => operation (k + n + 1) levels) fun ts e =>
      Derives (.operation levels) ts (e.rename .blank) := by
  cases levels with
  | nil => exact reads_mono (ih.unary c) fun _ _ => .operand
  | cons level tighter =>
      apply reads_bind _ (ih.operation c tighter)
      intro mid taken left first
      apply reads_mono (ih.operands mid level tighter left)
      rintro ts e ⟨others, rest, same⟩
      rw [same]
      exact .operation first rest

theorem operands_reads (c : Cursor) (level : Level) (tighter : List Level) (left : Expr) :
    Reads c (operands (n + 1) level tighter left) (fun k => operands (k + n + 1) level tighter left) fun ts e =>
      ∃ others, Derives (.operations level tighter) ts others ∧
        e.rename .blank = others.foldl (joined level) (left.rename .blank) := by
  apply reads_peek
  split
  · rename_i holds
    have one := (holds_operator _ _).mp holds
    refine reads_advance rfl ?_ fun next => ?_
    · cases kind : c.peek.kind <;> simp_all [TokenKind.isFinish, Level.holds]
    · apply reads_bind _ (ih.operation next tighter)
      intro last taken right first
      apply reads_mark
      intro given further
      apply reads_mono (ih.operands further level tighter _)
      rintro ts e ⟨others, rest, same⟩
      refine ⟨_, .operations_more c.peek one first rest, ?_⟩
      rw [same, node_blank, List.foldl_cons]
  · exact reads_pure c _ _ ⟨[], .operations_none, rfl⟩

theorem unary_reads (c : Cursor) :
    Reads c (unary (n + 1)) (fun k => unary (k + n + 1)) fun ts e => Derives .unary ts (e.rename .blank) := by
  apply reads_peek
  split
  · rename_i either
    rw [Bool.or_eq_true, symbol_kind, symbol_kind] at either
    have one : c.peek.kind ∈ prefixes := by simpa [prefixes] using either
    refine reads_advance rfl (by rcases either with kind | kind <;> rw [kind] <;> rfl) fun next => ?_
    apply reads_bind _ (ih.unary next)
    intro last taken right inner
    refine reads_mark _ fun given final => reads_pure final _ _ ?_
    rw [List.append_nil]
    exact .unary_operator c.peek one inner
  · apply reads_bind _ (ih.primary c)
    intro next taken callee first
    apply reads_mono (ih.suffixes next callee)
    rintro ts e ⟨list, rest, same⟩
    rw [same]
    exact .unary_call (.call first rest)

theorem suffixes_reads (c : Cursor) (callee : Expr) :
    Reads c (suffixes (n + 1) callee) (fun k => suffixes (k + n + 1) callee) fun ts e =>
      ∃ list, Derives .suffixes ts list ∧ e.rename .blank = list.foldl suffixed (callee.rename .blank) := by
  apply reads_accept_symbol
  · intro opened next
    apply reads_bind _ (ih.arguments next)
    rintro mid taken ⟨arguments, line⟩ ⟨us, closed, rfl, first⟩
    refine reads_mark _ fun given last => ?_
    apply reads_mono (ih.suffixes last _)
    rintro ts e ⟨list, rest, same⟩
    refine ⟨.arguments _ :: list, ?_, same⟩
    rw [List.append_assoc]
    exact .suffixes_arguments opened closed first rest
  · intro mid
    apply reads_accept_symbol
    · intro dot next
      refine reads_name _ fun token name last same => reads_mark _ fun given final => ?_
      apply reads_mono (ih.suffixes final _)
      rintro ts e ⟨list, rest, whole⟩
      refine ⟨_, .suffixes_property dot token rest, ?_⟩
      rw [whole, ← same]
      rfl
    · intro next
      exact reads_pure next _ _ ⟨[], .suffixes_none, rfl⟩

theorem arguments_reads (c : Cursor) : Reads c (arguments (n + 1)) (fun k => arguments (k + n + 1)) fun ts read =>
    ∃ us, ∃ closed : SymbolToken .rightParen, ts = us ++ [closed.1] ∧
      Derives .arguments us (Expr.renameAll .blank read.1) := by
  have closing : ∀ next us list, Derives .arguments us (Expr.renameAll .blank list) →
      let rest : Parser (List Expr × Nat) := do return (list, ← expectSymbol .rightParen .argumentsClose)
      Reads next rest (fun _ => rest) fun ts read =>
        ∃ vs, ∃ closed : SymbolToken .rightParen, us ++ ts = vs ++ [closed.1] ∧
          Derives .arguments vs (Expr.renameAll .blank read.1) := fun next us list first =>
    reads_symbol _ _ fun closed line last => reads_pure last _ _ ⟨us, closed, rfl, first⟩
  apply reads_peek
  dsimp only
  split
  · exact reads_bind _ (reads_pure c _ _ .arguments_none) closing
  · exact reads_bind _ (reads_mono (ih.expressions c) fun _ _ => .arguments_some) closing

theorem expressions_reads (c : Cursor) :
    Reads c (expressions (n + 1)) (fun k => expressions (k + n + 1)) fun ts es =>
      Derives .expressions ts (Expr.renameAll .blank es) := by
  apply reads_bind _ (ih.expression c)
  intro mid taken e first
  apply reads_accept_symbol
  · intro comma next
    exact reads_map (reads_mono (ih.expressions next) fun ts rest others => .expressions_more comma first others)
  · intro next
    exact reads_pure next _ _ (by rw [List.append_nil]; exact .expressions_last first)

theorem primary_reads (c : Cursor) :
    Reads c (primary (n + 1)) (fun k => primary (k + n + 1)) fun ts e => Derives .primary ts (e.rename .blank) := by
  apply reads_peek
  split
  · rename_i here
    have kind := symbol_kind.mp here
    refine reads_advance kind rfl fun next => ?_
    apply reads_bind _ (ih.expression next)
    intro last taken inner derives
    refine reads_symbol _ _ fun closed line final => reads_mark _ fun given end_ =>
      reads_pure end_ _ _ ?_
    exact .primary_grouping ⟨c.peek, kind⟩ closed derives
  · exact reads_atom c

end Step

theorem unary_name : Derives .unary [aName.1] (.ident unmarked aName.name) :=
  .unary_call (.call (.primary_name aName) .suffixes_none)

theorem operation_name : ∀ levels, Derives (.operation levels) [aName.1] (.ident unmarked aName.name)
  | [] => .operand unary_name
  | _ :: tighter => .operation (operation_name tighter) .operations_none

theorem expression_name : Derives .expression [aName.1] (.ident unmarked aName.name) :=
  .unassigned (operation_name precedence)

theorem expressions_read : ∀ n, ExpressionsRead n
  | 0 =>
      ⟨fun c => reads_exhausted c _ _ ⟨_, .ident unmarked aName.name, expression_name⟩,
        fun c levels => reads_exhausted c _ _ ⟨_, .ident unmarked aName.name, operation_name levels⟩,
        fun c _ _ left => reads_exhausted c _ _ ⟨[], left, [], .operations_none, rfl⟩,
        fun c => reads_exhausted c _ _ ⟨_, .ident unmarked aName.name, unary_name⟩,
        fun c callee => reads_exhausted c _ _ ⟨[], callee, [], .suffixes_none, rfl⟩,
        fun c => reads_exhausted c _ _ ⟨_, ([], 0), [], aSymbol .rightParen, rfl, .arguments_none⟩,
        fun c => reads_exhausted c _ _ ⟨_, [.ident unmarked aName.name], .expressions_last expression_name⟩,
        fun c => reads_exhausted c _ _ ⟨_, .ident unmarked aName.name, .primary_name aName⟩⟩
  | n + 1 => by
      have ih := expressions_read n
      exact ⟨expression_reads ih, operation_reads ih, operands_reads ih, unary_reads ih, suffixes_reads ih,
        arguments_reads ih, expressions_reads ih, primary_reads ih⟩

section Statements

theorem var_blank (name : Name) (value : Option Expr) :
    (Stmt.var name value).rename .blank = .var (name.rename .blank) (value.map (Expr.rename .blank)) := by
  cases value <;> rfl

theorem return_blank (line : Nat) (value : Option Expr) :
    (Stmt.return line value).rename .blank = .return 0 (value.map (Expr.rename .blank)) := by
  cases value <;> rfl

theorem loop_blank (start : Option Stmt) (condition : Expr) (test : Option Expr) (action : Option Expr)
    (body : List Stmt) (same : condition.rename .blank = test.getD (.literal unmarked (.bool true))) :
    (loop start condition action body).rename .blank =
      unrolled (start.map (Stmt.rename .blank)) test (action.map (Expr.rename .blank)) (Stmt.renameAll .blank body) := by
  cases start <;> cases action <;>
    simp only [loop, unrolled, Option.map_none, Option.map_some, Stmt.rename, Stmt.renameAll, same]

theorem parameters_read : ∀ n c, Reads c (parameters n) (fun k => parameters (k + n)) fun ts names =>
    Derives .names ts (names.map (Name.rename .blank))
  | 0, c => reads_exhausted c _ _ ⟨_, [aName.name], .names_last aName⟩
  | n + 1, c => by
      refine reads_name _ fun token name mid same => ?_
      apply reads_accept_symbol
      · intro comma next
        refine reads_map (reads_mono (parameters_read n next) fun ts rest others => ?_)
        rw [List.map_cons, same]
        exact .names_more token comma others
      · intro next
        refine reads_pure next _ _ ?_
        rw [List.map_cons, same]
        exact .names_last token

variable (n : Nat)

theorem expression_unless_reads (c : Cursor) (symbol : Symbol) :
    Reads c (expressionUnless n symbol) (fun k => expressionUnless (k + n) symbol) fun ts value =>
      Derives .optional ts (value.map (Expr.rename .blank)) := by
  apply reads_peek
  split
  · exact reads_pure c _ _ .optional_none
  · exact reads_map (reads_mono ((expressions_read n).expression c) fun _ _ => .optional_some)

theorem expression_statement_reads (c : Cursor) :
    Reads c (expressionStatement n) (fun k => expressionStatement (k + n)) fun ts s =>
      Derives .expressionStatement ts (s.rename .blank) := by
  apply reads_bind _ ((expressions_read n).expression c)
  intro next ts e derives
  exact reads_symbol _ _ fun ended line last => reads_pure last _ _ (.expression_statement ended derives)

theorem var_declaration_reads (c : Cursor) (keyword : KeywordToken .var) :
    Reads c (varDeclaration n) (fun k => varDeclaration (k + n)) fun ts s =>
      Derives .varDeclaration (keyword.1 :: ts) (s.rename .blank) := by
  refine reads_name _ fun token name mid same => ?_
  have closing : ∀ next us (value : Option Expr), Derives .initializer us (value.map (Expr.rename .blank)) →
      let rest : Parser Stmt := do
        let _ ← expectSymbol .semicolon .variableEnd
        return .var name value
      Reads next rest (fun _ => rest) fun ts s =>
        Derives .varDeclaration (keyword.1 :: token.1 :: (us ++ ts)) (s.rename .blank) :=
    fun next us value derives => reads_symbol _ _ fun ended line last => reads_pure last _ _ (by
      rw [var_blank, same]
      exact .var_declaration keyword token ended derives)
  apply reads_accept_symbol
  · intro equal next
    refine reads_bind _ (reads_map (reads_mono ((expressions_read n).expression next) fun ts e derives => ?_))
      fun last us value => closing last (equal.1 :: us) value
    exact .initializer_some equal derives
  · intro next
    exact reads_bind _ (reads_pure next _ _ .initializer_none) closing

theorem returned_reads (c : Cursor) (keyword : KeywordToken .return) (line : Nat) :
    Reads c (returned n line) (fun k => returned (k + n) line) fun ts s =>
      Derives .statement (keyword.1 :: ts) (s.rename .blank) := by
  apply reads_bind _ (expression_unless_reads n c .semicolon)
  intro next ts value derives
  refine reads_symbol _ _ fun ended line last => reads_pure last _ _ ?_
  rw [return_blank]
  exact .statement_return keyword ended derives

theorem condition_reads (c : Cursor) (opened closed braced : Expectation) :
    Reads c (condition n opened closed braced) (fun k => condition (k + n) opened closed braced) fun ts e =>
      ∃ (es : List Token) (opened : SymbolToken .leftParen) (closed : SymbolToken .rightParen)
        (brace : SymbolToken .leftBrace),
        ts = opened.1 :: (es ++ [closed.1, brace.1]) ∧ Derives .expression es (e.rename .blank) := by
  refine reads_symbol _ _ fun opened line mid => ?_
  apply reads_bind _ ((expressions_read n).expression mid)
  intro next es e derives
  refine reads_symbol _ _ fun closed line last => reads_symbol _ _ fun brace line final => ?_
  exact reads_pure final _ _ ⟨es, opened, closed, brace, rfl, derives⟩

theorem loop_start_reads (c : Cursor) : Reads c (loopStart n) (fun k => loopStart (k + n)) fun ts start =>
    Derives .start ts (start.map (Stmt.rename .blank)) := by
  apply reads_accept_symbol
  · exact fun ended next => reads_pure next _ _ (.start_none ended)
  · intro mid
    apply reads_accept_keyword
    · intro keyword next
      exact reads_map (reads_mono (var_declaration_reads n next keyword) fun _ _ => .start_var)
    · intro next
      exact reads_map (reads_mono (expression_statement_reads n next) fun _ _ => .start_expression)

theorem loop_condition_reads (c : Cursor) (line : Nat) :
    Reads c (loopCondition n line) (fun k => loopCondition (k + n) line) fun ts e =>
      ∃ value, Derives .optional ts value ∧ e.rename .blank = value.getD (.literal unmarked (.bool true)) := by
  apply reads_bind _ (expression_unless_reads n c .semicolon)
  intro next ts value derives
  cases value with
  | none =>
      refine reads_mark _ fun given last => reads_pure last _ _ ?_
      rw [List.append_nil]
      exact ⟨_, derives, rfl⟩
  | some e =>
      refine reads_pure next _ _ ?_
      rw [List.append_nil]
      exact ⟨_, derives, rfl⟩

end Statements

structure StatementsRead (n : Nat) : Prop where
  declaration : ∀ c, Reads c (declaration n) (fun k => declaration (k + n)) fun ts s =>
    Derives .declaration ts (s.rename .blank)
  body : ∀ c, Reads c (body n) (fun k => body (k + n)) fun ts list =>
    ∃ us, ∃ closed : SymbolToken .rightBrace, ts = us ++ [closed.1] ∧ Derives .declarations us (Stmt.renameAll .blank list)
  routine : ∀ c, Reads c (routine n) (fun k => routine (k + n)) fun ts r => Derives .function ts (r.rename .blank)
  classDeclaration : ∀ c (keyword : KeywordToken .class),
    Reads c (classDeclaration n) (fun k => classDeclaration (k + n)) fun ts s =>
      Derives .declaration (keyword.1 :: ts) (s.rename .blank)
  methods : ∀ c, Reads c (methods n) (fun k => methods (k + n)) fun ts list =>
    ∃ us, ∃ closed : SymbolToken .rightBrace, ts = us ++ [closed.1] ∧ Derives .functions us (Routine.renameAll .blank list)
  ifStatement : ∀ c (keyword : KeywordToken .if), Reads c (ifStatement n) (fun k => ifStatement (k + n)) fun ts s =>
    Derives .statement (keyword.1 :: ts) (s.rename .blank)
  alternative : ∀ c, Reads c (alternative n) (fun k => alternative (k + n)) fun ts a =>
    Derives .alternative ts (a.rename .blank)
  whileStatement : ∀ c (keyword : KeywordToken .while),
    Reads c (whileStatement n) (fun k => whileStatement (k + n)) fun ts s =>
      Derives .statement (keyword.1 :: ts) (s.rename .blank)
  forStatement : ∀ c (keyword : KeywordToken .for) line,
    Reads c (forStatement n line) (fun k => forStatement (k + n) line) fun ts s =>
      Derives .statement (keyword.1 :: ts) (s.rename .blank)

section Step

variable {n : Nat} (ih : StatementsRead n)
include ih

theorem block_reads (c : Cursor) (opened : SymbolToken .leftBrace) :
    Reads c (body n) (fun k => body (k + n)) fun ts list =>
      Derives .block (opened.1 :: ts) (Stmt.renameAll .blank list) := by
  apply reads_mono (ih.body c)
  rintro ts list ⟨us, closed, rfl, derives⟩
  exact .block opened closed derives

theorem declaration_reads (c : Cursor) :
    Reads c (declaration (n + 1)) (fun k => declaration (k + n + 1)) fun ts s =>
      Derives .declaration ts (s.rename .blank) := by
  apply reads_peek
  split
  · rename_i kind
    exact reads_advance kind rfl fun next =>
      reads_mono (var_declaration_reads n next ⟨c.peek, kind⟩) fun _ _ => .declaration_var
  · rename_i kind
    exact reads_advance kind rfl fun next =>
      reads_map (reads_mono (ih.routine next) fun _ _ => .declaration_function ⟨c.peek, kind⟩)
  · rename_i kind
    exact reads_advance kind rfl fun next => ih.classDeclaration next ⟨c.peek, kind⟩
  · rename_i kind
    exact reads_advance kind rfl fun next =>
      reads_mono (ih.ifStatement next ⟨c.peek, kind⟩) fun _ _ => .declaration_statement
  · rename_i kind
    exact reads_advance kind rfl fun next =>
      reads_mono (ih.whileStatement next ⟨c.peek, kind⟩) fun _ _ => .declaration_statement
  · rename_i kind
    exact reads_advance kind rfl fun next =>
      reads_mono (ih.forStatement next ⟨c.peek, kind⟩ _) fun _ _ => .declaration_statement
  · rename_i kind
    exact reads_advance kind rfl fun next =>
      reads_mono (returned_reads n next ⟨c.peek, kind⟩ _) fun _ _ => .declaration_statement
  · rename_i kind
    exact reads_advance kind rfl fun next => reads_map (reads_mono (block_reads ih next ⟨c.peek, kind⟩)
      fun _ _ block => .declaration_statement (.statement_block block))
  · exact reads_mono (expression_statement_reads n c) fun _ _ derives =>
      .declaration_statement (.statement_expression derives)

theorem body_reads (c : Cursor) : Reads c (body (n + 1)) (fun k => body (k + n + 1)) fun ts list =>
    ∃ us, ∃ closed : SymbolToken .rightBrace, ts = us ++ [closed.1] ∧
      Derives .declarations us (Stmt.renameAll .blank list) := by
  apply reads_peek
  split
  · exact reads_symbol _ _ fun closed line next => reads_pure next _ _ ⟨[], closed, rfl, .declarations_none⟩
  · apply reads_bind _ (ih.declaration c)
    intro next taken s first
    refine reads_map (reads_mono (ih.body next) ?_)
    rintro ts list ⟨us, closed, rfl, others⟩
    exact ⟨taken ++ us, closed, (List.append_assoc _ _ _).symm, .declarations_more first others⟩

theorem routine_reads (c : Cursor) :
    Reads c (routine (n + 1)) (fun k => routine (k + n + 1)) fun ts r => Derives .function ts (r.rename .blank) := by
  refine reads_name _ fun token name mid same => reads_symbol _ _ fun opened line next => ?_
  have closing : ∀ next ps (parameters : List Name), Derives .parameters ps (parameters.map (Name.rename .blank)) →
      let rest (steps : Nat) : Parser Routine := do
        let _ ← expectSymbol .rightParen .parametersClose
        let _ ← expectSymbol .leftBrace .functionBody
        return ⟨name, parameters, ← body steps⟩
      Reads next (rest n) (fun k => rest (k + n)) fun ts r =>
        Derives .function (token.1 :: opened.1 :: (ps ++ ts)) (r.rename .blank) := by
    intro next ps parameters derives
    refine reads_symbol _ _ fun closed line last => reads_symbol _ _ fun brace line final => ?_
    refine reads_map (reads_mono (block_reads ih final brace) fun bs list block => ?_)
    rw [Routine.rename, same]
    exact .function token opened closed derives block
  apply reads_peek
  dsimp only
  split
  · exact reads_bind _ (reads_pure next _ _ .parameters_none) closing
  · exact reads_bind _ (reads_mono (parameters_read n next) fun _ _ => .parameters_some) closing

theorem class_reads (c : Cursor) (keyword : KeywordToken .class) :
    Reads c (classDeclaration (n + 1)) (fun k => classDeclaration (k + n + 1)) fun ts s =>
      Derives .declaration (keyword.1 :: ts) (s.rename .blank) := by
  refine reads_name _ fun token name mid same => reads_symbol _ _ fun opened line next => ?_
  refine reads_map (reads_mono (ih.methods next) ?_)
  rintro ts list ⟨us, closed, rfl, derives⟩
  rw [Stmt.rename, same]
  exact .declaration_class keyword token opened closed derives

theorem methods_reads (c : Cursor) : Reads c (methods (n + 1)) (fun k => methods (k + n + 1)) fun ts list =>
    ∃ us, ∃ closed : SymbolToken .rightBrace, ts = us ++ [closed.1] ∧
      Derives .functions us (Routine.renameAll .blank list) := by
  apply reads_peek
  split
  · exact reads_symbol _ _ fun closed line next => reads_pure next _ _ ⟨[], closed, rfl, .functions_none⟩
  · apply reads_bind _ (ih.routine c)
    intro next taken r first
    refine reads_map (reads_mono (ih.methods next) ?_)
    rintro ts list ⟨us, closed, rfl, others⟩
    exact ⟨taken ++ us, closed, (List.append_assoc _ _ _).symm, .functions_more first others⟩

theorem conditional_reads (c : Cursor) (make : Expr → List Stmt → Alternative → α) (good : List Token → α → Prop)
    (rest : ∀ ts e list a,
      Derives .conditional ts (Expr.rename .blank e, Stmt.renameAll .blank list, Alternative.rename .blank a) →
        good ts (make e list a)) :
    let rule (steps : Nat) : Parser α := do
      let e ← condition steps .ifOpen .ifClose .ifBody
      let body ← body steps
      return make e body (← alternative steps)
    Reads c (rule n) (fun k => rule (k + n)) good := by
  apply reads_bind _ (condition_reads n c _ _ _)
  rintro mid _ e ⟨es, opened, closed, brace, rfl, test⟩
  apply reads_bind _ (block_reads ih mid brace)
  intro next bs list block
  refine reads_map (reads_mono (ih.alternative next) fun ls a others => rest _ e list a ?_)
  have derives := Derives.conditional opened closed test block others
  simpa only [List.cons_append, List.append_assoc, List.nil_append] using derives

theorem if_reads (c : Cursor) (keyword : KeywordToken .if) :
    Reads c (ifStatement (n + 1)) (fun k => ifStatement (k + n + 1)) fun ts s =>
      Derives .statement (keyword.1 :: ts) (s.rename .blank) :=
  conditional_reads ih c Stmt.branch _ fun _ _ _ _ => .statement_if keyword

theorem alternative_reads (c : Cursor) :
    Reads c (alternative (n + 1)) (fun k => alternative (k + n + 1)) fun ts a =>
      Derives .alternative ts (a.rename .blank) := by
  apply reads_accept_keyword
  · intro other mid
    apply reads_accept_keyword
    · intro keyword next
      exact conditional_reads ih next Alternative.elseIf _ fun _ _ _ _ => .alternative_if other keyword
    · intro next
      refine reads_symbol _ _ fun brace line last => ?_
      exact reads_map (reads_mono (block_reads ih last brace) fun _ _ => .alternative_block other)
  · exact fun mid => reads_pure mid _ _ .alternative_none

theorem while_reads (c : Cursor) (keyword : KeywordToken .while) :
    Reads c (whileStatement (n + 1)) (fun k => whileStatement (k + n + 1)) fun ts s =>
      Derives .statement (keyword.1 :: ts) (s.rename .blank) := by
  apply reads_bind _ (condition_reads n c _ _ _)
  rintro next _ e ⟨es, opened, closed, brace, rfl, test⟩
  refine reads_map (reads_mono (block_reads ih next brace) fun bs list block => ?_)
  rw [Stmt.rename]
  have derives := Derives.statement_while keyword opened closed test block
  simpa only [List.cons_append, List.append_assoc, List.nil_append] using derives

theorem for_reads (c : Cursor) (keyword : KeywordToken .for) (line : Nat) :
    Reads c (forStatement (n + 1) line) (fun k => forStatement (k + n + 1) line) fun ts s =>
      Derives .statement (keyword.1 :: ts) (s.rename .blank) := by
  refine reads_symbol _ _ fun opened at_ mid => ?_
  apply reads_bind _ (loop_start_reads n mid)
  intro mid ss start first
  apply reads_bind _ (loop_condition_reads n mid line)
  rintro mid cs e ⟨test, derives, same⟩
  refine reads_symbol _ _ fun ended at_ mid => ?_
  apply reads_bind _ (expression_unless_reads n mid .rightParen)
  intro mid ls action last
  refine reads_symbol _ _ fun closed at_ mid => reads_symbol _ _ fun brace at_ mid => ?_
  refine reads_map (reads_mono (block_reads ih mid brace) fun bs list block => ?_)
  rw [loop_blank start e test action list same]
  exact .statement_for keyword opened ended closed first derives last block

end Step

theorem block_nothing : Derives .block [(aSymbol .leftBrace).1, (aSymbol .rightBrace).1] [] :=
  .block _ _ .declarations_none

theorem function_nothing : ∃ ts, Derives .function ts ⟨aName.name, [], []⟩ :=
  ⟨_, .function aName (aSymbol .leftParen) (aSymbol .rightParen) .parameters_none block_nothing⟩

theorem conditional_nothing : ∃ ts, Derives .conditional ts (.ident unmarked aName.name, [], .none) :=
  ⟨_, .conditional (aSymbol .leftParen) (aSymbol .rightParen) expression_name block_nothing .alternative_none⟩

theorem statements_read : ∀ n, StatementsRead n
  | 0 => by
      obtain ⟨fs, function⟩ := function_nothing
      obtain ⟨cs, conditional⟩ := conditional_nothing
      exact ⟨fun c => reads_exhausted c _ _ ⟨_, .block [], .declaration_statement (.statement_block block_nothing)⟩,
        fun c => reads_exhausted c _ _ ⟨_, [], [], aSymbol .rightBrace, rfl, .declarations_none⟩,
        fun c => reads_exhausted c _ _ ⟨_, ⟨aName.name, [], []⟩, function⟩,
        fun c keyword => reads_exhausted c _ _ ⟨_, .class aName.name [],
          .declaration_class keyword aName (aSymbol .leftBrace) (aSymbol .rightBrace) .functions_none⟩,
        fun c => reads_exhausted c _ _ ⟨_, [], [], aSymbol .rightBrace, rfl, .functions_none⟩,
        fun c keyword => reads_exhausted c _ _ ⟨cs, .branch (.ident unmarked aName.name) [] .none,
          .statement_if keyword conditional⟩,
        fun c => reads_exhausted c _ _ ⟨[], .none, .alternative_none⟩,
        fun c keyword => reads_exhausted c _ _ ⟨_, .while (.ident unmarked aName.name) [],
          .statement_while keyword (aSymbol .leftParen) (aSymbol .rightParen) expression_name block_nothing⟩,
        fun c keyword _ => reads_exhausted c _ _ ⟨_, .while (.literal unmarked (.bool true)) [],
          .statement_for keyword (aSymbol .leftParen) (aSymbol .semicolon) (aSymbol .rightParen)
            (.start_none (aSymbol .semicolon)) .optional_none .optional_none block_nothing⟩⟩
  | n + 1 => by
      have ih := statements_read n
      exact ⟨declaration_reads ih, body_reads ih, routine_reads ih, class_reads ih, methods_reads ih, if_reads ih,
        alternative_reads ih, while_reads ih, for_reads ih⟩

theorem program_reads : ∀ n c, Reads c (program n) (fun k => program (k + n)) fun ts list =>
    Derives .declarations ts (Stmt.renameAll .blank list)
  | 0, c => reads_exhausted c _ _ ⟨[], [], .declarations_none⟩
  | n + 1, c => by
      apply reads_peek
      split
      · exact reads_pure c _ _ .declarations_none
      · apply reads_bind _ ((statements_read n).declaration c)
        intro next taken s first
        exact reads_map (reads_mono (program_reads n next) fun _ _ => .declarations_more first)

theorem program_ends : ∀ n c, Ends (program n) c (fun _ next => next.peek.kind.isFinish = true) fun _ _ => True
  | 0, _ => trivial
  | n + 1, c => by
      refine ends_bind peek _ c (fun token next => token = c.peek ∧ next = c) _ _ ⟨rfl, rfl⟩ ?_
      rintro _ _ ⟨rfl, rfl⟩
      split
      · rename_i finished
        exact finished
      · apply ends_bind _ _ _ (fun _ _ => True)
        · unfold Ends
          split <;> trivial
        · exact fun s mid _ => ends_bind _ _ _ _ _ _ (program_ends n mid) fun _ _ finished => finished

end Parser

end TreeWalk
