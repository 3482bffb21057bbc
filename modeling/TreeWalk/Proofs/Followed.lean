import TreeWalk.Proofs.Seams

set_option autoImplicit false

namespace TreeWalk

open TreeWalk.Parser

theorem atom_rename (r : Renaming) (token : Token) (mark : Mark) :
    atom? (token.rename r) (mark.rename r) = (atom? token mark).map (Expr.rename r) := by
  unfold atom?
  simp only [Token.rename]
  split <;> rfl

theorem node_rename (r : Renaming) (level : Parser.Level) (mark : Mark) (left right : Expr) (operator : Token) :
    level.node (mark.rename r) (left.rename r) (operator.rename r) (right.rename r) =
      (level.node mark left operator right).rename r := by
  unfold Parser.Level.node
  split <;> rfl

theorem atom_finish (token : Token) (mark : Mark) (e : Expr) (single : atom? token mark = some e) :
    token.kind.isFinish = false := by
  cases kind : token.kind with
  | finish => simp [atom?, kind] at single
  | _ => rfl

section Expressions

variable {seam : Seam} {c d : Cursor}

def rename_arguments (r : Renaming) (read : List Expr × Nat) : List Expr × Nat :=
  (Expr.renameAll r read.1, r.line read.2)

theorem follows_assign_to (target value : Expr) (equals : Token) :
    Follows seam false c d (Expr.rename seam.change) (assignTo target equals value)
      (assignTo (target.rename seam.change) (equals.rename seam.change) (value.rename seam.change)) := by
  cases target with
  | ident mark name =>
      exact follows_bind (follows_mark mark.line) fun given _ _ => follows_pure _ (Expr.assign given name value)
  | get mark object name =>
      exact follows_bind (follows_mark mark.line) fun given _ _ => follows_pure _ (Expr.set given object name value)
  | _ => exact follows_refuse equals .assignmentTarget

theorem atom_none (token : Token) (c : Cursor) (none : atom? token ⟨c.nextId, token.line⟩ = none) :
    atom token c = (refuse token .expression : Parser Expr) c := by
  simp only [atom, bind, EStateM.bind, get_run, none]

theorem atom_some (token : Token) (c : Cursor) (e : Expr) (single : atom? token ⟨c.nextId, token.line⟩ = some e) :
    atom token c = (do advance; let _ ← mark token.line; return e : Parser Expr) c := by
  simp only [atom, bind, EStateM.bind, get_run, single]

theorem follows_atom :
    Follows seam false c d (Expr.rename seam.change) (atom c.peek) (atom (c.peek.rename seam.change)) := by
  have second : seam.Inside c d → atom? (c.peek.rename seam.change) ⟨d.nextId, seam.change.line c.peek.line⟩ =
      (atom? c.peek ⟨c.nextId, c.peek.line⟩).map (Expr.rename seam.change) := by
    intro ⟨_, both, _⟩
    rw [both.id]
    exact atom_rename seam.change c.peek ⟨c.nextId, c.peek.line⟩
  cases single : atom? c.peek ⟨c.nextId, c.peek.line⟩ with
  | none =>
      refine follows_congr (atom_none _ c single) (fun inside => atom_none _ d ?_) (follows_refuse c.peek .expression)
      exact (second inside).trans (congrArg _ single)
  | some e =>
      have taken := atom_finish c.peek _ e single
      refine follows_congr (atom_some _ c e single) (fun inside => atom_some _ d (e.rename seam.change) ?_) ?_
      · exact (second inside).trans (congrArg _ single)
      · apply follows_bind (follows_advance taken)
        intro _ mid other
        exact follows_bind (follows_mark c.peek.line) fun _ _ _ => follows_pure _ e

structure ExpressionsFollow (seam : Seam) (n m : Nat) : Prop where
  expression : ∀ c d, Follows seam false c d (Expr.rename seam.change) (expression n) (expression m)
  operation : ∀ c d levels,
    Follows seam false c d (Expr.rename seam.change) (operation n levels) (operation m levels)
  operands : ∀ c d level tighter left, Follows seam false c d (Expr.rename seam.change)
    (operands n level tighter left) (operands m level tighter (left.rename seam.change))
  unary : ∀ c d, Follows seam false c d (Expr.rename seam.change) (unary n) (unary m)
  suffixes : ∀ c d e,
    Follows seam false c d (Expr.rename seam.change) (suffixes n e) (suffixes m (e.rename seam.change))
  arguments : ∀ c d, Follows seam false c d (rename_arguments seam.change) (arguments n) (arguments m)
  expressions : ∀ c d, Follows seam false c d (Expr.renameAll seam.change) (expressions n) (expressions m)
  primary : ∀ c d, Follows seam false c d (Expr.rename seam.change) (primary n) (primary m)

section Step

variable {n m : Nat} (ih : ExpressionsFollow seam n m) (c d : Cursor)

include ih

theorem follows_expression :
    Follows seam false c d (Expr.rename seam.change) (expression (n + 1)) (expression (m + 1)) := by
  unfold expression
  apply follows_bind (ih.operation c d Parser.Level.ladder)
  intro target c d
  apply follows_peek
  apply follows_bind (follows_accept_symbol .equal)
  intro accepted mid other
  apply follows_if
  · intro _
    exact follows_bind (ih.expression mid other) fun value _ _ => follows_assign_to target value c.peek
  · exact fun _ => follows_pure _ target

theorem follows_operation (levels : List Parser.Level) :
    Follows seam false c d (Expr.rename seam.change) (operation (n + 1) levels) (operation (m + 1) levels) := by
  cases levels with
  | nil => exact ih.unary c d
  | cons level tighter => exact follows_bind (ih.operation c d tighter) fun left c d => ih.operands c d level tighter left

theorem follows_operands (level : Parser.Level) (tighter : List Parser.Level) (left : Expr) :
    Follows seam false c d (Expr.rename seam.change) (operands (n + 1) level tighter left)
      (operands (m + 1) level tighter (left.rename seam.change)) := by
  unfold operands
  apply follows_peek
  apply follows_if
  · intro holds
    apply follows_bind (follows_advance (not_finish_of_level level _ holds))
    intro _ mid other
    apply follows_bind (ih.operation mid other tighter)
    intro right mid other
    rw [line_rename]
    apply follows_bind (follows_mark left.line)
    intro given mid other
    rw [node_rename]
    exact ih.operands mid other level tighter _
  · exact fun _ => follows_pure _ left

theorem follows_unary : Follows seam false c d (Expr.rename seam.change) (unary (n + 1)) (unary (m + 1)) := by
  unfold unary
  apply follows_peek
  apply follows_if
  · intro is
    have taken : c.peek.kind.isFinish = false := by
      rcases Bool.or_eq_true_iff.mp is with bang | minus
      · exact not_finish_of_symbol _ _ bang
      · exact not_finish_of_symbol _ _ minus
    apply follows_bind (follows_advance taken)
    intro _ mid other
    apply follows_bind (ih.unary mid other)
    intro right mid other
    exact follows_bind (follows_mark c.peek.line) fun given _ _ => follows_pure _ (Expr.unary given c.peek right)
  · exact fun _ => follows_bind (ih.primary c d) fun callee c d => ih.suffixes c d callee

theorem follows_suffixes (e : Expr) :
    Follows seam false c d (Expr.rename seam.change) (suffixes (n + 1) e) (suffixes (m + 1) (e.rename seam.change)) := by
  unfold suffixes
  apply follows_bind (follows_accept_symbol .leftParen)
  intro accepted mid other
  apply follows_if
  · intro _
    apply follows_bind (ih.arguments mid other)
    intro read mid other
    rw [line_rename]
    exact follows_bind (follows_mark e.line) fun given mid other => ih.suffixes mid other (.call given e read.1 read.2)
  · intro _
    apply follows_bind (follows_accept_symbol .dot)
    intro dotted mid other
    apply follows_if
    · intro _
      apply follows_bind (follows_expect_name .propertyName)
      intro name mid other
      rw [line_rename]
      exact follows_bind (follows_mark e.line) fun given mid other => ih.suffixes mid other (.get given e name)
    · exact fun _ => follows_pure _ e

theorem follows_arguments :
    Follows seam false c d (rename_arguments seam.change) (arguments (n + 1)) (arguments (m + 1)) := by
  unfold arguments
  apply follows_peek
  have closed : ∀ es mid other, Follows seam false mid other (rename_arguments seam.change)
      (do return (es, ← expectSymbol .rightParen .argumentsClose))
      (do return (Expr.renameAll seam.change es, ← expectSymbol .rightParen .argumentsClose)) :=
    fun es _ _ => follows_bind (follows_expect_symbol _ _) fun line _ _ => follows_pure _ (es, line)
  dsimp only
  apply follows_if
  · exact fun _ => follows_bind (follows_pure (Expr.renameAll seam.change) []) closed
  · exact fun _ => follows_bind (ih.expressions c d) closed

theorem follows_expressions :
    Follows seam false c d (Expr.renameAll seam.change) (expressions (n + 1)) (expressions (m + 1)) := by
  unfold expressions
  apply follows_bind (ih.expression c d)
  intro first c d
  apply follows_bind (follows_accept_symbol .comma)
  intro accepted mid other
  apply follows_if
  · exact fun _ => follows_bind (ih.expressions mid other) fun rest _ _ => follows_pure _ (first :: rest)
  · exact fun _ => follows_pure _ [first]

theorem follows_primary : Follows seam false c d (Expr.rename seam.change) (primary (n + 1)) (primary (m + 1)) := by
  unfold primary
  apply follows_peek
  apply follows_if
  · intro is
    apply follows_bind (follows_advance (not_finish_of_symbol _ _ is))
    intro _ mid other
    apply follows_bind (ih.expression mid other)
    intro inner mid other
    apply follows_bind (follows_expect_symbol .rightParen .groupingClose)
    intro _ mid other
    exact follows_bind (follows_mark c.peek.line) fun given _ _ => follows_pure _ (Expr.grouping given inner)
  · exact fun _ => follows_atom

end Step

theorem expressions_follow (seam : Seam) : ∀ n m, (seam.closed → n = m) → n ≤ m → ExpressionsFollow seam n m
  | 0, m, same, _ => by
      constructor <;> intros <;> exact follows_throw .exhausted fun closed => by obtain rfl := same closed; rfl
  | n + 1, 0, _, bound => absurd bound (Nat.not_succ_le_zero n)
  | n + 1, m + 1, same, bound => by
      have ih := expressions_follow seam n m (fun closed => Nat.succ.inj (same closed)) (Nat.le_of_succ_le_succ bound)
      exact ⟨follows_expression ih, follows_operation ih, follows_operands ih, follows_unary ih, follows_suffixes ih,
        follows_arguments ih, follows_expressions ih, follows_primary ih⟩

end Expressions

theorem var_rename (r : Renaming) (name : Name) (initializer : Option Expr) :
    (Stmt.var name initializer).rename r = .var (name.rename r) (initializer.map (Expr.rename r)) := by
  cases initializer <;> rfl

theorem return_rename (r : Renaming) (line : Nat) (value : Option Expr) :
    (Stmt.return line value).rename r = .return (r.line line) (value.map (Expr.rename r)) := by
  cases value <;> rfl

theorem loop_rename (r : Renaming) (start : Option Stmt) (condition : Expr) (action : Option Expr) (body : List Stmt) :
    (loop start condition action body).rename r =
      loop (start.map (Stmt.rename r)) (condition.rename r) (action.map (Expr.rename r)) (Stmt.renameAll r body) := by
  cases start <;> cases action <;> rfl

section Parts

variable {seam : Seam} {n m : Nat} (expressions : ExpressionsFollow seam n m) (c d : Cursor)

include expressions

theorem follows_expression_unless (symbol : Symbol) :
    Follows seam false c d (Option.map (Expr.rename seam.change)) (expressionUnless n symbol)
      (expressionUnless m symbol) := by
  apply follows_peek
  apply follows_if
  · exact fun _ => follows_pure _ none
  · exact fun _ => follows_bind (expressions.expression c d) fun e _ _ => follows_pure _ (some e)

theorem closes_expression_statement :
    Follows seam true c d (Stmt.rename seam.change) (expressionStatement n) (expressionStatement m) := by
  apply follows_bind (expressions.expression c d)
  intro e mid other
  exact closes_then (closes_expect_symbol .semicolon .expressionEnd) fun _ _ _ => trails_pure _ (Stmt.expression e)

theorem closes_var_declaration :
    Follows seam true c d (Stmt.rename seam.change) (varDeclaration n) (varDeclaration m) := by
  unfold varDeclaration
  apply follows_bind (follows_expect_name .variableName)
  intro name mid other
  apply follows_bind (follows_accept_symbol .equal)
  intro accepted mid other
  have closed : ∀ (initializer : Option Expr) mid other, Follows seam true mid other (Stmt.rename seam.change)
      (do let _ ← expectSymbol .semicolon .variableEnd; return .var name initializer)
      (do
        let _ ← expectSymbol .semicolon .variableEnd
        return .var (name.rename seam.change) (initializer.map (Expr.rename seam.change))) := by
    intro initializer mid other
    rw [← var_rename]
    exact closes_then (closes_expect_symbol .semicolon .variableEnd) fun _ _ _ => trails_pure _ (Stmt.var name initializer)
  dsimp only
  apply follows_if
  · intro _
    have read : Follows seam false mid other (Option.map (Expr.rename seam.change)) (some <$> expression n)
        (some <$> expression m) := by
      rw [map_eq_pure_bind, map_eq_pure_bind]
      exact follows_bind (expressions.expression mid other) fun e _ _ => follows_pure _ (some e)
    exact follows_bind read closed
  · exact fun _ => follows_bind (follows_pure (Option.map (Expr.rename seam.change)) none) closed

theorem closes_returned (line : Nat) :
    Follows seam true c d (Stmt.rename seam.change) (returned n line) (returned m (seam.change.line line)) := by
  apply follows_bind (follows_expression_unless expressions c d .semicolon)
  intro value mid other
  rw [← return_rename]
  exact closes_then (closes_expect_symbol .semicolon .returnEnd) fun _ _ _ => trails_pure _ (Stmt.return line value)

theorem follows_condition (opened closed braced : Expectation) :
    Follows seam false c d (Expr.rename seam.change) (condition n opened closed braced)
      (condition m opened closed braced) := by
  apply follows_bind (follows_expect_symbol .leftParen opened)
  intro _ mid other
  apply follows_bind (expressions.expression mid other)
  intro e mid other
  apply follows_bind (follows_expect_symbol .rightParen closed)
  intro _ mid other
  exact follows_bind (follows_expect_symbol .leftBrace braced) fun _ _ _ => follows_pure _ e

theorem follows_loop_start :
    Follows seam false c d (Option.map (Stmt.rename seam.change)) (loopStart n) (loopStart m) := by
  apply follows_bind (follows_accept_symbol .semicolon)
  intro ended mid other
  apply follows_if
  · exact fun _ => follows_pure _ none
  · intro _
    apply follows_bind (follows_accept_keyword .var)
    intro declared mid other
    apply follows_if
    · intro _
      exact follows_bind (follows_of_closing (closes_var_declaration expressions mid other))
        fun s _ _ => follows_pure _ (some s)
    · intro _
      exact follows_bind (follows_of_closing (closes_expression_statement expressions mid other))
        fun s _ _ => follows_pure _ (some s)

theorem follows_loop_condition (line : Nat) :
    Follows seam false c d (Expr.rename seam.change) (loopCondition n line)
      (loopCondition m (seam.change.line line)) := by
  apply follows_bind (follows_expression_unless expressions c d .semicolon)
  intro read mid other
  cases read with
  | some e => exact follows_pure _ e
  | none => exact follows_bind (follows_mark line) fun given _ _ => follows_pure _ (Expr.literal given (.bool true))

end Parts

theorem parameters_follow (seam : Seam) : ∀ n m, (seam.closed → n = m) → n ≤ m → ∀ c d,
    Follows seam false c d (List.map (Name.rename seam.change)) (parameters n) (parameters m)
  | 0, m, same, _ => fun _ _ => follows_throw .exhausted fun closed => by obtain rfl := same closed; rfl
  | n + 1, 0, _, bound => absurd bound (Nat.not_succ_le_zero n)
  | n + 1, m + 1, same, bound => by
      intro c d
      apply follows_bind (follows_expect_name .parameterName)
      intro first mid other
      apply follows_bind (follows_accept_symbol .comma)
      intro accepted mid other
      apply follows_if
      · intro _
        apply follows_bind (parameters_follow seam n m (fun closed => Nat.succ.inj (same closed))
          (Nat.le_of_succ_le_succ bound) mid other)
        exact fun rest _ _ => follows_pure _ (first :: rest)
      · exact fun _ => follows_pure _ [first]

structure StatementsFollow (seam : Seam) (n m : Nat) : Prop where
  expressions : ExpressionsFollow seam n m
  parameters : ∀ c d, Follows seam false c d (List.map (Name.rename seam.change)) (parameters n) (parameters m)
  declaration : ∀ c d, Follows seam true c d (Stmt.rename seam.change) (declaration n) (declaration m)
  body : ∀ c d, Follows seam true c d (Stmt.renameAll seam.change) (body n) (body m)
  routine : ∀ c d, Follows seam true c d (Routine.rename seam.change) (routine n) (routine m)
  classDeclaration : ∀ c d,
    Follows seam true c d (Stmt.rename seam.change) (classDeclaration n) (classDeclaration m)
  methods : ∀ c d, Follows seam true c d (Routine.renameAll seam.change) (methods n) (methods m)
  ifStatement : ∀ c d, Follows seam true c d (Stmt.rename seam.change) (ifStatement n) (ifStatement m)
  alternative : ∀ c d, Trails seam c d (Alternative.rename seam.change) (alternative n) (alternative m)
  whileStatement : ∀ c d, Follows seam true c d (Stmt.rename seam.change) (whileStatement n) (whileStatement m)
  forStatement : ∀ c d line, Follows seam true c d (Stmt.rename seam.change) (forStatement n line)
    (forStatement m (seam.change.line line))

theorem keyword_taken {α : Type} (keyword : Keyword) (p q : Parser α) (c : Cursor)
    (is : c.peek.kind.isKeyword keyword = true) :
    (do if ← acceptKeyword keyword then p else q : Parser α) c = (do advance; p : Parser α) c := by
  have run : acceptKeyword keyword c = .ok true c.advance := by
    simp only [acceptKeyword, Parser.peek, bind, EStateM.bind, get_run, pure, EStateM.pure, is, if_true, advance,
      modify_run]
  rw [bind_ok _ run]
  rfl

theorem keyword_missing {α : Type} (keyword : Keyword) (p q : Parser α) (c : Cursor)
    (isNot : c.peek.kind.isKeyword keyword = false) :
    (do if ← acceptKeyword keyword then p else q : Parser α) c = q c := by
  have run : acceptKeyword keyword c = .ok false c := by
    simp only [acceptKeyword, Parser.peek, bind, EStateM.bind, get_run, pure, EStateM.pure, isNot, Bool.false_eq_true,
      if_false]
  rw [bind_ok _ run]
  rfl

section Step

variable {seam : Seam} {n m : Nat} (ih : StatementsFollow seam n m) (c d : Cursor)

include ih

theorem closes_declaration :
    Follows seam true c d (Stmt.rename seam.change) (declaration (n + 1)) (declaration (m + 1)) := by
  unfold declaration
  apply follows_peek
  simp only [kind_rename]
  -- What begins with a keyword or a brace is read from behind it.
  have behind : ∀ (kind : TokenKind) (rule rule' : Parser Stmt), c.peek.kind = kind → kind.isFinish = false →
      (∀ mid other, Follows seam true mid other (Stmt.rename seam.change) rule rule') →
      Follows seam true c d (Stmt.rename seam.change) (do advance; rule) (do advance; rule') :=
    fun _ _ _ is taken follows => follows_bind (follows_advance (is ▸ taken)) fun _ mid other => follows mid other
  split <;> rename_i kind
  · exact behind _ _ _ kind rfl (closes_var_declaration ih.expressions)
  · exact behind _ _ _ kind rfl fun mid other =>
      closes_then (ih.routine mid other) fun read _ _ => trails_pure _ (Stmt.function read)
  · exact behind _ _ _ kind rfl ih.classDeclaration
  · exact behind _ _ _ kind rfl ih.ifStatement
  · exact behind _ _ _ kind rfl ih.whileStatement
  · exact behind _ _ _ kind rfl fun mid other => ih.forStatement mid other c.peek.line
  · exact behind _ _ _ kind rfl fun mid other => closes_returned ih.expressions mid other c.peek.line
  · exact behind _ _ _ kind rfl fun mid other =>
      closes_then (ih.body mid other) fun read _ _ => trails_pure _ (Stmt.block read)
  · exact closes_expression_statement ih.expressions c d

theorem closes_body : Follows seam true c d (Stmt.renameAll seam.change) (body (n + 1)) (body (m + 1)) := by
  unfold body
  apply follows_peek
  apply follows_if
  · exact fun _ => closes_then (closes_expect_symbol .rightBrace .blockClose) fun _ _ _ => trails_pure _ []
  · intro _
    apply follows_bind (follows_of_closing (ih.declaration c d))
    intro first mid other
    exact closes_then (ih.body mid other) fun rest _ _ => trails_pure _ (first :: rest)

theorem closes_routine : Follows seam true c d (Routine.rename seam.change) (routine (n + 1)) (routine (m + 1)) := by
  unfold routine
  apply follows_bind (follows_expect_name .functionName)
  intro name mid other
  apply follows_bind (follows_expect_symbol .leftParen .parametersOpen)
  intro _ c d
  apply follows_peek
  have closed : ∀ (names : List Name) mid other, Follows seam true mid other (Routine.rename seam.change)
      (do
        let _ ← expectSymbol .rightParen .parametersClose
        let _ ← expectSymbol .leftBrace .functionBody
        return ⟨name, names, ← body n⟩)
      (do
        let _ ← expectSymbol .rightParen .parametersClose
        let _ ← expectSymbol .leftBrace .functionBody
        return ⟨name.rename seam.change, names.map (Name.rename seam.change), ← body m⟩) := by
    intro names mid other
    apply follows_bind (follows_expect_symbol .rightParen .parametersClose)
    intro _ mid other
    apply follows_bind (follows_expect_symbol .leftBrace .functionBody)
    intro _ mid other
    exact closes_then (ih.body mid other) fun read _ _ => trails_pure _ (Routine.mk name names read)
  dsimp only
  apply follows_if
  · exact fun _ => follows_bind (follows_pure (List.map (Name.rename seam.change)) []) closed
  · exact fun _ => follows_bind (ih.parameters c d) closed

theorem closes_class_declaration :
    Follows seam true c d (Stmt.rename seam.change) (classDeclaration (n + 1)) (classDeclaration (m + 1)) := by
  unfold classDeclaration
  apply follows_bind (follows_expect_name .className)
  intro name mid other
  apply follows_bind (follows_expect_symbol .leftBrace .classOpen)
  intro _ mid other
  exact closes_then (ih.methods mid other) fun read _ _ => trails_pure _ (Stmt.class name read)

theorem closes_methods :
    Follows seam true c d (Routine.renameAll seam.change) (methods (n + 1)) (methods (m + 1)) := by
  unfold methods
  apply follows_peek
  apply follows_if
  · exact fun _ => closes_then (closes_expect_symbol .rightBrace .classClose) fun _ _ _ => trails_pure _ []
  · intro _
    apply follows_bind (follows_of_closing (ih.routine c d))
    intro first mid other
    exact closes_then (ih.methods mid other) fun rest _ _ => trails_pure _ (first :: rest)

theorem closes_if_statement :
    Follows seam true c d (Stmt.rename seam.change) (ifStatement (n + 1)) (ifStatement (m + 1)) := by
  unfold ifStatement
  apply follows_bind (follows_condition ih.expressions c d _ _ _)
  intro e mid other
  apply closes_then (ih.body mid other)
  intro read mid other
  exact trails_bind (ih.alternative mid other) fun rest _ _ => trails_pure _ (Stmt.branch e read rest)

theorem trails_alternative :
    Trails seam c d (Alternative.rename seam.change) (alternative (n + 1)) (alternative (m + 1)) := by
  unfold alternative
  cases is : c.peek.kind.isKeyword .else with
  | true =>
      apply trails_of_closing
      refine follows_congr (keyword_taken _ _ _ c is) (fun inside => keyword_taken _ _ _ d ?_) ?_
      · rw [Seam.inside_peek inside]
        exact is
      · apply follows_bind (follows_advance (not_finish_of_keyword _ _ is))
        intro _ mid other
        apply follows_bind (follows_accept_keyword .if)
        intro again mid other
        apply follows_if
        · intro _
          apply follows_bind (follows_condition ih.expressions mid other _ _ _)
          intro e mid other
          apply closes_then (ih.body mid other)
          intro read mid other
          exact trails_bind (ih.alternative mid other) fun rest _ _ => trails_pure _ (Alternative.elseIf e read rest)
        · intro _
          apply follows_bind (follows_expect_symbol .leftBrace .elseBody)
          intro _ mid other
          exact closes_then (ih.body mid other) fun read _ _ => trails_pure _ (Alternative.block read)
  | false =>
      -- Behind its body the first text may end, where the second one goes on with no `else`.
      intro level
      have also : d.peek.kind.isKeyword .else = false := by
        obtain ⟨ahead, both⟩ := level
        cases ahead with
        | nil =>
            have rest : d.rest = seam.further := by simpa using both.second
            simpa [Cursor.peek, rest] using seam.apart
        | cons token rest =>
            rw [Seam.inside_peek ⟨_, both, .inr (by simp)⟩]
            exact is
      unfold Ends
      rw [keyword_missing _ _ _ c is]
      exact ⟨List.suffix_refl _, d, keyword_missing _ _ _ d also, level⟩

theorem closes_while_statement :
    Follows seam true c d (Stmt.rename seam.change) (whileStatement (n + 1)) (whileStatement (m + 1)) := by
  unfold whileStatement
  apply follows_bind (follows_condition ih.expressions c d _ _ _)
  intro e mid other
  exact closes_then (ih.body mid other) fun read _ _ => trails_pure _ (Stmt.while e read)

theorem closes_for_statement (line : Nat) :
    Follows seam true c d (Stmt.rename seam.change) (forStatement (n + 1) line)
      (forStatement (m + 1) (seam.change.line line)) := by
  unfold forStatement
  apply follows_bind (follows_expect_symbol .leftParen .forOpen)
  intro _ mid other
  apply follows_bind (follows_loop_start ih.expressions mid other)
  intro start mid other
  apply follows_bind (follows_loop_condition ih.expressions mid other line)
  intro test mid other
  apply follows_bind (follows_expect_symbol .semicolon .forConditionEnd)
  intro _ mid other
  apply follows_bind (follows_expression_unless ih.expressions mid other .rightParen)
  intro action mid other
  apply follows_bind (follows_expect_symbol .rightParen .forClose)
  intro _ mid other
  apply follows_bind (follows_expect_symbol .leftBrace .forBody)
  intro _ mid other
  apply closes_then (ih.body mid other)
  intro read mid other
  rw [← loop_rename]
  exact trails_pure _ (loop start test action read)

end Step

theorem statements_follow (seam : Seam) : ∀ n m, (seam.closed → n = m) → n ≤ m → StatementsFollow seam n m
  | 0, m, same, bound => by
      have exhausted : ∀ {α β : Type} {closing : Bool} {c d : Cursor} {rename : α → β} {q : Parser β},
          (seam.closed → q = throw .exhausted) → Follows seam closing c d rename (throw .exhausted) q :=
        fun same => follows_throw .exhausted same
      refine ⟨expressions_follow seam 0 m same bound, parameters_follow seam 0 m same bound, ?_, ?_, ?_, ?_, ?_, ?_,
        fun c d => trails_of_closing ?_, ?_, ?_⟩ <;> intros <;>
        exact exhausted fun closed => by obtain rfl := same closed; rfl
  | n + 1, 0, _, bound => absurd bound (Nat.not_succ_le_zero n)
  | n + 1, m + 1, same, bound => by
      have ih := statements_follow seam n m (fun closed => Nat.succ.inj (same closed)) (Nat.le_of_succ_le_succ bound)
      exact ⟨expressions_follow seam (n + 1) (m + 1) same bound, parameters_follow seam (n + 1) (m + 1) same bound,
        closes_declaration ih, closes_body ih, closes_routine ih, closes_class_declaration ih, closes_methods ih,
        closes_if_statement ih, trails_alternative ih, closes_while_statement ih, closes_for_statement ih⟩

theorem program_follows (seam : Seam) : ∀ n m, (seam.closed → n = m) → n ≤ m → ∀ c d,
    Follows seam false c d (Stmt.renameAll seam.change) (program n) (program m)
  | 0, m, same, _ => fun _ _ => follows_throw .exhausted fun closed => by obtain rfl := same closed; rfl
  | n + 1, 0, _, bound => absurd bound (Nat.not_succ_le_zero n)
  | n + 1, m + 1, same, bound => by
      intro c d
      have fewer := fun closed => Nat.succ.inj (same closed)
      have lower := Nat.le_of_succ_le_succ bound
      apply follows_peek
      apply follows_if
      · exact fun _ => follows_pure _ []
      · intro _
        apply follows_bind (follows_of_closing ((statements_follow seam n m fewer lower).declaration c d))
        intro first mid other
        exact follows_bind (program_follows seam n m fewer lower mid other) fun rest _ _ => follows_pure _ (first :: rest)

theorem program_stops (n : Nat) (c : Cursor) (stopped : c.peek.kind.isFinish = true) :
    program (n + 1) c = .ok [] c := by
  simp only [program, Parser.peek, bind, EStateM.bind, get_run, pure, EStateM.pure, stopped, if_true]

theorem program_goes (n : Nat) (c : Cursor) (going : c.peek.kind.isFinish = false) :
    program (n + 1) c = (do let first ← declaration n; return first :: (← program n) : Parser Program) c := by
  simp only [program, Parser.peek, bind, EStateM.bind, get_run, pure, EStateM.pure, going, Bool.false_eq_true, if_false]

theorem declaration_continues (seam : Seam) (opened : ¬ seam.closed) (n m : Nat) (c d mid : Cursor) (ahead : List Token)
    (s : Stmt) (bound : n ≤ m) (inside : seam.Inside c d) (both : seam.Ahead ahead c d)
    (plain : ∀ token ∈ ahead, token.kind.isFinish = false) (run : declaration n c = .ok s mid) :
    ∃ (left : List Token) (other : Cursor), declaration m d = .ok (s.rename seam.change) other ∧
      seam.Ahead left mid other ∧ left.length < ahead.length ∧ ∀ token ∈ left, token.kind.isFinish = false := by
  have follows := (statements_follow seam n m (fun closed => (opened closed).elim) bound).declaration c d (.inl inside)
  unfold Ends at follows
  rw [run] at follows
  obtain ⟨⟨front, whole⟩, shorter, _, other, second, left, further⟩ := follows
  rw [further.first, both.first] at shorter whole
  have kept : front ++ left = ahead := by
    refine List.append_cancel_right (?_ : _ ++ [seam.last] = _ ++ [seam.last])
    rw [List.append_assoc, whole]
  exact ⟨left, other, second, further, by simpa using shorter,
    fun token member => plain token (kept ▸ List.mem_append_right _ member)⟩

theorem program_continues (seam : Seam) (opened : ¬ seam.closed) : ∀ (n m : Nat) (c d next : Cursor)
    (ahead : List Token) (read : Program), n ≤ m → seam.Ahead ahead c d →
    (∀ token ∈ ahead, token.kind.isFinish = false) → program n c = .ok read next →
    ∃ (taken : Nat) (other : Cursor), taken ≤ ahead.length ∧ taken < m ∧ seam.Ahead [] next other ∧
      program m d = (do return Stmt.renameAll seam.change read ++ (← program (m - taken)) : Parser Program) other
  | 0, _, _, _, _, _, _, _, _, _, run => by cases run
  | n + 1, 0, _, _, _, _, _, bound, _, _, _ => absurd bound (Nat.not_succ_le_zero n)
  | n + 1, m + 1, c, d, next, [], read, _, both, _, run => by
      have last : c.peek = seam.last := by simp [Cursor.peek, both.first]
      rw [program_stops n c (last ▸ seam.finished)] at run
      cases run
      refine ⟨0, d, Nat.zero_le _, Nat.succ_pos m, both, ?_⟩
      simp only [Stmt.renameAll, List.nil_append, bind_pure, Nat.sub_zero]
  | n + 1, m + 1, c, d, next, token :: ahead, read, bound, both, plain, run => by
      have inside : seam.Inside c d := ⟨_, both, .inr (by simp)⟩
      have going : c.peek.kind.isFinish = false := by
        simpa [Cursor.peek, both.first] using plain token List.mem_cons_self
      have seen : d.peek.kind.isFinish = false := by
        rw [Seam.inside_peek inside]
        exact going
      have lower := Nat.le_of_succ_le_succ bound
      rw [program_goes n c going] at run
      cases first : declaration n c with
      | error stop mid =>
          rw [bind_error _ first] at run
          cases run
      | ok s mid =>
          rw [bind_ok _ first] at run
          obtain ⟨left, other, second, further, fewer, among⟩ :=
            declaration_continues seam opened n m c d mid _ s lower inside both plain first
          cases tail : program n mid with
          | error stop last =>
              rw [bind_error _ tail] at run
              cases run
          | ok rest last =>
              rw [bind_ok _ tail] at run
              cases run
              obtain ⟨taken, final, few, within, done, same⟩ :=
                program_continues seam opened n m mid other next left rest lower further among tail
              refine ⟨taken + 1, final, by omega, Nat.succ_lt_succ within, done, ?_⟩
              rw [program_goes m d seen, bind_ok _ second, Nat.succ_sub_succ]
              cases later : program (m - taken) final with
              | ok more end_ =>
                  rw [bind_ok _ later] at same ⊢
                  rw [bind_ok _ same]
                  rfl
              | error stop end_ =>
                  rw [bind_error _ later] at same ⊢
                  rw [bind_error _ same]

end TreeWalk
