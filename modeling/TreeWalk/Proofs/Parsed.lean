import TreeWalk.Proofs.Identities
import TreeWalk.Proofs.ReceiverName
import TreeWalk.Proofs.Runs
import TreeWalk.Syntax.Parser

set_option autoImplicit false

namespace TreeWalk

def Cursor.Proper (c : Cursor) : Prop :=
  ∀ token ∈ c.rest, token.Proper

structure Cursor.Later (c next : Cursor) : Prop where
  suffix : next.rest <:+ c.rest
  ids : c.nextId ≤ next.nextId

theorem later_refl (c : Cursor) : c.Later c :=
  ⟨List.suffix_refl _, Nat.le_refl _⟩

theorem later_trans {c mid next : Cursor} (first : c.Later mid) (second : mid.Later next) : c.Later next :=
  ⟨second.suffix.trans first.suffix, Nat.le_trans first.ids second.ids⟩

theorem later_proper {c next : Cursor} (later : c.Later next) (proper : c.Proper) : next.Proper :=
  fun token member => proper token (later.suffix.subset member)

theorem advance_later (c : Cursor) : c.Later c.advance := by
  unfold Cursor.advance
  split
  · exact later_refl c
  · exact ⟨List.tail_suffix c.rest, Nat.le_refl _⟩

theorem peek_proper (c : Cursor) (proper : c.Proper) : c.peek.Proper := by
  unfold Cursor.peek
  cases tokens : c.rest with
  | nil => exact ⟨by simp [Token.finish], by simp [Token.finish]⟩
  | cons token rest => exact proper token (by simp [tokens])

namespace Parser

variable {α β : Type}

def Yields (c : Cursor) (p : Parser α) (result : α → Cursor → Prop) : Prop :=
  c.Proper → Ends p c (fun a next => c.Later next ∧ result a next) fun _ _ => True

theorem yields_pure (c : Cursor) (a : α) (result : α → Cursor → Prop) (here : result a c) :
    Yields c (pure a) result :=
  fun _ => ends_pure _ _ _ _ ⟨later_refl c, here⟩

theorem yields_throw (c : Cursor) (stop : Stop) (result : α → Cursor → Prop) :
    Yields c (throw stop) result :=
  fun _ => trivial

theorem yields_refuse (c : Cursor) (token : Token) (expected : Expectation) (result : α → Cursor → Prop) :
    Yields c (refuse token expected) result :=
  fun _ => trivial

theorem yields_bind {c : Cursor} {p : Parser α} {f : α → Parser β} {mid : α → Cursor → Prop}
    {result : β → Cursor → Prop} (first : Yields c p mid)
    (rest : ∀ a next, c.Later next → mid a next → Yields next (f a) result) : Yields c (p >>= f) result := by
  intro proper
  apply ends_bind p f c _ _ _ (first proper)
  intro a next ⟨later, middle⟩
  apply ends_mono _ _ _ _ _ _ (rest a next later middle (later_proper later proper))
  · intro b last ⟨further, final⟩
    exact ⟨later_trans later further, final⟩
  · exact fun _ _ _ => trivial

theorem yields_weaken {c : Cursor} {p : Parser α} {strong weak : α → Cursor → Prop} (yields : Yields c p strong)
    (weaker : ∀ a next, c.Later next → strong a next → weak a next) : Yields c p weak := by
  intro proper
  apply ends_mono _ _ _ _ _ _ (yields proper)
  · intro a next ⟨later, result⟩
    exact ⟨later, weaker a next later result⟩
  · exact fun _ _ _ => trivial

theorem yields_peek (c : Cursor) : Yields c peek fun token next => c = next ∧ c.peek = token ∧ token.Proper :=
  fun proper => ⟨later_refl c, rfl, rfl, peek_proper c proper⟩

theorem yields_advance (c : Cursor) : Yields c advance fun _ next => next.nextId = c.nextId := by
  refine fun _ => ⟨advance_later c, ?_⟩
  show c.advance.nextId = c.nextId
  unfold Cursor.advance
  split <;> rfl

theorem yields_accept_symbol (c : Cursor) (symbol : Symbol) :
    Yields c (acceptSymbol symbol) fun _ next => next.nextId = c.nextId := by
  apply yields_bind (yields_peek c)
  rintro token _ _ ⟨rfl, _, _⟩
  split
  · exact yields_bind (yields_advance _) fun _ next _ same => yields_pure next _ _ same
  · exact yields_pure _ _ _ rfl

theorem yields_accept_keyword (c : Cursor) (keyword : Keyword) :
    Yields c (acceptKeyword keyword) fun _ next => next.nextId = c.nextId := by
  apply yields_bind (yields_peek c)
  rintro token _ _ ⟨rfl, _, _⟩
  split
  · exact yields_bind (yields_advance _) fun _ next _ same => yields_pure next _ _ same
  · exact yields_pure _ _ _ rfl

theorem yields_expect_symbol (c : Cursor) (symbol : Symbol) (expected : Expectation) :
    Yields c (expectSymbol symbol expected) fun _ next => next.nextId = c.nextId := by
  apply yields_bind (yields_peek c)
  rintro token _ _ ⟨rfl, _, _⟩
  split
  · exact yields_bind (yields_advance _) fun _ next _ same => yields_pure next _ _ same
  · exact yields_refuse _ _ _ _

theorem yields_expect_name (c : Cursor) (expected : Expectation) :
    Yields c (expectName expected) fun name next => next.nextId = c.nextId ∧ name.Proper := by
  apply yields_bind (yields_peek c)
  rintro token _ _ ⟨rfl, _, proper⟩
  split
  · rename_i plain
    exact yields_bind (yields_advance _) fun _ next _ same => yields_pure next _ _ ⟨same, proper.identifier plain⟩
  · exact yields_refuse _ _ _ _

theorem yields_mark (c : Cursor) (line : Nat) :
    Yields c (mark line) fun given next => given.id = c.nextId ∧ next.nextId = c.nextId + 1 :=
  fun _ => ⟨⟨List.suffix_refl _, Nat.le_succ _⟩, rfl, rfl⟩

structure Built (low : Nat) (nodes : List Expr) (proper : Prop) (c : Cursor) : Prop where
  ids : Spread low c.nextId (nodes.map Expr.id)
  falling : ∀ e ∈ nodes, e.Falling
  proper : proper

abbrev BuiltExpr (low : Nat) (e : Expr) (c : Cursor) : Prop :=
  Built low e.nodes e.Proper c

abbrev BuiltExprs (low : Nat) (es : List Expr) (c : Cursor) : Prop :=
  Built low (Expr.nodesAll es) (Expr.ProperAll es) c

theorem built_nothing (low : Nat) (c : Cursor) {proper : Prop} (holds : proper) : Built low [] proper c :=
  ⟨spread_nil _ _, nofun, holds⟩

theorem built_at {low : Nat} {nodes : List Expr} {proper : Prop} {c next : Cursor} (built : Built low nodes proper c)
    (same : next.nextId = c.nextId) : Built low nodes proper next :=
  ⟨same ▸ built.ids, built.falling, built.proper⟩

theorem built_append {low : Nat} {nodes others : List Expr} {proper also : Prop} {c next : Cursor}
    (left : Built low nodes proper c) (right : Built c.nextId others also next) (ordered : low ≤ c.nextId)
    (later : c.nextId ≤ next.nextId) : Built low (nodes ++ others) (proper ∧ also) next := by
  refine ⟨?_, List.forall_mem_append.mpr ⟨left.falling, right.falling⟩, left.proper, right.proper⟩
  rw [List.map_append]
  exact spread_append left.ids right.ids ordered later

theorem built_parent {low : Nat} {e : Expr} {nodes : List Expr} {proper : Prop} {c next : Cursor}
    (built : Built low nodes proper c) (ordered : low ≤ c.nextId) (id : e.id = c.nextId)
    (advanced : next.nextId = c.nextId + 1) (whole : e.nodes = e :: nodes) : Built low e.nodes proper next := by
  rw [whole]
  refine ⟨?_, List.forall_mem_cons.mpr ⟨falling_parent built.ids whole id, built.falling⟩, built.proper⟩
  rw [List.map_cons, id, advanced]
  exact spread_parent built.ids ordered

theorem built_single {low : Nat} {e : Expr} {c : Cursor} (built : BuiltExpr low e c) : BuiltExprs low [e] c := by
  have nodes : e.nodes = Expr.nodesAll [e] := (List.append_nil e.nodes).symm
  exact ⟨nodes ▸ built.ids, nodes ▸ built.falling, built.proper, trivial⟩

theorem atom_cases (token : Token) (mark : Mark) (e : Expr) (single : atom? token mark = some e) :
    (∃ value, e = .literal mark value) ∨
      (token.kind = .keyword .this ∧ e = .this mark ⟨token.lexeme, token.line⟩) ∨
      (token.kind = .identifier ∧ e = .ident mark ⟨token.lexeme, token.line⟩) := by
  unfold atom? at single
  split at single
  case h_4 kind => exact .inr (.inl ⟨kind, (Option.some.inj single).symm⟩)
  case h_7 kind => exact .inr (.inr ⟨kind, (Option.some.inj single).symm⟩)
  case h_8 => cases single
  all_goals exact .inl ⟨_, (Option.some.inj single).symm⟩

theorem yields_atom (c : Cursor) (token : Token) (proper : token.Proper) :
    Yields c (atom token) fun e next => BuiltExpr c.nextId e next := by
  intro start
  unfold atom
  apply ends_bind get _ c (fun s t => c = s ∧ c = t) _ _ ⟨rfl, rfl⟩
  rintro _ _ ⟨rfl, rfl⟩
  split
  · rename_i e single
    have finished : e.nodes = [e] ∧ e.id = c.nextId ∧ e.children = [] ∧ e.Proper := by
      rcases atom_cases token _ e single with ⟨value, rfl⟩ | ⟨kind, rfl⟩ | ⟨kind, rfl⟩
      · exact ⟨rfl, rfl, rfl, trivial⟩
      · exact ⟨rfl, rfl, rfl, proper.keyword kind⟩
      · exact ⟨rfl, rfl, rfl, proper.identifier kind⟩
    obtain ⟨alone, id, leaf, named⟩ := finished
    refine yields_bind (yields_advance c) (fun _ next _ same => ?_) start
    refine yields_bind (yields_mark next token.line) (fun _ last _ ⟨_, advanced⟩ => ?_)
    refine yields_pure last _ _ ?_
    rw [BuiltExpr, alone]
    refine ⟨?_, List.forall_mem_singleton.mpr (by rw [Expr.Falling, leaf]; exact nofun), named⟩
    rw [List.map_singleton, id, advanced, same]
    exact spread_one c.nextId
  · trivial

theorem yields_assign_to (low : Nat) (c mid : Cursor) (target value : Expr) (equals : Token)
    (ordered : low ≤ mid.nextId) (later : mid.nextId ≤ c.nextId) (left : BuiltExpr low target mid)
    (right : BuiltExpr mid.nextId value c) :
    Yields c (assignTo target equals value) fun e next => BuiltExpr low e next := by
  unfold assignTo
  split
  · apply yields_bind (yields_mark c _)
    rintro given next _ ⟨id, advanced⟩
    have named : Built low value.nodes (Name.Proper _ ∧ value.Proper) c :=
      ⟨spread_widen right.ids ordered (Nat.le_refl _), right.falling, left.proper, right.proper⟩
    exact yields_pure next _ _ (built_parent named (Nat.le_trans ordered later) id advanced rfl)
  · rename_i object name
    apply yields_bind (yields_mark c _)
    rintro given next _ ⟨id, advanced⟩
    -- The property that was read as a target loses its own identity.
    have inner : BuiltExpr low object mid :=
      ⟨⟨(List.nodup_cons.mp left.ids.nodup).2, fun i member => left.ids.within i (List.mem_cons_of_mem _ member)⟩,
        fun e member => left.falling e (List.mem_cons_of_mem _ member), left.proper⟩
    exact yields_pure next _ _
      (built_parent (built_append inner right ordered later) (Nat.le_trans ordered later) id advanced rfl)
  · exact yields_refuse _ _ _ _

structure ExpressionsYield (steps : Nat) : Prop where
  expression : ∀ c, Yields c (expression steps) fun e next => BuiltExpr c.nextId e next
  operation : ∀ c levels, Yields c (operation steps levels) fun e next => BuiltExpr c.nextId e next
  operands : ∀ low c level tighter left, low ≤ c.nextId → BuiltExpr low left c →
    Yields c (operands steps level tighter left) fun e next => BuiltExpr low e next
  unary : ∀ c, Yields c (unary steps) fun e next => BuiltExpr c.nextId e next
  suffixes : ∀ low c e, low ≤ c.nextId → BuiltExpr low e c →
    Yields c (suffixes steps e) fun e next => BuiltExpr low e next
  arguments : ∀ c, Yields c (arguments steps) fun read next => BuiltExprs c.nextId read.1 next
  expressions : ∀ c, Yields c (expressions steps) fun es next => BuiltExprs c.nextId es next
  primary : ∀ c, Yields c (primary steps) fun e next => BuiltExpr c.nextId e next

section Step

variable {steps : Nat} (ih : ExpressionsYield steps)

include ih

theorem expression_yields (c : Cursor) : Yields c (expression (steps + 1)) fun e next => BuiltExpr c.nextId e next := by
  unfold expression
  apply yields_bind (ih.operation c Level.ladder)
  intro target mid later left
  apply yields_bind (yields_peek mid)
  rintro equals _ _ ⟨rfl, _, _⟩
  apply yields_bind (yields_accept_symbol mid .equal)
  intro accepted next _ same
  split
  · apply yields_bind (ih.expression next)
    intro value last after right
    have bounds := after.ids
    rw [same] at right bounds
    exact yields_assign_to c.nextId last mid target value equals later.ids bounds left right
  · exact yields_pure next _ _ (built_at left same)

theorem operation_yields (c : Cursor) (levels : List Level) :
    Yields c (operation (steps + 1) levels) fun e next => BuiltExpr c.nextId e next := by
  cases levels with
  | nil => exact ih.unary c
  | cons level tighter =>
      unfold operation
      apply yields_bind (ih.operation c tighter)
      intro left mid later built
      exact ih.operands c.nextId mid level tighter left later.ids built

theorem operands_yields (low : Nat) (c : Cursor) (level : Level) (tighter : List Level) (left : Expr)
    (ordered : low ≤ c.nextId) (built : BuiltExpr low left c) :
    Yields c (operands (steps + 1) level tighter left) fun e next => BuiltExpr low e next := by
  unfold operands
  apply yields_bind (yields_peek c)
  rintro operator _ _ ⟨rfl, _, _⟩
  split
  · apply yields_bind (yields_advance c)
    intro _ mid _ same
    apply yields_bind (ih.operation mid tighter)
    intro right next later second
    apply yields_bind (yields_mark next left.line)
    rintro given last _ ⟨id, advanced⟩
    have bounds := later.ids
    rw [same] at bounds second
    have both := built_append built second ordered bounds
    apply ih.operands low last level tighter _ (by omega)
    unfold Level.node
    split <;> exact built_parent both (Nat.le_trans ordered bounds) id advanced rfl
  · exact yields_pure c _ _ built

theorem unary_yields (c : Cursor) : Yields c (unary (steps + 1)) fun e next => BuiltExpr c.nextId e next := by
  unfold unary
  apply yields_bind (yields_peek c)
  rintro operator _ _ ⟨rfl, _, _⟩
  split
  · apply yields_bind (yields_advance c)
    intro _ mid _ same
    apply yields_bind (ih.unary mid)
    intro right next later built
    apply yields_bind (yields_mark next operator.line)
    rintro given last _ ⟨id, advanced⟩
    have bounds := later.ids
    rw [same] at bounds built
    exact yields_pure last _ _ (built_parent built bounds id advanced rfl)
  · apply yields_bind (ih.primary c)
    intro callee mid later built
    exact ih.suffixes c.nextId mid callee later.ids built

theorem suffixes_yields (low : Nat) (c : Cursor) (e : Expr) (ordered : low ≤ c.nextId) (built : BuiltExpr low e c) :
    Yields c (suffixes (steps + 1) e) fun e next => BuiltExpr low e next := by
  unfold suffixes
  apply yields_bind (yields_accept_symbol c .leftParen)
  intro accepted mid _ same
  split
  · apply yields_bind (ih.arguments mid)
    rintro ⟨arguments, line⟩ next later read
    apply yields_bind (yields_mark next e.line)
    rintro given last _ ⟨id, advanced⟩
    have bounds := later.ids
    rw [same] at bounds read
    apply ih.suffixes low last _ (by omega)
    exact built_parent (built_append built read ordered bounds) (Nat.le_trans ordered bounds) id advanced rfl
  · apply yields_bind (yields_accept_symbol mid .dot)
    intro dotted next _ unchanged
    split
    · apply yields_bind (yields_expect_name next .propertyName)
      rintro name last _ ⟨kept, _⟩
      apply yields_bind (yields_mark last e.line)
      rintro given final _ ⟨id, advanced⟩
      have here : BuiltExpr low e last := built_at built (by omega)
      apply ih.suffixes low final _ (by omega)
      exact built_parent here (by omega) id advanced rfl
    · exact yields_pure next _ _ (built_at built (by omega))

theorem arguments_yields (c : Cursor) :
    Yields c (arguments (steps + 1)) fun read next => BuiltExprs c.nextId read.1 next := by
  unfold arguments
  apply yields_bind (yields_peek c)
  rintro token _ _ ⟨rfl, _, _⟩
  have closed : ∀ es mid, c.Later mid → BuiltExprs c.nextId es mid →
      Yields mid (do return (es, ← expectSymbol .rightParen .argumentsClose))
        fun read next => BuiltExprs c.nextId read.1 next := by
    intro es mid _ built
    apply yields_bind (yields_expect_symbol mid .rightParen .argumentsClose)
    intro line next _ same
    exact yields_pure next _ _ (built_at built same)
  dsimp only
  split
  · exact yields_bind (yields_pure c _ _ (built_nothing _ _ trivial)) closed
  · exact yields_bind (ih.expressions c) closed

theorem expressions_yields (c : Cursor) :
    Yields c (expressions (steps + 1)) fun es next => BuiltExprs c.nextId es next := by
  unfold expressions
  apply yields_bind (ih.expression c)
  intro first mid later built
  apply yields_bind (yields_accept_symbol mid .comma)
  intro accepted next _ same
  split
  · apply yields_bind (ih.expressions next)
    intro rest last after read
    have bounds := after.ids
    rw [same] at bounds read
    exact yields_pure last _ _ (built_append built read later.ids bounds)
  · exact yields_pure next _ _ (built_at (built_single built) same)

theorem primary_yields (c : Cursor) : Yields c (primary (steps + 1)) fun e next => BuiltExpr c.nextId e next := by
  unfold primary
  apply yields_bind (yields_peek c)
  rintro token _ _ ⟨rfl, _, proper⟩
  split
  · apply yields_bind (yields_advance c)
    intro _ mid _ same
    apply yields_bind (ih.expression mid)
    intro inner next later built
    apply yields_bind (yields_expect_symbol next .rightParen .groupingClose)
    intro line last _ kept
    apply yields_bind (yields_mark last token.line)
    rintro given final _ ⟨id, advanced⟩
    have bounds := later.ids
    rw [same] at bounds built
    exact yields_pure final _ _ (built_parent (built_at built kept) (by omega) id advanced rfl)
  · exact yields_atom c token proper

end Step

theorem expressions_yield : ∀ steps, ExpressionsYield steps
  | 0 => by
      constructor <;> intros <;> exact yields_throw _ _ _
  | steps + 1 => by
      have ih := expressions_yield steps
      exact ⟨expression_yields ih, operation_yields ih, operands_yields ih, unary_yields ih, suffixes_yields ih,
        arguments_yields ih, expressions_yields ih, primary_yields ih⟩

abbrev BuiltStmt (low : Nat) (s : Stmt) (c : Cursor) : Prop :=
  Built low s.nodes s.Proper c

abbrev BuiltBody (low : Nat) (body : List Stmt) (c : Cursor) : Prop :=
  Built low (Stmt.nodesAll body) (Stmt.ProperAll body) c

abbrev BuiltAlternative (low : Nat) (a : Alternative) (c : Cursor) : Prop :=
  Built low a.nodes a.Proper c

abbrev BuiltRoutine (low : Nat) (r : Routine) (c : Cursor) : Prop :=
  Built low r.nodes r.Proper c

abbrev BuiltMethods (low : Nat) (methods : List Routine) (c : Cursor) : Prop :=
  Built low (Routine.nodesAll methods) (Routine.ProperAll methods) c

theorem built_of_single {low : Nat} {e : Expr} {c : Cursor} (built : BuiltExprs low [e] c) : BuiltExpr low e c := by
  have nodes : Expr.nodesAll [e] = e.nodes := List.append_nil e.nodes
  exact ⟨nodes ▸ built.ids, nodes ▸ built.falling, built.proper.1⟩

theorem built_body_single {low : Nat} {s : Stmt} {c : Cursor} (built : BuiltStmt low s c) : BuiltBody low [s] c := by
  have nodes : s.nodes = Stmt.nodesAll [s] := (List.append_nil s.nodes).symm
  exact ⟨nodes ▸ built.ids, nodes ▸ built.falling, built.proper, trivial⟩

theorem parameters_yield : ∀ steps c, Yields c (parameters steps) fun names next =>
    next.nextId = c.nextId ∧ ∀ name ∈ names, name.Proper
  | 0, _ => yields_throw _ _ _
  | steps + 1, c => by
      unfold parameters
      apply yields_bind (yields_expect_name c .parameterName)
      rintro first mid _ ⟨kept, proper⟩
      apply yields_bind (yields_accept_symbol mid .comma)
      intro accepted next _ same
      split
      · apply yields_bind (parameters_yield steps next)
        rintro rest last _ ⟨unchanged, others⟩
        refine yields_pure last _ _ ⟨by omega, ?_⟩
        simpa only [List.forall_mem_cons] using And.intro proper others
      · refine yields_pure next _ _ ⟨by omega, ?_⟩
        simpa only [List.forall_mem_singleton] using proper

theorem expression_unless_yields (steps : Nat) (c : Cursor) (symbol : Symbol) :
    Yields c (expressionUnless steps symbol) fun read next => BuiltExprs c.nextId read.toList next := by
  apply yields_bind (yields_peek c)
  rintro token _ _ ⟨rfl, _, _⟩
  split
  · exact yields_pure c _ _ (built_nothing _ _ trivial)
  · apply yields_bind ((expressions_yield steps).expression c)
    intro e next _ built
    exact yields_pure next _ _ (built_single built)

theorem expression_statement_yields (steps : Nat) (c : Cursor) :
    Yields c (expressionStatement steps) fun s next => BuiltStmt c.nextId s next := by
  apply yields_bind ((expressions_yield steps).expression c)
  intro e mid _ built
  apply yields_bind (yields_expect_symbol mid .semicolon .expressionEnd)
  intro line next _ same
  exact yields_pure next _ _ (built_at built same)

theorem var_declaration_yields (steps : Nat) (c : Cursor) :
    Yields c (varDeclaration steps) fun s next => BuiltStmt c.nextId s next := by
  unfold varDeclaration
  apply yields_bind (yields_expect_name c .variableName)
  rintro name start _ ⟨kept, proper⟩
  apply yields_bind (yields_accept_symbol start .equal)
  intro accepted mid _ same
  have closed : ∀ (initializer : Option Expr) next, mid.Later next → BuiltExprs mid.nextId initializer.toList next →
      Yields next (do let _ ← expectSymbol .semicolon .variableEnd; return .var name initializer)
        fun s last => BuiltStmt c.nextId s last := by
    intro initializer next _ built
    apply yields_bind (yields_expect_symbol next .semicolon .variableEnd)
    intro line last _ unchanged
    rw [same, kept] at built
    refine yields_pure last _ _ ?_
    cases initializer with
    | none => exact built_nothing _ _ proper
    | some e =>
        have inner := built_at (built_of_single built) unchanged
        exact ⟨inner.ids, inner.falling, proper, inner.proper⟩
  dsimp only
  split
  · have read : Yields mid (some <$> expression steps) fun e next => BuiltExprs mid.nextId e.toList next := by
      rw [map_eq_pure_bind]
      apply yields_bind ((expressions_yield steps).expression mid)
      intro e next _ built
      exact yields_pure next _ _ (built_single built)
    exact yields_bind read closed
  · exact yields_bind (yields_pure mid _ _ (built_nothing _ _ trivial)) closed

theorem returned_yields (steps line : Nat) (c : Cursor) :
    Yields c (returned steps line) fun s next => BuiltStmt c.nextId s next := by
  apply yields_bind (expression_unless_yields steps c .semicolon)
  intro value mid _ built
  apply yields_bind (yields_expect_symbol mid .semicolon .returnEnd)
  intro line next _ same
  refine yields_pure next _ _ ?_
  cases value with
  | none => exact (built_nothing _ _ trivial)
  | some e => exact built_at (built_of_single built) same

theorem condition_yields (steps : Nat) (c : Cursor) (opened closed braced : Expectation) :
    Yields c (condition steps opened closed braced) fun e next => BuiltExpr c.nextId e next := by
  apply yields_bind (yields_expect_symbol c .leftParen opened)
  intro _ start _ kept
  apply yields_bind ((expressions_yield steps).expression start)
  intro e mid _ built
  apply yields_bind (yields_expect_symbol mid .rightParen closed)
  intro _ next _ same
  apply yields_bind (yields_expect_symbol next .leftBrace braced)
  intro _ last _ unchanged
  rw [kept] at built
  exact yields_pure last _ _ (built_at (built_at built same) unchanged)

theorem loop_start_yields (steps : Nat) (c : Cursor) :
    Yields c (loopStart steps) fun start next => BuiltBody c.nextId start.toList next := by
  unfold loopStart
  apply yields_bind (yields_accept_symbol c .semicolon)
  intro ended mid _ kept
  split
  · exact yields_pure mid _ _ (built_nothing _ _ trivial)
  · apply yields_bind (yields_accept_keyword mid .var)
    intro declared next _ same
    split
    · apply yields_bind (var_declaration_yields steps next)
      intro s last _ built
      rw [same, kept] at built
      exact yields_pure last _ _ (built_body_single built)
    · apply yields_bind (expression_statement_yields steps next)
      intro s last _ built
      rw [same, kept] at built
      exact yields_pure last _ _ (built_body_single built)

theorem loop_condition_yields (steps line : Nat) (c : Cursor) :
    Yields c (loopCondition steps line) fun e next => BuiltExpr c.nextId e next := by
  apply yields_bind (expression_unless_yields steps c .semicolon)
  intro read mid later built
  cases read with
  | some e => exact yields_pure mid _ _ (built_of_single built)
  | none =>
      apply yields_bind (yields_mark mid line)
      rintro given next _ ⟨id, advanced⟩
      refine yields_pure next _ _ ⟨?_, List.forall_mem_singleton.mpr nofun, trivial⟩
      have one : Spread mid.nextId next.nextId [given.id] := by
        rw [id, advanced]
        exact spread_one mid.nextId
      exact spread_widen one later.ids (Nat.le_refl _)

theorem loop_nodes (start : Option Stmt) (condition : Expr) (action : Option Expr) (body : List Stmt) :
    (Stmt.nodesAll start.toList ++ (condition.nodes ++ (Expr.nodesAll action.toList ++ Stmt.nodesAll body))).Perm
      (loop start condition action body).nodes := by
  cases action with
  | none =>
      cases start <;>
        simp [loop, Stmt.nodes, Stmt.nodesAll, Expr.nodesAll]
  | some e =>
      cases start <;>
        simpa [loop, Stmt.nodes, Stmt.nodesAll, Expr.nodesAll, List.perm_append_left_iff] using List.perm_append_comm

theorem loop_proper (start : Option Stmt) (condition : Expr) (action : Option Expr) (body : List Stmt)
    (parts : Stmt.ProperAll start.toList ∧ condition.Proper ∧ Expr.ProperAll action.toList ∧ Stmt.ProperAll body) :
    (loop start condition action body).Proper := by
  obtain ⟨first, test, last, inner⟩ := parts
  cases start <;> cases action <;>
    simp_all [loop, Stmt.Proper, Stmt.ProperAll, Expr.ProperAll]

theorem built_branch {low : Nat} {condition : Expr} {body : List Stmt} {alternative : Alternative}
    {c mid next : Cursor} (test : BuiltExpr low condition c) (inner : BuiltBody c.nextId body mid)
    (other : BuiltAlternative mid.nextId alternative next) (ordered : low ≤ c.nextId) (later : c.nextId ≤ mid.nextId)
    (last : mid.nextId ≤ next.nextId) :
    Built low (condition.nodes ++ Stmt.nodesAll body ++ alternative.nodes)
      (condition.Proper ∧ Stmt.ProperAll body ∧ alternative.Proper) next := by
  have whole := built_append (built_append test inner ordered later) other (Nat.le_trans ordered later) last
  exact ⟨whole.ids, whole.falling, whole.proper.1.1, whole.proper.1.2, whole.proper.2⟩

structure StatementsYield (steps : Nat) : Prop where
  declaration : ∀ c, Yields c (declaration steps) fun s next => BuiltStmt c.nextId s next
  body : ∀ c, Yields c (body steps) fun body next => BuiltBody c.nextId body next
  routine : ∀ c, Yields c (routine steps) fun r next => BuiltRoutine c.nextId r next
  classDeclaration : ∀ c, Yields c (classDeclaration steps) fun s next => BuiltStmt c.nextId s next
  methods : ∀ c, Yields c (methods steps) fun read next => BuiltMethods c.nextId read next
  ifStatement : ∀ c, Yields c (ifStatement steps) fun s next => BuiltStmt c.nextId s next
  alternative : ∀ c, Yields c (alternative steps) fun a next => BuiltAlternative c.nextId a next
  whileStatement : ∀ c, Yields c (whileStatement steps) fun s next => BuiltStmt c.nextId s next
  forStatement : ∀ c line, Yields c (forStatement steps line) fun s next => BuiltStmt c.nextId s next

section Step

variable {steps : Nat} (ih : StatementsYield steps)

include ih

theorem declaration_yields (c : Cursor) :
    Yields c (declaration (steps + 1)) fun s next => BuiltStmt c.nextId s next := by
  unfold declaration
  apply yields_bind (yields_peek c)
  rintro token _ _ ⟨rfl, _, _⟩
  -- What begins with a keyword or a brace is read from behind it.
  have behind : ∀ rule : Parser Stmt, (∀ mid, Yields mid rule fun s next => BuiltStmt mid.nextId s next) →
      Yields c (do advance; rule) fun s next => BuiltStmt c.nextId s next := by
    intro rule yields
    apply yields_bind (yields_advance c)
    intro _ mid _ same
    apply yields_weaken (yields mid)
    intro s next _ built
    rwa [same] at built
  split
  · exact behind _ (var_declaration_yields steps)
  · exact behind _ fun mid => yields_bind (ih.routine mid) fun r next _ built => yields_pure next _ _ built
  · exact behind _ ih.classDeclaration
  · exact behind _ ih.ifStatement
  · exact behind _ ih.whileStatement
  · exact behind _ fun mid => ih.forStatement mid token.line
  · exact behind _ (returned_yields steps token.line)
  · exact behind _ fun mid => yields_bind (ih.body mid) fun read next _ built => yields_pure next _ _ built
  · exact expression_statement_yields steps c

theorem body_yields (c : Cursor) : Yields c (body (steps + 1)) fun body next => BuiltBody c.nextId body next := by
  unfold body
  apply yields_bind (yields_peek c)
  rintro token _ _ ⟨rfl, _, _⟩
  split
  · apply yields_bind (yields_expect_symbol c .rightBrace .blockClose)
    intro _ next _ _
    exact yields_pure next _ _ (built_nothing _ _ trivial)
  · apply yields_bind (ih.declaration c)
    intro first mid later built
    apply yields_bind (ih.body mid)
    intro rest next after read
    exact yields_pure next _ _ (built_append built read later.ids after.ids)

theorem routine_yields (c : Cursor) : Yields c (routine (steps + 1)) fun r next => BuiltRoutine c.nextId r next := by
  unfold routine
  apply yields_bind (yields_expect_name c .functionName)
  rintro name start _ ⟨kept, proper⟩
  apply yields_bind (yields_expect_symbol start .leftParen .parametersOpen)
  intro _ opened _ same
  apply yields_bind (yields_peek opened)
  rintro token _ _ ⟨rfl, _, _⟩
  have closed : ∀ (names : List Name) next, opened.Later next →
      (next.nextId = opened.nextId ∧ ∀ parameter ∈ names, parameter.Proper) →
      Yields next (do
        let _ ← expectSymbol .rightParen .parametersClose
        let _ ← expectSymbol .leftBrace .functionBody
        return ⟨name, names, ← body steps⟩) fun r last => BuiltRoutine c.nextId r last := by
    rintro names next _ ⟨unchanged, named⟩
    apply yields_bind (yields_expect_symbol next .rightParen .parametersClose)
    intro _ mid _ shut
    apply yields_bind (yields_expect_symbol mid .leftBrace .functionBody)
    intro _ braced _ begun
    apply yields_bind (ih.body braced)
    intro read last _ built
    have start : braced.nextId = c.nextId := by omega
    rw [start] at built
    exact yields_pure last _ _ ⟨built.ids, built.falling, proper, named, built.proper⟩
  dsimp only
  split
  · exact yields_bind (yields_pure opened _ _ ⟨rfl, by simp⟩) closed
  · exact yields_bind (parameters_yield steps opened) closed

theorem class_declaration_yields (c : Cursor) :
    Yields c (classDeclaration (steps + 1)) fun s next => BuiltStmt c.nextId s next := by
  unfold classDeclaration
  apply yields_bind (yields_expect_name c .className)
  rintro name start _ ⟨kept, proper⟩
  apply yields_bind (yields_expect_symbol start .leftBrace .classOpen)
  intro _ opened _ same
  apply yields_bind (ih.methods opened)
  intro read next _ built
  rw [same, kept] at built
  exact yields_pure next _ _ ⟨built.ids, built.falling, proper, built.proper⟩

theorem methods_yield (c : Cursor) :
    Yields c (methods (steps + 1)) fun read next => BuiltMethods c.nextId read next := by
  unfold methods
  apply yields_bind (yields_peek c)
  rintro token _ _ ⟨rfl, _, _⟩
  split
  · apply yields_bind (yields_expect_symbol c .rightBrace .classClose)
    intro _ next _ _
    exact yields_pure next _ _ (built_nothing _ _ trivial)
  · apply yields_bind (ih.routine c)
    intro first mid later built
    apply yields_bind (ih.methods mid)
    intro rest next after read
    exact yields_pure next _ _ (built_append built read later.ids after.ids)

theorem if_statement_yields (c : Cursor) :
    Yields c (ifStatement (steps + 1)) fun s next => BuiltStmt c.nextId s next := by
  unfold ifStatement
  apply yields_bind (condition_yields steps c _ _ _)
  intro e start later test
  apply yields_bind (ih.body start)
  intro read mid after inner
  apply yields_bind (ih.alternative mid)
  intro other next last built
  exact yields_pure next _ _ (built_branch test inner built later.ids after.ids last.ids)

theorem alternative_yields (c : Cursor) :
    Yields c (alternative (steps + 1)) fun a next => BuiltAlternative c.nextId a next := by
  unfold alternative
  apply yields_bind (yields_accept_keyword c .else)
  intro other start _ kept
  split
  · apply yields_bind (yields_accept_keyword start .if)
    intro again opened _ same
    split
    · apply yields_bind (condition_yields steps opened _ _ _)
      intro e braced later test
      apply yields_bind (ih.body braced)
      intro read mid after inner
      apply yields_bind (ih.alternative mid)
      intro rest next last built
      have whole := built_branch test inner built later.ids after.ids last.ids
      rw [same, kept] at whole
      exact yields_pure next _ _ whole
    · apply yields_bind (yields_expect_symbol opened .leftBrace .elseBody)
      intro _ braced _ unchanged
      apply yields_bind (ih.body braced)
      intro read next _ built
      rw [unchanged, same, kept] at built
      exact yields_pure next _ _ built
  · exact yields_pure start _ _ (built_nothing _ _ trivial)

theorem while_statement_yields (c : Cursor) :
    Yields c (whileStatement (steps + 1)) fun s next => BuiltStmt c.nextId s next := by
  unfold whileStatement
  apply yields_bind (condition_yields steps c _ _ _)
  intro e start later test
  apply yields_bind (ih.body start)
  intro read next after inner
  exact yields_pure next _ _ (built_append test inner later.ids after.ids)

theorem for_statement_yields (c : Cursor) (line : Nat) :
    Yields c (forStatement (steps + 1) line) fun s next => BuiltStmt c.nextId s next := by
  unfold forStatement
  apply yields_bind (yields_expect_symbol c .leftParen .forOpen)
  intro _ opened _ kept
  apply yields_bind (loop_start_yields steps opened)
  intro first started begun before
  apply yields_bind (loop_condition_yields steps line started)
  intro test tested later condition
  apply yields_bind (yields_expect_symbol tested .semicolon .forConditionEnd)
  intro _ ended _ same
  apply yields_bind (expression_unless_yields steps ended .rightParen)
  intro action acted after behind
  apply yields_bind (yields_expect_symbol acted .rightParen .forClose)
  intro _ closed _ shut
  apply yields_bind (yields_expect_symbol closed .leftBrace .forBody)
  intro _ braced _ unchanged
  apply yields_bind (ih.body braced)
  intro read next last inner
  refine yields_pure next _ _ ?_
  have one := begun.ids
  have two := later.ids
  have three := after.ids
  have four := last.ids
  have entered : braced.nextId = acted.nextId := by omega
  rw [kept] at before one
  rw [same] at behind three
  rw [entered] at inner four
  have tail := built_append behind inner three four
  have rest := built_append condition tail two (Nat.le_trans three four)
  have whole := built_append before rest one (by omega)
  have same := loop_nodes first test action read
  exact ⟨spread_perm whole.ids (same.map Expr.id), fun e member => whole.falling e (same.mem_iff.mpr member),
    loop_proper first test action read whole.proper⟩

end Step

theorem statements_yield : ∀ steps, StatementsYield steps
  | 0 => by
      constructor <;> intros <;> exact yields_throw _ _ _
  | steps + 1 => by
      have ih := statements_yield steps
      exact ⟨declaration_yields ih, body_yields ih, routine_yields ih, class_declaration_yields ih, methods_yield ih,
        if_statement_yields ih, alternative_yields ih, while_statement_yields ih, for_statement_yields ih⟩

theorem program_yields : ∀ steps c, Yields c (program steps) fun program next => BuiltBody c.nextId program next
  | 0, _ => yields_throw _ _ _
  | steps + 1, c => by
      unfold program
      apply yields_bind (yields_peek c)
      rintro token _ _ ⟨rfl, _, _⟩
      split
      · exact yields_pure c _ _ (built_nothing _ _ trivial)
      · apply yields_bind ((statements_yield steps).declaration c)
        intro first mid later built
        apply yields_bind (program_yields steps mid)
        intro rest next after read
        exact yields_pure next _ _ (built_append built read later.ids after.ids)

end Parser

theorem parse_yields (firstId next : Nat) (tokens : List Token) (program : Program)
    (proper : ∀ token ∈ tokens, token.Proper) (parsed : parse firstId tokens = .ok (program, next)) :
    firstId ≤ next ∧ Parser.BuiltBody firstId program ⟨[], next⟩ := by
  unfold parse at parsed
  have yields := Parser.program_yields (Parser.stepBound tokens) ⟨tokens, firstId⟩ proper
  split at parsed
  · rename_i read c run
    obtain ⟨rfl, rfl⟩ : read = program ∧ c.nextId = next := by simpa using parsed
    have built := ends_ok _ _ _ _ _ _ yields run
    exact ⟨built.1.ids, built.2.ids, built.2.falling, built.2.proper⟩
  · cases parsed
  · cases parsed

theorem parse_built (firstId next : Nat) (tokens : List Token) (program : Program)
    (proper : ∀ token ∈ tokens, token.Proper) (parsed : parse firstId tokens = .ok (program, next)) :
    firstId ≤ next ∧ Spread firstId next (Stmt.idsAll program) ∧ Stmt.ProperAll program := by
  obtain ⟨later, built⟩ := parse_yields firstId next tokens program proper parsed
  exact ⟨later, stmts_nodes_ids program ▸ built.ids, built.proper⟩

end TreeWalk
