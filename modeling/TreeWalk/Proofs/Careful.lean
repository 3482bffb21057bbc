import TreeWalk.Proofs.Scripts
import TreeWalk.Proofs.Seams

set_option autoImplicit false

namespace TreeWalk

namespace Parser

namespace Task

def rank : Task → Nat
  | program | body | arguments => 12
  | declaration | expressions => 11
  | expression => 10
  | operation levels => levels.length + 3
  | unary | methods => 2
  | routine | classDeclaration | ifStatement | alternative | whileStatement | forStatement _ | parameters
  | operands _ _ _ | suffixes _ | primary => 1

def spare : Task → Nat
  | program | alternative | operands _ _ _ | suffixes _ => 1
  | declaration | body | routine | classDeclaration | methods | ifStatement | whileStatement | forStatement _
  | parameters | expression | operation _ | unary | arguments | expressions | primary => 0

def Proper : Task → Prop
  | operation levels => levels.length ≤ Level.ladder.length
  | operands _ tighter _ => tighter.length ≤ Level.ladder.length
  | _ => True

end Task

namespace Script

variable {α β : Type}

def Careful (limit fewer : Nat) : Script α → Cursor → Prop
  | .done _, c => c.rest.length < fewer
  | .refused _ _, _ => True
  | .looks next, c => Careful limit fewer (next c.peek) c
  | .advances next, c => Careful limit fewer next c.advance
  | .counts next, c => Careful limit fewer (next c.nextId) c
  | .marks line next, c => Careful limit fewer (next ⟨c.nextId, line⟩) { c with nextId := c.nextId + 1 }
  | .calls task next, c =>
      task.Proper ∧ 16 * c.rest.length + task.rank < limit ∧
        ∀ answer after, after.rest.length < c.rest.length + task.spare → Careful limit fewer (next answer) after

section Rules

variable {limit fewer : Nat} {c : Cursor}

theorem careful_done (a : α) (less : c.rest.length < fewer) : Careful limit fewer (pure a) c :=
  less

theorem careful_refuse (token : Token) (expected : Expectation) :
    Careful limit fewer (refuse token expected : Script α) c :=
  trivial

theorem careful_bind {s : Script α} {f : α → Script β} (mid : Nat) (first : Careful limit mid s c)
    (rest : ∀ a next, next.rest.length < mid → Careful limit fewer (f a) next) : Careful limit fewer (s >>= f) c := by
  show Careful limit fewer (s.bind f) c
  induction s generalizing c with
  | done a => exact rest a c first
  | refused token expected => trivial
  | looks next ih => exact ih _ first
  | advances next ih => exact ih first
  | counts next ih => exact ih _ first
  | marks line next ih => exact ih _ first
  | calls task next ih =>
      obtain ⟨proper, below, behind⟩ := first
      exact ⟨proper, below, fun answer after less => ih answer (behind answer after less)⟩

theorem careful_mono {s : Script α} {few : Nat} (careful : Careful limit few s c) (more : few ≤ fewer) :
    Careful limit fewer s c := by
  induction s generalizing c with
  | done a => exact Nat.lt_of_lt_of_le careful more
  | refused token expected => trivial
  | looks next ih => exact ih _ careful
  | advances next ih => exact ih careful
  | counts next ih => exact ih _ careful
  | marks line next ih => exact ih _ careful
  | calls task next ih =>
      obtain ⟨proper, below, behind⟩ := careful
      exact ⟨proper, below, fun answer after less => ih answer (behind answer after less)⟩

theorem careful_call (task : Task) {f : task.Answer → Script β} (proper : task.Proper)
    (below : 16 * c.rest.length + task.rank < limit)
    (rest : ∀ answer after, after.rest.length < c.rest.length + task.spare → Careful limit fewer (f answer) after) :
    Careful limit fewer (call task >>= f) c :=
  ⟨proper, below, rest⟩

theorem careful_take (task : Task) {f : task.Answer → Script β} (takes : task.spare = 0) (proper : task.Proper)
    (below : 16 * c.rest.length + task.rank < limit)
    (rest : ∀ answer after, after.rest.length < c.rest.length → Careful limit fewer (f answer) after) :
    Careful limit fewer (call task >>= f) c :=
  careful_call task proper below fun answer after less => rest answer after (by rwa [takes] at less)

theorem careful_last (task : Task) (proper : task.Proper) (below : 16 * c.rest.length + task.rank < limit)
    (enough : c.rest.length + task.spare ≤ fewer) : Careful limit fewer (call task) c :=
  ⟨proper, below, fun _ _ less => Nat.lt_of_lt_of_le less enough⟩

theorem careful_peek {f : Token → Script β} (rest : Careful limit fewer (f c.peek) c) :
    Careful limit fewer (peek >>= f) c :=
  rest

theorem careful_next_id {f : Nat → Script β} (rest : Careful limit fewer (f c.nextId) c) :
    Careful limit fewer (nextId >>= f) c :=
  rest

theorem careful_mark (line : Nat) {f : Mark → Script β}
    (rest : ∀ given next, next.rest = c.rest → Careful limit fewer (f given) next) :
    Careful limit fewer (mark line >>= f) c :=
  rest ⟨c.nextId, line⟩ ⟨c.rest, c.nextId + 1⟩ rfl

theorem advance_less (more : c.peek.kind.isFinish = false) : c.advance.rest.length < c.rest.length := by
  unfold Cursor.advance
  rw [more]
  unfold Cursor.peek at more
  cases tokens : c.rest with
  | nil => simp [tokens, Token.finish, TokenKind.isFinish] at more
  | cons token rest => simp

theorem careful_advance {s : Script β} (more : c.peek.kind.isFinish = false)
    (rest : ∀ next, next.rest.length < c.rest.length → Careful limit fewer s next) :
    Careful limit fewer (do advance; s) c :=
  rest c.advance (advance_less more)

theorem careful_symbol (symbol : Symbol) (expected : Expectation) {f : Nat → Script β}
    (rest : ∀ line next, next.rest.length < c.rest.length → Careful limit fewer (f line) next) :
    Careful limit fewer (expectSymbol symbol expected >>= f) c := by
  refine careful_bind c.rest.length (careful_peek ?_) rest
  split
  · rename_i is
    exact careful_advance (not_finish_of_symbol _ _ is) fun next less => careful_done _ less
  · exact careful_refuse _ _

theorem careful_name (expected : Expectation) {f : Name → Script β}
    (rest : ∀ name next, next.rest.length < c.rest.length → Careful limit fewer (f name) next) :
    Careful limit fewer (expectName expected >>= f) c := by
  refine careful_bind c.rest.length (careful_peek ?_) rest
  split
  · rename_i kind
    exact careful_advance (by rw [kind]; rfl) fun next less => careful_done _ less
  · exact careful_refuse _ _

theorem careful_accept (is : TokenKind → Bool) {f : Bool → Script β}
    (more : is c.peek.kind = true → c.peek.kind.isFinish = false)
    (yes : ∀ next, next.rest.length < c.rest.length → Careful limit fewer (f true) next)
    (no : Careful limit fewer (f false) c) :
    Careful limit fewer ((do if is (← peek).kind then advance; return true else return false : Script Bool) >>= f) c := by
  show Careful limit fewer ((if is c.peek.kind then advances (done true) else done false).bind f) c
  cases here : is c.peek.kind with
  | true => exact yes c.advance (advance_less (more here))
  | false => exact no

theorem careful_accept_symbol (symbol : Symbol) {f : Bool → Script β}
    (yes : ∀ next, next.rest.length < c.rest.length → Careful limit fewer (f true) next)
    (no : Careful limit fewer (f false) c) : Careful limit fewer (acceptSymbol symbol >>= f) c :=
  careful_accept (·.isSymbol symbol) (not_finish_of_symbol _ symbol) yes no

theorem careful_accept_keyword (keyword : Keyword) {f : Bool → Script β}
    (yes : ∀ next, next.rest.length < c.rest.length → Careful limit fewer (f true) next)
    (no : Careful limit fewer (f false) c) : Careful limit fewer (acceptKeyword keyword >>= f) c :=
  careful_accept (·.isKeyword keyword) (not_finish_of_keyword _ keyword) yes no

end Rules

section Parts

variable {limit : Nat} {c : Cursor}

theorem careful_atom : Careful limit c.rest.length (atom c.peek) c := by
  refine careful_next_id ?_
  split
  · rename_i e single
    refine careful_advance ?_ fun next fewer => careful_mark _ fun _ last same => careful_done _ (same ▸ fewer)
    cases kind : c.peek.kind <;> simp_all [atom?, TokenKind.isFinish]
  · exact careful_refuse _ _

theorem careful_assign_to (target value : Expr) (equals : Token) :
    Careful limit (c.rest.length + 1) (assignTo target equals value) c := by
  unfold assignTo
  split
  · exact careful_mark _ fun _ next same => careful_done _ (same ▸ Nat.lt_succ_self _)
  · exact careful_mark _ fun _ next same => careful_done _ (same ▸ Nat.lt_succ_self _)
  · exact careful_refuse _ _

theorem careful_read (room : 16 * c.rest.length + 10 < limit) {f : Expr → Script β} {fewer : Nat}
    (rest : ∀ e next, next.rest.length < c.rest.length → Careful limit fewer (f e) next) :
    Careful limit fewer (call .expression >>= f) c :=
  careful_take .expression rfl trivial room rest

section Expressions

variable (room : 16 * c.rest.length + 10 < limit)

include room

theorem careful_expression_unless (symbol : Symbol) :
    Careful limit (c.rest.length + 1) (expressionUnless symbol) c := by
  apply careful_peek
  split
  · exact careful_done _ (Nat.lt_succ_self _)
  · exact careful_read room fun e next fewer => careful_done _ (Nat.lt_succ_of_lt fewer)

theorem careful_expression_statement : Careful limit c.rest.length expressionStatement c :=
  careful_read room fun _ _ fewer => careful_symbol _ _ fun _ _ less => careful_done _ (Nat.lt_trans less fewer)

theorem careful_returned (line : Nat) : Careful limit c.rest.length (returned line) c := by
  apply careful_bind _ (careful_expression_unless room .semicolon)
  exact fun value next fewer => careful_symbol _ _ fun line last less => careful_done _ (by omega)

theorem careful_loop_condition (line : Nat) : Careful limit (c.rest.length + 1) (loopCondition line) c := by
  apply careful_bind _ (careful_expression_unless room .semicolon)
  intro value next fewer
  cases value with
  | none => exact careful_mark _ fun _ last same => careful_done _ (same ▸ fewer)
  | some e => exact careful_done _ fewer

end Expressions

theorem careful_var_declaration (room : 16 * c.rest.length ≤ limit) : Careful limit c.rest.length varDeclaration c := by
  have closing : ∀ (name : Name) value next, next.rest.length < c.rest.length →
      Careful limit c.rest.length
        (do
          let _ ← expectSymbol .semicolon .variableEnd
          return Stmt.var name value)
        next :=
    fun name value next fewer => careful_symbol _ _ fun line last less => careful_done _ (by omega)
  apply careful_name
  intro name mid fewer
  apply careful_accept_symbol
  · intro next less
    refine careful_bind c.rest.length ?_ (closing name)
    exact careful_read (by omega) fun e last further => careful_done _ (by omega)
  · exact careful_bind _ (careful_done none fewer) (closing name)

theorem careful_condition (opened closed braced : Expectation) (room : 16 * c.rest.length ≤ limit) :
    Careful limit (c.rest.length - 2) (condition opened closed braced) c := by
  apply careful_symbol
  intro _ mid fewer
  apply careful_read (by omega)
  intro e next less
  exact careful_symbol _ _ fun _ next _ => careful_symbol _ _ fun _ last _ => careful_done _ (by omega)

theorem careful_loop_start (room : 16 * c.rest.length + 10 < limit) : Careful limit c.rest.length loopStart c := by
  apply careful_accept_symbol
  · exact fun next less => careful_done _ less
  · apply careful_accept_keyword
    · intro next less
      apply careful_bind _ (careful_var_declaration (by omega))
      exact fun s last fewer => careful_done _ (by omega)
    · apply careful_bind _ (careful_expression_statement room)
      exact fun s last fewer => careful_done _ fewer

theorem careful_body (room : 16 * c.rest.length + 12 < limit) {f : List Stmt → Script β} {fewer : Nat}
    (rest : ∀ list next, next.rest.length < c.rest.length → Careful limit fewer (f list) next) :
    Careful limit fewer (call .body >>= f) c :=
  careful_take .body rfl trivial room rest

theorem careful_conditional (make : Expr → List Stmt → Alternative → α) (room : 16 * c.rest.length ≤ limit) :
    Careful limit c.rest.length
      (do
        let e ← condition .ifOpen .ifClose .ifBody
        let body ← call .body
        return make e body (← call .alternative))
      c := by
  apply careful_bind _ (careful_condition _ _ _ room)
  intro e mid fewer
  apply careful_body (by omega)
  intro list next less
  apply careful_call .alternative trivial (by simp only [Task.rank]; omega)
  exact fun other last further => careful_done _ (by simp only [Task.spare] at further; omega)

end Parts

section Expressions

variable (c : Cursor)

theorem careful_expression : Careful (16 * c.rest.length + 10) c.rest.length Task.expression.script c := by
  apply careful_take (.operation Level.ladder) rfl (Nat.le_refl _) (by simp [Task.rank, Level.ladder])
  intro target mid fewer
  apply careful_peek
  apply careful_accept_symbol
  · intro next less
    apply careful_read (by omega)
    intro value last further
    exact careful_mono (careful_assign_to target value _) (by omega)
  · exact careful_done _ fewer

theorem careful_operation (levels : List Level) (few : levels.length ≤ Level.ladder.length) :
    Careful (16 * c.rest.length + levels.length + 3) c.rest.length (Task.operation levels).script c := by
  cases levels with
  | nil => exact careful_last .unary trivial (by simp [Task.rank]) (Nat.le_refl _)
  | cons level tighter =>
      rw [List.length_cons] at few ⊢
      have fewer : tighter.length ≤ Level.ladder.length := Nat.le_of_succ_le few
      apply careful_take (.operation tighter) rfl fewer (by simp only [Task.rank]; omega)
      intro left mid less
      exact careful_last (.operands level tighter left) fewer (by simp only [Task.rank]; omega) less

theorem careful_operands (level : Level) (tighter : List Level) (left : Expr)
    (few : tighter.length ≤ Level.ladder.length) :
    Careful (16 * c.rest.length + 1) (c.rest.length + 1) (Task.operands level tighter left).script c := by
  have six : tighter.length ≤ 6 := few
  apply careful_peek
  split
  · rename_i holds
    apply careful_advance (not_finish_of_level _ _ holds)
    intro next less
    apply careful_take (.operation tighter) rfl few (by simp only [Task.rank]; omega)
    intro right mid fewer
    apply careful_mark
    intro given last same
    rw [← same] at fewer
    exact careful_last (.operands level tighter _) few (by simp only [Task.rank]; omega) (by simp only [Task.spare]; omega)
  · exact careful_done _ (Nat.lt_succ_self _)

theorem careful_unary : Careful (16 * c.rest.length + 2) c.rest.length Task.unary.script c := by
  apply careful_peek
  split
  · rename_i either
    rw [Bool.or_eq_true] at either
    apply careful_advance (by rcases either with is | is <;> exact not_finish_of_symbol _ _ is)
    intro next less
    apply careful_take .unary rfl trivial (by simp only [Task.rank]; omega)
    intro right mid fewer
    exact careful_mark _ fun _ last same => careful_done _ (by rw [same]; omega)
  · apply careful_take .primary rfl trivial (by simp only [Task.rank]; omega)
    intro callee mid fewer
    exact careful_last (.suffixes callee) trivial (by simp only [Task.rank]; omega) fewer

theorem careful_suffixes (callee : Expr) :
    Careful (16 * c.rest.length + 1) (c.rest.length + 1) (Task.suffixes callee).script c := by
  -- One suffix more has been read.
  have again : ∀ (e : Expr) next, next.rest.length < c.rest.length →
      Careful (16 * c.rest.length + 1) (c.rest.length + 1) (call (.suffixes e)) next :=
    fun e next less =>
      careful_last (.suffixes e) trivial (by simp only [Task.rank]; omega) (by simp only [Task.spare]; omega)
  apply careful_accept_symbol
  · intro next less
    apply careful_take .arguments rfl trivial (by simp only [Task.rank]; omega)
    intro read mid fewer
    exact careful_mark _ fun given last same => again _ last (by rw [same]; omega)
  · apply careful_accept_symbol
    · intro next less
      apply careful_name
      intro name mid fewer
      exact careful_mark _ fun given last same => again _ last (by rw [same]; omega)
    · exact careful_done _ (Nat.lt_succ_self _)

theorem careful_arguments : Careful (16 * c.rest.length + 12) c.rest.length Task.arguments.script c := by
  have closing : ∀ (read : List Expr) next, next.rest.length < c.rest.length + 1 →
      Careful (16 * c.rest.length + 12) c.rest.length
        (do return (read, ← expectSymbol .rightParen .argumentsClose)) next :=
    fun read next fewer => careful_symbol _ _ fun line last less => careful_done _ (by omega)
  apply careful_peek
  dsimp only
  split
  · exact careful_bind _ (careful_done [] (Nat.lt_succ_self _)) closing
  · exact careful_take .expressions rfl trivial (by simp only [Task.rank]; omega) fun read next fewer =>
      closing read next (Nat.lt_succ_of_lt fewer)

theorem careful_expressions : Careful (16 * c.rest.length + 11) c.rest.length Task.expressions.script c := by
  apply careful_read (by omega)
  intro first mid fewer
  apply careful_accept_symbol
  · intro next less
    apply careful_take .expressions rfl trivial (by simp only [Task.rank]; omega)
    exact fun rest last further => careful_done _ (by omega)
  · exact careful_done _ fewer

theorem careful_primary : Careful (16 * c.rest.length + 1) c.rest.length Task.primary.script c := by
  apply careful_peek
  split
  · rename_i is
    apply careful_advance (not_finish_of_symbol _ _ is)
    intro next less
    apply careful_read (by omega)
    intro inner mid fewer
    exact careful_symbol _ _ fun line last further => careful_mark _ fun _ final same =>
      careful_done _ (by rw [same]; omega)
  · exact careful_atom

end Expressions

section Statements

variable (c : Cursor)

theorem careful_parameters : Careful (16 * c.rest.length + 1) c.rest.length Task.parameters.script c := by
  apply careful_name
  intro name mid fewer
  apply careful_accept_symbol
  · intro next less
    apply careful_take .parameters rfl trivial (by simp only [Task.rank]; omega)
    exact fun rest last further => careful_done _ (by omega)
  · exact careful_done _ fewer

theorem careful_declaration : Careful (16 * c.rest.length + 11) c.rest.length Task.declaration.script c := by
  -- What begins with a keyword or a brace is read from behind it.
  have behind : ∀ {kind : TokenKind} (rule : Script Stmt), c.peek.kind = kind → kind.isFinish = false →
      (∀ next, next.rest.length < c.rest.length → Careful (16 * c.rest.length + 11) next.rest.length rule next) →
      Careful (16 * c.rest.length + 11) c.rest.length (do advance; rule) c :=
    fun rule is more careful =>
      careful_advance (is ▸ more) fun next less => careful_mono (careful next less) (Nat.le_of_lt less)
  have called : ∀ (task : Task) next, task.spare = 0 → task.rank ≤ 12 → task.Proper →
      next.rest.length < c.rest.length →
      Careful (16 * c.rest.length + 11) next.rest.length (call task) next :=
    fun task next takes low proper less => careful_last task proper (by omega) (by rw [takes]; exact Nat.le_refl _)
  apply careful_peek
  split <;> rename_i kind
  · exact behind _ kind rfl fun next less => careful_var_declaration (by omega)
  · exact behind _ kind rfl fun next less =>
      careful_bind _ (called .routine next rfl (by decide) trivial less) fun r last fewer => careful_done _ fewer
  · exact behind _ kind rfl fun next less => called .classDeclaration next rfl (by decide) trivial less
  · exact behind _ kind rfl fun next less => called .ifStatement next rfl (by decide) trivial less
  · exact behind _ kind rfl fun next less => called .whileStatement next rfl (by decide) trivial less
  · exact behind _ kind rfl fun next less =>
      called (.forStatement _) next rfl (by simp only [Task.rank]; omega) trivial less
  · exact behind _ kind rfl fun next less => careful_returned (by omega) _
  · exact behind _ kind rfl fun next less =>
      careful_bind _ (called .body next rfl (by decide) trivial less) fun list last fewer => careful_done _ fewer
  · exact careful_expression_statement (by omega)

theorem careful_block : Careful (16 * c.rest.length + 12) c.rest.length Task.body.script c := by
  apply careful_peek
  split
  · exact careful_symbol _ _ fun line next less => careful_done _ less
  · apply careful_take .declaration rfl trivial (by simp only [Task.rank]; omega)
    intro first next fewer
    apply careful_body (by omega)
    exact fun rest last less => careful_done _ (by omega)

theorem careful_routine : Careful (16 * c.rest.length + 1) c.rest.length Task.routine.script c := by
  apply careful_name
  intro name mid fewer
  apply careful_symbol
  intro _ opened less
  have closing : ∀ names next, next.rest.length < opened.rest.length + 1 →
      Careful (16 * c.rest.length + 1) c.rest.length
        (do
          let _ ← expectSymbol .rightParen .parametersClose
          let _ ← expectSymbol .leftBrace .functionBody
          return ⟨name, names, ← call .body⟩ : Script Routine)
        next := by
    intro names next further
    refine careful_symbol _ _ fun _ closed _ => careful_symbol _ _ fun _ braced _ => ?_
    exact careful_body (by omega) fun list last _ => careful_done _ (by omega)
  apply careful_peek
  dsimp only
  split
  · exact careful_bind _ (careful_done [] (Nat.lt_succ_self _)) closing
  · exact careful_take .parameters rfl trivial (by simp only [Task.rank]; omega) fun names next fewer =>
      closing names next (Nat.lt_succ_of_lt fewer)

theorem careful_class : Careful (16 * c.rest.length + 1) c.rest.length Task.classDeclaration.script c := by
  refine careful_name _ fun name mid fewer => careful_symbol _ _ fun _ opened less => ?_
  apply careful_take .methods rfl trivial (by simp only [Task.rank]; omega)
  exact fun list last _ => careful_done _ (by omega)

theorem careful_methods : Careful (16 * c.rest.length + 2) c.rest.length Task.methods.script c := by
  apply careful_peek
  split
  · exact careful_symbol _ _ fun line next less => careful_done _ less
  · apply careful_take .routine rfl trivial (by simp only [Task.rank]; omega)
    intro first next fewer
    apply careful_take .methods rfl trivial (by simp only [Task.rank]; omega)
    exact fun rest last less => careful_done _ (by omega)

theorem careful_if : Careful (16 * c.rest.length + 1) c.rest.length Task.ifStatement.script c :=
  careful_conditional Stmt.branch (by omega)

theorem careful_alternative :
    Careful (16 * c.rest.length + 1) (c.rest.length + 1) Task.alternative.script c := by
  apply careful_accept_keyword
  · intro mid fewer
    apply careful_accept_keyword
    · intro next less
      exact careful_mono (careful_conditional Alternative.elseIf (by omega)) (by omega)
    · refine careful_symbol _ _ fun _ braced less => ?_
      exact careful_body (by omega) fun list last _ => careful_done _ (by omega)
  · exact careful_done _ (Nat.lt_succ_self _)

theorem careful_while : Careful (16 * c.rest.length + 1) c.rest.length Task.whileStatement.script c := by
  apply careful_bind _ (careful_condition _ _ _ (by omega))
  intro e mid fewer
  exact careful_body (by omega) fun list last _ => careful_done _ (by omega)

theorem careful_for (line : Nat) : Careful (16 * c.rest.length + 1) c.rest.length (Task.forStatement line).script c := by
  apply careful_symbol
  intro _ opened fewer
  apply careful_bind _ (careful_loop_start (by omega))
  intro start started less
  apply careful_bind _ (careful_loop_condition (by omega) line)
  intro test tested kept
  apply careful_symbol
  intro _ ended also
  apply careful_bind _ (careful_expression_unless (by omega) .rightParen)
  intro action acted further
  refine careful_symbol _ _ fun _ closed _ => careful_symbol _ _ fun _ braced _ => ?_
  exact careful_body (by omega) fun list last _ => careful_done _ (by omega)

theorem careful_program : Careful (16 * c.rest.length + 12) (c.rest.length + 1) Task.program.script c := by
  apply careful_peek
  split
  · exact careful_done _ (Nat.lt_succ_self _)
  · apply careful_take .declaration rfl trivial (by simp only [Task.rank]; omega)
    intro first next fewer
    apply careful_call .program trivial (by simp only [Task.rank]; omega)
    exact fun rest last less => careful_done _ (by simp only [Task.spare] at less; omega)

end Statements

end Script

theorem script_careful (task : Task) (proper : task.Proper) (c : Cursor) :
    task.script.Careful (16 * c.rest.length + task.rank) (c.rest.length + task.spare) c := by
  cases task with
  | program => exact Script.careful_program c
  | declaration => exact Script.careful_declaration c
  | body => exact Script.careful_block c
  | routine => exact Script.careful_routine c
  | classDeclaration => exact Script.careful_class c
  | methods => exact Script.careful_methods c
  | ifStatement => exact Script.careful_if c
  | alternative => exact Script.careful_alternative c
  | whileStatement => exact Script.careful_while c
  | forStatement line => exact Script.careful_for c line
  | parameters => exact Script.careful_parameters c
  | expression => exact Script.careful_expression c
  | operation levels => exact Script.careful_operation c levels proper
  | operands level tighter left => exact Script.careful_operands c level tighter left proper
  | unary => exact Script.careful_unary c
  | suffixes callee => exact Script.careful_suffixes c callee
  | arguments => exact Script.careful_arguments c
  | expressions => exact Script.careful_expressions c
  | primary => exact Script.careful_primary c

end Parser

end TreeWalk
