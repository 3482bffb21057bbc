import TreeWalk.Proofs.Derived

set_option autoImplicit false

namespace TreeWalk

open Grammar

namespace Parser

variable {α β : Type}

def front (ts : List Token) : TokenKind :=
  (ts.headD (.finish 0)).kind

def Takes (p : Parser α) (ts rest : List Token) (good : α → Prop) : Prop :=
  ∀ id, ∃ a next, p ⟨ts ++ rest, id⟩ = .ok a ⟨rest, next⟩ ∧ good a

section Takes

variable {us vs rest : List Token} {good : β → Prop}

theorem takes_pure {b : β} (here : good b) : Takes (pure b) [] rest good :=
  fun id => ⟨b, id, rfl, here⟩

theorem takes_bind {p : Parser α} {f : α → Parser β} {mid : α → Prop} (first : Takes p us (vs ++ rest) mid)
    (after : ∀ a, mid a → Takes (f a) vs rest good) : Takes (p >>= f) (us ++ vs) rest good := by
  intro id
  obtain ⟨a, next, run, middle⟩ := first id
  obtain ⟨b, last, behind, here⟩ := after a middle next
  exact ⟨b, last, by rw [List.append_assoc, bind_ok f run, behind], here⟩

theorem takes_last {p : Parser α} {f : α → Parser β} (mid : α → Prop) (first : Takes p us rest mid)
    (after : ∀ a, mid a → Takes (f a) [] rest good) : Takes (p >>= f) us rest good := by
  rw [← List.append_nil us]
  exact takes_bind first after

theorem takes_none {p : Parser α} {f : α → Parser β} (mid : α → Prop) (first : Takes p [] (us ++ rest) mid)
    (after : ∀ a, mid a → Takes (f a) us rest good) : Takes (p >>= f) us rest good :=
  takes_bind first after

theorem takes_one {p : Parser α} {f : α → Parser β} {token : Token} (mid : α → Prop)
    (first : Takes p [token] (us ++ rest) mid) (after : ∀ a, mid a → Takes (f a) us rest good) :
    Takes (p >>= f) (token :: us) rest good :=
  takes_bind first after

theorem takes_mark {f : Mark → Parser β} (line : Nat) (after : ∀ given, Takes (f given) us rest good) :
    Takes (mark line >>= f) us rest good :=
  fun id => after ⟨id, line⟩ (id + 1)

theorem takes_peek {f : Token → Parser β} (after : Takes (f ((us ++ rest).headD (.finish 0))) us rest good) :
    Takes (peek >>= f) us rest good :=
  after

theorem takes_advance {token : Token} {p : Parser β} (more : token.kind.isFinish = false)
    (after : Takes p us rest good) : Takes (do advance; p) (token :: us) rest good := by
  intro id
  have step : advance ⟨token :: us ++ rest, id⟩ = .ok ⟨⟩ ⟨us ++ rest, id⟩ := by
    show EStateM.Result.ok _ (Cursor.advance _) = _
    simp [Cursor.advance, Cursor.peek, more]
  rw [bind_ok _ step]
  exact after id

theorem takes_symbol {symbol : Symbol} (token : SymbolToken symbol) (expected : Expectation) {f : Nat → Parser β}
    (after : ∀ line, Takes (f line) us rest good) : Takes (expectSymbol symbol expected >>= f) (token.1 :: us) rest good := by
  refine takes_one (fun _ => True) (takes_peek ?_) fun line _ => after line
  rw [List.cons_append, List.headD_cons, if_pos (symbol_kind.mpr token.2)]
  exact takes_advance (by rw [token.2]; rfl) (takes_pure trivial)

theorem expects_name (token : NameToken) (expected : Expectation) :
    Takes (expectName expected) [token.1] rest fun name => name.rename .blank = token.name := by
  refine takes_peek ?_
  rw [List.cons_append, List.headD_cons]
  simp only [token.2]
  exact takes_advance (by rw [token.2]; rfl) (takes_pure rfl)

theorem takes_name (token : NameToken) (expected : Expectation) {f : Name → Parser β}
    (after : ∀ name, name.rename .blank = token.name → Takes (f name) us rest good) :
    Takes (expectName expected >>= f) (token.1 :: us) rest good :=
  takes_one _ (expects_name token expected) after

theorem accepts_symbol {symbol : Symbol} (token : SymbolToken symbol) (ts : List Token) (id : Nat) :
    acceptSymbol symbol ⟨token.1 :: ts, id⟩ = .ok true ⟨ts, id⟩ := by
  obtain ⟨⟨kind, lexeme, line⟩, is⟩ := token
  obtain rfl : kind = .symbol symbol := is
  simp [acceptSymbol, peek, advance, Cursor.advance, Cursor.peek, TokenKind.isSymbol, TokenKind.isFinish, bind,
    EStateM.bind, pure, EStateM.pure, get_run, modify_run]

theorem rejects_symbol {symbol : Symbol} {ts : List Token} (other : front ts ≠ .symbol symbol) (id : Nat) :
    acceptSymbol symbol ⟨ts, id⟩ = .ok false ⟨ts, id⟩ := by
  have plain : (Cursor.peek ⟨ts, id⟩).kind.isSymbol symbol = false := eq_false_of_ne_true (mt symbol_kind.mp other)
  simp [acceptSymbol, peek, bind, EStateM.bind, pure, EStateM.pure, get_run, plain]

theorem takes_accepted {symbol : Symbol} (token : SymbolToken symbol) {f : Bool → Parser β}
    (after : Takes (f true) us rest good) : Takes (acceptSymbol symbol >>= f) (token.1 :: us) rest good :=
  takes_one (fun yes => yes = true) (fun id => ⟨true, id, accepts_symbol token _ id, rfl⟩) fun _ yes => yes ▸ after

theorem takes_unaccepted {symbol : Symbol} {f : Bool → Parser β} (other : front (us ++ rest) ≠ .symbol symbol)
    (after : Takes (f false) us rest good) : Takes (acceptSymbol symbol >>= f) us rest good :=
  takes_none (fun yes => yes = false) (fun id => ⟨false, id, rejects_symbol other id, rfl⟩) fun _ no => no ▸ after

theorem takes_keyword {keyword : Keyword} (token : KeywordToken keyword) {f : Bool → Parser β}
    (after : Takes (f true) us rest good) : Takes (acceptKeyword keyword >>= f) (token.1 :: us) rest good := by
  refine takes_one (fun yes => yes = true) (takes_peek ?_) fun _ yes => yes ▸ after
  rw [List.cons_append, List.headD_cons, if_pos (keyword_kind.mpr token.2)]
  exact takes_advance (by rw [token.2]; rfl) (takes_pure rfl)

theorem takes_no_keyword {keyword : Keyword} {f : Bool → Parser β} (other : front (us ++ rest) ≠ .keyword keyword)
    (after : Takes (f false) us rest good) : Takes (acceptKeyword keyword >>= f) us rest good := by
  refine takes_none (fun yes => yes = false) (takes_peek ?_) fun _ no => no ▸ after
  split
  · rename_i here
    exact absurd (keyword_kind.mp here) other
  · exact takes_pure rfl

theorem takes_when {p q : Parser β} {symbol : Symbol} (here : front (us ++ rest) = .symbol symbol)
    (after : Takes p us rest good) :
    Takes (if ((us ++ rest).headD (.finish 0)).kind.isSymbol symbol then p else q) us rest good := by
  split
  · exact after
  · rename_i other
    exact absurd (symbol_kind.mpr here) other

theorem takes_unless {p q : Parser β} {symbol : Symbol} (other : front (us ++ rest) ≠ .symbol symbol)
    (after : Takes q us rest good) :
    Takes (if ((us ++ rest).headD (.finish 0)).kind.isSymbol symbol then p else q) us rest good := by
  split
  · rename_i here
    exact absurd (symbol_kind.mp here) other
  · exact after

end Takes

section Fronts

def opens : TokenKind → Bool
  | .identifier | .number _ | .string _ => true
  | .keyword .true | .keyword .false | .keyword .none | .keyword .this => true
  | .symbol .leftParen | .symbol .bang | .symbol .minus => true
  | _ => false

def ends : TokenKind → Bool
  | .keyword .else | .symbol .rightBrace | .finish => true
  | _ => false

def Begins : Rule → List Token → Prop
  | .expression, ts | .operation _, ts | .unary, ts | .expressions, ts | .expressionStatement, ts =>
      ts ≠ [] ∧ opens (front ts) = true
  | .call, ts | .primary, ts => ts ≠ [] ∧ opens (front ts) = true ∧ front ts ∉ prefixes
  | .operations level _, ts => ts = [] ∨ front ts ∈ operators level
  | .declaration, ts | .statement, ts => ts ≠ [] ∧ ends (front ts) = false
  | .varDeclaration, ts => front ts = .keyword .var
  | .names, ts | .function, ts => ts ≠ [] ∧ front ts = .identifier
  | .block, ts => ts ≠ [] ∧ front ts = .symbol .leftBrace
  | _, _ => True

theorem front_append {ts more : List Token} (some : ts ≠ []) : front (ts ++ more) = front ts := by
  cases ts with
  | nil => exact absurd rfl some
  | cons token rest => rfl

theorem opens_ends {kind : TokenKind} (first : opens kind = true) : ends kind = false := by
  cases kind with
  | keyword keyword => cases keyword <;> first | rfl | cases first
  | symbol symbol => cases symbol <;> first | rfl | cases first
  | finish => cases first
  | _ => rfl

theorem opens_append {ts more : List Token} (begins : ts ≠ [] ∧ opens (front ts) = true) :
    ts ++ more ≠ [] ∧ opens (front (ts ++ more)) = true :=
  ⟨List.append_ne_nil_of_left_ne_nil begins.1 more, front_append begins.1 ▸ begins.2⟩

theorem begins_token {token : Token} {kind : TokenKind} (is : token.kind = kind) (ts : List Token) :
    token :: ts ≠ [] ∧ front (token :: ts) = kind :=
  ⟨List.cons_ne_nil _ _, is⟩

theorem begins_with {token : Token} {kind : TokenKind} {test : TokenKind → Bool} {truth : Bool} (is : token.kind = kind)
    (ts : List Token) (holds : test kind = truth) : token :: ts ≠ [] ∧ test (front (token :: ts)) = truth := by
  refine ⟨List.cons_ne_nil _ _, ?_⟩
  show test token.kind = truth
  rw [is, holds]

theorem begins_primary {token : Token} {kind : TokenKind} (is : token.kind = kind) (ts : List Token)
    (open_ : opens kind = true) (plain : kind ∉ prefixes) :
    token :: ts ≠ [] ∧ opens (front (token :: ts)) = true ∧ front (token :: ts) ∉ prefixes := by
  subst is
  exact ⟨List.cons_ne_nil _ _, open_, plain⟩

theorem derives_begins {rule : Rule} {ts : List Token} {tree : rule.Result} (derives : Derives rule ts tree) :
    Begins rule ts := by
  induction derives with
  | declaration_var _ begins => exact ⟨fun none => by simp [none, Begins, front, Token.finish] at begins, by rw [begins]; rfl⟩
  | declaration_function func _ _ => exact begins_with func.2 _ rfl
  | declaration_class keyword _ _ _ _ _ => exact begins_with keyword.2 _ rfl
  | declaration_statement _ begins => exact begins
  | var_declaration keyword _ _ _ _ => exact keyword.2
  | function name _ _ _ _ _ _ => exact begins_token name.2 _
  | names_last name => exact begins_token name.2 _
  | names_more name _ _ _ => exact begins_token name.2 _
  | block opened _ _ _ => exact begins_token opened.2 _
  | statement_if keyword _ _ => exact begins_with keyword.2 _ rfl
  | statement_while keyword _ _ _ _ _ _ => exact begins_with keyword.2 _ rfl
  | statement_for keyword _ _ _ _ _ _ _ _ _ _ _ => exact begins_with keyword.2 _ rfl
  | statement_return keyword _ _ _ => exact begins_with keyword.2 _ rfl
  | statement_block _ begins => exact ⟨begins.1, by rw [begins.2]; rfl⟩
  | statement_expression _ begins => exact ⟨begins.1, opens_ends begins.2⟩
  | expression_statement _ _ begins => exact opens_append begins
  | assign_name name _ _ _ => exact begins_with name.2 _ rfl
  | assign_property _ _ _ _ _ begins _ => exact opens_append ⟨begins.1, begins.2.1⟩
  | unassigned _ begins | operand _ begins | expressions_last _ begins => exact begins
  | unary_call _ begins => exact ⟨begins.1, begins.2.1⟩
  | operation _ _ begins _ | expressions_more _ _ _ begins _ => exact opens_append begins
  | operations_none => exact .inl rfl
  | operations_more operator one _ _ _ _ => exact .inr one
  | call _ _ begins _ =>
      exact ⟨List.append_ne_nil_of_left_ne_nil begins.1 _, front_append begins.1 ▸ begins.2⟩
  | unary_operator operator one _ _ =>
      obtain kind | kind : operator.kind = .symbol .bang ∨ operator.kind = .symbol .minus := by simpa [prefixes] using one
      · exact begins_with kind _ rfl
      · exact begins_with kind _ rfl
  | primary_literal token one =>
      refine ⟨List.cons_ne_nil _ _, ?_⟩
      show opens token.kind = true ∧ token.kind ∉ prefixes
      revert one
      cases token.kind with
      | keyword keyword => cases keyword <;> simp [literal?, opens, prefixes]
      | _ => simp [literal?, opens, prefixes]
  | primary_this token => exact begins_primary token.2 _ rfl (by simp [prefixes])
  | primary_name name => exact begins_primary name.2 _ rfl (by simp [prefixes])
  | primary_grouping opened _ _ _ => exact begins_primary opened.2 _ rfl (by simp [prefixes])
  | _ => trivial

end Fronts

section Followers

structure Parts (levels : List Level) (rest : List Token) : Prop where
  paren : front rest ≠ .symbol .leftParen
  dot : front rest ≠ .symbol .dot
  operators : ∀ level ∈ levels, front rest ∉ operators level

def closers : List TokenKind :=
  [.symbol .semicolon, .symbol .rightParen, .symbol .comma]

theorem parts_closed {rest : List Token} (closed : front rest ∈ closers) : Parts precedence rest := by
  simp only [closers, List.mem_cons, List.not_mem_nil, or_false] at closed
  rcases closed with kind | kind | kind <;>
    exact ⟨by simp [kind], by simp [kind], by simp [kind, precedence, operators]⟩

theorem parts_equal {rest : List Token} (equal : front rest = .symbol .equal) (levels : List Level) : Parts levels rest := by
  refine ⟨by simp [equal], by simp [equal], fun level _ => ?_⟩
  cases level <;> simp [equal, operators]

theorem parts_weaken {levels fewer : List Level} {rest : List Token} (parts : Parts levels rest)
    (subset : ∀ level ∈ fewer, level ∈ levels) : Parts fewer rest :=
  ⟨parts.paren, parts.dot, fun level member => parts.operators level (subset level member)⟩

end Followers

-- What it is for a rule of the parser to read what is derived. The steps are bounded by the number
-- of tokens, and what comes next is nothing that the rule would go on with.
def Read : (rule : Rule) → List Token → rule.Result → Prop
  | .expression, ts, e => ∀ steps rest, 16 * ts.length + 10 ≤ steps → front rest ∈ closers →
      Takes (expression steps) ts rest fun a => a.rename .blank = e
  | .operation levels, ts, e => ∀ steps rest, 16 * ts.length + levels.length + 3 ≤ steps → levels <:+ precedence →
      Parts levels rest → Takes (operation steps levels) ts rest fun a => a.rename .blank = e
  | .operations level tighter, ts, others => ∀ steps rest left, 16 * ts.length + 1 ≤ steps →
      level :: tighter <:+ precedence → Parts (level :: tighter) rest →
        Takes (operands steps level tighter left) ts rest fun a =>
          a.rename .blank = others.foldl (joined level) (left.rename .blank)
  | .unary, ts, e => ∀ steps rest, 16 * ts.length + 2 ≤ steps → Parts [] rest →
      Takes (unary steps) ts rest fun a => a.rename .blank = e
  -- A call can always go on with another suffix, so this is about the state behind the last one.
  | .call, ts, e => ∀ steps rest id, 16 * ts.length + 1 ≤ steps →
      ∃ left a next, steps ≤ left + ts.length ∧ a.rename .blank = e ∧
        (do suffixes steps (← primary steps)) ⟨ts ++ rest, id⟩ = suffixes left a ⟨rest, next⟩
  | .suffixes, ts, list => ∀ steps rest callee id, 16 * ts.length + 1 ≤ steps →
      ∃ left a next, steps ≤ left + ts.length ∧ a.rename .blank = list.foldl suffixed (callee.rename .blank) ∧
        suffixes steps callee ⟨ts ++ rest, id⟩ = suffixes left a ⟨rest, next⟩
  | .primary, ts, e => ∀ steps rest, 16 * ts.length + 1 ≤ steps → Takes (primary steps) ts rest fun a => a.rename .blank = e
  | .arguments, ts, list => ∀ steps rest (closed : SymbolToken .rightParen), 16 * ts.length + 12 ≤ steps →
      Takes (arguments steps) (ts ++ [closed.1]) rest fun a => Expr.renameAll .blank a.1 = list
  | .expressions, ts, list => ∀ steps rest, 16 * ts.length + 11 ≤ steps → front rest = .symbol .rightParen →
      Takes (expressions steps) ts rest fun a => Expr.renameAll .blank a = list

  | .parameters, ts, list => ∀ steps rest, 16 * ts.length ≤ steps → front rest = .symbol .rightParen →
      (ts = [] ∧ list = []) ∨
        (front ts = .identifier ∧ Takes (parameters steps) ts rest fun a => a.map (Name.rename .blank) = list)
  | .names, ts, list => ∀ steps rest, 16 * ts.length ≤ steps → front rest = .symbol .rightParen →
      Takes (parameters steps) ts rest fun a => a.map (Name.rename .blank) = list
  | .optional, ts, value => ∀ steps rest symbol, 16 * ts.length + 10 ≤ steps → .symbol symbol ∈ closers →
      front rest = .symbol symbol →
        Takes (expressionUnless steps symbol) ts rest fun a => a.map (Expr.rename .blank) = value
  | .initializer, ts, value => ∀ steps rest, 16 * ts.length + 10 ≤ steps → front rest = .symbol .semicolon →
      (ts = [] ∧ value = none) ∨ ∃ (equal : SymbolToken .equal) (us : List Token) (e : Expr), ts = equal.1 :: us ∧
        value = some e ∧ Takes (expression steps) us rest fun a => a.rename .blank = e
  | .varDeclaration, ts, s => ∃ (keyword : KeywordToken .var) (us : List Token), ts = keyword.1 :: us ∧
      ∀ steps rest, 16 * us.length ≤ steps → Takes (varDeclaration steps) us rest fun a => a.rename .blank = s
  | .expressionStatement, ts, s => ∀ steps rest, 16 * ts.length ≤ steps →
      Takes (expressionStatement steps) ts rest fun a => a.rename .blank = s
  | .start, ts, start => ∀ steps rest, 16 * ts.length ≤ steps →
      Takes (loopStart steps) ts rest fun a => a.map (Stmt.rename .blank) = start
  | .declaration, ts, s | .statement, ts, s => ∀ steps rest, 16 * ts.length + 1 ≤ steps → front rest ≠ .keyword .else →
      Takes (declaration steps) ts rest fun a => a.rename .blank = s
  | .block, ts, list => ∃ (opened : SymbolToken .leftBrace) (us : List Token), ts = opened.1 :: us ∧
      ∀ steps rest, 16 * us.length ≤ steps → Takes (body steps) us rest fun a => Stmt.renameAll .blank a = list
  | .declarations, ts, list => ∀ steps, 16 * ts.length + 2 ≤ steps →
      (∀ rest (closed : SymbolToken .rightBrace), Takes (body steps) (ts ++ [closed.1]) rest fun a =>
        Stmt.renameAll .blank a = list) ∧
      ∀ last : Token, last.kind.isFinish = true →
        Takes (Parser.program steps) ts [last] fun a => Stmt.renameAll .blank a = list
  | .program, ts, list => ∀ steps (last : Token), 16 * ts.length + 2 ≤ steps → last.kind.isFinish = true →
      Takes (Parser.program steps) ts [last] fun a => Stmt.renameAll .blank a = list
  | .functions, ts, list => ∀ steps rest (closed : SymbolToken .rightBrace), 16 * ts.length + 2 ≤ steps →
      Takes (methods steps) (ts ++ [closed.1]) rest fun a => Routine.renameAll .blank a = list
  | .function, ts, r => ∀ steps rest, 16 * ts.length ≤ steps → Takes (routine steps) ts rest fun a => a.rename .blank = r
  | .conditional, ts, (e, list, other) => ∀ (γ : Type) (make : Expr → List Stmt → Alternative → γ) steps rest,
      16 * ts.length ≤ steps → front rest ≠ .keyword .else →
        Takes
          (do
            let e ← condition steps .ifOpen .ifClose .ifBody
            let body ← body steps
            return make e body (← alternative steps))
          ts rest fun a => ∃ condition body alternative, a = make condition body alternative ∧
            condition.rename .blank = e ∧ Stmt.renameAll .blank body = list ∧ alternative.rename .blank = other
  | .alternative, ts, other => ∀ steps rest, 16 * ts.length + 1 ≤ steps → front rest ≠ .keyword .else →
      Takes (alternative steps) ts rest fun a => a.rename .blank = other

end Parser

end TreeWalk
