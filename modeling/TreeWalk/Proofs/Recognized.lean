import TreeWalk.Proofs.Expressions
import TreeWalk.Proofs.Programs

set_option autoImplicit false

namespace TreeWalk

open Grammar

namespace Parser

variable {α : Type}

section Statements

variable {steps : Nat} {ts us more rest : List Token}

theorem read_optional_none : Read .optional [] none := by
  intro steps rest symbol _ _ here
  exact takes_peek (takes_when here (takes_pure rfl))

theorem read_optional_some {e : Expr} (begins : Begins .expression ts) (expression : Read .expression ts e) :
    Read .optional ts (some e) := by
  intro steps rest symbol bound closer here
  have other : front (ts ++ rest) ≠ .symbol symbol := by
    rw [front_append begins.1]
    intro same
    have first := begins.2
    rw [same] at first
    simp only [closers, List.mem_cons, List.not_mem_nil, or_false] at closer
    rcases closer with kind | kind | kind <;> rw [kind] at first <;> cases first
  refine takes_peek (takes_unless other ?_)
  exact takes_last _ (expression steps rest bound (here ▸ closer)) fun a same => takes_pure (congrArg some same)

theorem read_names_last (name : NameToken) : Read .names [name.1] [name.name] := by
  intro steps rest bound closed
  obtain ⟨n, rfl⟩ : ∃ n, steps = n + 1 := ⟨steps - 1, by simp at bound; omega⟩
  refine takes_name name _ fun first same => takes_unaccepted (by rw [List.nil_append, closed]; simp) (takes_pure ?_)
  rw [List.map_cons, same]
  rfl

theorem read_names_more {others : List Name} (name : NameToken) (comma : SymbolToken .comma)
    (further : Read .names ts others) : Read .names (name.1 :: comma.1 :: ts) (name.name :: others) := by
  intro steps rest bound closed
  simp only [List.length_cons] at bound
  obtain ⟨n, rfl⟩ : ∃ n, steps = n + 1 := ⟨steps - 1, by omega⟩
  refine takes_name name _ fun first same => takes_accepted comma ?_
  refine takes_last _ (further n rest (by omega) closed) fun list also => takes_pure ?_
  rw [List.map_cons, same, also]

theorem read_initializer_some {e : Expr} (equal : SymbolToken .equal) (value : Read .expression ts e) :
    Read .initializer (equal.1 :: ts) (some e) := by
  intro steps rest bound ended
  rw [List.length_cons] at bound
  exact .inr ⟨equal, ts, e, rfl, rfl, value steps rest (by omega) (by simp [ended, closers])⟩

theorem read_var_declaration {value : Option Expr} (keyword : KeywordToken .var) (name : NameToken)
    (ended : SymbolToken .semicolon) (initializer : Read .initializer ts value) :
    Read .varDeclaration (keyword.1 :: name.1 :: (ts ++ [ended.1])) (.var name.name value) := by
  refine ⟨keyword, _, rfl, fun steps rest bound => takes_name name _ fun given same => ?_⟩
  simp only [List.length_cons, List.length_append, List.length_nil] at bound
  have closing : ∀ init : Option Expr, init.map (Expr.rename .blank) = value →
      Takes
        (do
          let _ ← expectSymbol .semicolon .variableEnd
          return Stmt.var given init)
        [ended.1] rest fun a => a.rename .blank = .var name.name value := fun init known =>
    takes_symbol ended _ fun _ => takes_pure (by rw [var_blank, same, known])
  rcases initializer steps ([ended.1] ++ rest) (by omega) (front_kind ended.2 _) with
    ⟨rfl, rfl⟩ | ⟨equal, us, e, rfl, rfl, run⟩
  · refine takes_unaccepted (by rw [List.nil_append, List.cons_append, front_kind ended.2]; simp) ?_
    exact takes_none (fun init => init.map (Expr.rename .blank) = none) (takes_pure rfl) closing
  · refine takes_accepted equal ?_
    have init : Takes (some <$> expression steps) us ([ended.1] ++ rest) fun init =>
        init.map (Expr.rename .blank) = some e := takes_last _ run fun a known => takes_pure (congrArg some known)
    exact takes_bind init closing

theorem read_expression_statement {e : Expr} (ended : SymbolToken .semicolon) (expression : Read .expression ts e) :
    Read .expressionStatement (ts ++ [ended.1]) (.expression e) := by
  intro steps rest bound
  simp only [List.length_append, List.length_cons, List.length_nil] at bound
  have behind : front ([ended.1] ++ rest) ∈ closers := by simp [front_kind ended.2, closers]
  apply takes_bind (expression steps _ (by omega) behind)
  exact fun a same => takes_symbol ended _ fun _ => takes_pure (congrArg Stmt.expression same)

theorem read_start_none (ended : SymbolToken .semicolon) : Read .start [ended.1] none :=
  fun _ _ _ => takes_accepted ended (takes_pure rfl)

theorem read_start_var {s : Stmt} (var : Read .varDeclaration ts s) : Read .start ts (some s) := by
  obtain ⟨keyword, us, rfl, run⟩ := var
  intro steps rest bound
  rw [List.length_cons] at bound
  refine takes_unaccepted (by rw [List.cons_append, front_kind keyword.2]; simp) (takes_keyword keyword ?_)
  exact takes_last _ (run steps rest (by omega)) fun a same => takes_pure (congrArg some same)

theorem read_start_expression {s : Stmt} (begins : Begins .expressionStatement ts)
    (expression : Read .expressionStatement ts s) : Read .start ts (some s) := by
  intro steps rest bound
  have first : opens (front (ts ++ rest)) = true := front_append begins.1 ▸ begins.2
  refine takes_unaccepted (fun same => ?_) (takes_no_keyword (fun same => ?_) ?_)
  · rw [same] at first
    cases first
  · rw [same] at first
    cases first
  · exact takes_last _ (expression steps rest bound) fun a same => takes_pure (congrArg some same)

theorem read_block {list : List Stmt} (opened : SymbolToken .leftBrace) (closed : SymbolToken .rightBrace)
    (all : Read .declarations ts list) : Read .block (opened.1 :: (ts ++ [closed.1])) list := by
  refine ⟨opened, _, rfl, fun steps rest bound => ?_⟩
  simp only [List.length_append, List.length_cons, List.length_nil] at bound
  exact (all steps (by omega)).1 rest closed

theorem takes_condition {e : Expr} (opened : SymbolToken .leftParen) (closed : SymbolToken .rightParen)
    (brace : SymbolToken .leftBrace) (one two three : Expectation) (test : Read .expression ts e)
    (bound : 16 * ts.length + 10 ≤ steps) :
    Takes (condition steps one two three) (opened.1 :: (ts ++ [closed.1, brace.1])) rest fun a => a.rename .blank = e := by
  refine takes_symbol opened _ fun _ => ?_
  have behind : front ([closed.1, brace.1] ++ rest) ∈ closers := by simp [front_kind closed.2, closers]
  apply takes_bind (test steps _ bound behind)
  exact fun a same => takes_symbol closed _ fun _ => takes_symbol brace _ fun _ => takes_pure same

theorem takes_block {e : Expr} {f : Expr → Parser α} {good : α → Prop} (opened : SymbolToken .leftParen)
    (closed : SymbolToken .rightParen) (brace : SymbolToken .leftBrace) (one two three : Expectation)
    (test : Read .expression ts e) (bound : 16 * ts.length + 10 ≤ steps)
    (after : ∀ a, a.rename .blank = e → Takes (f a) more rest good) :
    Takes (condition steps one two three >>= f) (opened.1 :: (ts ++ closed.1 :: brace.1 :: more)) rest good := by
  have tokens : opened.1 :: (ts ++ closed.1 :: brace.1 :: more) =
      opened.1 :: (ts ++ [closed.1, brace.1]) ++ more := by simp
  rw [tokens]
  exact takes_bind (takes_condition opened closed brace one two three test bound) after

theorem read_conditional {e : Expr} {bs ls : List Token} {list : List Stmt} {other : Alternative}
    (opened : SymbolToken .leftParen) (closed : SymbolToken .rightParen) (test : Read .expression ts e)
    (block : Read .block bs list) (others : Read .alternative ls other) :
    Read .conditional (opened.1 :: (ts ++ closed.1 :: (bs ++ ls))) (e, list, other) := by
  obtain ⟨brace, us, rfl, run⟩ := block
  intro γ make steps rest bound last
  simp only [List.length_cons, List.length_append] at bound
  refine takes_block opened closed brace _ _ _ test (by omega) fun a same => ?_
  apply takes_bind (run steps (ls ++ rest) (by omega))
  intro body inner
  refine takes_last _ (others steps rest (by omega) last) fun alternative final => ?_
  exact takes_pure ⟨a, body, alternative, rfl, same, inner, final⟩

theorem read_alternative_none : Read .alternative [] .none := by
  intro steps rest bound last
  obtain ⟨n, rfl, _⟩ := bounded_pos bound
  exact takes_no_keyword last (takes_pure rfl)

theorem read_alternative_if {e : Expr} {list : List Stmt} {alternative : Alternative} (other : KeywordToken .else)
    (keyword : KeywordToken .if) (conditional : Read .conditional ts (e, list, alternative)) :
    Read .alternative (other.1 :: keyword.1 :: ts) (.elseIf e list alternative) := by
  intro steps rest bound last
  obtain ⟨n, rfl, enough⟩ := bounded_pos bound
  simp only [List.length_cons] at enough
  refine takes_keyword other (takes_keyword keyword ?_)
  intro id
  obtain ⟨a, next, run, condition, body, final, rfl, one, two, three⟩ :=
    conditional _ Alternative.elseIf n rest (by omega) last id
  refine ⟨_, next, run, ?_⟩
  show Alternative.elseIf _ _ _ = _
  rw [one, two, three]

theorem read_alternative_block {list : List Stmt} (other : KeywordToken .else) (block : Read .block ts list) :
    Read .alternative (other.1 :: ts) (.block list) := by
  obtain ⟨brace, us, rfl, run⟩ := block
  intro steps rest bound _
  obtain ⟨n, rfl, enough⟩ := bounded_pos bound
  simp only [List.length_cons] at enough
  refine takes_keyword other (takes_no_keyword ?_ (takes_symbol brace _ fun _ => ?_))
  · rw [List.cons_append, front_kind brace.2]
    simp
  · exact takes_last _ (run n rest (by omega)) fun a same => takes_pure (congrArg Alternative.block same)

theorem read_declaration_var {s : Stmt} (var : Read .varDeclaration ts s) : Read .declaration ts s := by
  obtain ⟨keyword, us, rfl, run⟩ := var
  intro steps rest bound _
  obtain ⟨n, rfl, enough⟩ := bounded_pos bound
  rw [List.length_cons] at enough
  refine takes_peek ?_
  simp only [List.cons_append, List.headD_cons, keyword.2]
  exact takes_advance (by rw [keyword.2]; rfl) (run n rest (by omega))

theorem read_declaration_function {r : Routine} (func : KeywordToken .func) (function : Read .function ts r) :
    Read .declaration (func.1 :: ts) (.function r) := by
  intro steps rest bound _
  obtain ⟨n, rfl, enough⟩ := bounded_pos bound
  rw [List.length_cons] at enough
  refine takes_peek ?_
  simp only [List.cons_append, List.headD_cons, func.2]
  refine takes_advance (by rw [func.2]; rfl) ?_
  exact takes_last _ (function n rest (by omega)) fun a same => takes_pure (congrArg Stmt.function same)

theorem read_declaration_class {list : List Routine} (keyword : KeywordToken .class) (name : NameToken)
    (opened : SymbolToken .leftBrace) (closed : SymbolToken .rightBrace) (functions : Read .functions ts list) :
    Read .declaration (keyword.1 :: name.1 :: opened.1 :: (ts ++ [closed.1])) (.class name.name list) := by
  intro steps rest bound _
  obtain ⟨n, rfl, enough⟩ := bounded_pos bound
  simp only [List.length_cons, List.length_append, List.length_nil] at enough
  obtain ⟨m, rfl⟩ : ∃ m, n = m + 1 := ⟨n - 1, by omega⟩
  refine takes_peek ?_
  simp only [List.cons_append, List.headD_cons, keyword.2]
  refine takes_advance (by rw [keyword.2]; rfl) (takes_name name _ fun given same => takes_symbol opened _ fun _ => ?_)
  refine takes_last _ (functions m rest closed (by omega)) fun a all => takes_pure ?_
  rw [Stmt.rename, same, all]

theorem read_statement_if {e : Expr} {list : List Stmt} {alternative : Alternative} (keyword : KeywordToken .if)
    (conditional : Read .conditional ts (e, list, alternative)) :
    Read .statement (keyword.1 :: ts) (.branch e list alternative) := by
  intro steps rest bound last
  obtain ⟨n, rfl, enough⟩ := bounded_pos bound
  rw [List.length_cons] at enough
  obtain ⟨m, rfl⟩ : ∃ m, n = m + 1 := ⟨n - 1, by omega⟩
  refine takes_peek ?_
  simp only [List.cons_append, List.headD_cons, keyword.2]
  refine takes_advance (by rw [keyword.2]; rfl) fun id => ?_
  obtain ⟨a, next, run, condition, body, final, rfl, one, two, three⟩ :=
    conditional _ Stmt.branch m rest (by omega) last id
  refine ⟨_, next, run, ?_⟩
  rw [Stmt.rename, one, two, three]

theorem read_statement_while {e : Expr} {list : List Stmt} {bs : List Token} (keyword : KeywordToken .while)
    (opened : SymbolToken .leftParen) (closed : SymbolToken .rightParen) (test : Read .expression ts e)
    (block : Read .block bs list) :
    Read .statement (keyword.1 :: opened.1 :: (ts ++ closed.1 :: bs)) (.while e list) := by
  obtain ⟨brace, us, rfl, run⟩ := block
  intro steps rest bound last
  obtain ⟨n, rfl, enough⟩ := bounded_pos bound
  simp only [List.length_cons, List.length_append] at enough
  obtain ⟨m, rfl⟩ : ∃ m, n = m + 1 := ⟨n - 1, by omega⟩
  refine takes_peek ?_
  simp only [List.cons_append, List.headD_cons, keyword.2]
  refine takes_advance (by rw [keyword.2]; rfl) (takes_block opened closed brace _ _ _ test (by omega) fun a same => ?_)
  refine takes_last _ (run m rest (by omega)) fun body all => takes_pure ?_
  rw [Stmt.rename, same, all]

theorem takes_loop_condition {value : Option Expr} (line : Nat) (test : Read .optional ts value)
    (bound : 16 * ts.length + 10 ≤ steps) (ended : front rest = .symbol .semicolon) :
    Takes (loopCondition steps line) ts rest fun a =>
      a.rename .blank = value.getD (.literal unmarked (.bool true)) := by
  apply takes_last _ (test steps rest .semicolon bound (by simp [closers]) ended)
  rintro a rfl
  cases a with
  | none => exact takes_mark _ fun given => takes_pure rfl
  | some e => exact takes_pure rfl

theorem read_statement_for {start : Option Stmt} {condition action : Option Expr} {list : List Stmt}
    {ss cs ls bs : List Token} (keyword : KeywordToken .for) (opened : SymbolToken .leftParen)
    (ended : SymbolToken .semicolon) (closed : SymbolToken .rightParen) (first : Read .start ss start)
    (test : Read .optional cs condition) (last : Read .optional ls action) (block : Read .block bs list) :
    Read .statement (keyword.1 :: opened.1 :: (ss ++ (cs ++ ended.1 :: (ls ++ closed.1 :: bs))))
      (unrolled start condition action list) := by
  obtain ⟨brace, us, rfl, run⟩ := block
  intro steps rest bound _
  obtain ⟨n, rfl, enough⟩ := bounded_pos bound
  simp only [List.length_cons, List.length_append] at enough
  obtain ⟨m, rfl⟩ : ∃ m, n = m + 1 := ⟨n - 1, by omega⟩
  refine takes_peek ?_
  simp only [List.cons_append, List.headD_cons, keyword.2]
  refine takes_advance (by rw [keyword.2]; rfl) (takes_symbol opened _ fun _ => ?_)
  apply takes_bind (first m _ (by omega))
  rintro init rfl
  apply takes_bind (takes_loop_condition _ test (by omega) (front_kind ended.2 _))
  intro e same
  refine takes_symbol ended _ fun _ => ?_
  apply takes_bind (last m _ .rightParen (by omega) (by simp [closers]) (front_kind closed.2 _))
  rintro step rfl
  refine takes_symbol closed _ fun _ => takes_symbol brace _ fun _ => ?_
  refine takes_last _ (run m rest (by omega)) fun body all => takes_pure ?_
  rw [loop_blank init e condition step body same, all]

theorem read_statement_return {value : Option Expr} (keyword : KeywordToken .return) (ended : SymbolToken .semicolon)
    (result : Read .optional ts value) : Read .statement (keyword.1 :: (ts ++ [ended.1])) (.return 0 value) := by
  intro steps rest bound _
  obtain ⟨n, rfl, enough⟩ := bounded_pos bound
  simp only [List.length_cons, List.length_append, List.length_nil] at enough
  refine takes_peek ?_
  simp only [List.cons_append, List.headD_cons, keyword.2]
  refine takes_advance (by rw [keyword.2]; rfl) ?_
  apply takes_bind (result n ([ended.1] ++ rest) .semicolon (by omega) (by simp [closers]) (front_kind ended.2 _))
  intro a same
  exact takes_symbol ended _ fun _ => takes_pure (by rw [return_blank, same])

theorem read_statement_block {list : List Stmt} (block : Read .block ts list) : Read .statement ts (.block list) := by
  obtain ⟨brace, us, rfl, run⟩ := block
  intro steps rest bound _
  obtain ⟨n, rfl, enough⟩ := bounded_pos bound
  rw [List.length_cons] at enough
  refine takes_peek ?_
  simp only [List.cons_append, List.headD_cons, brace.2]
  refine takes_advance (by rw [brace.2]; rfl) ?_
  exact takes_last _ (run n rest (by omega)) fun a same => takes_pure (congrArg Stmt.block same)

theorem read_statement_expression {s : Stmt} (begins : Begins .expressionStatement ts)
    (expression : Read .expressionStatement ts s) : Read .statement ts s := by
  intro steps rest bound _
  obtain ⟨n, rfl, enough⟩ := bounded_pos bound
  have first : opens (front (ts ++ rest)) = true := front_append begins.1 ▸ begins.2
  refine takes_peek ?_
  -- The other kinds of statement begin with tokens that no expression begins with.
  split
  case h_9 => exact expression n rest enough
  all_goals
    rename_i kind
    rw [front, kind] at first
    cases first

theorem read_function {ps bs : List Token} {parameters : List Name} {list : List Stmt} (name : NameToken)
    (opened : SymbolToken .leftParen) (closed : SymbolToken .rightParen) (names : Read .parameters ps parameters)
    (block : Read .block bs list) :
    Read .function (name.1 :: opened.1 :: (ps ++ closed.1 :: bs)) ⟨name.name, parameters, list⟩ := by
  obtain ⟨brace, us, rfl, run⟩ := block
  intro steps rest bound
  simp only [List.length_cons, List.length_append] at bound
  obtain ⟨n, rfl⟩ : ∃ n, steps = n + 1 := ⟨steps - 1, by omega⟩
  refine takes_name name _ fun given same => takes_symbol opened _ fun _ => takes_peek ?_
  have closing : ∀ list' : List Name, list'.map (Name.rename .blank) = parameters →
      Takes
        (do
          let _ ← expectSymbol .rightParen .parametersClose
          let _ ← expectSymbol .leftBrace .functionBody
          return ⟨given, list', ← body n⟩)
        (closed.1 :: brace.1 :: us) rest fun a => Routine.rename .blank a = ⟨name.name, parameters, list⟩ := by
    intro list' known
    refine takes_symbol closed _ fun _ => takes_symbol brace _ fun _ => ?_
    refine takes_last _ (run n rest (by omega)) fun a all => takes_pure ?_
    rw [Routine.rename, same, known, all]
  rcases names n (closed.1 :: brace.1 :: us ++ rest) (by omega) (front_kind closed.2 _) with ⟨rfl, rfl⟩ | ⟨first, taken⟩
  · refine takes_when (front_kind closed.2 _) ?_
    exact takes_none (fun list' => list'.map (Name.rename .blank) = []) (takes_pure rfl) closing
  · have some : ps ≠ [] := by
      rintro rfl
      cases first
    refine takes_unless (fun here => ?_) (takes_bind taken closing)
    rw [List.append_assoc, front_append some, first] at here
    cases here

theorem read_functions_none : Read .functions [] [] := by
  intro steps rest closed bound
  obtain ⟨n, rfl⟩ : ∃ n, steps = n + 1 := ⟨steps - 1, by omega⟩
  refine takes_peek ?_
  rw [List.nil_append, List.cons_append, List.headD_cons, if_pos (by simp [symbol_kind.mpr closed.2])]
  exact takes_symbol closed _ fun _ => takes_pure rfl

theorem read_functions_more {r : Routine} {others : List Routine} (begins : Begins .function ts)
    (first : Read .function ts r) (further : Read .functions more others) :
    Read .functions (ts ++ more) (r :: others) := by
  intro steps rest closed bound
  have one : 1 ≤ ts.length := List.length_pos_iff.mpr begins.1
  rw [List.length_append] at bound
  obtain ⟨n, rfl⟩ : ∃ n, steps = n + 1 := ⟨steps - 1, by omega⟩
  have here : ((ts ++ more ++ [closed.1] ++ rest).headD (.finish 0)).kind = .identifier := by
    rw [List.append_assoc, List.append_assoc]
    exact (front_append begins.1).trans begins.2
  refine takes_peek ?_
  rw [here, if_neg (by simp [TokenKind.isSymbol, TokenKind.isFinish]), List.append_assoc]
  apply takes_bind (first n _ (by omega))
  intro a same
  refine takes_last _ (further n rest closed (by omega)) fun list all => takes_pure ?_
  rw [Routine.renameAll, same, all]

theorem read_declarations_none : Read .declarations [] [] := by
  intro steps bound
  obtain ⟨n, rfl⟩ : ∃ n, steps = n + 1 := ⟨steps - 1, by omega⟩
  constructor
  · intro rest closed
    refine takes_peek ?_
    rw [List.nil_append, List.cons_append, List.headD_cons, if_pos (by simp [symbol_kind.mpr closed.2])]
    exact takes_symbol closed _ fun _ => takes_pure rfl
  · intro last finished
    refine takes_peek ?_
    rw [List.nil_append, List.headD_cons, if_pos finished]
    exact takes_pure rfl

theorem ends_plain {kind : TokenKind} (other : ends kind = false) :
    kind.isFinish = false ∧ kind.isSymbol .rightBrace = false ∧ kind ≠ .keyword .else := by
  refine ⟨?_, ?_, ?_⟩
  · cases kind <;> first | rfl | cases other
  · apply eq_false_of_ne_true
    rw [symbol_kind]
    rintro rfl
    cases other
  · rintro rfl
    cases other

theorem declarations_else {list : List Stmt} (derives : Derives .declarations more list)
    (behind : front rest ≠ .keyword .else) : front (more ++ rest) ≠ .keyword .else := by
  cases derives with
  | declarations_none => exact behind
  | declarations_more first others =>
      obtain ⟨some, plain⟩ := derives_begins first
      rw [List.append_assoc, front_append some]
      exact (ends_plain plain).2.2

theorem read_declarations_more {s : Stmt} {others : List Stmt} (begins : Begins .declaration ts)
    (behind : Derives .declarations more others) (first : Read .declaration ts s)
    (further : Read .declarations more others) : Read .declarations (ts ++ more) (s :: others) := by
  intro steps bound
  have one : 1 ≤ ts.length := List.length_pos_iff.mpr begins.1
  rw [List.length_append] at bound
  obtain ⟨n, rfl⟩ : ∃ n, steps = n + 1 := ⟨steps - 1, by omega⟩
  obtain ⟨plain, open_, _⟩ := ends_plain begins.2
  constructor
  · intro rest closed
    have here : ((ts ++ more ++ [closed.1] ++ rest).headD (.finish 0)).kind = front ts := by
      rw [List.append_assoc, List.append_assoc]
      exact front_append begins.1
    refine takes_peek ?_
    rw [here, if_neg (by simp [plain, open_]), List.append_assoc]
    have last : front (more ++ ([closed.1] ++ rest)) ≠ .keyword .else :=
      declarations_else behind (by rw [List.singleton_append, front_kind closed.2]; simp)
    rw [← List.append_assoc] at last
    apply takes_bind (first n _ (by omega) last)
    intro a same
    refine takes_last _ ((further n (by omega)).1 rest closed) fun list all => takes_pure ?_
    rw [Stmt.renameAll, same, all]
  · intro last finished
    have here : ((ts ++ more ++ [last]).headD (.finish 0)).kind = front ts := by
      rw [List.append_assoc]
      exact front_append begins.1
    refine takes_peek ?_
    rw [here, if_neg (by simp [plain])]
    have final : front [last] ≠ .keyword .else := by
      intro (same : last.kind = _)
      rw [same] at finished
      cases finished
    apply takes_bind (first n _ (by omega) (declarations_else behind final))
    intro a same
    refine takes_last _ ((further n (by omega)).2 last finished) fun list all => takes_pure ?_
    rw [Stmt.renameAll, same, all]

end Statements

theorem derives_read {rule : Rule} {ts : List Token} {tree : rule.Result} (derives : Derives rule ts tree) :
    Read rule ts tree := by
  induction derives with
  | program _ all => exact fun steps last bound finished => (all steps bound).2 last finished
  | declarations_none => exact read_declarations_none
  | declarations_more one others first further => exact read_declarations_more (derives_begins one) others first further
  | declaration_var _ var => exact read_declaration_var var
  | declaration_function func _ function => exact read_declaration_function func function
  | declaration_class keyword name opened closed _ functions =>
      exact read_declaration_class keyword name opened closed functions
  | declaration_statement _ statement => exact statement
  | var_declaration keyword name ended _ initializer => exact read_var_declaration keyword name ended initializer
  | initializer_none => exact fun _ _ _ _ => .inl ⟨rfl, rfl⟩
  | initializer_some equal _ value => exact read_initializer_some equal value
  | functions_none => exact read_functions_none
  | functions_more one _ first further => exact read_functions_more (derives_begins one) first further
  | function name opened closed _ _ names block => exact read_function name opened closed names block
  | parameters_none => exact fun _ _ _ _ => .inl ⟨rfl, rfl⟩
  | parameters_some derives names =>
      exact fun steps rest bound closed => .inr ⟨(derives_begins derives).2, names steps rest bound closed⟩
  | names_last name => exact read_names_last name
  | names_more name comma _ further => exact read_names_more name comma further
  | block opened closed _ all => exact read_block opened closed all
  | statement_if keyword _ conditional => exact read_statement_if keyword conditional
  | statement_while keyword opened closed _ _ test block => exact read_statement_while keyword opened closed test block
  | statement_for keyword opened ended closed _ _ _ _ first test last block =>
      exact read_statement_for keyword opened ended closed first test last block
  | statement_return keyword ended _ result => exact read_statement_return keyword ended result
  | statement_block _ block => exact read_statement_block block
  | statement_expression derives expression => exact read_statement_expression (derives_begins derives) expression
  | conditional opened closed _ _ _ test block others => exact read_conditional opened closed test block others
  | alternative_none => exact read_alternative_none
  | alternative_if other keyword _ conditional => exact read_alternative_if other keyword conditional
  | alternative_block other _ block => exact read_alternative_block other block
  | start_none ended => exact read_start_none ended
  | start_var _ var => exact read_start_var var
  | start_expression derives expression => exact read_start_expression (derives_begins derives) expression
  | expression_statement ended _ expression => exact read_expression_statement ended expression
  | optional_none => exact read_optional_none
  | optional_some derives expression => exact read_optional_some (derives_begins derives) expression
  | assign_name name equal _ right => exact read_assign_name name equal right
  | assign_property dot name equal owner _ call right => exact read_assign_property dot name equal owner call right
  | unassigned _ operation => exact read_unassigned operation
  | operand _ unary => exact read_operand unary
  | operation _ behind first further => exact read_operation behind first further
  | operations_none => exact read_operations_none _ _
  | operations_more operator one _ behind first further => exact read_operations_more operator one behind first further
  | unary_operator operator one _ unary => exact read_unary_operator operator one unary
  | unary_call derives call => exact read_unary_call (derives_begins derives) call
  | call _ _ first further => exact read_call first further
  | suffixes_none => exact read_suffixes_none
  | suffixes_arguments opened closed _ _ first further => exact read_suffixes_arguments opened closed first further
  | suffixes_property dot name _ further => exact read_suffixes_property dot name further
  | arguments_none => exact read_arguments_none
  | arguments_some derives expressions => exact read_arguments_some (derives_begins derives) expressions
  | expressions_last _ expression => exact read_expressions_last expression
  | expressions_more comma _ _ first further => exact read_expressions_more comma first further
  | primary_literal token one => exact read_primary_literal token one
  | primary_this token => exact read_primary_this token
  | primary_name name => exact read_primary_name name
  | primary_grouping opened closed _ expression => exact read_primary_grouping opened closed expression

end Parser

section Whole

variable {first : Nat} {ahead : List Token} {last : Token}

theorem parse_derives (plain : ∀ token ∈ ahead, token.kind.isFinish = false) (finished : last.kind.isFinish = true)
    {program : Program} {next : Nat} (parsed : parse first (ahead ++ [last]) = .ok (program, next)) :
    Derives .program ahead (Stmt.renameAll .blank program) := by
  obtain ⟨c, run, _⟩ := (parse_ok _ _ _ _).mp parsed
  have unread : Cursor.Ended ⟨ahead ++ [last], first⟩ := ⟨last, by simp, finished⟩
  have reads := Parser.program_reads (Parser.stepBound (ahead ++ [last])) ⟨ahead ++ [last], first⟩
  obtain ⟨taken, token, after, tokens, left, inner, derives, _⟩ := ends_ok _ _ _ _ _ _ (reads.run unread) run
  have ended := ends_ok _ _ _ _ _ _ (Parser.program_ends _ _) run
  rw [← left] at tokens
  change ahead ++ [last] = taken ++ c.rest at tokens
  -- The end is what is left: the tokens that were taken have none, and no other is in front of it.
  rcases List.append_eq_append_iff.mp tokens with ⟨more, rfl, rest⟩ | ⟨more, rfl, rest⟩
  · cases more with
    | nil =>
        rw [List.append_nil] at derives
        exact .program derives
    | cons token more =>
        have member : token ∈ [last] := by rw [rest]; simp
        rw [List.mem_singleton] at member
        subst member
        rw [inner token (by simp)] at finished
        cases finished
  · cases more with
    | nil => rw [List.append_nil]; exact .program derives
    | cons token more =>
        rw [Cursor.peek, rest, List.cons_append, List.headD_cons, plain token (by simp)] at ended
        cases ended

variable (first) in
theorem derives_parse (finished : last.kind.isFinish = true) {tree : List Stmt} (derives : Derives .program ahead tree) :
    ∃ program next, parse first (ahead ++ [last]) = .ok (program, next) ∧ Stmt.renameAll .blank program = tree := by
  have bound : 16 * ahead.length + 2 ≤ Parser.stepBound (ahead ++ [last]) := by
    simp only [Parser.stepBound, List.length_append, List.length_cons, List.length_nil]
    omega
  obtain ⟨program, next, run, same⟩ := Parser.derives_read derives _ last bound finished first
  exact ⟨program, next, (parse_ok _ _ _ _).mpr ⟨_, run, rfl⟩, same⟩

end Whole

theorem grammar_recognized (first : Nat) (ahead : List Token) (last : Token)
    (plain : ∀ token ∈ ahead, token.kind.isFinish = false) (finished : last.kind.isFinish = true) :
    ((∃ program next, parse first (ahead ++ [last]) = .ok (program, next)) ↔ ∃ tree, Derives .program ahead tree) ∧
      ∀ program next, parse first (ahead ++ [last]) = .ok (program, next) →
        ∀ tree, Derives .program ahead tree ↔ tree = Stmt.renameAll .blank program := by
  refine ⟨⟨?_, ?_⟩, ?_⟩
  · rintro ⟨program, next, parsed⟩
    exact ⟨_, parse_derives plain finished parsed⟩
  · rintro ⟨tree, derives⟩
    obtain ⟨program, next, parsed, _⟩ := derives_parse first finished derives
    exact ⟨program, next, parsed⟩
  · intro program next parsed tree
    constructor
    · intro derives
      obtain ⟨other, further, again, same⟩ := derives_parse first finished derives
      obtain ⟨rfl, rfl⟩ := Prod.mk.inj (Except.ok.inj (parsed.symm.trans again))
      exact same.symm
    · rintro rfl
      exact parse_derives plain finished parsed

def Grammar.sample : List Token :=
  [⟨.identifier, "a", 1⟩, ⟨.symbol .dot, ".", 1⟩, ⟨.identifier, "b", 1⟩, ⟨.symbol .equal, "=", 1⟩,
    ⟨.identifier, "c", 1⟩, ⟨.symbol .minus, "-", 1⟩, ⟨.identifier, "d", 1⟩, ⟨.symbol .semicolon, ";", 1⟩]

theorem grammar_recognized_sample :
    (∀ token ∈ sample, token.kind.isFinish = false) ∧ (Token.finish 1).kind.isFinish = true ∧
      ((∃ program next, parse 0 (sample ++ [Token.finish 1]) = .ok (program, next)) ↔
        ∃ tree, Derives .program sample tree) ∧
      ∀ program next, parse 0 (sample ++ [Token.finish 1]) = .ok (program, next) →
        ∀ tree, Derives .program sample tree ↔ tree = Stmt.renameAll .blank program := by
  have plain : ∀ token ∈ sample, token.kind.isFinish = false := by simp [sample, TokenKind.isFinish]
  exact ⟨plain, rfl, grammar_recognized 0 sample (Token.finish 1) plain rfl⟩

end TreeWalk
