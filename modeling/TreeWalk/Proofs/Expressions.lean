import TreeWalk.Proofs.Taken

set_option autoImplicit false

namespace TreeWalk

open Grammar

namespace Parser

section Expressions

variable {steps : Nat} {ts us more rest : List Token}

theorem operators_apart {one two : Level} {kind : TokenKind} (left : kind ∈ operators one) (right : kind ∈ operators two) :
    one = two := by
  cases one <;> cases two <;> simp only [operators, List.mem_cons, List.not_mem_nil, or_false] at left right <;> grind

theorem operators_plain {level : Level} {kind : TokenKind} (one : kind ∈ operators level) :
    kind.isFinish = false ∧ kind ≠ .symbol .leftParen ∧ kind ≠ .symbol .dot := by
  cases level <;> simp only [operators, List.mem_cons, List.not_mem_nil, or_false] at one <;>
    rcases one with rfl | rfl | rfl | rfl <;> simp [TokenKind.isFinish]

theorem parts_operations {level : Level} {tighter : List Level} {others : List (Token × Expr)}
    (derives : Derives (.operations level tighter) more others) (ladder : level :: tighter <:+ precedence)
    (parts : Parts (level :: tighter) rest) : Parts tighter (more ++ rest) := by
  rcases derives_begins derives with rfl | one
  · exact parts_weaken parts fun _ => List.mem_cons_of_mem level
  · have nodup : (level :: tighter).Nodup := ladder.sublist.nodup (by decide)
    have some : more ≠ [] := by
      rintro rfl
      have plain := (operators_plain one).1
      cases plain
    rw [← front_append some] at one
    obtain ⟨_, paren, dot⟩ := operators_plain one
    refine ⟨paren, dot, fun other member also => ?_⟩
    obtain rfl := operators_apart one also
    exact (List.nodup_cons.mp nodup).1 member

theorem bounded_pos {low : Nat} (bound : low + 1 ≤ steps) : ∃ n, steps = n + 1 ∧ low ≤ n :=
  ⟨steps - 1, by omega, by omega⟩

theorem read_operations_none (level : Level) (tighter : List Level) : Read (.operations level tighter) [] [] := by
  intro steps rest left bound _ parts
  obtain ⟨n, rfl, _⟩ := bounded_pos bound
  refine takes_peek ?_
  rw [if_neg]
  · exact takes_pure rfl
  · rw [holds_operator]
    exact parts.operators level List.mem_cons_self

theorem read_operations_more {level : Level} {tighter : List Level} {right : Expr} {others : List (Token × Expr)}
    (operator : Token) (one : operator.kind ∈ operators level) (behind : Derives (.operations level tighter) more others)
    (first : Read (.operation tighter) ts right) (further : Read (.operations level tighter) more others) :
    Read (.operations level tighter) (operator :: (ts ++ more)) ((operator.rename .blank, right) :: others) := by
  intro steps rest left bound ladder parts
  obtain ⟨n, rfl, enough⟩ := bounded_pos bound
  have few : (level :: tighter).length ≤ 6 := ladder.length_le
  simp only [List.length_cons, List.length_append] at enough few
  refine takes_peek ?_
  rw [List.cons_append, List.headD_cons, if_pos ((holds_operator _ _).mpr one)]
  refine takes_advance (operators_plain one).1 ?_
  apply takes_bind (first n (more ++ rest) (by omega) ((List.suffix_cons level tighter).trans ladder)
    (parts_operations behind ladder parts))
  intro a same
  apply takes_mark
  intro given
  obtain run := further n rest (level.node given left operator a) (by omega) ladder parts
  rw [node_blank, same] at run
  exact run

theorem read_operand {e : Expr} (unary : Read .unary ts e) : Read (.operation []) ts e := by
  intro steps rest bound _ parts
  obtain ⟨n, rfl, enough⟩ := bounded_pos bound
  exact unary n rest (by simpa using enough) parts

theorem read_operation {level : Level} {tighter : List Level} {left : Expr} {others : List (Token × Expr)}
    (behind : Derives (.operations level tighter) more others) (first : Read (.operation tighter) ts left)
    (further : Read (.operations level tighter) more others) :
    Read (.operation (level :: tighter)) (ts ++ more) (others.foldl (joined level) left) := by
  intro steps rest bound ladder parts
  rw [List.length_cons, ← Nat.add_assoc, Nat.add_right_comm _ 1] at bound
  obtain ⟨n, rfl, enough⟩ := bounded_pos bound
  rw [List.length_append] at enough
  apply takes_bind (first n (more ++ rest) (by omega) ((List.suffix_cons level tighter).trans ladder)
    (parts_operations behind ladder parts))
  intro a same
  have run := further n rest a (by omega) ladder parts
  rwa [same] at run

theorem read_climb {e : Expr} (unary : Read .unary ts e) : ∀ levels, Read (.operation levels) ts e
  | [] => read_operand unary
  | level :: tighter => by
      have whole := read_operation .operations_none (read_climb unary tighter) (read_operations_none level tighter)
      rwa [List.append_nil] at whole

theorem read_unary_operator {right : Expr} (operator : Token) (one : operator.kind ∈ prefixes)
    (unary : Read .unary ts right) : Read .unary (operator :: ts) (.unary unmarked (operator.rename .blank) right) := by
  intro steps rest bound parts
  obtain ⟨n, rfl, enough⟩ := bounded_pos bound
  rw [List.length_cons] at enough
  have either : operator.kind.isSymbol .bang = true ∨ operator.kind.isSymbol .minus = true := by
    simpa [prefixes, symbol_kind] using one
  refine takes_peek ?_
  rw [List.cons_append, List.headD_cons, if_pos (by simpa using either)]
  refine takes_advance (by rcases either with kind | kind <;> rw [symbol_kind.mp kind] <;> rfl) ?_
  apply takes_last _ (unary n rest (by omega) parts)
  intro a same
  exact takes_mark _ fun given => takes_pure (by rw [Expr.rename, same]; rfl)

theorem read_suffixes_none : Read .suffixes [] [] :=
  fun steps _ callee id _ => ⟨steps, callee, id, by simp, rfl, rfl⟩

theorem read_suffixes_arguments {list : List Expr} {others : List Suffix} (opened : SymbolToken .leftParen)
    (closed : SymbolToken .rightParen) (first : Read .arguments ts list) (further : Read .suffixes more others) :
    Read .suffixes (opened.1 :: (ts ++ closed.1 :: more)) (.arguments list :: others) := by
  intro steps rest callee id bound
  obtain ⟨n, rfl, enough⟩ := bounded_pos bound
  simp only [List.length_cons, List.length_append] at enough
  obtain ⟨⟨arguments, line⟩, next, read, same⟩ := first n (more ++ rest) closed (by omega) id
  obtain ⟨left, a, last, kept, whole, run⟩ :=
    further n rest (.call ⟨next, callee.line⟩ callee arguments line) (next + 1) (by omega)
  refine ⟨left, a, last, by simp only [List.length_cons, List.length_append]; omega, ?_, ?_⟩
  · rw [whole, Expr.rename, same]
    rfl
  · rw [suffixes, List.cons_append, bind_ok _ (accepts_symbol opened _ id), if_pos rfl, List.append_assoc,
      List.cons_append, ← List.singleton_append, ← List.append_assoc, bind_ok _ read]
    exact run

theorem read_suffixes_property {others : List Suffix} (dot : SymbolToken .dot) (name : NameToken)
    (further : Read .suffixes more others) :
    Read .suffixes (dot.1 :: name.1 :: more) (.property name.name :: others) := by
  intro steps rest callee id bound
  obtain ⟨n, rfl, enough⟩ := bounded_pos bound
  simp only [List.length_cons] at enough
  obtain ⟨property, next, read, same⟩ := (expects_name name .propertyName : Takes _ _ (more ++ rest) _) id
  obtain ⟨left, a, last, kept, whole, run⟩ :=
    further n rest (.get ⟨next, callee.line⟩ callee property) (next + 1) (by omega)
  refine ⟨left, a, last, by simp only [List.length_cons]; omega, ?_, ?_⟩
  · rw [whole, Expr.rename, same]
    rfl
  · have other : front (dot.1 :: name.1 :: more ++ rest) ≠ .symbol .leftParen := by
      show dot.1.kind ≠ _
      simp [dot.2]
    rw [suffixes, bind_ok _ (rejects_symbol other id), if_neg Bool.false_ne_true, List.cons_append,
      bind_ok _ (accepts_symbol dot _ id), if_pos rfl, List.cons_append, ← List.singleton_append, bind_ok _ read]
    exact run

theorem read_call {e : Expr} {list : List Suffix} (first : Read .primary ts e) (further : Read .suffixes more list) :
    Read .call (ts ++ more) (list.foldl suffixed e) := by
  intro steps rest id bound
  rw [List.length_append] at bound
  obtain ⟨callee, next, read, same⟩ := first steps (more ++ rest) (by omega) id
  obtain ⟨left, a, last, kept, whole, run⟩ := further steps rest callee next (by omega)
  refine ⟨left, a, last, by rw [List.length_append]; omega, by rw [whole, same], ?_⟩
  rw [List.append_assoc, bind_ok _ read, run]

theorem read_property {object : Expr} (dot : SymbolToken .dot) (name : NameToken) (call : Read .call ts object) :
    Read .call (ts ++ [dot.1, name.1]) (.get unmarked object name.name) := by
  intro steps rest id bound
  simp only [List.length_append, List.length_cons, List.length_nil] at bound
  obtain ⟨left, a, next, kept, same, run⟩ := call steps ([dot.1, name.1] ++ rest) id (by omega)
  obtain ⟨last, b, final, also, whole, behind⟩ :=
    read_suffixes_property dot name read_suffixes_none left rest a next (by simp only [List.length_cons, List.length_nil]; omega)
  refine ⟨last, b, final, by simp only [List.length_append, List.length_cons, List.length_nil] at also ⊢; omega, ?_, ?_⟩
  · rw [whole, same]
    rfl
  · rw [List.append_assoc, run, behind]

theorem read_unary_call {e : Expr} (begins : Begins .call ts) (call : Read .call ts e) : Read .unary ts e := by
  intro steps rest bound parts id
  obtain ⟨n, rfl, enough⟩ := bounded_pos bound
  obtain ⟨some, _, plain⟩ := begins
  obtain ⟨left, a, next, kept, same, run⟩ := call n rest id enough
  obtain ⟨last, rfl⟩ : ∃ last, left = last + 1 := ⟨left - 1, by omega⟩
  refine ⟨a, next, ?_, same⟩
  have stops : suffixes (last + 1) a ⟨rest, next⟩ = .ok a ⟨rest, next⟩ := by
    rw [suffixes, bind_ok _ (rejects_symbol parts.paren next), if_neg Bool.false_ne_true,
      bind_ok _ (rejects_symbol parts.dot next), if_neg Bool.false_ne_true]
    rfl
  have here : (Cursor.peek ⟨ts ++ rest, id⟩).kind = front ts := front_append some
  rw [← stops, ← run, unary]
  show (if ((Cursor.peek ⟨ts ++ rest, id⟩).kind.isSymbol .bang ||
    (Cursor.peek ⟨ts ++ rest, id⟩).kind.isSymbol .minus) = true then _ else _ : Parser Expr) _ = _
  rw [if_neg]
  simpa [here, symbol_kind, prefixes] using plain

theorem read_atom {e : Expr} (token : Token)
    (single : ∀ mark, ∃ a, atom? token mark = some a ∧ token.kind.isFinish = false ∧ a.rename .blank = e)
    (other : token.kind ≠ .symbol .leftParen) : Read .primary [token] e := by
  intro steps rest bound
  obtain ⟨n, rfl, _⟩ := bounded_pos bound
  refine takes_peek (takes_unless other ?_)
  intro id
  obtain ⟨a, one, more, same⟩ := single ⟨id, token.line⟩
  have read : Takes (do advance; let _ ← mark token.line; return a) [token] rest fun a => a.rename .blank = e :=
    takes_advance more (takes_mark token.line fun _ => takes_pure same)
  have here : atom token ⟨token :: rest, id⟩ = (do advance; let _ ← mark token.line; return a : Parser Expr) ⟨token :: rest, id⟩ := by
    rw [atom, bind_ok _ (get_run _), one]
  exact here ▸ read id

theorem read_primary_literal {value : Literal} (token : Token) (one : literal? token.kind = some value) :
    Read .primary [token] (.literal unmarked value) := by
  obtain ⟨kind, lexeme, line⟩ := token
  cases kind with
  | keyword keyword =>
      cases keyword <;> cases one <;> exact read_atom _ (fun mark => ⟨_, rfl, rfl, rfl⟩) (by simp)
  | number | string =>
      cases one
      exact read_atom _ (fun mark => ⟨_, rfl, rfl, rfl⟩) (by simp)
  | _ => cases one

theorem read_primary_this (token : KeywordToken .this) : Read .primary [token.1] (.this unmarked ⟨token.1.lexeme, 0⟩) := by
  obtain ⟨⟨kind, lexeme, line⟩, is⟩ := token
  obtain rfl : kind = .keyword .this := is
  exact read_atom _ (fun mark => ⟨_, rfl, rfl, rfl⟩) (by simp)

theorem read_primary_name (token : NameToken) : Read .primary [token.1] (.ident unmarked token.name) := by
  obtain ⟨⟨kind, lexeme, line⟩, is⟩ := token
  obtain rfl : kind = .identifier := is
  exact read_atom _ (fun mark => ⟨_, rfl, rfl, rfl⟩) (by simp)

theorem read_primary_grouping {inner : Expr} (opened : SymbolToken .leftParen) (closed : SymbolToken .rightParen)
    (expression : Read .expression ts inner) :
    Read .primary (opened.1 :: (ts ++ [closed.1])) (.grouping unmarked inner) := by
  intro steps rest bound
  obtain ⟨n, rfl, enough⟩ := bounded_pos bound
  simp only [List.length_cons, List.length_append, List.length_nil] at enough
  refine takes_peek ?_
  rw [List.cons_append, List.headD_cons, if_pos (symbol_kind.mpr opened.2)]
  refine takes_advance (by rw [opened.2]; rfl) ?_
  apply takes_bind (expression n ([closed.1] ++ rest) (by omega) (by simp [front, closed.2, closers]))
  intro a same
  exact takes_symbol closed _ fun _ => takes_mark _ fun given => takes_pure (by rw [Expr.rename, same]; rfl)

theorem read_unassigned {e : Expr} (operation : Read (.operation precedence) ts e) : Read .expression ts e := by
  intro steps rest bound closed
  obtain ⟨n, rfl, enough⟩ := bounded_pos bound
  have length : precedence.length = 6 := rfl
  have parts := parts_closed closed
  apply takes_last _ (operation n rest (by omega) (List.suffix_refl _) parts)
  intro a same
  refine takes_peek (takes_unaccepted ?_ (takes_pure same))
  intro equal
  rw [List.nil_append] at equal
  simp [equal, closers] at closed

theorem read_assignment {target : Expr} {value assigned : Expr} (equal : SymbolToken .equal)
    (left : Read (.operation precedence) us target) (right : Read .expression ts value)
    (form : ∀ a b equals, a.rename .blank = target → b.rename .blank = value →
      Takes (assignTo a equals b) [] rest fun e => e.rename .blank = assigned)
    (bound : 16 * (us ++ equal.1 :: ts).length + 10 ≤ steps) (closed : front rest ∈ closers) :
    Takes (expression steps) (us ++ equal.1 :: ts) rest fun e => e.rename .blank = assigned := by
  obtain ⟨n, rfl, enough⟩ := bounded_pos bound
  simp only [List.length_append, List.length_cons] at enough
  have length : precedence.length = 6 := rfl
  have parts : Parts precedence (equal.1 :: ts ++ rest) := parts_equal (by exact equal.2) _
  apply takes_bind (left n (equal.1 :: ts ++ rest) (by omega) (List.suffix_refl _) parts)
  intro a target
  refine takes_peek (takes_accepted equal ?_)
  apply takes_last _ (right n rest (by omega) closed)
  exact fun b value => form a b _ target value

theorem read_assign_name {value : Expr} (name : NameToken) (equal : SymbolToken .equal) (right : Read .expression ts value) :
    Read .expression (name.1 :: equal.1 :: ts) (.assign unmarked name.name value) := by
  intro steps rest bound closed
  have call := read_call (read_primary_name name) read_suffixes_none
  have begins := derives_begins (.call (.primary_name name) .suffixes_none)
  show Takes _ ([name.1] ++ equal.1 :: ts) rest _
  refine read_assignment equal (read_climb (read_unary_call begins call) _) right ?_ bound closed
  intro a b equals target value
  cases a with
  | ident mark other =>
      have same := (Expr.ident.inj target).2
      exact takes_mark _ fun given => takes_pure (by rw [Expr.rename, value, same]; rfl)
  | _ => cases target

theorem read_assign_property {os : List Token} {object value : Expr} (dot : SymbolToken .dot) (name : NameToken)
    (equal : SymbolToken .equal) (owner : Derives .call os object) (call : Read .call os object)
    (right : Read .expression ts value) :
    Read .expression (os ++ dot.1 :: name.1 :: equal.1 :: ts) (.set unmarked object name.name value) := by
  intro steps rest bound closed
  have tokens : os ++ dot.1 :: name.1 :: equal.1 :: ts = (os ++ [dot.1, name.1]) ++ equal.1 :: ts := by simp
  have begins : Begins .call (os ++ [dot.1, name.1]) := by
    obtain ⟨some, first⟩ := derives_begins owner
    exact ⟨List.append_ne_nil_of_left_ne_nil some _, front_append some ▸ first⟩
  rw [tokens] at bound ⊢
  refine read_assignment equal (read_climb (read_unary_call begins (read_property dot name call)) _) right ?_ bound closed
  intro a b equals target value
  cases a with
  | get mark inner other =>
      obtain ⟨_, same, also⟩ := Expr.get.inj target
      exact takes_mark _ fun given => takes_pure (by rw [Expr.rename, value, same, also]; rfl)
  | _ => cases target

theorem front_kind {token : Token} {kind : TokenKind} (is : token.kind = kind) (ts : List Token) :
    front (token :: ts) = kind :=
  is

theorem read_expressions_last {e : Expr} (expression : Read .expression ts e) : Read .expressions ts [e] := by
  intro steps rest bound closed
  obtain ⟨n, rfl, enough⟩ := bounded_pos bound
  apply takes_last _ (expression n rest enough (by simp [closed, closers]))
  intro a same
  exact takes_unaccepted (by rw [List.nil_append, closed]; simp) (takes_pure (by rw [← same]; rfl))

theorem read_expressions_more {e : Expr} {others : List Expr} (comma : SymbolToken .comma)
    (first : Read .expression ts e) (further : Read .expressions more others) :
    Read .expressions (ts ++ comma.1 :: more) (e :: others) := by
  intro steps rest bound closed
  obtain ⟨n, rfl, enough⟩ := bounded_pos bound
  simp only [List.length_append, List.length_cons] at enough
  have behind : front (comma.1 :: more ++ rest) ∈ closers := by simp [front_kind comma.2, closers]
  apply takes_bind (first n _ (by omega) behind)
  intro a same
  refine takes_accepted comma (takes_last _ (further n rest (by omega) closed) fun list also => takes_pure ?_)
  rw [Expr.renameAll, same, also]

theorem read_arguments_none : Read .arguments [] [] := by
  intro steps rest closed bound
  obtain ⟨n, rfl, _⟩ := bounded_pos bound
  exact takes_peek (takes_when closed.2 (takes_symbol closed _ fun _ => takes_pure rfl))

theorem read_arguments_some {list : List Expr} (begins : Begins .expressions ts) (expressions : Read .expressions ts list) :
    Read .arguments ts list := by
  intro steps rest closed bound
  obtain ⟨n, rfl, enough⟩ := bounded_pos bound
  have other : front (ts ++ [closed.1] ++ rest) ≠ .symbol .rightParen := by
    rw [List.append_assoc, front_append begins.1]
    intro same
    have first := begins.2
    rw [same] at first
    cases first
  refine takes_peek (takes_unless other ?_)
  apply takes_bind (expressions n ([closed.1] ++ rest) enough (front_kind closed.2 _))
  exact fun a same => takes_symbol closed _ fun _ => takes_pure same

end Expressions

end Parser

end TreeWalk
