import TreeWalk.Proofs.Atoms

set_option autoImplicit false

namespace TreeWalk

open Grammar Shape

mutual
def Expr.worded : Expr → Expr
  | .literal mark value => value.worded mark
  | .grouping mark inner => .grouping mark inner.worded
  | .unary mark operator right => .unary mark operator right.worded
  | .binary mark left operator right => .binary mark left.worded operator right.worded
  | .logical mark left operator right => .logical mark left.worded operator right.worded
  | .ident mark name => .ident mark name
  | .assign mark name value => .assign mark name value.worded
  | .call mark callee arguments line => .call mark callee.worded (Expr.wordedAll arguments) line
  | .get mark object name => .get mark object.worded name
  | .set mark object name value => .set mark object.worded name value.worded
  | .this mark name => .this mark name

def Expr.wordedAll : List Expr → List Expr
  | [] => []
  | e :: rest => e.worded :: Expr.wordedAll rest
end

mutual
def Stmt.worded : Stmt → Stmt
  | .expression e => .expression e.worded
  | .var name none => .var name none
  | .var name (some e) => .var name (some e.worded)
  | .block body => .block (Stmt.wordedAll body)
  | .branch condition body alternative => .branch condition.worded (Stmt.wordedAll body) alternative.worded
  | .while condition body => .while condition.worded (Stmt.wordedAll body)
  | .function routine => .function routine.worded
  | .return line none => .return line none
  | .return line (some e) => .return line (some e.worded)
  | .class name methods => .class name (Routine.wordedAll methods)

def Alternative.worded : Alternative → Alternative
  | .none => .none
  | .elseIf condition body alternative => .elseIf condition.worded (Stmt.wordedAll body) alternative.worded
  | .block body => .block (Stmt.wordedAll body)

def Routine.worded : Routine → Routine
  | ⟨name, parameters, body⟩ => ⟨name, parameters, Stmt.wordedAll body⟩

def Stmt.wordedAll : List Stmt → List Stmt
  | [] => []
  | s :: rest => s.worded :: Stmt.wordedAll rest

def Routine.wordedAll : List Routine → List Routine
  | [] => []
  | method :: rest => method.worded :: Routine.wordedAll rest
end

section Lists

theorem exprs_worded (es : List Expr) : Expr.wordedAll es = es.map Expr.worded := by
  induction es with
  | nil => rfl
  | cons e rest ih => rw [Expr.wordedAll, ih, List.map_cons]

theorem stmts_worded (body : List Stmt) : Stmt.wordedAll body = body.map Stmt.worded := by
  induction body with
  | nil => rfl
  | cons s rest ih => rw [Stmt.wordedAll, ih, List.map_cons]

theorem routines_worded (methods : List Routine) : Routine.wordedAll methods = methods.map Routine.worded := by
  induction methods with
  | nil => rfl
  | cons method rest ih => rw [Routine.wordedAll, ih, List.map_cons]

end Lists

section Formed

theorem operator_atomic {kinds : List TokenKind} {operator : Token} (fixed : ∀ kind ∈ kinds, spelling kind ≠ "")
    (solid : ∀ text ∈ kinds.map spelling, Solid text) (sign : Operator kinds operator) : Atomic operator.lexeme.toList :=
  solid_atomic (solid _ (operator_lexeme fixed sign))

theorem map_formed {α : Type} {shape : α → Shape} {list : List α} (formed : ∀ a ∈ list, (shape a).Formed) :
    FormedAll (list.map shape) :=
  (formed_all _).mpr (List.forall_mem_map.mpr formed)

theorem expr_formed {e : Expr} (written : e.Written) : e.shape.Formed := by
  induction written with
  | literal clean => exact literal_atomic clean
  | grouping _ ih => exact ⟨solid_atomic (by decide), ih, trivial⟩
  | unary sign _ ih => exact ⟨operator_atomic (by decide) (by decide) sign, ih, trivial⟩
  | binary sign _ _ left right => exact ⟨operator_atomic (by decide) (by decide) sign, left, right, trivial⟩
  | logical sign _ _ left right => exact ⟨operator_atomic (by decide) (by decide) sign, left, right, trivial⟩
  | ident named => exact name_atomic named
  | assign named _ ih => exact ⟨solid_atomic (by decide), name_atomic named, ih, trivial⟩
  | call _ _ called others =>
      refine ⟨solid_atomic (by decide), called, ?_⟩
      rw [exprs_map]
      exact map_formed others
  | get _ named ih => exact ⟨solid_atomic (by decide), ih, name_atomic named, trivial⟩
  | set _ named _ owner result => exact ⟨solid_atomic (by decide), owner, name_atomic named, result, trivial⟩
  | this => exact solid_atomic (by decide)

theorem names_formed {names : List Name} (written : ∀ name ∈ names, name.Written) :
    (Shape.node (names.map Name.shape)).Formed :=
  map_formed fun name member => name_atomic (written name member)

theorem stmts_formed {body : List Stmt} (formed : ∀ s ∈ body, s.shape.Formed) : FormedAll (Stmt.shapes body) := by
  rw [stmts_map]
  exact map_formed formed

theorem routines_formed {methods : List Routine} (formed : ∀ method ∈ methods, method.shape.Formed) :
    FormedAll (Routine.shapes methods) := by
  rw [routines_map]
  exact map_formed formed

mutual
theorem stmt_formed : ∀ {s : Stmt}, s.Written → s.shape.Formed
  | _, .expression value => ⟨solid_atomic (by decide), expr_formed value, trivial⟩
  | .var _ none, .var named _ => ⟨solid_atomic (by decide), name_atomic named, trivial⟩
  | .var _ (some _), .var named value =>
      ⟨solid_atomic (by decide), name_atomic named, expr_formed (value _ rfl), trivial⟩
  | _, .block inside => ⟨solid_atomic (by decide), stmts_formed fun s member => stmt_formed (inside s member)⟩
  | _, .branch test inside other =>
      ⟨solid_atomic (by decide), expr_formed test,
        ⟨solid_atomic (by decide), stmts_formed fun s member => stmt_formed (inside s member)⟩,
        alternative_formed other⟩
  | _, .while test inside =>
      ⟨solid_atomic (by decide), expr_formed test,
        ⟨solid_atomic (by decide), stmts_formed fun s member => stmt_formed (inside s member)⟩, trivial⟩
  | _, .function inside => routine_formed inside
  | .return _ none, .return _ => ⟨solid_atomic (by decide), trivial⟩
  | .return _ (some _), .return result => ⟨solid_atomic (by decide), expr_formed (result _ rfl), trivial⟩
  | _, .class named inside =>
      ⟨solid_atomic (by decide), name_atomic named,
        routines_formed fun method member => routine_formed (inside method member)⟩

theorem alternative_formed : ∀ {a : Alternative}, a.Written → FormedAll a.shapes
  | _, .none => trivial
  | _, .block inside =>
      ⟨⟨solid_atomic (by decide), stmts_formed fun s member => stmt_formed (inside s member)⟩, trivial⟩

theorem routine_formed : ∀ {r : Routine}, r.Written → r.shape.Formed
  | _, .routine named inputs inside =>
      ⟨solid_atomic (by decide), name_atomic named, names_formed inputs,
        ⟨solid_atomic (by decide), stmts_formed fun s member => stmt_formed (inside s member)⟩, trivial⟩
end

end Formed

section Unique

variable {e : Expr} {text : String} {part first second : Shape} {parts others : List Shape}

theorem head_same {head : String} (same : Shape.node (.atom text :: parts) = .node (.atom head :: others)) :
    text = head :=
  Shape.atom.inj (List.cons.inj (Shape.node.inj same)).1

theorem operator_apart {kinds : List TokenKind} {operator : Token} (fixed : ∀ kind ∈ kinds, spelling kind ≠ "")
    (absent : text ∉ kinds.map spelling) (sign : Operator kinds operator)
    (same : Shape.node (.atom operator.lexeme :: parts) = .node (.atom text :: others)) : False :=
  absent (head_same same ▸ operator_lexeme fixed sign)

theorem shape_atom (written : e.Written) (same : e.shape = .atom text) : e.worded = .ofText text := by
  cases written with
  | literal _ =>
      cases same
      exact (literal_of_text _).symm
  | ident named =>
      cases same
      exact (name_of_text named).symm
  | this =>
      cases same
      exact this_of_text.symm
  | _ => cases same

theorem shape_grouping (written : e.Written) (same : e.shape = .node [.atom "group", part]) :
    ∃ inner, e = .grouping unmarked inner ∧ inner.Written ∧ inner.shape = part := by
  cases written with
  | grouping inside =>
      cases same
      exact ⟨_, rfl, inside, rfl⟩
  | unary sign => exact (operator_apart (by decide) (by decide) sign same).elim
  | _ => simp [Expr.shape] at same

theorem shape_unary {operator : Token} (sign : Operator prefixes operator) (written : e.Written)
    (same : e.shape = .node [.atom operator.lexeme, part]) :
    ∃ right, e = .unary unmarked operator right ∧ right.Written ∧ right.shape = part := by
  cases written with
  | grouping => exact (operator_apart (by decide) (by decide) sign same.symm).elim
  | call => exact (operator_apart (by decide) (by decide) sign same.symm).elim
  | unary other operand =>
      cases operator_unique (by decide) (by decide) other sign (head_same same)
      cases same
      exact ⟨_, rfl, operand, rfl⟩
  | _ => simp [Expr.shape] at same

theorem operators_apart {operator other : Token} (here : Operator calculations operator)
    (there : Operator connectives other) (same : operator.lexeme = other.lexeme) : False := by
  have apart : ∀ text ∈ calculations.map spelling, text ∉ connectives.map spelling := by decide
  exact apart _ (operator_lexeme (by decide) here) (same ▸ operator_lexeme (by decide) there)

theorem shape_binary {operator : Token} (sign : Operator calculations operator) (written : e.Written)
    (same : e.shape = .node [.atom operator.lexeme, first, second]) :
    ∃ left right, e = .binary unmarked left operator right ∧ left.Written ∧ right.Written ∧
      left.shape = first ∧ right.shape = second := by
  cases written with
  | binary other left right =>
      cases operator_unique (by decide) (by decide) other sign (head_same same)
      cases same
      exact ⟨_, _, rfl, left, right, rfl, rfl⟩
  | logical other => exact (operators_apart sign other (head_same same).symm).elim
  | assign | call | get => exact (operator_apart (by decide) (by decide) sign same.symm).elim
  | _ => simp [Expr.shape] at same

theorem shape_logical {operator : Token} (sign : Operator connectives operator) (written : e.Written)
    (same : e.shape = .node [.atom operator.lexeme, first, second]) :
    ∃ left right, e = .logical unmarked left operator right ∧ left.Written ∧ right.Written ∧
      left.shape = first ∧ right.shape = second := by
  cases written with
  | binary other => exact (operators_apart other sign (head_same same)).elim
  | logical other left right =>
      cases operator_unique (by decide) (by decide) other sign (head_same same)
      cases same
      exact ⟨_, _, rfl, left, right, rfl, rfl⟩
  | assign | call | get => exact (operator_apart (by decide) (by decide) sign same.symm).elim
  | _ => simp [Expr.shape] at same

theorem name_same {name other : Name} (here : name.Written) (there : other.Written) (same : name.text = other.text) :
    name = other := by
  obtain ⟨_, _⟩ := name
  obtain ⟨_, _⟩ := other
  cases same
  cases here.line
  cases there.line
  rfl

theorem shape_assign {name : Name} (named : name.Written) (written : e.Written)
    (same : e.shape = .node [.atom "=", .atom name.text, part]) :
    ∃ value, e = .assign unmarked name value ∧ value.Written ∧ value.shape = part := by
  cases written with
  | assign other result =>
      simp only [Expr.shape, Shape.node.injEq, List.cons.injEq, Shape.atom.injEq, true_and, and_true] at same
      cases name_same other named same.1
      exact ⟨_, rfl, result, same.2⟩
  | binary sign | logical sign => exact (operator_apart (by decide) (by decide) sign same).elim
  | _ => simp [Expr.shape] at same

theorem shape_call (written : e.Written) (same : e.shape = .node (.atom "call" :: part :: parts)) :
    ∃ callee arguments, e = .call unmarked callee arguments 0 ∧ callee.Written ∧
      (∀ e ∈ arguments, Expr.Written e) ∧ callee.shape = part ∧ Expr.shapes arguments = parts := by
  cases written with
  | call called others =>
      cases same
      exact ⟨_, _, rfl, called, others, rfl, rfl⟩
  | unary sign | binary sign | logical sign => exact (operator_apart (by decide) (by decide) sign same).elim
  | _ => simp [Expr.shape] at same

theorem shape_get {name : Name} (named : name.Written) (written : e.Written)
    (same : e.shape = .node [.atom ".", part, .atom name.text]) :
    ∃ object, e = .get unmarked object name ∧ object.Written ∧ object.shape = part := by
  cases written with
  | get owner other =>
      simp only [Expr.shape, Shape.node.injEq, List.cons.injEq, Shape.atom.injEq, true_and, and_true] at same
      cases name_same other named same.2
      exact ⟨_, rfl, owner, same.1⟩
  | binary sign | logical sign => exact (operator_apart (by decide) (by decide) sign same).elim
  | _ => simp [Expr.shape] at same

theorem shape_set {name : Name} (named : name.Written) (written : e.Written)
    (same : e.shape = .node [.atom "set", first, .atom name.text, second]) :
    ∃ object value, e = .set unmarked object name value ∧ object.Written ∧ value.Written ∧
      object.shape = first ∧ value.shape = second := by
  cases written with
  | set owner other result =>
      simp only [Expr.shape, Shape.node.injEq, List.cons.injEq, Shape.atom.injEq, true_and, and_true] at same
      cases name_same other named same.2.1
      exact ⟨_, _, rfl, owner, result, same.1, same.2.2⟩
  | _ => simp [Expr.shape] at same

theorem map_unique {α β : Type} {shape : α → Shape} {image : α → β} {list list' : List α}
    (unique : ∀ a ∈ list, ∀ b ∈ list', shape a = shape b → image a = image b)
    (same : list.map shape = list'.map shape) : list.map image = list'.map image := by
  induction list generalizing list' with
  | nil =>
      rw [List.map_eq_nil_iff.mp same.symm]
  | cons a rest ih =>
      cases list' with
      | nil => cases same
      | cons b rest' =>
          obtain ⟨head, tail⟩ := List.cons.inj same
          have others := ih (fun c member d other =>
            unique c (List.mem_cons_of_mem _ member) d (List.mem_cons_of_mem _ other)) tail
          rw [List.map_cons, List.map_cons, unique a List.mem_cons_self b List.mem_cons_self head, others]

theorem exprs_unique {es es' : List Expr}
    (unique : ∀ e ∈ es, ∀ {e' : Expr}, e'.Written → e.shape = e'.shape → e.worded = e'.worded)
    (written : ∀ e ∈ es', Expr.Written e) (same : Expr.shapes es = Expr.shapes es') :
    Expr.wordedAll es = Expr.wordedAll es' := by
  rw [exprs_map, exprs_map] at same
  rw [exprs_worded, exprs_worded]
  exact map_unique (fun e member e' other => unique e member (written e' other)) same

theorem expr_unique {e e' : Expr} (written : e.Written) (written' : e'.Written) (same : e.shape = e'.shape) :
    e.worded = e'.worded := by
  induction written generalizing e' with
  | literal clean => exact (shape_atom (.literal clean) rfl).trans (shape_atom written' same.symm).symm
  | ident named => exact (shape_atom (.ident named) rfl).trans (shape_atom written' same.symm).symm
  | this => exact (shape_atom .this rfl).trans (shape_atom written' same.symm).symm
  | grouping _ ih =>
      obtain ⟨inner, rfl, inside, eq⟩ := shape_grouping written' same.symm
      exact congrArg (Expr.grouping unmarked) (ih inside eq.symm)
  | unary sign _ ih =>
      obtain ⟨right, rfl, operand, eq⟩ := shape_unary sign written' same.symm
      exact congrArg (Expr.unary unmarked _) (ih operand eq.symm)
  | binary sign _ _ left right =>
      obtain ⟨_, _, rfl, one, two, eq, eq'⟩ := shape_binary sign written' same.symm
      rw [Expr.worded, Expr.worded, left one eq.symm, right two eq'.symm]
  | logical sign _ _ left right =>
      obtain ⟨_, _, rfl, one, two, eq, eq'⟩ := shape_logical sign written' same.symm
      rw [Expr.worded, Expr.worded, left one eq.symm, right two eq'.symm]
  | assign named _ ih =>
      obtain ⟨value, rfl, result, eq⟩ := shape_assign named written' same.symm
      exact congrArg (Expr.assign unmarked _) (ih result eq.symm)
  | call _ _ called others =>
      obtain ⟨callee, arguments, rfl, one, all, eq, eqs⟩ := shape_call written' same.symm
      rw [Expr.worded, Expr.worded, called one eq.symm, exprs_unique others all eqs.symm]
  | get _ named ih =>
      obtain ⟨object, rfl, owner, eq⟩ := shape_get named written' same.symm
      rw [Expr.worded, Expr.worded, ih owner eq.symm]
  | set _ named _ owner result =>
      obtain ⟨_, _, rfl, one, two, eq, eq'⟩ := shape_set named written' same.symm
      rw [Expr.worded, Expr.worded, owner one eq.symm, result two eq'.symm]

end Unique

def Expr.optional : Option Expr → List Shape
  | none => []
  | some e => [e.shape]

def Stmt.head : Stmt → String
  | .expression _ => "expr"
  | .var _ _ => "var"
  | .block _ => "block"
  | .branch _ _ _ => "if"
  | .while _ _ => "while"
  | .function _ => "func"
  | .return _ _ => "return"
  | .class _ _ => "class"

def Routine.parts : Routine → List Shape
  | ⟨name, parameters, body⟩ =>
      [name.shape, .node (parameters.map Name.shape), .node (.atom "body" :: Stmt.shapes body)]

def Stmt.parts : Stmt → List Shape
  | .expression e => [e.shape]
  | .var name initializer => name.shape :: Expr.optional initializer
  | .block body => Stmt.shapes body
  | .branch condition body alternative =>
      condition.shape :: .node (.atom "then" :: Stmt.shapes body) :: alternative.shapes
  | .while condition body => [condition.shape, .node (.atom "do" :: Stmt.shapes body)]
  | .function routine => routine.parts
  | .return _ value => Expr.optional value
  | .class name methods => name.shape :: Routine.shapes methods

section Statements

theorem stmt_parts (s : Stmt) : s.shape = .node (.atom s.head :: s.parts) := by
  cases s with
  | var _ initializer => cases initializer <;> rfl
  | function routine =>
      obtain ⟨name, parameters, body⟩ := routine
      rfl
  | «return» _ value => cases value <;> rfl
  | _ => rfl

theorem heads_same {s s' : Stmt} (same : s.shape = s'.shape) : s.head = s'.head := by
  rw [stmt_parts, stmt_parts] at same
  exact head_same same

theorem parts_same {s s' : Stmt} (same : s.shape = s'.shape) : s.parts = s'.parts := by
  rw [stmt_parts, stmt_parts] at same
  exact (List.cons.inj (Shape.node.inj same)).2

theorem names_unique {names names' : List Name} (written : ∀ name ∈ names, name.Written)
    (written' : ∀ name ∈ names', name.Written) (same : names.map Name.shape = names'.map Name.shape) : names = names' := by
  have images : names.map id = names'.map id := map_unique (fun name member name' other same =>
    name_same (written name member) (written' name' other) (Shape.atom.inj same)) same
  simpa using images

theorem optional_unique {value value' : Option Expr} (written : ∀ e ∈ value, Expr.Written e)
    (written' : ∀ e ∈ value', Expr.Written e) (same : Expr.optional value = Expr.optional value') :
    value.map Expr.worded = value'.map Expr.worded := by
  cases value <;> cases value'
  · rfl
  · cases same
  · cases same
  · exact congrArg some (expr_unique (written _ rfl) (written' _ rfl) (List.cons.inj same).1)

theorem var_worded (name : Name) (initializer : Option Expr) :
    (Stmt.var name initializer).worded = .var name (initializer.map Expr.worded) := by
  cases initializer <;> rfl

theorem return_worded (line : Nat) (value : Option Expr) :
    (Stmt.return line value).worded = .return line (value.map Expr.worded) := by
  cases value <;> rfl

theorem stmts_unique {body body' : List Stmt}
    (unique : ∀ s ∈ body, ∀ {s' : Stmt}, s'.Written → s.shape = s'.shape → s.worded = s'.worded)
    (written : ∀ s ∈ body', s.Written) (same : Stmt.shapes body = Stmt.shapes body') :
    Stmt.wordedAll body = Stmt.wordedAll body' := by
  rw [stmts_map, stmts_map] at same
  rw [stmts_worded, stmts_worded]
  exact map_unique (fun s member s' other => unique s member (written s' other)) same

theorem routines_unique {methods methods' : List Routine}
    (unique : ∀ r ∈ methods, ∀ {r' : Routine}, r'.Written → r.shape = r'.shape → r.worded = r'.worded)
    (written : ∀ r ∈ methods', r.Written) (same : Routine.shapes methods = Routine.shapes methods') :
    Routine.wordedAll methods = Routine.wordedAll methods' := by
  rw [routines_map, routines_map] at same
  rw [routines_worded, routines_worded]
  exact map_unique (fun r member r' other => unique r member (written r' other)) same

mutual
theorem stmt_unique : ∀ {s s' : Stmt}, s.Written → s'.Written → s.shape = s'.shape → s.worded = s'.worded
  | _, _, .expression value, written', same => by
      have heads := heads_same same
      have parts := parts_same same
      cases written' with
      | expression value' => exact congrArg Stmt.expression (expr_unique value value' (List.cons.inj parts).1)
      | _ => simp [Stmt.head] at heads
  | _, _, .var named value, written', same => by
      have heads := heads_same same
      have parts := parts_same same
      cases written' with
      | var named' value' =>
          obtain ⟨name, initializer⟩ := List.cons.inj parts
          rw [var_worded, var_worded, name_same named named' (Shape.atom.inj name),
            optional_unique value value' initializer]
      | _ => simp [Stmt.head] at heads
  | _, _, .block inside, written', same => by
      have heads := heads_same same
      have parts := parts_same same
      cases written' with
      | block inside' =>
          exact congrArg Stmt.block (stmts_unique (fun s member => stmt_unique (inside s member)) inside' parts)
      | _ => simp [Stmt.head] at heads
  | _, _, .branch test inside other, written', same => by
      have heads := heads_same same
      have parts := parts_same same
      cases written' with
      | branch test' inside' other' =>
          obtain ⟨condition, parts⟩ := List.cons.inj parts
          obtain ⟨body, alternative⟩ := List.cons.inj parts
          have bodies := (List.cons.inj (Shape.node.inj body)).2
          rw [Stmt.worded, Stmt.worded, expr_unique test test' condition,
            stmts_unique (fun s member => stmt_unique (inside s member)) inside' bodies,
            alternative_unique other other' alternative]
      | _ => simp [Stmt.head] at heads
  | _, _, .while test inside, written', same => by
      have heads := heads_same same
      have parts := parts_same same
      cases written' with
      | «while» test' inside' =>
          obtain ⟨condition, parts⟩ := List.cons.inj parts
          have bodies := (List.cons.inj (Shape.node.inj (List.cons.inj parts).1)).2
          rw [Stmt.worded, Stmt.worded, expr_unique test test' condition,
            stmts_unique (fun s member => stmt_unique (inside s member)) inside' bodies]
      | _ => simp [Stmt.head] at heads
  | _, _, .function inside, written', same => by
      have heads := heads_same same
      cases written' with
      | function inside' => exact congrArg Stmt.function (routine_unique inside inside' same)
      | _ => simp [Stmt.head] at heads
  | _, _, .return result, written', same => by
      have heads := heads_same same
      have parts := parts_same same
      cases written' with
      | «return» result' => rw [return_worded, return_worded, optional_unique result result' parts]
      | _ => simp [Stmt.head] at heads
  | _, _, .class named inside, written', same => by
      have heads := heads_same same
      have parts := parts_same same
      cases written' with
      | «class» named' inside' =>
          obtain ⟨name, methods⟩ := List.cons.inj parts
          rw [Stmt.worded, Stmt.worded, name_same named named' (Shape.atom.inj name),
            routines_unique (fun r member => routine_unique (inside r member)) inside' methods]
      | _ => simp [Stmt.head] at heads

theorem alternative_unique : ∀ {a a' : Alternative}, a.Written → a'.Written → a.shapes = a'.shapes →
    a.worded = a'.worded
  | _, _, .none, written', same => by
      cases written' with
      | none => rfl
      | block => cases same
  | _, _, .block inside, written', same => by
      cases written' with
      | none => cases same
      | block inside' =>
          have bodies := (List.cons.inj (Shape.node.inj (List.cons.inj same).1)).2
          exact congrArg Alternative.block
            (stmts_unique (fun s member => stmt_unique (inside s member)) inside' bodies)

theorem routine_unique : ∀ {r r' : Routine}, r.Written → r'.Written → r.shape = r'.shape → r.worded = r'.worded
  | _, _, .routine named inputs inside, .routine named' inputs' inside', same => by
      obtain ⟨name, parts⟩ := List.cons.inj (List.cons.inj (Shape.node.inj same)).2
      obtain ⟨parameters, parts⟩ := List.cons.inj parts
      have bodies := (List.cons.inj (Shape.node.inj (List.cons.inj parts).1)).2
      rw [Routine.worded, Routine.worded, name_same named named' (Shape.atom.inj name),
        names_unique inputs inputs' (Shape.node.inj parameters),
        stmts_unique (fun s member => stmt_unique (inside s member)) inside' bodies]
end

end Statements

def Program.form (program : Program) : Program :=
  Stmt.wordedAll (Stmt.unchainedAll (Stmt.renameAll .blank program))

theorem program_shapes (program : Program) :
    program.print = String.intercalate "\n"
      (printAll (Stmt.shapes (Stmt.unchainedAll (Stmt.renameAll .blank program)))) := by
  rw [Program.print, stmts_print, stmts_unchained_shape, stmts_rename_shape]

def readText (text : String) : Option Program :=
  match tokenize text with
  | .error _ => none
  | .ok tokens =>
      match parse 0 tokens with
      | .error _ => none
      | .ok (program, _) => some program

theorem read_text_parsed {text : String} {program : Program} (read : readText text = some program) :
    program.Parsed := by
  unfold readText at read
  cases scanned : tokenize text with
  | error e => simp [scanned] at read
  | ok tokens =>
      cases parsed : parse 0 tokens with
      | error e => simp [scanned, parsed] at read
      | ok result =>
          obtain ⟨other, next⟩ := result
          obtain rfl : other = program := by simpa [scanned, parsed] using read
          exact ⟨_, 0, next, tokens, scanned, parsed⟩

theorem texts_printed (text text' printed : String) (trait : Program → Bool)
    (with_trait : (readText text).map (fun program => (program.print, trait program)) = some (printed, true))
    (without : (readText text').map (fun program => (program.print, trait program)) = some (printed, false)) :
    ∃ program program' : Program, program.Parsed ∧ program'.Parsed ∧ program.print = printed ∧
      program'.print = printed ∧ trait program = true ∧ trait program' = false := by
  obtain ⟨program, read, same⟩ := Option.map_eq_some_iff.mp with_trait
  obtain ⟨program', read', same'⟩ := Option.map_eq_some_iff.mp without
  obtain ⟨print, holds⟩ := Prod.mk.inj same
  obtain ⟨print', fails⟩ := Prod.mk.inj same'
  exact ⟨program, program', read_text_parsed read, read_text_parsed read', print, print', holds, fails⟩

def Program.chains : Program → Bool
  | .branch _ _ (.elseIf _ _ _) :: _ => true
  | _ => false

def Program.names : Program → Bool
  | .expression (.ident _ _) :: _ => true
  | _ => false

def chainedText : String :=
  "if (a) \x7b \x7d else if (b.c(0.10)) \x7b x = -1; \x7d"

def nestedText : String :=
  "if (a) \x7b \x7d\nelse \x7b if (b.c(0.1)) \x7b x = - 1.0; \x7d \x7d"

def printedText : String :=
  "(if a (then) (else (if (call (. b c) 0.1) (then (expr (= x (- 1.0)))))))"

theorem chain_printed : ∃ program program' : Program, program.Parsed ∧ program'.Parsed ∧
    program.print = printedText ∧ program'.print = printedText ∧
    Program.chains (Stmt.renameAll .blank program) = true ∧ Program.chains (Stmt.renameAll .blank program') = false :=
  texts_printed chainedText nestedText printedText (fun program => Program.chains (Stmt.renameAll .blank program))
    (by decide +kernel) (by decide +kernel)

def hugeText : String :=
  String.ofList (List.replicate 309 '9') ++ ";"

-- Programs are told apart by their printed form, but for identities, lines, chains and numbers
-- beyond the floats.
theorem print_faithful {program program' : Program} (parsed : program.Parsed) (parsed' : program'.Parsed)
    (same : program.print = program'.print) : program.form = program'.form := by
  have written := parsed_written parsed
  have written' := parsed_written parsed'
  rw [program_shapes, program_shapes] at same
  have shapes := lines_unique (stmts_formed fun s member => stmt_formed (written s member))
    (stmts_formed fun s member => stmt_formed (written' s member)) same
  exact stmts_unique (fun s member => stmt_unique (written s member)) written' shapes

theorem print_faithful_nested : ∃ program program' : Program, program.Parsed ∧ program'.Parsed ∧
    program.print = printedText ∧ program.print = program'.print ∧ program.form = program'.form := by
  obtain ⟨program, program', parsed, parsed', print, print', _⟩ := chain_printed
  have same : program.print = program'.print := print.trans print'.symm
  exact ⟨program, program', parsed, parsed', print, same, print_faithful parsed parsed' same⟩

theorem print_not_faithful :
    (¬ ∀ program program' : Program, program.Parsed → program'.Parsed → program.print = program'.print →
      Stmt.renameAll .blank program = Stmt.renameAll .blank program') ∧
    ¬ ∀ program program' : Program, program.Parsed → program'.Parsed → program.print = program'.print →
      Stmt.unchainedAll (Stmt.renameAll .blank program) = Stmt.unchainedAll (Stmt.renameAll .blank program') := by
  constructor
  · intro faithful
    obtain ⟨program, program', parsed, parsed', print, print', chained, nested⟩ := chain_printed
    have same := faithful program program' parsed parsed' (print.trans print'.symm)
    rw [same, nested] at chained
    cases chained
  · intro faithful
    obtain ⟨program, program', parsed, parsed', print, print', name, number⟩ :=
      texts_printed "inf;" hugeText "(expr inf)"
        (fun program => Program.names (Stmt.unchainedAll (Stmt.renameAll .blank program)))
        (by decide +kernel) (by decide +kernel)
    have same := faithful program program' parsed parsed' (print.trans print'.symm)
    simp only [same, number] at name
    cases name

end TreeWalk
