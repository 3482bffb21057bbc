import TreeWalk.Proofs.Shapes
import TreeWalk.Proofs.Unchained

set_option autoImplicit false

namespace TreeWalk

mutual
def Expr.shape : Expr → Shape
  | .literal _ value => .atom value.print
  | .grouping _ inner => .node [.atom "group", inner.shape]
  | .unary _ operator right => .node [.atom operator.lexeme, right.shape]
  | .binary _ left operator right | .logical _ left operator right =>
      .node [.atom operator.lexeme, left.shape, right.shape]
  | .ident _ name => .atom name.text
  | .assign _ name value => .node [.atom "=", .atom name.text, value.shape]
  | .call _ callee arguments _ => .node (.atom "call" :: callee.shape :: Expr.shapes arguments)
  | .get _ object name => .node [.atom ".", object.shape, .atom name.text]
  | .set _ object name value => .node [.atom "set", object.shape, .atom name.text, value.shape]
  | .this _ _ => .atom "this"

def Expr.shapes : List Expr → List Shape
  | [] => []
  | e :: rest => e.shape :: Expr.shapes rest
end

def Name.shape (name : Name) : Shape :=
  .atom name.text

mutual
def Stmt.shape : Stmt → Shape
  | .expression e => .node [.atom "expr", e.shape]
  | .var name none => .node [.atom "var", name.shape]
  | .var name (some e) => .node [.atom "var", name.shape, e.shape]
  | .block body => .node (.atom "block" :: Stmt.shapes body)
  | .branch condition body alternative =>
      .node (.atom "if" :: condition.shape :: .node (.atom "then" :: Stmt.shapes body) :: alternative.shapes)
  | .while condition body => .node [.atom "while", condition.shape, .node (.atom "do" :: Stmt.shapes body)]
  | .function routine => routine.shape
  | .return _ none => .node [.atom "return"]
  | .return _ (some e) => .node [.atom "return", e.shape]
  | .class name methods => .node (.atom "class" :: name.shape :: Routine.shapes methods)

def Alternative.shapes : Alternative → List Shape
  | .none => []
  | .elseIf condition body alternative =>
      [.node [.atom "else",
        .node (.atom "if" :: condition.shape :: .node (.atom "then" :: Stmt.shapes body) :: alternative.shapes)]]
  | .block body => [.node (.atom "else" :: Stmt.shapes body)]

def Routine.shape : Routine → Shape
  | ⟨name, parameters, body⟩ =>
      .node [.atom "func", name.shape, .node (parameters.map Name.shape), .node (.atom "body" :: Stmt.shapes body)]

def Stmt.shapes : List Stmt → List Shape
  | [] => []
  | s :: rest => s.shape :: Stmt.shapes rest

def Routine.shapes : List Routine → List Shape
  | [] => []
  | routine :: rest => routine.shape :: Routine.shapes rest
end

section Lists

theorem exprs_map (es : List Expr) : Expr.shapes es = es.map Expr.shape := by
  induction es with
  | nil => rfl
  | cons e rest ih => rw [Expr.shapes, ih, List.map_cons]

theorem stmts_map (body : List Stmt) : Stmt.shapes body = body.map Stmt.shape := by
  induction body with
  | nil => rfl
  | cons s rest ih => rw [Stmt.shapes, ih, List.map_cons]

theorem routines_map (methods : List Routine) : Routine.shapes methods = methods.map Routine.shape := by
  induction methods with
  | nil => rfl
  | cons method rest ih => rw [Routine.shapes, ih, List.map_cons]

end Lists

section Print

open Shape

mutual
theorem expr_print : ∀ e : Expr, e.print = e.shape.print
  | .literal _ _ | .ident _ _ | .this _ _ => rfl
  | .grouping _ inner => by simp only [Expr.print, Expr.shape, Shape.print, printAll, expr_print inner]
  | .unary _ _ right => by simp only [Expr.print, Expr.shape, Shape.print, printAll, expr_print right]
  | .binary _ left _ right | .logical _ left _ right => by
      simp only [Expr.print, Expr.shape, Shape.print, printAll, expr_print left, expr_print right]
  | .assign _ _ value => by simp only [Expr.print, Expr.shape, Shape.print, printAll, expr_print value]
  | .call _ callee arguments _ => by
      simp only [Expr.print, Expr.shape, Shape.print, printAll, expr_print callee, exprs_print arguments]
  | .get _ object _ => by simp only [Expr.print, Expr.shape, Shape.print, printAll, expr_print object]
  | .set _ object _ value => by
      simp only [Expr.print, Expr.shape, Shape.print, printAll, expr_print object, expr_print value]

theorem exprs_print : ∀ es : List Expr, Expr.printAll es = printAll (Expr.shapes es)
  | [] => rfl
  | e :: rest => by simp only [Expr.printAll, Expr.shapes, printAll, expr_print e, exprs_print rest]
end

theorem names_print (names : List Name) : names.map Name.text = printAll (names.map Name.shape) := by
  induction names with
  | nil => rfl
  | cons name rest ih => simp only [List.map_cons, printAll, ih, Name.shape, Shape.print]

mutual
theorem stmt_print : ∀ s : Stmt, s.print = s.shape.print
  | .expression e => by simp only [Stmt.print, Stmt.shape, Shape.print, printAll, expr_print e]
  | .var _ none => rfl
  | .var _ (some e) => by simp only [Stmt.print, Stmt.shape, Shape.print, printAll, Name.shape, expr_print e]
  | .block body => by simp only [Stmt.print, Stmt.shape, Shape.print, printAll, stmts_print body]
  | .branch condition body alternative => by
      simp only [Stmt.print, Stmt.shape, Shape.print, printAll, expr_print condition, stmts_print body,
        alternative_print alternative]
  | .while condition body => by
      simp only [Stmt.print, Stmt.shape, Shape.print, printAll, expr_print condition, stmts_print body]
  | .function routine => routine_print routine
  | .return _ none => rfl
  | .return _ (some e) => by simp only [Stmt.print, Stmt.shape, Shape.print, printAll, expr_print e]
  | .class _ methods => by simp only [Stmt.print, Stmt.shape, Shape.print, printAll, Name.shape, routines_print methods]

theorem alternative_print : ∀ a : Alternative, a.print = printAll a.shapes
  | .none => rfl
  | .elseIf condition body alternative => by
      simp only [Alternative.print, Alternative.shapes, Shape.print, printAll, expr_print condition, stmts_print body,
        alternative_print alternative]
  | .block body => by simp only [Alternative.print, Alternative.shapes, Shape.print, printAll, stmts_print body]

theorem routine_print : ∀ r : Routine, r.print = r.shape.print
  | ⟨_, parameters, body⟩ => by
      simp only [Routine.print, Routine.shape, Shape.print, printAll, Name.shape, names_print parameters, stmts_print body]

theorem stmts_print : ∀ body : List Stmt, Stmt.printAll body = printAll (Stmt.shapes body)
  | [] => rfl
  | s :: rest => by simp only [Stmt.printAll, Stmt.shapes, printAll, stmt_print s, stmts_print rest]

theorem routines_print : ∀ methods : List Routine, Routine.printAll methods = printAll (Routine.shapes methods)
  | [] => rfl
  | method :: rest => by simp only [Routine.printAll, Routine.shapes, printAll, routine_print method, routines_print rest]
end

end Print

section Names

variable (r : Renaming)

mutual
theorem expr_rename_shape : ∀ e : Expr, (e.rename r).shape = e.shape
  | .literal _ _ | .ident _ _ | .this _ _ => rfl
  | .grouping _ inner => by simp only [Expr.rename, Expr.shape, expr_rename_shape inner]
  | .unary _ _ right => by simp only [Expr.rename, Expr.shape, Token.rename, expr_rename_shape right]
  | .binary _ left _ right | .logical _ left _ right => by
      simp only [Expr.rename, Expr.shape, Token.rename, expr_rename_shape left, expr_rename_shape right]
  | .assign _ _ value => by simp only [Expr.rename, Expr.shape, Name.rename, expr_rename_shape value]
  | .call _ callee arguments _ => by
      simp only [Expr.rename, Expr.shape, expr_rename_shape callee, exprs_rename_shape arguments]
  | .get _ object _ => by simp only [Expr.rename, Expr.shape, Name.rename, expr_rename_shape object]
  | .set _ object _ value => by
      simp only [Expr.rename, Expr.shape, Name.rename, expr_rename_shape object, expr_rename_shape value]

theorem exprs_rename_shape : ∀ es : List Expr, Expr.shapes (Expr.renameAll r es) = Expr.shapes es
  | [] => rfl
  | e :: rest => by simp only [Expr.renameAll, Expr.shapes, expr_rename_shape e, exprs_rename_shape rest]
end

theorem name_rename_shape (name : Name) : (name.rename r).shape = name.shape :=
  rfl

mutual
theorem stmt_rename_shape : ∀ s : Stmt, (s.rename r).shape = s.shape
  | .expression e => by simp only [Stmt.rename, Stmt.shape, expr_rename_shape]
  | .var _ none | .return _ none => rfl
  | .var _ (some e) => by simp only [Stmt.rename, Stmt.shape, name_rename_shape, expr_rename_shape]
  | .block body => by simp only [Stmt.rename, Stmt.shape, stmts_rename_shape body]
  | .branch condition body alternative => by
      simp only [Stmt.rename, Stmt.shape, expr_rename_shape, stmts_rename_shape body, alternative_rename_shape alternative]
  | .while condition body => by simp only [Stmt.rename, Stmt.shape, expr_rename_shape, stmts_rename_shape body]
  | .function routine => routine_rename_shape routine
  | .return _ (some e) => by simp only [Stmt.rename, Stmt.shape, expr_rename_shape]
  | .class _ methods => by simp only [Stmt.rename, Stmt.shape, name_rename_shape, routines_rename_shape methods]

theorem alternative_rename_shape : ∀ a : Alternative, (a.rename r).shapes = a.shapes
  | .none => rfl
  | .elseIf condition body alternative => by
      simp only [Alternative.rename, Alternative.shapes, expr_rename_shape, stmts_rename_shape body,
        alternative_rename_shape alternative]
  | .block body => by simp only [Alternative.rename, Alternative.shapes, stmts_rename_shape body]

theorem routine_rename_shape : ∀ routine : Routine, (routine.rename r).shape = routine.shape
  | ⟨_, parameters, body⟩ => by
      simp only [Routine.rename, Routine.shape, name_rename_shape, List.map_map, stmts_rename_shape body]
      rfl

theorem stmts_rename_shape : ∀ body : List Stmt, Stmt.shapes (Stmt.renameAll r body) = Stmt.shapes body
  | [] => rfl
  | s :: rest => by simp only [Stmt.renameAll, Stmt.shapes, stmt_rename_shape s, stmts_rename_shape rest]

theorem routines_rename_shape : ∀ methods : List Routine,
    Routine.shapes (Routine.renameAll r methods) = Routine.shapes methods
  | [] => rfl
  | method :: rest => by
      simp only [Routine.renameAll, Routine.shapes, routine_rename_shape method, routines_rename_shape rest]
end

end Names

section Chains

mutual
theorem stmt_unchained_shape : ∀ s : Stmt, s.unchained.shape = s.shape
  | .expression _ | .var _ _ | .return _ _ => rfl
  | .block body => by simp only [Stmt.unchained, Stmt.shape, stmts_unchained_shape body]
  | .branch condition body alternative => by
      simp only [Stmt.unchained, Stmt.shape, stmts_unchained_shape body, alternative_unchained_shape alternative]
  | .while condition body => by simp only [Stmt.unchained, Stmt.shape, stmts_unchained_shape body]
  | .function routine => routine_unchained_shape routine
  | .class _ methods => by simp only [Stmt.unchained, Stmt.shape, routines_unchained_shape methods]

theorem alternative_unchained_shape : ∀ a : Alternative, a.unchained.shapes = a.shapes
  | .none => rfl
  | .elseIf condition body alternative => by
      simp only [Alternative.unchained, Alternative.shapes, Stmt.shapes, Stmt.shape, stmts_unchained_shape body,
        alternative_unchained_shape alternative]
  | .block body => by simp only [Alternative.unchained, Alternative.shapes, stmts_unchained_shape body]

theorem routine_unchained_shape : ∀ routine : Routine, routine.unchained.shape = routine.shape
  | ⟨_, parameters, body⟩ => by simp only [Routine.unchained, Routine.shape, stmts_unchained_shape body]

theorem stmts_unchained_shape : ∀ body : List Stmt, Stmt.shapes (Stmt.unchainedAll body) = Stmt.shapes body
  | [] => rfl
  | s :: rest => by simp only [Stmt.unchainedAll, Stmt.shapes, stmt_unchained_shape s, stmts_unchained_shape rest]

theorem routines_unchained_shape : ∀ methods : List Routine,
    Routine.shapes (Routine.unchainedAll methods) = Routine.shapes methods
  | [] => rfl
  | method :: rest => by
      simp only [Routine.unchainedAll, Routine.shapes, routine_unchained_shape method, routines_unchained_shape rest]
end

end Chains

end TreeWalk
