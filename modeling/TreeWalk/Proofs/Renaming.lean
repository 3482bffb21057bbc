import TreeWalk.Proofs.Identities

set_option autoImplicit false

namespace TreeWalk

structure Renaming where
  id : Nat → Nat
  line : Nat → Nat

namespace Renaming

def ofIds (id : Nat → Nat) : Renaming :=
  ⟨id, fun line => line⟩

def moved (first distance number : Nat) : Nat :=
  if number < first then number else number + distance

theorem moved_below {first distance number : Nat} (below : number < first) : moved first distance number = number :=
  if_pos below

theorem moved_from {first distance number : Nat} (above : first ≤ number) :
    moved first distance number = number + distance :=
  if_neg (Nat.not_lt.mpr above)

theorem moved_next {first distance number : Nat} (above : first ≤ number) :
    moved first distance (number + 1) = moved first distance number + 1 := by
  rw [moved_from above, moved_from (Nat.le_succ_of_le above)]
  omega

theorem moved_injective (first distance : Nat) : Function.Injective (moved first distance) := by
  intro a b same
  unfold moved at same
  split at same <;> split at same <;> omega

end Renaming

def Token.rename (r : Renaming) (token : Token) : Token :=
  { token with line := r.line token.line }

def Name.rename (r : Renaming) (name : Name) : Name :=
  { name with line := r.line name.line }

def Mark.rename (r : Renaming) (mark : Mark) : Mark :=
  ⟨r.id mark.id, r.line mark.line⟩

mutual
def Expr.rename (r : Renaming) : Expr → Expr
  | .literal mark value => .literal (mark.rename r) value
  | .grouping mark inner => .grouping (mark.rename r) (inner.rename r)
  | .unary mark operator right => .unary (mark.rename r) (operator.rename r) (right.rename r)
  | .binary mark left operator right =>
      .binary (mark.rename r) (left.rename r) (operator.rename r) (right.rename r)
  | .logical mark left operator right =>
      .logical (mark.rename r) (left.rename r) (operator.rename r) (right.rename r)
  | .ident mark name => .ident (mark.rename r) (name.rename r)
  | .assign mark name value => .assign (mark.rename r) (name.rename r) (value.rename r)
  | .call mark callee arguments line =>
      .call (mark.rename r) (callee.rename r) (Expr.renameAll r arguments) (r.line line)
  | .get mark object name => .get (mark.rename r) (object.rename r) (name.rename r)
  | .set mark object name value => .set (mark.rename r) (object.rename r) (name.rename r) (value.rename r)
  | .this mark name => .this (mark.rename r) (name.rename r)

def Expr.renameAll (r : Renaming) : List Expr → List Expr
  | [] => []
  | e :: rest => e.rename r :: Expr.renameAll r rest
end

mutual
def Stmt.rename (r : Renaming) : Stmt → Stmt
  | .expression e => .expression (e.rename r)
  | .var name none => .var (name.rename r) none
  | .var name (some e) => .var (name.rename r) (some (e.rename r))
  | .block body => .block (Stmt.renameAll r body)
  | .branch condition body alternative =>
      .branch (condition.rename r) (Stmt.renameAll r body) (alternative.rename r)
  | .while condition body => .while (condition.rename r) (Stmt.renameAll r body)
  | .function routine => .function (routine.rename r)
  | .return line none => .return (r.line line) none
  | .return line (some e) => .return (r.line line) (some (e.rename r))
  | .class name methods => .class (name.rename r) (Routine.renameAll r methods)

def Alternative.rename (r : Renaming) : Alternative → Alternative
  | .none => .none
  | .elseIf condition body alternative =>
      .elseIf (condition.rename r) (Stmt.renameAll r body) (alternative.rename r)
  | .block body => .block (Stmt.renameAll r body)

def Routine.rename (r : Renaming) : Routine → Routine
  | ⟨name, parameters, body⟩ => ⟨name.rename r, parameters.map (Name.rename r), Stmt.renameAll r body⟩

def Stmt.renameAll (r : Renaming) : List Stmt → List Stmt
  | [] => []
  | s :: rest => s.rename r :: Stmt.renameAll r rest

def Routine.renameAll (r : Renaming) : List Routine → List Routine
  | [] => []
  | routine :: rest => routine.rename r :: Routine.renameAll r rest
end

theorem line_rename (r : Renaming) (e : Expr) : (e.rename r).line = r.line e.line := by
  cases e <;> rfl

section Fixed

variable {id : Nat → Nat}

@[simp] theorem line_of_ids (line : Nat) : (Renaming.ofIds id).line line = line :=
  rfl

@[simp] theorem token_rename_ids (token : Token) : token.rename (.ofIds id) = token :=
  rfl

@[simp] theorem name_rename_ids (name : Name) : name.rename (.ofIds id) = name :=
  rfl

theorem mark_rename_fixed (mark : Mark) (fixed : id mark.id = mark.id) : mark.rename (.ofIds id) = mark := by
  simp only [Mark.rename, Renaming.ofIds, fixed]

theorem names_rename_ids (names : List Name) : names.map (Name.rename (.ofIds id)) = names :=
  List.map_id'' (fun _ => rfl) names

mutual
theorem expr_rename_fixed : ∀ e : Expr, (∀ i ∈ e.ids, id i = i) → e.rename (.ofIds id) = e
  | .literal mark _, fixed | .ident mark _, fixed | .this mark _, fixed => by
      simp only [Expr.rename, mark_rename_fixed mark (fixed _ List.mem_cons_self), name_rename_ids]
  | .grouping mark inner, fixed | .get mark inner _, fixed | .unary mark _ inner, fixed
  | .assign mark _ inner, fixed => by
      simp only [Expr.rename, mark_rename_fixed mark (fixed _ List.mem_cons_self), name_rename_ids, token_rename_ids,
        expr_rename_fixed inner fun i member => fixed i (List.mem_cons_of_mem _ member)]
  | .binary mark left _ right, fixed | .logical mark left _ right, fixed | .set mark left _ right, fixed => by
      simp only [Expr.rename, mark_rename_fixed mark (fixed _ List.mem_cons_self), name_rename_ids, token_rename_ids,
        expr_rename_fixed left fun i member => fixed i (List.mem_cons_of_mem _ (List.mem_append_left _ member)),
        expr_rename_fixed right fun i member => fixed i (List.mem_cons_of_mem _ (List.mem_append_right _ member))]
  | .call mark callee arguments _, fixed => by
      simp only [Expr.rename, mark_rename_fixed mark (fixed _ List.mem_cons_self), line_of_ids,
        expr_rename_fixed callee fun i member => fixed i (List.mem_cons_of_mem _ (List.mem_append_left _ member)),
        exprs_rename_fixed arguments fun i member => fixed i (List.mem_cons_of_mem _ (List.mem_append_right _ member))]

theorem exprs_rename_fixed : ∀ es : List Expr, (∀ i ∈ Expr.idsAll es, id i = i) →
    Expr.renameAll (.ofIds id) es = es
  | [], _ => rfl
  | e :: rest, fixed => by
      simp only [Expr.renameAll, expr_rename_fixed e fun i member => fixed i (List.mem_append_left _ member),
        exprs_rename_fixed rest fun i member => fixed i (List.mem_append_right _ member)]
end

mutual
theorem stmt_rename_fixed : ∀ s : Stmt, (∀ i ∈ s.ids, id i = i) → s.rename (.ofIds id) = s
  | .expression e, fixed => congrArg Stmt.expression (expr_rename_fixed e fixed)
  | .var _ none, _ | .return _ none, _ => rfl
  | .var name (some e), fixed => congrArg (fun e => Stmt.var name (some e)) (expr_rename_fixed e fixed)
  | .return line (some e), fixed => congrArg (fun e => Stmt.return line (some e)) (expr_rename_fixed e fixed)
  | .block body, fixed => congrArg Stmt.block (stmts_rename_fixed body fixed)
  | .branch condition body alternative, fixed => by
      simp only [Stmt.rename,
        expr_rename_fixed condition fun i member => fixed i (List.mem_append_left _ (List.mem_append_left _ member)),
        stmts_rename_fixed body fun i member => fixed i (List.mem_append_left _ (List.mem_append_right _ member)),
        alternative_rename_fixed alternative fun i member => fixed i (List.mem_append_right _ member)]
  | .while condition body, fixed => by
      simp only [Stmt.rename, expr_rename_fixed condition fun i member => fixed i (List.mem_append_left _ member),
        stmts_rename_fixed body fun i member => fixed i (List.mem_append_right _ member)]
  | .function routine, fixed => congrArg Stmt.function (routine_rename_fixed routine fixed)
  | .class name methods, fixed => congrArg (Stmt.class name) (routines_rename_fixed methods fixed)

theorem alternative_rename_fixed : ∀ a : Alternative, (∀ i ∈ a.ids, id i = i) → a.rename (.ofIds id) = a
  | .none, _ => rfl
  | .elseIf condition body alternative, fixed => by
      simp only [Alternative.rename,
        expr_rename_fixed condition fun i member => fixed i (List.mem_append_left _ (List.mem_append_left _ member)),
        stmts_rename_fixed body fun i member => fixed i (List.mem_append_left _ (List.mem_append_right _ member)),
        alternative_rename_fixed alternative fun i member => fixed i (List.mem_append_right _ member)]
  | .block body, fixed => congrArg Alternative.block (stmts_rename_fixed body fixed)

theorem routine_rename_fixed : ∀ routine : Routine, (∀ i ∈ routine.ids, id i = i) →
    routine.rename (.ofIds id) = routine
  | ⟨name, parameters, body⟩, fixed => by
      simp only [Routine.rename, name_rename_ids, names_rename_ids, stmts_rename_fixed body fixed]

theorem stmts_rename_fixed : ∀ body : List Stmt, (∀ i ∈ Stmt.idsAll body, id i = i) →
    Stmt.renameAll (.ofIds id) body = body
  | [], _ => rfl
  | s :: rest, fixed => by
      simp only [Stmt.renameAll, stmt_rename_fixed s fun i member => fixed i (List.mem_append_left _ member),
        stmts_rename_fixed rest fun i member => fixed i (List.mem_append_right _ member)]

theorem routines_rename_fixed : ∀ methods : List Routine, (∀ i ∈ Routine.idsAll methods, id i = i) →
    Routine.renameAll (.ofIds id) methods = methods
  | [], _ => rfl
  | method :: rest, fixed => by
      simp only [Routine.renameAll, routine_rename_fixed method fun i member => fixed i (List.mem_append_left _ member),
        routines_rename_fixed rest fun i member => fixed i (List.mem_append_right _ member)]
end

end Fixed

end TreeWalk
