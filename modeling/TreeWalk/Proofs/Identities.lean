import TreeWalk.Syntax.References

set_option autoImplicit false

namespace TreeWalk

mutual
def Expr.ids : Expr → List Nat
  | .literal mark _ | .ident mark _ | .this mark _ => [mark.id]
  | .grouping mark inner => mark.id :: inner.ids
  | .unary mark _ right => mark.id :: right.ids
  | .binary mark left _ right | .logical mark left _ right => mark.id :: (left.ids ++ right.ids)
  | .assign mark _ value => mark.id :: value.ids
  | .call mark callee arguments _ => mark.id :: (callee.ids ++ Expr.idsAll arguments)
  | .get mark object _ => mark.id :: object.ids
  | .set mark object _ value => mark.id :: (object.ids ++ value.ids)

def Expr.idsAll : List Expr → List Nat
  | [] => []
  | e :: rest => e.ids ++ Expr.idsAll rest
end

mutual
def Stmt.ids : Stmt → List Nat
  | .expression e => e.ids
  | .var _ none => []
  | .var _ (some e) => e.ids
  | .block body => Stmt.idsAll body
  | .branch condition body alternative => condition.ids ++ Stmt.idsAll body ++ alternative.ids
  | .while condition body => condition.ids ++ Stmt.idsAll body
  | .function routine => routine.ids
  | .return _ none => []
  | .return _ (some e) => e.ids
  | .class _ methods => Routine.idsAll methods

def Alternative.ids : Alternative → List Nat
  | .none => []
  | .elseIf condition body alternative => condition.ids ++ Stmt.idsAll body ++ alternative.ids
  | .block body => Stmt.idsAll body

def Routine.ids : Routine → List Nat
  | ⟨_, _, body⟩ => Stmt.idsAll body

def Stmt.idsAll : List Stmt → List Nat
  | [] => []
  | s :: rest => s.ids ++ Stmt.idsAll rest

def Routine.idsAll : List Routine → List Nat
  | [] => []
  | routine :: rest => routine.ids ++ Routine.idsAll rest
end

namespace Expr

def children : Expr → List Expr
  | literal _ _ | ident _ _ | this _ _ => []
  | grouping _ inner => [inner]
  | unary _ _ right => [right]
  | binary _ left _ right | logical _ left _ right => [left, right]
  | assign _ _ value => [value]
  | call _ callee arguments _ => callee :: arguments
  | get _ object _ => [object]
  | set _ object _ value => [object, value]

end Expr

-- The expressions of a program, each parent before its children.
mutual
def Expr.nodes : Expr → List Expr
  | .literal mark value => [.literal mark value]
  | .ident mark name => [.ident mark name]
  | .this mark name => [.this mark name]
  | .grouping mark inner => .grouping mark inner :: inner.nodes
  | .unary mark operator right => .unary mark operator right :: right.nodes
  | .binary mark left operator right => .binary mark left operator right :: (left.nodes ++ right.nodes)
  | .logical mark left operator right => .logical mark left operator right :: (left.nodes ++ right.nodes)
  | .assign mark name value => .assign mark name value :: value.nodes
  | .call mark callee arguments line => .call mark callee arguments line :: (callee.nodes ++ Expr.nodesAll arguments)
  | .get mark object name => .get mark object name :: object.nodes
  | .set mark object name value => .set mark object name value :: (object.nodes ++ value.nodes)

def Expr.nodesAll : List Expr → List Expr
  | [] => []
  | e :: rest => e.nodes ++ Expr.nodesAll rest
end

mutual
def Stmt.nodes : Stmt → List Expr
  | .expression e => e.nodes
  | .var _ none => []
  | .var _ (some e) => e.nodes
  | .block body => Stmt.nodesAll body
  | .branch condition body alternative => condition.nodes ++ Stmt.nodesAll body ++ alternative.nodes
  | .while condition body => condition.nodes ++ Stmt.nodesAll body
  | .function routine => routine.nodes
  | .return _ none => []
  | .return _ (some e) => e.nodes
  | .class _ methods => Routine.nodesAll methods

def Alternative.nodes : Alternative → List Expr
  | .none => []
  | .elseIf condition body alternative => condition.nodes ++ Stmt.nodesAll body ++ alternative.nodes
  | .block body => Stmt.nodesAll body

def Routine.nodes : Routine → List Expr
  | ⟨_, _, body⟩ => Stmt.nodesAll body

def Stmt.nodesAll : List Stmt → List Expr
  | [] => []
  | s :: rest => s.nodes ++ Stmt.nodesAll rest

def Routine.nodesAll : List Routine → List Expr
  | [] => []
  | routine :: rest => routine.nodes ++ Routine.nodesAll rest
end

mutual
theorem expr_nodes_ids : ∀ e : Expr, e.nodes.map Expr.id = e.ids
  | .literal _ _ | .ident _ _ | .this _ _ => rfl
  | .grouping mark inner => congrArg (mark.id :: ·) (expr_nodes_ids inner)
  | .unary mark _ right => congrArg (mark.id :: ·) (expr_nodes_ids right)
  | .binary mark left _ right | .logical mark left _ right => by
      simp only [Expr.nodes, Expr.ids, List.map_cons, List.map_append, expr_nodes_ids left, expr_nodes_ids right]
      rfl
  | .assign mark _ value => congrArg (mark.id :: ·) (expr_nodes_ids value)
  | .call mark callee arguments _ => by
      simp only [Expr.nodes, Expr.ids, List.map_cons, List.map_append, expr_nodes_ids callee, exprs_nodes_ids arguments]
      rfl
  | .get mark object _ => congrArg (mark.id :: ·) (expr_nodes_ids object)
  | .set mark object _ value => by
      simp only [Expr.nodes, Expr.ids, List.map_cons, List.map_append, expr_nodes_ids object, expr_nodes_ids value]
      rfl

theorem exprs_nodes_ids : ∀ es : List Expr, (Expr.nodesAll es).map Expr.id = Expr.idsAll es
  | [] => rfl
  | e :: rest => by simp only [Expr.nodesAll, Expr.idsAll, List.map_append, expr_nodes_ids e, exprs_nodes_ids rest]
end

mutual
theorem stmt_nodes_ids : ∀ s : Stmt, s.nodes.map Expr.id = s.ids
  | .expression e | .var _ (some e) | .return _ (some e) => expr_nodes_ids e
  | .var _ none | .return _ none => rfl
  | .block body => stmts_nodes_ids body
  | .branch condition body alternative => by
      simp only [Stmt.nodes, Stmt.ids, List.map_append, expr_nodes_ids condition, stmts_nodes_ids body,
        alternative_nodes_ids alternative]
  | .while condition body => by
      simp only [Stmt.nodes, Stmt.ids, List.map_append, expr_nodes_ids condition, stmts_nodes_ids body]
  | .function routine => routine_nodes_ids routine
  | .class _ methods => routines_nodes_ids methods

theorem alternative_nodes_ids : ∀ a : Alternative, a.nodes.map Expr.id = a.ids
  | .none => rfl
  | .elseIf condition body alternative => by
      simp only [Alternative.nodes, Alternative.ids, List.map_append, expr_nodes_ids condition, stmts_nodes_ids body,
        alternative_nodes_ids alternative]
  | .block body => stmts_nodes_ids body

theorem routine_nodes_ids : ∀ r : Routine, r.nodes.map Expr.id = r.ids
  | ⟨_, _, body⟩ => stmts_nodes_ids body

theorem stmts_nodes_ids : ∀ body : List Stmt, (Stmt.nodesAll body).map Expr.id = Stmt.idsAll body
  | [] => rfl
  | s :: rest => by simp only [Stmt.nodesAll, Stmt.idsAll, List.map_append, stmt_nodes_ids s, stmts_nodes_ids rest]

theorem routines_nodes_ids : ∀ methods : List Routine, (Routine.nodesAll methods).map Expr.id = Routine.idsAll methods
  | [] => rfl
  | r :: rest => by
      simp only [Routine.nodesAll, Routine.idsAll, List.map_append, routine_nodes_ids r, routines_nodes_ids rest]
end

theorem nodes_children (e : Expr) : e.nodes = e :: Expr.nodesAll e.children := by
  cases e <;> simp [Expr.nodes, Expr.children, Expr.nodesAll]

theorem nodes_all_iff (es : List Expr) (d : Expr) : d ∈ Expr.nodesAll es ↔ ∃ e ∈ es, d ∈ e.nodes := by
  induction es with
  | nil => simp [Expr.nodesAll]
  | cons e rest ih => simp [Expr.nodesAll, ih]

mutual
theorem expr_references_ids : ∀ e : Expr, (e.references.map Reference.id).Sublist e.ids
  | .literal _ _ => List.nil_sublist _
  | .ident _ _ | .this _ _ => List.Sublist.refl _
  | .grouping _ inner => (expr_references_ids inner).cons _
  | .unary _ _ right => (expr_references_ids right).cons _
  | .binary _ left _ right | .logical _ left _ right => by
      simpa only [Expr.references, Expr.ids, List.map_append] using
        ((expr_references_ids left).append (expr_references_ids right)).cons _
  | .assign _ _ value => (expr_references_ids value).cons_cons _
  | .call _ callee arguments _ => by
      simpa only [Expr.references, Expr.ids, List.map_append] using
        ((expr_references_ids callee).append (exprs_references_ids arguments)).cons _
  | .get _ object _ => (expr_references_ids object).cons _
  | .set _ object _ value => by
      simpa only [Expr.references, Expr.ids, List.map_append] using
        ((expr_references_ids object).append (expr_references_ids value)).cons _

theorem exprs_references_ids : ∀ es : List Expr,
    ((Expr.referencesAll es).map Reference.id).Sublist (Expr.idsAll es)
  | [] => List.nil_sublist _
  | e :: rest => by
      simpa only [Expr.referencesAll, Expr.idsAll, List.map_append] using
        (expr_references_ids e).append (exprs_references_ids rest)
end

mutual
theorem stmt_references_ids : ∀ s : Stmt, (s.references.map Reference.id).Sublist s.ids
  | .expression e => expr_references_ids e
  | .var _ none | .return _ none => List.nil_sublist _
  | .var _ (some e) | .return _ (some e) => expr_references_ids e
  | .block body => stmts_references_ids body
  | .branch condition body alternative => by
      simpa only [Stmt.references, Stmt.ids, List.map_append] using
        ((expr_references_ids condition).append (stmts_references_ids body)).append
          (alternative_references_ids alternative)
  | .while condition body => by
      simpa only [Stmt.references, Stmt.ids, List.map_append] using
        (expr_references_ids condition).append (stmts_references_ids body)
  | .function routine => routine_references_ids routine
  | .class _ methods => routines_references_ids methods

theorem alternative_references_ids : ∀ a : Alternative, (a.references.map Reference.id).Sublist a.ids
  | .none => List.nil_sublist _
  | .elseIf condition body alternative => by
      simpa only [Alternative.references, Alternative.ids, List.map_append] using
        ((expr_references_ids condition).append (stmts_references_ids body)).append
          (alternative_references_ids alternative)
  | .block body => stmts_references_ids body

theorem routine_references_ids : ∀ r : Routine, (r.references.map Reference.id).Sublist r.ids
  | ⟨_, _, body⟩ => stmts_references_ids body

theorem stmts_references_ids : ∀ body : List Stmt,
    ((Stmt.referencesAll body).map Reference.id).Sublist (Stmt.idsAll body)
  | [] => List.nil_sublist _
  | s :: rest => by
      simpa only [Stmt.referencesAll, Stmt.idsAll, List.map_append] using
        (stmt_references_ids s).append (stmts_references_ids rest)

theorem routines_references_ids : ∀ methods : List Routine,
    ((Routine.referencesAll methods).map Reference.id).Sublist (Routine.idsAll methods)
  | [] => List.nil_sublist _
  | method :: rest => by
      simpa only [Routine.referencesAll, Routine.idsAll, List.map_append] using
        (routine_references_ids method).append (routines_references_ids rest)
end

structure Spread (low high : Nat) (ids : List Nat) : Prop where
  nodup : ids.Nodup
  within : ∀ id ∈ ids, low ≤ id ∧ id < high

theorem spread_nil (low high : Nat) : Spread low high [] :=
  ⟨List.nodup_nil, by simp⟩

theorem spread_one (low : Nat) : Spread low (low + 1) [low] :=
  ⟨by simp, by simp⟩

theorem spread_widen {low mid high top : Nat} {ids : List Nat} (spread : Spread mid high ids)
    (below : low ≤ mid) (above : high ≤ top) : Spread low top ids := by
  refine ⟨spread.nodup, ?_⟩
  intro id member
  have bounds := spread.within id member
  omega

theorem spread_append {low mid high : Nat} {first second : List Nat} (left : Spread low mid first)
    (right : Spread mid high second) (ordered : low ≤ mid) (later : mid ≤ high) :
    Spread low high (first ++ second) := by
  constructor
  · apply List.nodup_append.mpr
    refine ⟨left.nodup, right.nodup, ?_⟩
    intro a before b after
    have bounds := left.within a before
    have others := right.within b after
    omega
  · intro id member
    rcases List.mem_append.mp member with before | after
    · have bounds := left.within id before
      omega
    · have bounds := right.within id after
      omega

theorem spread_perm {low high : Nat} {ids others : List Nat} (spread : Spread low high ids)
    (same : ids.Perm others) : Spread low high others :=
  ⟨same.nodup spread.nodup, fun id member => spread.within id (same.mem_iff.mpr member)⟩

theorem spread_parent {low high : Nat} {ids : List Nat} (spread : Spread low high ids) (ordered : low ≤ high) :
    Spread low (high + 1) (high :: ids) :=
  spread_perm (spread_append spread (spread_one high) ordered (Nat.le_succ high)) (List.perm_append_singleton _ _)

def Expr.Falling (e : Expr) : Prop :=
  ∀ child ∈ e.children, child.id < e.id

theorem self_nodes (e : Expr) : e ∈ e.nodes := by
  rw [nodes_children]
  exact List.mem_cons_self

theorem falling_parent {low high : Nat} {e : Expr} {nodes : List Expr} (spread : Spread low high (nodes.map Expr.id))
    (whole : e.nodes = e :: nodes) (id : e.id = high) : e.Falling := by
  intro child member
  rw [nodes_children] at whole
  have inside : child ∈ nodes := by
    rw [← (List.cons.inj whole).2]
    exact (nodes_all_iff e.children child).mpr ⟨child, member, self_nodes child⟩
  rw [id]
  exact (spread.within child.id (List.mem_map_of_mem inside)).2

end TreeWalk
