import TreeWalk.Proofs.Positions

set_option autoImplicit false

namespace TreeWalk

mutual
theorem expr_nodes_references : ∀ e : Expr, e.nodes.filterMap Expr.reference? = e.references
  | .literal _ _ | .ident _ _ | .this _ _ => rfl
  | .grouping _ inner => expr_nodes_references inner
  | .unary _ _ right => expr_nodes_references right
  | .binary _ left _ right | .logical _ left _ right => by
      rw [Expr.references, ← expr_nodes_references left, ← expr_nodes_references right, ← List.filterMap_append]
      rfl
  | .assign _ _ value => by
      rw [Expr.references, ← expr_nodes_references value]
      rfl
  | .call _ callee arguments _ => by
      rw [Expr.references, ← expr_nodes_references callee, ← exprs_nodes_references arguments, ← List.filterMap_append]
      rfl
  | .get _ object _ => expr_nodes_references object
  | .set _ object _ value => by
      rw [Expr.references, ← expr_nodes_references object, ← expr_nodes_references value, ← List.filterMap_append]
      rfl

theorem exprs_nodes_references : ∀ es : List Expr, (Expr.nodesAll es).filterMap Expr.reference? = Expr.referencesAll es
  | [] => rfl
  | e :: rest => by
      rw [Expr.referencesAll, ← expr_nodes_references e, ← exprs_nodes_references rest, ← List.filterMap_append]
      rfl
end

mutual
theorem stmt_nodes_references : ∀ s : Stmt, s.nodes.filterMap Expr.reference? = s.references
  | .expression e | .var _ (some e) | .return _ (some e) => expr_nodes_references e
  | .var _ none | .return _ none => rfl
  | .block body => stmts_nodes_references body
  | .branch condition body alternative => by
      simp only [Stmt.nodes, Stmt.references, List.filterMap_append, expr_nodes_references condition,
        stmts_nodes_references body, alternative_nodes_references alternative]
  | .while condition body => by
      simp only [Stmt.nodes, Stmt.references, List.filterMap_append, expr_nodes_references condition,
        stmts_nodes_references body]
  | .function routine => routine_nodes_references routine
  | .class _ methods => routines_nodes_references methods

theorem alternative_nodes_references : ∀ a : Alternative, a.nodes.filterMap Expr.reference? = a.references
  | .none => rfl
  | .elseIf condition body alternative => by
      simp only [Alternative.nodes, Alternative.references, List.filterMap_append, expr_nodes_references condition,
        stmts_nodes_references body, alternative_nodes_references alternative]
  | .block body => stmts_nodes_references body

theorem routine_nodes_references : ∀ r : Routine, r.nodes.filterMap Expr.reference? = r.references
  | ⟨_, _, body⟩ => stmts_nodes_references body

theorem stmts_nodes_references : ∀ body : List Stmt,
    (Stmt.nodesAll body).filterMap Expr.reference? = Stmt.referencesAll body
  | [] => rfl
  | s :: rest => by
      simp only [Stmt.nodesAll, Stmt.referencesAll, List.filterMap_append, stmt_nodes_references s,
        stmts_nodes_references rest]

theorem routines_nodes_references : ∀ methods : List Routine,
    (Routine.nodesAll methods).filterMap Expr.reference? = Routine.referencesAll methods
  | [] => rfl
  | r :: rest => by
      simp only [Routine.nodesAll, Routine.referencesAll, List.filterMap_append, routine_nodes_references r,
        routines_nodes_references rest]
end

theorem child_smaller {e child : Expr} (member : child ∈ e.children) : sizeOf child < sizeOf e := by
  cases e with
  | call mark callee arguments line =>
      rcases List.mem_cons.mp member with rfl | argument
      · simp only [Expr.call.sizeOf_spec]
        omega
      · have small := List.sizeOf_lt_of_mem argument
        simp only [Expr.call.sizeOf_spec]
        omega
  | binary mark left operator right | logical mark left operator right | set mark left name right =>
      simp only [Expr.children, List.mem_cons, List.not_mem_nil, or_false] at member
      rcases member with rfl | rfl
      all_goals
        simp only [Expr.binary.sizeOf_spec, Expr.logical.sizeOf_spec, Expr.set.sizeOf_spec]
        omega
  | grouping mark inner | unary mark operator inner | assign mark name inner | get mark inner name =>
      obtain rfl := List.mem_singleton.mp member
      simp only [Expr.grouping.sizeOf_spec, Expr.unary.sizeOf_spec, Expr.assign.sizeOf_spec, Expr.get.sizeOf_spec]
      omega
  | literal | ident | this => cases member

theorem held_of_listed (e d : Expr) (listed : d ∈ e.nodes) : e.Holds d := by
  rw [nodes_children] at listed
  rcases List.mem_cons.mp listed with rfl | inside
  · exact .refl
  · obtain ⟨child, member, below⟩ := (nodes_all_iff e.children d).mp inside
    exact .head member (held_of_listed child d below)
termination_by sizeOf e
decreasing_by exact child_smaller member

theorem child_nodes {e child : Expr} (member : child ∈ e.children) : child.nodes ⊆ e.nodes := by
  intro d inside
  rw [nodes_children]
  exact List.mem_cons_of_mem _ ((nodes_all_iff e.children d).mpr ⟨child, member, inside⟩)

namespace Part

def nodes : Part → List Expr
  | statement s => s.nodes
  | alternative a => a.nodes
  | expression e => e.nodes
  | scope (.receiver _ methods) => Routine.nodesAll methods
  | scope (.routine r) => r.nodes
  | scope (.block body) | scope (.branch body) | scope (.otherwise body) | scope (.loop body) => Stmt.nodesAll body

end Part

theorem statement_nodes {s : Stmt} {body : List Stmt} (member : s ∈ body) : s.nodes ⊆ Stmt.nodesAll body := by
  induction member with
  | head rest => exact List.subset_append_left _ _
  | tail first _ ih => exact List.subset_append_of_subset_right _ ih

theorem method_nodes {r : Routine} {methods : List Routine} (member : r ∈ methods) :
    r.nodes ⊆ Routine.nodesAll methods := by
  induction member with
  | head rest => exact List.subset_append_left _ _
  | tail first _ ih => exact List.subset_append_of_subset_right _ ih

theorem site_nodes {site : Site} {s : Stmt} (member : s ∈ site.statements) : s.nodes ⊆ (Part.scope site).nodes := by
  cases site with
  | receiver name methods => cases member
  | routine r =>
      obtain ⟨name, parameters, body⟩ := r
      exact statement_nodes member
  | _ => exact statement_nodes member

theorem has_nodes {p q : Position} (has : p.Has q) : q.part.nodes ⊆ p.part.nodes := by
  cases has with
  | expression | initializer | returned | block | branch | function | «class» | otherwise => exact List.Subset.refl _
  | repeated => exact List.subset_append_left _ _
  | loop => exact List.subset_append_right _ _
  | condition => exact List.subset_append_of_subset_left _ (List.subset_append_left _ _)
  | chosen => exact List.subset_append_of_subset_left _ (List.subset_append_right _ _)
  | further => exact List.subset_append_right _ _
  | child _ _ _ member => exact child_nodes member
  | statement _ site before s after split =>
      exact site_nodes (split ▸ List.mem_append_right before List.mem_cons_self)
  | method _ _ _ _ member => exact method_nodes member

-- Somewhere in the part the expression stands.
def Position.Finds (p : Position) (d : Expr) : Prop :=
  ∃ scopes, p.Reaches ⟨scopes, .expression d⟩

namespace Position

theorem finds_inside {p q : Position} {d : Expr} (has : p.Has q) (found : q.Finds d) : p.Finds d := by
  obtain ⟨scopes, reaches⟩ := found
  exact ⟨scopes, .head has reaches⟩

theorem finds_listed (scopes : List Enclosure) (e d : Expr) (listed : d ∈ e.nodes) :
    Finds ⟨scopes, .expression e⟩ d := by
  refine ⟨scopes, ?_⟩
  have held := held_of_listed e d listed
  clear listed
  induction held with
  | refl => exact .refl
  | tail _ member ih => exact .tail ih (.child scopes _ _ member)

end Position

open Position (Finds finds_inside finds_listed)

mutual
theorem stmt_finds : ∀ (s : Stmt) (scopes : List Enclosure) (d : Expr), d ∈ s.nodes → Finds ⟨scopes, .statement s⟩ d
  | .expression e, scopes, d, listed => finds_inside (.expression scopes e) (finds_listed _ e d listed)
  | .var name (some e), scopes, d, listed => finds_inside (.initializer scopes name e) (finds_listed _ e d listed)
  | .return line (some e), scopes, d, listed => finds_inside (.returned scopes line e) (finds_listed _ e d listed)
  | .var _ none, _, _, listed | .return _ none, _, _, listed => nomatch listed
  | .block body, scopes, d, listed => finds_inside (.block scopes body) (body_finds (.block body) body [] rfl scopes d listed)
  | .branch condition body alternative, scopes, d, listed =>
      finds_inside (.branch scopes condition body alternative)
        (alternative_finds (.elseIf condition body alternative) scopes d listed)
  | .while condition body, scopes, d, listed => by
      rcases List.mem_append.mp listed with test | inner
      · exact finds_inside (.repeated scopes condition body) (finds_listed _ condition d test)
      · exact finds_inside (.loop scopes condition body) (body_finds (.loop body) body [] rfl scopes d inner)
  | .function routine, scopes, d, listed => finds_inside (.function scopes routine) (routine_finds routine _ d listed)
  | .class name methods, scopes, d, listed => by
      obtain ⟨method, member, inner⟩ := methods_find methods _ d listed
      exact finds_inside (.class scopes name methods) (finds_inside (.method _ name methods method member) inner)

theorem alternative_finds : ∀ (a : Alternative) (scopes : List Enclosure) (d : Expr), d ∈ a.nodes →
    Finds ⟨scopes, .alternative a⟩ d
  | .none, _, _, listed => nomatch listed
  | .elseIf condition body alternative, scopes, d, listed => by
      rcases List.mem_append.mp listed with front | other
      · rcases List.mem_append.mp front with test | inner
        · exact finds_inside (.condition scopes condition body alternative) (finds_listed _ condition d test)
        · exact finds_inside (.chosen scopes condition body alternative)
            (body_finds (.branch body) body [] rfl scopes d inner)
      · exact finds_inside (.further scopes condition body alternative) (alternative_finds alternative scopes d other)
  | .block body, scopes, d, listed =>
      finds_inside (.otherwise scopes body) (body_finds (.otherwise body) body [] rfl scopes d listed)

theorem routine_finds : ∀ (r : Routine) (scopes : List Enclosure) (d : Expr), d ∈ r.nodes →
    Finds ⟨scopes, .scope (.routine r)⟩ d
  | ⟨name, parameters, body⟩, scopes, d, listed =>
      body_finds (.routine ⟨name, parameters, body⟩) body [] rfl scopes d listed

theorem body_finds (site : Site) : ∀ (body before : List Stmt), site.statements = before ++ body →
    ∀ (scopes : List Enclosure) (d : Expr), d ∈ Stmt.nodesAll body → Finds ⟨scopes, .scope site⟩ d
  | [], _, _, _, _, listed => nomatch listed
  | s :: rest, before, split, scopes, d, listed => by
      rcases List.mem_append.mp listed with here | later
      · exact finds_inside (.statement scopes site before s rest split) (stmt_finds s _ d here)
      · exact body_finds site rest (before ++ [s]) (by simpa using split) scopes d later

theorem methods_find : ∀ (methods : List Routine) (scopes : List Enclosure) (d : Expr), d ∈ Routine.nodesAll methods →
    ∃ method ∈ methods, Finds ⟨scopes, .scope (.routine method)⟩ d
  | [], _, _, listed => nomatch listed
  | method :: rest, scopes, d, listed => by
      rcases List.mem_append.mp listed with here | later
      · exact ⟨method, List.mem_cons_self, routine_finds method scopes d here⟩
      · obtain ⟨other, member, inner⟩ := methods_find rest scopes d later
        exact ⟨other, List.mem_cons_of_mem _ member, inner⟩
end

namespace Program

theorem nodes_iff_shows (program : Program) (d : Expr) :
    d ∈ Stmt.nodesAll program ↔ ∃ scopes, program.Shows ⟨scopes, .expression d⟩ := by
  constructor
  · intro listed
    induction program with
    | nil => cases listed
    | cons s rest ih =>
        rcases List.mem_append.mp listed with here | later
        · obtain ⟨scopes, reaches⟩ := stmt_finds s [] d here
          exact ⟨scopes, s, List.mem_cons_self, reaches⟩
        · obtain ⟨scopes, t, member, reaches⟩ := ih later
          exact ⟨scopes, t, List.mem_cons_of_mem _ member, reaches⟩
  · rintro ⟨scopes, shown⟩
    have inside : (Part.expression d).nodes ⊆ Stmt.nodesAll program :=
      shows_induction (fun s member => statement_nodes member) (fun p q has all => List.Subset.trans (has_nodes has) all) _ shown
    apply inside
    rw [show (Part.expression d).nodes = d.nodes from rfl, nodes_children]
    exact List.mem_cons_self

end Program

end TreeWalk
