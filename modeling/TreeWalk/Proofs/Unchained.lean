import TreeWalk.Proofs.Idle
import TreeWalk.Proofs.Renaming

set_option autoImplicit false

namespace TreeWalk

mutual
def Stmt.unchained : Stmt → Stmt
  | .expression e => .expression e
  | .var name initializer => .var name initializer
  | .block body => .block (Stmt.unchainedAll body)
  | .branch condition body alternative => .branch condition (Stmt.unchainedAll body) alternative.unchained
  | .while condition body => .while condition (Stmt.unchainedAll body)
  | .function routine => .function routine.unchained
  | .return line value => .return line value
  | .class name methods => .class name (Routine.unchainedAll methods)

def Alternative.unchained : Alternative → Alternative
  | .none => .none
  | .elseIf condition body alternative => .block [.branch condition (Stmt.unchainedAll body) alternative.unchained]
  | .block body => .block (Stmt.unchainedAll body)

def Routine.unchained : Routine → Routine
  | ⟨name, parameters, body⟩ => ⟨name, parameters, Stmt.unchainedAll body⟩

def Stmt.unchainedAll : List Stmt → List Stmt
  | [] => []
  | s :: rest => s.unchained :: Stmt.unchainedAll rest

def Routine.unchainedAll : List Routine → List Routine
  | [] => []
  | method :: rest => method.unchained :: Routine.unchainedAll rest
end

section Parts

mutual
theorem unchained_ids : ∀ s : Stmt, s.unchained.ids = s.ids
  | .expression _ | .var _ _ | .return _ _ => rfl
  | .block body => unchained_ids_all body
  | .branch condition body alternative => by
      simp only [Stmt.unchained, Stmt.ids, unchained_ids_all body, unchained_alternative_ids alternative]
  | .while condition body => by
      simp only [Stmt.unchained, Stmt.ids, unchained_ids_all body]
  | .function ⟨_, _, body⟩ => unchained_ids_all body
  | .class _ methods => unchained_routine_ids methods

theorem unchained_alternative_ids : ∀ a : Alternative, a.unchained.ids = a.ids
  | .none => rfl
  | .elseIf condition body alternative => by
      simp only [Alternative.unchained, Alternative.ids, Stmt.idsAll, Stmt.ids, List.append_nil, unchained_ids_all body,
        unchained_alternative_ids alternative]
  | .block body => unchained_ids_all body

theorem unchained_ids_all : ∀ body : List Stmt, Stmt.idsAll (Stmt.unchainedAll body) = Stmt.idsAll body
  | [] => rfl
  | s :: rest => by
      simp only [Stmt.unchainedAll, Stmt.idsAll, unchained_ids s, unchained_ids_all rest]

theorem unchained_routine_ids : ∀ methods : List Routine,
    Routine.idsAll (Routine.unchainedAll methods) = Routine.idsAll methods
  | [] => rfl
  | ⟨_, _, body⟩ :: rest => by
      simp only [Routine.unchainedAll, Routine.unchained, Routine.idsAll, Routine.ids, unchained_ids_all body,
        unchained_routine_ids rest]
end

mutual
theorem unchained_proper : ∀ s : Stmt, s.unchained.Proper ↔ s.Proper
  | .expression _ | .var _ _ | .return _ _ => Iff.rfl
  | .block body => unchained_proper_all body
  | .branch condition body alternative => by
      simp only [Stmt.unchained, Stmt.Proper, unchained_proper_all body, unchained_alternative_proper alternative]
  | .while condition body => by
      simp only [Stmt.unchained, Stmt.Proper, unchained_proper_all body]
  | .function ⟨_, _, body⟩ => by
      simp only [Stmt.unchained, Routine.unchained, Stmt.Proper, Routine.Proper, unchained_proper_all body]
  | .class _ methods => by
      simp only [Stmt.unchained, Stmt.Proper, unchained_routine_proper methods]

theorem unchained_alternative_proper : ∀ a : Alternative, a.unchained.Proper ↔ a.Proper
  | .none => Iff.rfl
  | .elseIf condition body alternative => by
      simp only [Alternative.unchained, Alternative.Proper, Stmt.ProperAll, Stmt.Proper, and_true, unchained_proper_all body,
        unchained_alternative_proper alternative]
  | .block body => unchained_proper_all body

theorem unchained_proper_all : ∀ body : List Stmt, Stmt.ProperAll (Stmt.unchainedAll body) ↔ Stmt.ProperAll body
  | [] => Iff.rfl
  | s :: rest => by
      simp only [Stmt.unchainedAll, Stmt.ProperAll, unchained_proper s, unchained_proper_all rest]

theorem unchained_routine_proper : ∀ methods : List Routine,
    Routine.ProperAll (Routine.unchainedAll methods) ↔ Routine.ProperAll methods
  | [] => Iff.rfl
  | ⟨_, _, body⟩ :: rest => by
      simp only [Routine.unchainedAll, Routine.unchained, Routine.ProperAll, Routine.Proper, unchained_proper_all body,
        unchained_routine_proper rest]
end

mutual
theorem unchained_again : ∀ s : Stmt, s.unchained.unchained = s.unchained
  | .expression _ | .var _ _ | .return _ _ => rfl
  | .block body | .while _ body => by simp only [Stmt.unchained, unchained_again_all body]
  | .branch _ body alternative => by
      simp only [Stmt.unchained, unchained_again_all body, unchained_alternative_again alternative]
  | .function ⟨_, _, body⟩ => by simp only [Stmt.unchained, Routine.unchained, unchained_again_all body]
  | .class _ methods => by simp only [Stmt.unchained, unchained_routines_again methods]

theorem unchained_alternative_again : ∀ a : Alternative, a.unchained.unchained = a.unchained
  | .none => rfl
  | .elseIf _ body alternative => by
      simp only [Alternative.unchained, Stmt.unchainedAll, Stmt.unchained, unchained_again_all body,
        unchained_alternative_again alternative]
  | .block body => by simp only [Alternative.unchained, unchained_again_all body]

theorem unchained_again_all : ∀ body : List Stmt, Stmt.unchainedAll (Stmt.unchainedAll body) = Stmt.unchainedAll body
  | [] => rfl
  | s :: rest => by simp only [Stmt.unchainedAll, unchained_again s, unchained_again_all rest]

theorem unchained_routines_again : ∀ methods : List Routine,
    Routine.unchainedAll (Routine.unchainedAll methods) = Routine.unchainedAll methods
  | [] => rfl
  | ⟨_, _, body⟩ :: rest => by
      simp only [Routine.unchainedAll, Routine.unchained, unchained_again_all body, unchained_routines_again rest]
end

end Parts

section Alignment

variable {picked : List Stmt → Bool}

mutual
theorem stmt_unchains (spans : Spans) : ∀ s : Stmt, s.Idles picked spans s.unchained
  | .expression e => .expression (restates_itself spans e)
  | .var _ none => .var _
  | .var _ (some e) => .initialized _ (restates_itself spans e)
  | .block body => .block (stmts_unchain _ body)
  | .branch condition body alternative =>
      .branch (restates_itself spans condition) (stmts_unchain _ body) (alternative_unchains spans alternative)
  | .while condition body => .while (restates_itself spans condition) (stmts_unchain _ body)
  | .function routine => .function (routine_unchains spans routine)
  | .return _ none => .return _
  | .return _ (some e) => .returned _ (restates_itself spans e)
  | .class _ methods => .class _ (routines_unchain _ methods)

theorem alternative_unchains (spans : Spans) : ∀ a : Alternative, a.Aligned (fun _ _ _ => True) picked spans a.unchained
  | .none => .none
  | .elseIf condition body alternative =>
      .nested (restates_itself _ condition) (stmts_unchain _ body) (alternative_unchains _ alternative)
  | .block body => .block (stmts_unchain _ body)

theorem routine_unchains (spans : Spans) : ∀ r : Routine, r.Aligned (fun _ _ _ => True) picked spans r.unchained
  | ⟨_, _, body⟩ => .routine _ _ (stmts_unchain _ body)

theorem stmts_unchain (spans : Spans) : ∀ body : List Stmt,
    Stmt.AlignedAll (fun _ _ _ => True) picked spans body (Stmt.unchainedAll body)
  | [] => .nil
  | s :: rest => .cons (stmt_unchains spans s) (stmts_unchain spans rest)

theorem routines_unchain (spans : Spans) : ∀ methods : List Routine,
    Routine.AlignedAll (fun _ _ _ => True) picked spans methods (Routine.unchainedAll methods)
  | [] => .nil
  | method :: rest => .cons (routine_unchains spans method) (routines_unchain spans rest)
end

def Renaming.anonymous : Renaming :=
  .ofIds fun _ => 0

theorem mark_anonymous {mark mark' : Mark} (line : mark'.line = mark.line) :
    mark'.rename .anonymous = mark.rename .anonymous := by
  simp only [Mark.rename, Renaming.anonymous, Renaming.ofIds, line]

variable {good : Spans → Nat → Nat → Prop} {spans : Spans}

mutual
theorem aligned_anonymous : ∀ {e e' : Expr}, e.Aligned good spans e' → e'.rename .anonymous = e.rename .anonymous
  | _, _, .literal _ _ _ line => by simp only [Expr.rename, mark_anonymous line]
  | _, _, .grouping _ _ line inside => by simp only [Expr.rename, mark_anonymous line, aligned_anonymous inside]
  | _, _, .unary _ _ _ line operand => by simp only [Expr.rename, mark_anonymous line, aligned_anonymous operand]
  | _, _, .binary _ _ _ line first second => by
      simp only [Expr.rename, mark_anonymous line, aligned_anonymous first, aligned_anonymous second]
  | _, _, .logical _ _ _ line first second => by
      simp only [Expr.rename, mark_anonymous line, aligned_anonymous first, aligned_anonymous second]
  | _, _, .ident _ _ _ line _ => by simp only [Expr.rename, mark_anonymous line]
  | _, _, .assign _ _ _ line _ result => by simp only [Expr.rename, mark_anonymous line, aligned_anonymous result]
  | _, _, .call _ _ _ line called others => by
      simp only [Expr.rename, mark_anonymous line, aligned_anonymous called, aligned_anonymous_all others]
  | _, _, .get _ _ _ line owner => by simp only [Expr.rename, mark_anonymous line, aligned_anonymous owner]
  | _, _, .set _ _ _ line owner result => by
      simp only [Expr.rename, mark_anonymous line, aligned_anonymous owner, aligned_anonymous result]
  | _, _, .this _ _ _ line _ => by simp only [Expr.rename, mark_anonymous line]

theorem aligned_anonymous_all : ∀ {es es' : List Expr}, Expr.AlignedAll good spans es es' →
    Expr.renameAll .anonymous es' = Expr.renameAll .anonymous es
  | _, _, .nil => rfl
  | _, _, .cons first others => by
      simp only [Expr.renameAll, aligned_anonymous first, aligned_anonymous_all others]
end

def Routine.outline (routine : Routine) : Routine :=
  routine.unchained.rename .anonymous

mutual
theorem aligned_unchained : ∀ {s s' : Stmt} {spans : Spans}, s.Aligned good (fun _ => false) spans s' →
    s'.unchained.rename .anonymous = s.unchained.rename .anonymous
  | _, _, _, .expression value => by simp only [Stmt.unchained, Stmt.rename, aligned_anonymous value]
  | _, _, _, .var _ => rfl
  | _, _, _, .initialized _ value => by simp only [Stmt.unchained, Stmt.rename, aligned_anonymous value]
  | _, _, _, .block inside => by simp only [Stmt.unchained, Stmt.rename, aligned_unchained_all inside]
  | _, _, _, .branch test inside other => by
      simp only [Stmt.unchained, Stmt.rename, aligned_anonymous test, aligned_unchained_all inside,
        aligned_unchained_alternative other]
  | _, _, _, .while test inside => by
      simp only [Stmt.unchained, Stmt.rename, aligned_anonymous test, aligned_unchained_all inside]
  | _, _, _, .function same => by simp only [Stmt.unchained, Stmt.rename, aligned_unchained_routine same]
  | _, _, _, .return _ => rfl
  | _, _, _, .returned _ value => by simp only [Stmt.unchained, Stmt.rename, aligned_anonymous value]
  | _, _, _, .class _ inside => by simp only [Stmt.unchained, Stmt.rename, aligned_unchained_routines inside]

theorem aligned_unchained_alternative : ∀ {a a' : Alternative} {spans : Spans},
    a.Aligned good (fun _ => false) spans a' → a'.unchained.rename .anonymous = a.unchained.rename .anonymous
  | _, _, _, .none => rfl
  | _, _, _, .elseIf test inside other => by
      simp only [Alternative.unchained, Alternative.rename, Stmt.renameAll, Stmt.rename, aligned_anonymous test,
        aligned_unchained_all inside, aligned_unchained_alternative other]
  | _, _, _, .block inside => by simp only [Alternative.unchained, Alternative.rename, aligned_unchained_all inside]
  | _, _, _, .nested test inside other => by
      simp only [Alternative.unchained, Stmt.unchainedAll, Stmt.unchained, Alternative.rename, Stmt.renameAll, Stmt.rename,
        aligned_anonymous test, aligned_unchained_all inside, aligned_unchained_alternative other]

theorem aligned_unchained_routine : ∀ {r r' : Routine} {spans : Spans}, r.Aligned good (fun _ => false) spans r' →
    r'.unchained.rename .anonymous = r.unchained.rename .anonymous
  | _, _, _, .routine _ _ inside => by simp only [Routine.unchained, Routine.rename, aligned_unchained_all inside]

theorem aligned_unchained_all : ∀ {body body' : List Stmt} {spans : Spans},
    Stmt.AlignedAll good (fun _ => false) spans body body' →
      Stmt.renameAll .anonymous (Stmt.unchainedAll body') = Stmt.renameAll .anonymous (Stmt.unchainedAll body)
  | _, _, _, .nil => rfl
  | _, _, _, .cons first others => by
      simp only [Stmt.unchainedAll, Stmt.renameAll, aligned_unchained first, aligned_unchained_all others]

theorem aligned_unchained_routines : ∀ {methods methods' : List Routine} {spans : Spans},
    Routine.AlignedAll good (fun _ => false) spans methods methods' →
      Routine.renameAll .anonymous (Routine.unchainedAll methods') =
        Routine.renameAll .anonymous (Routine.unchainedAll methods)
  | _, _, _, .nil => rfl
  | _, _, _, .cons first others => by
      simp only [Routine.unchainedAll, Routine.renameAll, aligned_unchained_routine first, aligned_unchained_routines others]
end

end Alignment

end TreeWalk
