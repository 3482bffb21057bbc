import TreeWalk.Proofs.Renaming
import TreeWalk.Proofs.Runs
import TreeWalk.Scope

set_option autoImplicit false

namespace TreeWalk

structure Scoping.Renamed (r : Renaming) (s t : Scoping) : Prop where
  scopes : t.scopes = s.scopes
  surrounding : t.surrounding = s.surrounding
  inClass : t.inClass = s.inClass
  distances : ∀ id, t.distances[r.id id]? = s.distances[id]?

def ScopeError.Renamed (r : Renaming) (e f : ScopeError) : Prop :=
  e.fault ≠ .noOpenScope → (∀ id, e.fault ≠ .alreadyLocal id) → f = ⟨r.line e.line, e.fault⟩

abbrev Rechecks (r : Renaming) (p q : Resolving Unit) : Prop :=
  Matched (Scoping.Renamed r) (ScopeError.Renamed r) Eq p q

section Rechecks

open Resolving

variable {r : Renaming}

theorem rechecks_pure : Rechecks r (return ()) (return ()) :=
  matched_pure _ _ _ () () rfl

theorem rechecks_then {p q p' q' : Resolving Unit} (first : Rechecks r p q) (rest : Rechecks r p' q') :
    Rechecks r (do p; p') (do q; q') :=
  matched_bind _ _ _ _ _ _ _ _ first fun _ _ _ => rest

theorem rechecks_refuse (line : Nat) (fault : ScopeFault) :
    Rechecks r (refuse line fault) (refuse (r.line line) fault) :=
  matched_throw _ _ _ _ _ fun _ _ => rfl

theorem rechecks_modify (f g : Scoping → Scoping) (kept : ∀ s t, s.Renamed r t → (f s).Renamed r (g t)) :
    Rechecks r (modify f) (modify g) :=
  fun s t state => .ok () () _ _ rfl (kept s t state)

theorem rechecks_visit (line other : Nat) : Rechecks r (visit line) (visit other) :=
  rechecks_modify _ _ fun _ _ state => ⟨state.scopes, state.surrounding, state.inClass, state.distances⟩

theorem rechecks_get {f g : Scoping → Resolving Unit}
    (rest : ∀ s t, s.Renamed r t → Agree (Scoping.Renamed r) (ScopeError.Renamed r) Eq (f s s) (g t t)) :
    Rechecks r (get >>= f) (get >>= g) :=
  rest

theorem renamed_set {s t : Scoping} (state : s.Renamed r t) (scopes : List Scope) :
    Agree (Scoping.Renamed r) (ScopeError.Renamed r) Eq ((set { s with scopes } : Resolving Unit) s)
      ((set { t with scopes } : Resolving Unit) t) :=
  .ok () () _ _ rfl ⟨rfl, state.surrounding, state.inClass, state.distances⟩

theorem rechecks_open_scope (scope : Scope) : Rechecks r (openScope scope) (openScope scope) :=
  rechecks_modify _ _ fun _ _ state =>
    ⟨congrArg (scope :: ·) state.scopes, state.surrounding, state.inClass, state.distances⟩

theorem rechecks_close_scope : Rechecks r closeScope closeScope := by
  apply rechecks_get
  intro s t state
  rw [state.scopes]
  cases s.scopes with
  | nil => exact .error _ _ s t (fun opened => (opened rfl).elim) state
  | cons scope outer => exact renamed_set state outer

theorem rechecks_in_scope (scope : Scope) {p q : Resolving Unit} (inner : Rechecks r p q) :
    Rechecks r (inScope scope p) (inScope scope q) :=
  rechecks_then (rechecks_open_scope scope) (rechecks_then inner rechecks_close_scope)

theorem rechecks_declare (name : Name) : Rechecks r (declare name) (declare (name.rename r)) := by
  apply rechecks_then (rechecks_visit name.line _)
  apply rechecks_get
  intro s t state
  rw [state.scopes]
  cases s.scopes with
  | nil => exact rechecks_pure s t state
  | cons scope outer =>
      exact agree_if _ _ _ _ (fun _ => rechecks_refuse name.line _ s t state) fun _ => renamed_set state _

theorem rechecks_define (name : Name) : Rechecks r (define name) (define (name.rename r)) := by
  apply rechecks_get
  intro s t state
  rw [state.scopes]
  cases s.scopes with
  | nil => exact rechecks_pure s t state
  | cons scope outer =>
      exact agree_if _ _ _ _ (fun _ => renamed_set state _) fun _ => rechecks_refuse name.line _ s t state

theorem rechecks_declare_all : ∀ names : List Name,
    Rechecks r (declareAll names) (declareAll (names.map (Name.rename r)))
  | [] => rechecks_pure
  | name :: rest =>
      rechecks_then (rechecks_declare name) (rechecks_then (rechecks_define name) (rechecks_declare_all rest))

theorem rechecks_check_callee (callee : Expr) :
    Rechecks r (checkCallee callee) (checkCallee (callee.rename r)) := by
  cases callee with
  | get mark object name =>
      simp only [checkCallee, Expr.rename, Name.rename]
      split
      · exact rechecks_refuse name.line _
      · exact rechecks_pure
  | _ => exact rechecks_pure

theorem rechecks_check_read (name : Name) : Rechecks r (checkRead name) (checkRead (name.rename r)) := by
  apply rechecks_get
  intro s t state
  rw [state.scopes]
  cases s.scopes with
  | nil => exact rechecks_pure s t state
  | cons scope outer =>
      exact agree_if _ _ _ _ (fun _ => rechecks_refuse name.line _ s t state) fun _ => rechecks_pure s t state

theorem rechecks_check_this (name : Name) : Rechecks r (checkThis name) (checkThis (name.rename r)) := by
  apply rechecks_get
  intro s t state
  rw [state.inClass]
  split
  · exact rechecks_pure s t state
  · exact rechecks_refuse name.line _ s t state

theorem rechecks_check_return (line : Nat) (hasValue : Bool) :
    Rechecks r (checkReturn line hasValue) (checkReturn (r.line line) hasValue) := by
  apply rechecks_get
  intro s t state
  rw [state.surrounding]
  cases s.surrounding with
  | topLevel => exact rechecks_refuse line _ s t state
  | constructor =>
      dsimp only
      split
      · exact rechecks_refuse line _ s t state
      · exact rechecks_pure s t state
  | _ => exact rechecks_pure s t state

theorem rechecks_around {p q : Resolving Unit} (change : Scoping → Scoping) (undo : Scoping → Scoping → Scoping)
    (inner : Rechecks r p q) (changed : ∀ s t, s.Renamed r t → (change s).Renamed r (change t))
    (undone : ∀ s t, s.Renamed r t → ∀ u v, u.Renamed r v → (undo s u).Renamed r (undo t v)) :
    Rechecks r (do let s ← get; modify change; p; modify (undo s))
      (do let s ← get; modify change; q; modify (undo s)) := by
  apply rechecks_get
  intro s t state
  exact rechecks_then (rechecks_modify _ _ changed) (rechecks_then inner (rechecks_modify _ _ (undone s t state))) s t state

theorem repeated_renamed (seen : List String) : ∀ methods : List Routine,
    repeated? seen (Routine.renameAll r methods) = (repeated? seen methods).map (Name.rename r)
  | [] => rfl
  | ⟨name, _, _⟩ :: rest => by
      simp only [Routine.renameAll, Routine.rename, repeated?, Name.rename, repeated_renamed _ rest]
      split <;> rfl

theorem rechecks_locate (injective : Function.Injective r.id) (id : Nat) (name : Name) :
    Rechecks r (locate id name) (locate (r.id id) (name.rename r)) := by
  apply rechecks_get
  intro s t state
  simp only [state.scopes, Name.rename]
  cases s.scopes.findIdx? fun scope => Bindings.contains scope name.text with
  | none => exact rechecks_pure s t state
  | some distance =>
      have same : t.distances.contains (r.id id) = s.distances.contains id := by
        rw [Std.TreeMap.contains_eq_isSome_getElem?, Std.TreeMap.contains_eq_isSome_getElem?, state.distances]
      simp only [Distances.note, same]
      cases s.distances.contains id with
      | true => exact .error _ _ s t (fun _ untouched => (untouched id rfl).elim) state
      | false =>
          refine .ok () () _ _ rfl ⟨rfl, state.surrounding, state.inClass, fun other => ?_⟩
          simp only [Std.TreeMap.getElem?_insert]
          by_cases here : id = other
          · simp [here]
          · have apart : compare id other ≠ .eq := fun equal => here (Nat.compare_eq_eq.mp equal)
            have also : compare (r.id id) (r.id other) ≠ .eq := fun equal =>
              here (injective (Nat.compare_eq_eq.mp equal))
            simp only [apart, also, if_false, state.distances]

mutual
theorem rechecks_expr (injective : Function.Injective r.id) : ∀ e : Expr, Rechecks r e.resolve (e.rename r).resolve
  | .literal mark _ => rechecks_visit mark.line _
  | .grouping mark inner | .unary mark _ inner | .get mark inner _ =>
      rechecks_then (rechecks_visit mark.line _) (rechecks_expr injective inner)
  | .binary mark left _ right | .logical mark left _ right =>
      rechecks_then (rechecks_visit mark.line _)
        (rechecks_then (rechecks_expr injective left) (rechecks_expr injective right))
  | .ident mark name =>
      rechecks_then (rechecks_visit mark.line _)
        (rechecks_then (rechecks_check_read name) (rechecks_locate injective mark.id name))
  | .assign mark name value =>
      rechecks_then (rechecks_visit mark.line _)
        (rechecks_then (rechecks_expr injective value) (rechecks_locate injective mark.id name))
  | .call mark callee arguments _ =>
      rechecks_then (rechecks_visit mark.line _) (rechecks_then (rechecks_check_callee callee)
        (rechecks_then (rechecks_expr injective callee) (rechecks_exprs injective arguments)))
  | .set mark object _ value =>
      rechecks_then (rechecks_visit mark.line _)
        (rechecks_then (rechecks_expr injective value) (rechecks_expr injective object))
  | .this mark name =>
      rechecks_then (rechecks_visit mark.line _)
        (rechecks_then (rechecks_check_this name) (rechecks_locate injective mark.id name))

theorem rechecks_exprs (injective : Function.Injective r.id) : ∀ es : List Expr,
    Rechecks r (Expr.resolveAll es) (Expr.resolveAll (Expr.renameAll r es))
  | [] => rechecks_pure
  | e :: rest => rechecks_then (rechecks_expr injective e) (rechecks_exprs injective rest)
end

mutual
theorem rechecks_stmt (injective : Function.Injective r.id) : ∀ s : Stmt, Rechecks r s.resolve (s.rename r).resolve
  | .expression e => rechecks_expr injective e
  | .var name none => rechecks_then (rechecks_declare name) (rechecks_define name)
  | .var name (some e) =>
      rechecks_then (rechecks_declare name) (rechecks_then (rechecks_expr injective e) (rechecks_define name))
  | .block body => rechecks_in_scope _ (rechecks_stmts injective body)
  | .branch condition body alternative =>
      rechecks_then (rechecks_expr injective condition)
        (rechecks_then (rechecks_in_scope _ (rechecks_stmts injective body)) (rechecks_alternative injective alternative))
  | .while condition body =>
      rechecks_then (rechecks_expr injective condition) (rechecks_in_scope _ (rechecks_stmts injective body))
  | .function ⟨name, parameters, body⟩ =>
      rechecks_then (rechecks_declare name)
        (rechecks_then (rechecks_define name) (rechecks_routine injective .function ⟨name, parameters, body⟩))
  | .return line none => rechecks_check_return line false
  | .return line (some e) => rechecks_then (rechecks_check_return line true) (rechecks_expr injective e)
  | .class name methods => by
      apply rechecks_then (rechecks_declare name)
      apply rechecks_then (rechecks_define name)
      rw [repeated_renamed]
      cases repeated? [] methods with
      | some method => exact rechecks_refuse method.line _
      | none =>
          exact rechecks_around (fun s => { s with inClass := true })
            (fun s t => { t with inClass := s.inClass }) (rechecks_in_scope _ (rechecks_routines injective methods))
            (fun _ _ state => ⟨state.scopes, state.surrounding, rfl, state.distances⟩)
            fun _ _ before _ _ state => ⟨state.scopes, state.surrounding, before.inClass, state.distances⟩

theorem rechecks_alternative (injective : Function.Injective r.id) :
    ∀ a : Alternative, Rechecks r a.resolve (a.rename r).resolve
  | .none => rechecks_pure
  | .elseIf condition body alternative =>
      rechecks_then (rechecks_expr injective condition)
        (rechecks_then (rechecks_in_scope _ (rechecks_stmts injective body)) (rechecks_alternative injective alternative))
  | .block body => rechecks_in_scope _ (rechecks_stmts injective body)

theorem rechecks_routine (injective : Function.Injective r.id) (kind : Surrounding) : ∀ routine : Routine,
    Rechecks r (routine.resolve kind) ((routine.rename r).resolve kind)
  | ⟨_, parameters, body⟩ =>
      rechecks_around (fun s => { s with surrounding := kind })
        (fun s t => { t with surrounding := s.surrounding })
        (rechecks_in_scope _ (rechecks_then (rechecks_declare_all parameters) (rechecks_stmts injective body)))
        (fun _ _ state => ⟨state.scopes, rfl, state.inClass, state.distances⟩)
        fun _ _ before _ _ state => ⟨state.scopes, before.surrounding, state.inClass, state.distances⟩

theorem rechecks_stmts (injective : Function.Injective r.id) : ∀ body : List Stmt,
    Rechecks r (Stmt.resolveAll body) (Stmt.resolveAll (Stmt.renameAll r body))
  | [] => rechecks_pure
  | s :: rest => rechecks_then (rechecks_stmt injective s) (rechecks_stmts injective rest)

theorem rechecks_routines (injective : Function.Injective r.id) : ∀ methods : List Routine,
    Rechecks r (Routine.resolveAll methods) (Routine.resolveAll (Routine.renameAll r methods))
  | [] => rechecks_pure
  | ⟨name, parameters, body⟩ :: rest =>
      rechecks_then (rechecks_routine injective _ ⟨name, parameters, body⟩) (rechecks_routines injective rest)
end

end Rechecks

end TreeWalk
