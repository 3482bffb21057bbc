import TreeWalk.Proofs.Identities
import TreeWalk.Proofs.Runs
import TreeWalk.Scope

set_option autoImplicit false

namespace TreeWalk

structure Balanced (ids : List Nat) (s t : Scoping) : Prop where
  depth : t.scopes.length = s.scopes.length
  outer : t.scopes.tail = s.scopes.tail
  surrounding : t.surrounding = s.surrounding
  inClass : t.inClass = s.inClass
  others : ∀ id, id ∉ ids → t.distances[id]? = s.distances[id]?

structure Refused (ids : List Nat) (s : Scoping) (e : ScopeError) (t : Scoping) : Prop where
  opened : e.fault ≠ .noOpenScope
  fresh : ∀ id, e.fault ≠ .alreadyLocal id
  others : ∀ id, id ∉ ids → t.distances[id]? = s.distances[id]?

def Balances (ids : List Nat) (p : Resolving Unit) : Prop :=
  ∀ s, (∀ id ∈ ids, s.distances[id]? = none) → Ends p s (fun _ t => Balanced ids s t) fun e t => Refused ids s e t

theorem balanced_refl (ids : List Nat) (s : Scoping) : Balanced ids s s :=
  ⟨rfl, rfl, rfl, rfl, fun _ _ => rfl⟩

theorem balances_pure (ids : List Nat) : Balances ids (return ()) :=
  fun s _ => ends_pure _ _ _ _ (balanced_refl ids s)

theorem balances_subset (ids more : List Nat) (p : Resolving Unit) (balances : Balances ids p)
    (subset : ∀ id ∈ ids, id ∈ more) : Balances more p := by
  intro s fresh
  apply ends_mono _ _ _ _ _ _ (balances s fun id member => fresh id (subset id member))
  · intro _ t balanced
    exact ⟨balanced.depth, balanced.outer, balanced.surrounding, balanced.inClass,
      fun id outside => balanced.others id fun member => outside (subset id member)⟩
  · intro e t refused
    exact ⟨refused.opened, refused.fresh, fun id outside => refused.others id fun member => outside (subset id member)⟩

theorem balances_then (ids others : List Nat) (p q : Resolving Unit) (first : Balances ids p)
    (second : Balances others q) (nodup : (ids ++ others).Nodup) : Balances (ids ++ others) (do p; q) := by
  obtain ⟨_, _, disjoint⟩ := List.nodup_append.mp nodup
  intro s fresh
  have begun := first s fun id member => fresh id (List.mem_append_left _ member)
  apply ends_bind p _ s (fun _ t => Balanced ids s t)
  · apply ends_mono _ _ _ _ _ _ begun
    · exact fun _ _ balanced => balanced
    · intro e t refused
      exact ⟨refused.opened, refused.fresh, fun id outside =>
        refused.others id fun member => outside (List.mem_append_left _ member)⟩
  · intro _ t left
    have untouched : ∀ id ∈ others, t.distances[id]? = none := by
      intro id member
      rw [left.others id fun early => disjoint id early id member rfl]
      exact fresh id (List.mem_append_right _ member)
    apply ends_mono _ _ _ _ _ _ (second t untouched)
    · intro _ u right
      refine ⟨right.depth.trans left.depth, right.outer.trans left.outer, right.surrounding.trans left.surrounding,
        right.inClass.trans left.inClass, ?_⟩
      intro id outside
      rw [right.others id fun member => outside (List.mem_append_right _ member)]
      exact left.others id fun member => outside (List.mem_append_left _ member)
    · intro e u refused
      refine ⟨refused.opened, refused.fresh, ?_⟩
      intro id outside
      rw [refused.others id fun member => outside (List.mem_append_right _ member)]
      exact left.others id fun member => outside (List.mem_append_left _ member)

theorem balances_first (ids : List Nat) (p q : Resolving Unit) (first : Balances [] p) (rest : Balances ids q)
    (nodup : ids.Nodup) : Balances ids (do p; q) :=
  balances_then [] ids p q first rest nodup

theorem balances_last (ids : List Nat) (p q : Resolving Unit) (first : Balances ids p) (last : Balances [] q)
    (nodup : ids.Nodup) : Balances ids (do p; q) := by
  simpa only [List.append_nil] using balances_then ids [] p q first last (by simpa only [List.append_nil] using nodup)

theorem balances_visit (line : Nat) : Balances [] (Resolving.visit line) :=
  fun _ _ => ⟨rfl, rfl, rfl, rfl, fun _ _ => rfl⟩

theorem balances_refuse (ids : List Nat) (line : Nat) (fault : ScopeFault) (opened : fault ≠ .noOpenScope)
    (fresh : ∀ id, fault ≠ .alreadyLocal id) : Balances ids (Resolving.refuse line fault) :=
  fun _ _ => ⟨opened, fresh, fun _ _ => rfl⟩

theorem balances_get {f : Scoping → Resolving Unit} (ids : List Nat) (rest : ∀ s, Balances ids (f s)) :
    Balances ids (get >>= f) :=
  fun s fresh => rest s s fresh

theorem balances_set_head (ids : List Nat) (s : Scoping) (scope next : Scope) (outer : List Scope)
    (scopes : s.scopes = scope :: outer) : Balanced ids s { s with scopes := next :: outer } :=
  ⟨by simp [scopes], by simp [scopes], rfl, rfl, fun _ _ => rfl⟩

theorem balances_declare (name : Name) : Balances [] (Resolving.declare name) := by
  apply balances_first [] _ _ (balances_visit name.line) _ List.nodup_nil
  intro s _
  apply ends_get
  cases scopes : s.scopes with
  | nil => exact ends_pure _ _ _ _ (balanced_refl [] s)
  | cons scope outer =>
      dsimp only
      split
      · exact ⟨by simp, by simp, fun _ _ => rfl⟩
      · exact balances_set_head [] s scope _ outer scopes

theorem balances_define (name : Name) : Balances [] (Resolving.define name) := by
  intro s _
  apply ends_get
  cases scopes : s.scopes with
  | nil => exact ends_pure _ _ _ _ (balanced_refl [] s)
  | cons scope outer =>
      dsimp only
      split
      · exact balances_set_head [] s scope _ outer scopes
      · exact ⟨by simp, by simp, fun _ _ => rfl⟩

theorem balances_parameters (names : List Name) : Balances [] (Resolving.declareAll names) := by
  induction names with
  | nil => exact balances_pure []
  | cons name rest ih =>
      apply balances_first [] _ _ (balances_declare name) _ List.nodup_nil
      exact balances_first [] _ _ (balances_define name) ih List.nodup_nil

theorem balances_locate (id : Nat) (name : Name) : Balances [id] (Resolving.locate id name) := by
  intro s fresh
  have new : s.distances.contains id = false := by
    rw [Std.TreeMap.contains_eq_isSome_getElem?, fresh id (List.mem_singleton_self id)]
    rfl
  apply ends_get
  split
  · exact ends_pure _ _ _ _ (balanced_refl _ s)
  · rename_i distance _
    simp only [Distances.note, new, Bool.false_eq_true, if_false]
    refine ⟨rfl, rfl, rfl, rfl, ?_⟩
    intro other outside
    rw [Std.TreeMap.getElem?_insert]
    have different : compare id other ≠ .eq := by
      intro same
      exact outside (by simp [Nat.compare_eq_eq.mp same])
    simp [different]

theorem balances_check_read (name : Name) : Balances [] (Resolving.checkRead name) := by
  intro s _
  apply ends_get
  cases s.scopes with
  | nil => exact ends_pure _ _ _ _ (balanced_refl [] s)
  | cons scope outer =>
      dsimp only
      split
      · exact ⟨by simp, by simp, fun _ _ => rfl⟩
      · exact ends_pure _ _ _ _ (balanced_refl [] s)

theorem balances_check_callee (callee : Expr) : Balances [] (Resolving.checkCallee callee) := by
  unfold Resolving.checkCallee
  split
  · split
    · exact balances_refuse [] _ _ (by simp) (by simp)
    · exact balances_pure []
  · exact balances_pure []

theorem balances_check_this (name : Name) : Balances [] (Resolving.checkThis name) := by
  apply balances_get
  intro s
  split
  · exact balances_pure []
  · exact balances_refuse [] _ _ (by simp) (by simp)

theorem balances_check_return (line : Nat) (hasValue : Bool) : Balances [] (Resolving.checkReturn line hasValue) := by
  apply balances_get
  intro s
  split
  · exact balances_refuse [] _ _ (by simp) (by simp)
  · split
    · exact balances_refuse [] _ _ (by simp) (by simp)
    · exact balances_pure []
  · exact balances_pure []
  · exact balances_pure []

theorem balances_in_scope (ids : List Nat) (scope : Scope) (p : Resolving Unit) (balances : Balances ids p) :
    Balances ids (Resolving.inScope scope p) := by
  intro s fresh
  show Ends (do p; Resolving.closeScope) { s with scopes := scope :: s.scopes } _ _
  have inner := balances { s with scopes := scope :: s.scopes } fresh
  apply ends_bind p _ _ (fun _ t => Balanced ids { s with scopes := scope :: s.scopes } t)
  · exact ends_mono _ _ _ _ _ _ inner (fun _ _ balanced => balanced)
      fun e t refused => ⟨refused.opened, refused.fresh, refused.others⟩
  · intro _ t balanced
    apply ends_get
    have depth := balanced.depth
    have outer := balanced.outer
    cases scopes : t.scopes with
    | nil => simp [scopes] at depth
    | cons head rest =>
        rw [scopes] at outer
        have restored : rest = s.scopes := outer
        exact ⟨congrArg List.length restored, congrArg List.tail restored, balanced.surrounding, balanced.inClass,
          balanced.others⟩

mutual
theorem balances_expr : ∀ e : Expr, e.ids.Nodup → Balances e.ids e.resolve
  | .literal mark _, nodup => balances_subset [] _ _ (balances_visit mark.line) (by simp)
  | .grouping mark inner, nodup => by
      have tail := (List.nodup_cons.mp nodup).2
      have visited := balances_first _ _ _ (balances_visit mark.line) (balances_expr inner tail) tail
      exact balances_subset _ _ _ visited fun _ => List.mem_cons_of_mem _
  | .unary mark _ right, nodup => by
      have tail := (List.nodup_cons.mp nodup).2
      have visited := balances_first _ _ _ (balances_visit mark.line) (balances_expr right tail) tail
      exact balances_subset _ _ _ visited fun _ => List.mem_cons_of_mem _
  | .binary mark left _ right, nodup | .logical mark left _ right, nodup => by
      have tail := (List.nodup_cons.mp nodup).2
      have both := balances_then _ _ _ _ (balances_expr left (List.nodup_append.mp tail).1)
        (balances_expr right (List.nodup_append.mp tail).2.1) tail
      have visited := balances_first _ _ _ (balances_visit mark.line) both tail
      exact balances_subset _ _ _ visited fun _ => List.mem_cons_of_mem _
  | .ident mark name, nodup => by
      have found := balances_first _ _ _ (balances_check_read name) (balances_locate mark.id name) nodup
      exact balances_first _ _ _ (balances_visit mark.line) found nodup
  | .assign mark name value, nodup => by
      have tail := (List.nodup_cons.mp nodup).2
      have swapped : (value.ids ++ [mark.id]).Nodup := (List.perm_append_singleton _ _).symm.nodup nodup
      have both := balances_then _ _ _ _ (balances_expr value tail) (balances_locate mark.id name) swapped
      have visited := balances_first _ _ _ (balances_visit mark.line) both swapped
      exact balances_subset _ _ _ visited fun _ => (List.perm_append_singleton _ _).mem_iff.mp
  | .call mark callee arguments _, nodup => by
      have tail := (List.nodup_cons.mp nodup).2
      have both := balances_then _ _ _ _ (balances_expr callee (List.nodup_append.mp tail).1)
        (balances_exprs arguments (List.nodup_append.mp tail).2.1) tail
      have checked := balances_first _ _ _ (balances_check_callee callee) both tail
      have visited := balances_first _ _ _ (balances_visit mark.line) checked tail
      exact balances_subset _ _ _ visited fun _ => List.mem_cons_of_mem _
  | .get mark object _, nodup => by
      have tail := (List.nodup_cons.mp nodup).2
      have visited := balances_first _ _ _ (balances_visit mark.line) (balances_expr object tail) tail
      exact balances_subset _ _ _ visited fun _ => List.mem_cons_of_mem _
  | .set mark object _ value, nodup => by
      have tail := (List.nodup_cons.mp nodup).2
      have swapped : (value.ids ++ object.ids).Nodup := List.perm_append_comm.nodup tail
      have both := balances_then _ _ _ _ (balances_expr value (List.nodup_append.mp tail).2.1)
        (balances_expr object (List.nodup_append.mp tail).1) swapped
      have visited := balances_first _ _ _ (balances_visit mark.line) both swapped
      exact balances_subset _ _ _ visited fun _ member =>
        List.mem_cons_of_mem _ (List.perm_append_comm.mem_iff.mp member)
  | .this mark name, nodup => by
      have found := balances_first _ _ _ (balances_check_this name) (balances_locate mark.id name) nodup
      exact balances_first _ _ _ (balances_visit mark.line) found nodup

theorem balances_exprs : ∀ es : List Expr, (Expr.idsAll es).Nodup → Balances (Expr.idsAll es) (Expr.resolveAll es)
  | [], _ => balances_pure []
  | e :: rest, nodup =>
      have parts := List.nodup_append.mp nodup
      balances_then _ _ _ _ (balances_expr e parts.1) (balances_exprs rest parts.2.1) nodup
end

theorem balances_around (ids : List Nat) (p : Resolving Unit) (change : Scoping → Scoping)
    (undo : Scoping → Scoping → Scoping) (balances : Balances ids p)
    (changed : ∀ s, (change s).scopes = s.scopes ∧ (change s).distances = s.distances)
    (undone : ∀ s t, Balanced ids (change s) t → Balanced ids s (undo s t)) :
    Balances ids (do
      let s ← get
      modify change
      p
      modify (undo s)) := by
  intro s fresh
  show Ends (do p; modify (undo s)) (change s) _ _
  have inner := balances (change s) ((changed s).2 ▸ fresh)
  apply ends_bind p _ _ (fun _ t => Balanced ids (change s) t)
  · exact ends_mono _ _ _ _ _ _ inner (fun _ _ balanced => balanced)
      fun e t refused => ⟨refused.opened, refused.fresh, (changed s).2 ▸ refused.others⟩
  · exact fun _ t balanced => undone s t balanced

mutual
theorem balances_stmt : ∀ s : Stmt, s.ids.Nodup → Balances s.ids s.resolve
  | .expression e, nodup => balances_expr e nodup
  | .var name none, nodup => balances_first _ _ _ (balances_declare name) (balances_define name) nodup
  | .var name (some e), nodup =>
      balances_first _ _ _ (balances_declare name)
        (balances_last _ _ _ (balances_expr e nodup) (balances_define name) nodup) nodup
  | .block body, nodup => balances_in_scope _ _ _ (balances_stmts body nodup)
  | .branch condition body alternative, nodup => by
      obtain ⟨front, last, _⟩ := List.nodup_append.mp nodup
      have early := balances_then _ _ _ _ (balances_expr condition (List.nodup_append.mp front).1)
        (balances_in_scope _ Bindings.empty _ (balances_stmts body (List.nodup_append.mp front).2.1)) front
      have whole := balances_then _ _ _ _ early (balances_alternative alternative last) nodup
      rw [bind_assoc] at whole
      exact whole
  | .while condition body, nodup =>
      balances_then _ _ _ _ (balances_expr condition (List.nodup_append.mp nodup).1)
        (balances_in_scope _ _ _ (balances_stmts body (List.nodup_append.mp nodup).2.1)) nodup
  | .function routine, nodup =>
      balances_first _ _ _ (balances_declare routine.name)
        (balances_first _ _ _ (balances_define routine.name) (balances_routine .function routine nodup) nodup) nodup
  | .return line none, _ => balances_check_return line false
  | .return line (some e), nodup => balances_first _ _ _ (balances_check_return line true) (balances_expr e nodup) nodup
  | .class name methods, nodup => by
      apply balances_first _ _ _ (balances_declare name) _ nodup
      apply balances_first _ _ _ (balances_define name) _ nodup
      split
      · exact balances_refuse _ _ _ (by simp) (by simp)
      · exact balances_around _ _ (fun s => { s with inClass := true }) (fun s t => { t with inClass := s.inClass })
          (balances_in_scope _ _ _ (balances_routines methods nodup)) (fun _ => ⟨rfl, rfl⟩)
          fun _ _ balanced => ⟨balanced.depth, balanced.outer, balanced.surrounding, rfl, balanced.others⟩

theorem balances_alternative : ∀ a : Alternative, a.ids.Nodup → Balances a.ids a.resolve
  | .none, _ => balances_pure []
  | .elseIf condition body alternative, nodup => by
      obtain ⟨front, last, _⟩ := List.nodup_append.mp nodup
      have early := balances_then _ _ _ _ (balances_expr condition (List.nodup_append.mp front).1)
        (balances_in_scope _ Bindings.empty _ (balances_stmts body (List.nodup_append.mp front).2.1)) front
      have whole := balances_then _ _ _ _ early (balances_alternative alternative last) nodup
      rw [bind_assoc] at whole
      exact whole
  | .block body, nodup => balances_in_scope _ _ _ (balances_stmts body nodup)

theorem balances_routine (kind : Surrounding) : ∀ r : Routine, r.ids.Nodup → Balances r.ids (r.resolve kind)
  | ⟨_, parameters, body⟩, nodup =>
      balances_around _ _ (fun s => { s with surrounding := kind }) (fun s t => { t with surrounding := s.surrounding })
        (balances_in_scope _ _ _
          (balances_first _ _ _ (balances_parameters parameters) (balances_stmts body nodup) nodup))
        (fun _ => ⟨rfl, rfl⟩)
        fun _ _ balanced => ⟨balanced.depth, balanced.outer, rfl, balanced.inClass, balanced.others⟩

theorem balances_stmts : ∀ body : List Stmt, (Stmt.idsAll body).Nodup → Balances (Stmt.idsAll body) (Stmt.resolveAll body)
  | [], _ => balances_pure []
  | s :: rest, nodup =>
      balances_then _ _ _ _ (balances_stmt s (List.nodup_append.mp nodup).1)
        (balances_stmts rest (List.nodup_append.mp nodup).2.1) nodup

theorem balances_routines : ∀ methods : List Routine, (Routine.idsAll methods).Nodup →
    Balances (Routine.idsAll methods) (Routine.resolveAll methods)
  | [], _ => balances_pure []
  | method :: rest, nodup =>
      balances_then _ _ _ _ (balances_routine _ method (List.nodup_append.mp nodup).1)
        (balances_routines rest (List.nodup_append.mp nodup).2.1) nodup
end

end TreeWalk
