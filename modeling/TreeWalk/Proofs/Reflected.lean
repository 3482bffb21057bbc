import TreeWalk.Proofs.Alpha

set_option autoImplicit false

namespace TreeWalk

def Stmt.ownAll (body : List Stmt) : List String :=
  body.flatMap Stmt.own

def Stmt.nestedAll (body : List Stmt) : List String :=
  body.flatMap Stmt.inner

theorem declared_split (body : List Stmt) :
    (Stmt.declaredAll body).Perm (Stmt.ownAll body ++ Stmt.nestedAll body) := by
  induction body with
  | nil => exact .refl _
  | cons s rest ih =>
      rw [List.perm_iff_count]
      intro name
      have later := ih.count_eq name
      simp only [Stmt.ownAll, Stmt.nestedAll] at later
      simp only [Stmt.declaredAll, Stmt.ownAll, Stmt.nestedAll, List.flatMap_cons, List.count_append] at later ⊢
      omega

theorem routine_split (name : Name) (parameters : List Name) (body : List Stmt) :
    (Routine.mk name parameters body).inner.Perm
      (parameters.map Name.text ++ Stmt.ownAll body ++ Stmt.nestedAll body) := by
  rw [List.append_assoc]
  exact (declared_split body).append_left _

def Scheme.Admits (S : Scheme) (mark : S.Mark) (names : List String) : Prop :=
  ∀ name ∈ names, S.Allows mark name ∧ S.spell mark name = name

structure Scheme.Reflects (S : Scheme) (room : List (Frame × S.Mark) → List String → Prop) : Prop where
  reading : ∀ scopes names, room scopes names → ∀ name, S.reading scopes name = name
  declare : ∀ scopes names name ready, room scopes names → room (declareIn name ready scopes) names
  left : ∀ scopes names others, room scopes (names ++ others) → room scopes names
  right : ∀ scopes names others, room scopes (names ++ others) → room scopes others
  scope : ∀ scopes names own nested frame, names.Perm (own ++ nested) → room scopes names →
    ∃ mark, S.Fits ((frame, mark) :: scopes) ∧ S.Admits mark own ∧ room ((frame, mark) :: scopes) nested
  receiver : ∀ scopes names name methods, room scopes names →
    S.Fits ((.receiver name methods, S.receiver) :: scopes) ∧ room ((.receiver name methods, S.receiver) :: scopes) names

section Reflected

variable {S : Scheme} {room : List (Frame × S.Mark) → List String → Prop} (reflects : S.Reflects room)

theorem admitted_keeps {scopes : List (Frame × S.Mark)} {name : Name} {names : List String}
    (own : S.Admits (S.innermost scopes) (name.text :: names)) : name.Keeps S scopes :=
  ⟨(own _ List.mem_cons_self).1, (own _ List.mem_cons_self).2⟩

theorem parameters_reflected {mark : S.Mark} {parameters : List Name} (own : S.Admits mark (parameters.map Name.text)) :
    parameters.map (Name.respell (S.spell mark)) = parameters := by
  have same : parameters.map (Name.respell (S.spell mark)) = parameters.map id :=
    List.map_congr_left fun _ member => name_respell_same (own _ (List.mem_map_of_mem member)).2
  rw [same, List.map_id]

include reflects

theorem expr_reflected {scopes : List (Frame × S.Mark)} {names : List String} (free : room scopes names) (e : Expr)
    (proper : e.Proper) : e.Paired S scopes e :=
  ⟨(expr_respell_same (reflects.reading scopes names free) e).symm, proper⟩

theorem behind_reflected {scopes : List (Frame × S.Mark)} {names : List String} (s : Stmt) (free : room scopes names) :
    room (s.behind scopes) names := by
  cases s <;> first | exact reflects.declare _ _ _ _ free | exact free

mutual
theorem stmt_reflected : ∀ (s : Stmt) (scopes : List (Frame × S.Mark)), s.Proper → S.Admits (S.innermost scopes) s.own →
    room scopes s.inner → s.Paired S scopes s
  | .expression e, _, proper, _, free => ⟨e, rfl, expr_reflected reflects free e proper⟩
  | .var name none, _, _, own, _ =>
      have keeps := admitted_keeps own
      ⟨by rw [keeps_respell S keeps], keeps.allowed⟩
  | .var name (some e), scopes, proper, own, free =>
      have keeps := admitted_keeps own
      ⟨e, by rw [keeps_respell S keeps], keeps.allowed,
        expr_reflected reflects (reflects.declare scopes [] name false free) e proper.2⟩
  | .block body, scopes, proper, _, free =>
      have ⟨mark, fits, own, inside⟩ := reflects.scope scopes _ _ _ _ (declared_split body) free
      ⟨mark, body, rfl, fits, stmts_reflected body _ proper own inside⟩
  | .branch condition body alternative, scopes, proper, _, free =>
      have ⟨mark, fits, own, inside⟩ :=
        reflects.scope scopes _ _ _ _ (declared_split body) (reflects.left scopes _ _ free)
      ⟨condition, mark, body, alternative, rfl, expr_reflected reflects free condition proper.1, fits,
        stmts_reflected body _ proper.2.1 own inside,
        alternative_reflected alternative scopes proper.2.2 (reflects.right scopes _ _ free)⟩
  | .while condition body, scopes, proper, _, free =>
      have ⟨mark, fits, own, inside⟩ := reflects.scope scopes _ _ _ _ (declared_split body) free
      ⟨condition, mark, body, rfl, expr_reflected reflects free condition proper.1, fits,
        stmts_reflected body _ proper.2 own inside⟩
  | .function routine, scopes, proper, own, free =>
      ⟨routine, rfl, admitted_keeps own,
        routine_reflected routine _ proper (reflects.declare scopes _ routine.name true free)⟩
  | .return _ none, _, _, _, _ => rfl
  | .return _ (some e), _, proper, _, free => ⟨e, rfl, expr_reflected reflects free e proper⟩
  | .class name methods, scopes, proper, own, free =>
      have ⟨fits, inside⟩ := reflects.receiver _ _ name methods (reflects.declare scopes _ name true free)
      ⟨methods, rfl, admitted_keeps own, fits, routines_reflected methods _ proper.2 inside⟩

theorem alternative_reflected : ∀ (a : Alternative) (scopes : List (Frame × S.Mark)), a.Proper → room scopes a.inner →
    a.Paired S scopes a
  | .none, _, _, _ => rfl
  | .elseIf condition body alternative, scopes, proper, free =>
      have ⟨mark, fits, own, inside⟩ :=
        reflects.scope scopes _ _ _ _ (declared_split body) (reflects.left scopes _ _ free)
      ⟨condition, mark, body, alternative, rfl, expr_reflected reflects free condition proper.1, fits,
        stmts_reflected body _ proper.2.1 own inside,
        alternative_reflected alternative scopes proper.2.2 (reflects.right scopes _ _ free)⟩
  | .block body, scopes, proper, free =>
      have ⟨mark, fits, own, inside⟩ := reflects.scope scopes _ _ _ _ (declared_split body) free
      ⟨mark, body, rfl, fits, stmts_reflected body _ proper own inside⟩

theorem routine_reflected : ∀ (routine : Routine) (scopes : List (Frame × S.Mark)), routine.Proper →
    room scopes routine.inner → routine.Paired S scopes routine
  | ⟨name, parameters, body⟩, scopes, proper, free =>
      have ⟨mark, fits, own, inside⟩ := reflects.scope scopes _ _ _ (Routine.mk name parameters body).frame
        (routine_split name parameters body) free
      have named : S.Admits mark (parameters.map Name.text) := fun text member => own text (List.mem_append_left _ member)
      ⟨mark, body, by rw [parameters_reflected named],
        fun _ member => (named _ (List.mem_map_of_mem member)).1, fits,
        stmts_reflected body _ proper.2.2 (fun text member => own text (List.mem_append_right _ member)) inside⟩

theorem stmts_reflected : ∀ (body : List Stmt) (scopes : List (Frame × S.Mark)), Stmt.ProperAll body →
    S.Admits (S.innermost scopes) (Stmt.ownAll body) → room scopes (Stmt.nestedAll body) →
    Stmt.PairedAll S scopes body body
  | [], _, _, _, _ => rfl
  | s :: rest, scopes, proper, own, free => by
      have first := stmt_reflected s scopes proper.1 (fun text member => own text (List.mem_append_left _ member))
        (reflects.left scopes _ _ free)
      have others := stmts_reflected rest (s.behind scopes) proper.2
        (fun text member => (S.innermost_behind s scopes).symm ▸ own text (List.mem_append_right _ member))
        (behind_reflected reflects s (reflects.right scopes _ _ free))
      exact ⟨s, rest, rfl, first, others⟩

theorem routines_reflected : ∀ (methods : List Routine) (scopes : List (Frame × S.Mark)), Routine.ProperAll methods →
    room scopes (Routine.innerAll methods) → Routine.PairedAll S scopes methods methods
  | [], _, _, _ => rfl
  | method :: rest, scopes, proper, free =>
      ⟨method, rest, rfl, routine_reflected method scopes proper.1 (reflects.left scopes _ _ free),
        routines_reflected rest scopes proper.2 (reflects.right scopes _ _ free)⟩
end

end Reflected

end TreeWalk
