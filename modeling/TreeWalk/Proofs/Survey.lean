import TreeWalk.Proofs.Events
import TreeWalk.Proofs.Runs

set_option autoImplicit false

namespace TreeWalk

structure Survey where
  scoping : Scoping
  sites : List Site
  visits : List Visit

abbrev Surveying := EStateM ScopeError Survey

namespace Surveying

def act (resolving : Resolving Unit) : Surveying Unit := fun s =>
  match resolving s.scoping with
  | .ok a scoping => .ok a { s with scoping }
  | .error e scoping => .error e { s with scoping }

def note (node : Expr) : Surveying Unit :=
  modify fun s => { s with visits := ⟨node, s.sites, s.scoping.scopes⟩ :: s.visits }

def enter (site : Site) : Surveying Unit :=
  modify fun s => { s with sites := site :: s.sites }

def leave : Surveying Unit :=
  modify fun s => { s with sites := s.sites.tail }

def inScope (site : Site) (scope : Scope) (inner : Surveying Unit) : Surveying Unit := do
  act (Resolving.openScope scope)
  enter site
  inner
  act Resolving.closeScope
  leave

end Surveying

open Surveying

mutual
def Expr.survey : Expr → Surveying Unit
  | .literal mark _ => act (Resolving.visit mark.line)
  | .grouping mark inner => do
      act (Resolving.visit mark.line)
      inner.survey
  | .unary mark _ right => do
      act (Resolving.visit mark.line)
      right.survey
  | .binary mark left _ right => do
      act (Resolving.visit mark.line)
      left.survey
      right.survey
  | .logical mark left _ right => do
      act (Resolving.visit mark.line)
      left.survey
      right.survey
  | .ident mark name => do
      act (Resolving.visit mark.line)
      act (Resolving.checkRead name)
      note (.ident mark name)
      act (Resolving.locate mark.id name)
  | .assign mark name value => do
      act (Resolving.visit mark.line)
      value.survey
      note (.assign mark name value)
      act (Resolving.locate mark.id name)
  | .call mark callee arguments _ => do
      act (Resolving.visit mark.line)
      act (Resolving.checkCallee callee)
      callee.survey
      Expr.surveyAll arguments
  | .get mark object _ => do
      act (Resolving.visit mark.line)
      object.survey
  | .set mark object _ value => do
      act (Resolving.visit mark.line)
      value.survey
      object.survey
  | .this mark name => do
      act (Resolving.visit mark.line)
      act (Resolving.checkThis name)
      note (.this mark name)
      act (Resolving.locate mark.id name)

def Expr.surveyAll : List Expr → Surveying Unit
  | [] => return ()
  | e :: rest => do
      e.survey
      Expr.surveyAll rest
end

mutual
def Stmt.survey : Stmt → Surveying Unit
  | .expression e => e.survey
  | .var name none => do
      act (Resolving.declare name)
      act (Resolving.define name)
  | .var name (some e) => do
      act (Resolving.declare name)
      e.survey
      act (Resolving.define name)
  | .block body => inScope (.block body) Bindings.empty (Stmt.surveyAll body)
  | .branch condition body alternative => do
      condition.survey
      inScope (.branch body) Bindings.empty (Stmt.surveyAll body)
      alternative.survey
  | .while condition body => do
      condition.survey
      inScope (.loop body) Bindings.empty (Stmt.surveyAll body)
  | .function routine => do
      act (Resolving.declare routine.name)
      act (Resolving.define routine.name)
      routine.survey .function
  | .return line none => act (Resolving.checkReturn line false)
  | .return line (some e) => do
      act (Resolving.checkReturn line true)
      e.survey
  | .class name methods => do
      act (Resolving.declare name)
      act (Resolving.define name)
      match Resolving.repeated? [] methods with
      | some method => act (Resolving.refuse method.line (.methodRepeated method.text name.text))
      | none =>
          let outside := (← get).scoping.inClass
          act (modify fun s => { s with inClass := true })
          inScope (.receiver name methods) Resolving.receiverScope (Routine.surveyAll methods)
          act (modify fun s => { s with inClass := outside })

def Alternative.survey : Alternative → Surveying Unit
  | .none => return ()
  | .elseIf condition body alternative => do
      condition.survey
      inScope (.branch body) Bindings.empty (Stmt.surveyAll body)
      alternative.survey
  | .block body => inScope (.otherwise body) Bindings.empty (Stmt.surveyAll body)

def Routine.survey (kind : Surrounding) : Routine → Surveying Unit
  | ⟨name, parameters, body⟩ => do
      let outside := (← get).scoping.surrounding
      act (modify fun s => { s with surrounding := kind })
      inScope (.routine ⟨name, parameters, body⟩) Bindings.empty do
        act (Resolving.declareAll parameters)
        Stmt.surveyAll body
      act (modify fun s => { s with surrounding := outside })

def Stmt.surveyAll : List Stmt → Surveying Unit
  | [] => return ()
  | s :: rest => do
      s.survey
      Stmt.surveyAll rest

def Routine.surveyAll : List Routine → Surveying Unit
  | [] => return ()
  | method :: rest => do
      method.survey (Resolving.methodKind method)
      Routine.surveyAll rest
end

def Survey.Shows (s : Survey) (scoping : Scoping) : Prop :=
  s.scoping = scoping

abbrev Surveying.Erases (surveying : Surveying Unit) (resolving : Resolving Unit) : Prop :=
  Matched Survey.Shows Eq (fun _ _ => True) surveying resolving

theorem act_join (first second : Resolving Unit) : act (do first; second) = (do act first; act second) := by
  funext s
  simp only [act, bind, EStateM.bind]
  cases first s.scoping <;> rfl

theorem act_ends {resolving : Resolving Unit} {s : Survey} {done : Scoping → Prop}
    (ended : Ends resolving s.scoping (fun _ t => done t) fun _ _ => True) :
    Ends (act resolving) s (fun _ t => t.sites = s.sites ∧ t.visits = s.visits ∧ done t.scoping) fun _ _ => True := by
  unfold Ends act at *
  cases run : resolving s.scoping with
  | ok a t =>
      rw [run] at ended
      exact ⟨rfl, rfl, ended⟩
  | error e t => trivial

theorem erases_act (resolving : Resolving Unit) : Erases (act resolving) resolving := by
  rintro s _ rfl
  unfold act
  cases resolving s.scoping with
  | ok a scoping => exact .ok a a _ scoping trivial rfl
  | error e scoping => exact .error e e _ scoping rfl rfl

theorem erases_pure : Erases (return ()) (return ()) :=
  matched_pure _ _ _ () () trivial

theorem erases_then {p q : Surveying Unit} {p' q' : Resolving Unit} (first : Erases p p')
    (rest : Erases q q') : Erases (do p; q) (do p'; q') :=
  matched_bind _ _ _ _ p p' _ _ first fun _ _ _ => rest

theorem erases_get {f : Survey → Surveying Unit} {g : Scoping → Resolving Unit}
    (rest : ∀ s, Erases (f s) (g s.scoping)) : Erases (get >>= f) (get >>= g) := by
  rintro s _ rfl
  exact rest s s s.scoping rfl

theorem erases_note (node : Expr) {q : Surveying Unit} {q' : Resolving Unit} (rest : Erases q q') :
    Erases (do note node; q) q' := by
  rintro s _ rfl
  exact rest _ _ rfl

theorem erases_in_scope (site : Site) (scope : Scope) {inner : Surveying Unit} {inner' : Resolving Unit}
    (body : Erases inner inner') :
    Erases (Surveying.inScope site scope inner) (Resolving.inScope scope inner') := by
  apply erases_then (erases_act _)
  have entered : Erases (do enter site; inner) inner' := by
    rintro s _ rfl
    exact body _ _ rfl
  have left : Erases (do act Resolving.closeScope; leave) Resolving.closeScope := by
    rintro s _ rfl
    simp only [act, leave, bind, EStateM.bind]
    cases Resolving.closeScope s.scoping with
    | ok a scoping => exact .ok _ a _ scoping trivial rfl
    | error e scoping => exact .error e e _ scoping rfl rfl
  have whole := erases_then entered left
  simpa only [bind_assoc] using whole

mutual
theorem erases_expr : ∀ e : Expr, Erases e.survey e.resolve
  | .literal _ _ => erases_act _
  | .grouping _ inner => erases_then (erases_act _) (erases_expr inner)
  | .unary _ _ right => erases_then (erases_act _) (erases_expr right)
  | .binary _ left _ right =>
      erases_then (erases_act _) (erases_then (erases_expr left) (erases_expr right))
  | .logical _ left _ right =>
      erases_then (erases_act _) (erases_then (erases_expr left) (erases_expr right))
  | .ident _ _ =>
      erases_then (erases_act _)
        (erases_then (erases_act _) (erases_note _ (erases_act _)))
  | .assign _ _ value =>
      erases_then (erases_act _)
        (erases_then (erases_expr value) (erases_note _ (erases_act _)))
  | .call _ callee arguments _ =>
      erases_then (erases_act _) (erases_then (erases_act _)
        (erases_then (erases_expr callee) (erases_exprs arguments)))
  | .get _ object _ => erases_then (erases_act _) (erases_expr object)
  | .set _ object _ value =>
      erases_then (erases_act _) (erases_then (erases_expr value) (erases_expr object))
  | .this _ _ =>
      erases_then (erases_act _)
        (erases_then (erases_act _) (erases_note _ (erases_act _)))

theorem erases_exprs : ∀ es : List Expr, Erases (Expr.surveyAll es) (Expr.resolveAll es)
  | [] => erases_pure
  | e :: rest => erases_then (erases_expr e) (erases_exprs rest)
end

mutual
theorem erases_stmt : ∀ s : Stmt, Erases s.survey s.resolve
  | .expression e => erases_expr e
  | .var _ none => erases_then (erases_act _) (erases_act _)
  | .var _ (some e) =>
      erases_then (erases_act _) (erases_then (erases_expr e) (erases_act _))
  | .block body => erases_in_scope _ _ (erases_stmts body)
  | .branch condition body alternative =>
      erases_then (erases_expr condition)
        (erases_then (erases_in_scope _ _ (erases_stmts body)) (erases_alternative alternative))
  | .while condition body =>
      erases_then (erases_expr condition) (erases_in_scope _ _ (erases_stmts body))
  | .function routine =>
      erases_then (erases_act _)
        (erases_then (erases_act _) (erases_routine .function routine))
  | .return _ none => erases_act _
  | .return _ (some e) => erases_then (erases_act _) (erases_expr e)
  | .class _ methods => by
      apply erases_then (erases_act _)
      apply erases_then (erases_act _)
      cases Resolving.repeated? [] methods with
      | some method => exact erases_act _
      | none =>
          apply erases_get
          intro s
          exact erases_then (erases_act _)
            (erases_then (erases_in_scope _ _ (erases_routines methods)) (erases_act _))

theorem erases_alternative : ∀ a : Alternative, Erases a.survey a.resolve
  | .none => erases_pure
  | .elseIf condition body alternative =>
      erases_then (erases_expr condition)
        (erases_then (erases_in_scope _ _ (erases_stmts body)) (erases_alternative alternative))
  | .block body => erases_in_scope _ _ (erases_stmts body)

theorem erases_routine (kind : Surrounding) : ∀ r : Routine, Erases (r.survey kind) (r.resolve kind)
  | ⟨_, parameters, body⟩ => by
      apply erases_get
      intro s
      exact erases_then (erases_act _) (erases_then
        (erases_in_scope _ _ (erases_then (erases_act _) (erases_stmts body))) (erases_act _))

theorem erases_stmts : ∀ body : List Stmt, Erases (Stmt.surveyAll body) (Stmt.resolveAll body)
  | [] => erases_pure
  | s :: rest => erases_then (erases_stmt s) (erases_stmts rest)

theorem erases_routines : ∀ methods : List Routine, Erases (Routine.surveyAll methods) (Routine.resolveAll methods)
  | [] => erases_pure
  | method :: rest => erases_then (erases_routine _ method) (erases_routines rest)
end

end TreeWalk
