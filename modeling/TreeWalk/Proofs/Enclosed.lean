import TreeWalk.Proofs.Balanced
import TreeWalk.Proofs.Calls
import TreeWalk.Proofs.Survey

set_option autoImplicit false

namespace TreeWalk

def Visit.Enclosed (v : Visit) : Prop :=
  ∀ mark name, v.node = .this mark name → ∃ site ∈ v.sites, site.isReceiver = true

structure Survey.Enclosed (s : Survey) : Prop where
  inside : s.scoping.inClass = true → ∃ site ∈ s.sites, site.isReceiver = true
  visits : ∀ v ∈ s.visits, v.Enclosed

structure Survey.Resumes (s t : Survey) : Prop where
  sites : t.sites = s.sites
  inClass : t.scoping.inClass = s.scoping.inClass
  visits : ∀ v ∈ t.visits, v.Enclosed

def Encloses (p : Surveying Unit) : Prop :=
  ∀ s : Survey, s.Enclosed → Ends p s (fun _ t => s.Resumes t) fun _ _ => True

section Rules

variable {p q : Surveying Unit}

theorem enclosed_behind (s t : Survey) (enclosed : s.Enclosed) (resumes : s.Resumes t) : t.Enclosed := by
  refine ⟨fun inside => ?_, resumes.visits⟩
  rw [resumes.sites]
  exact enclosed.inside (resumes.inClass ▸ inside)

theorem resumes_trans (s t u : Survey) (first : s.Resumes t) (second : t.Resumes u) : s.Resumes u :=
  ⟨second.sites.trans first.sites, second.inClass.trans first.inClass, second.visits⟩

theorem encloses_pure : Encloses (return ()) :=
  fun _ enclosed => ⟨rfl, rfl, enclosed.visits⟩

theorem encloses_then (first : Encloses p) (second : Encloses q) : Encloses (do p; q) := by
  intro s enclosed
  apply ends_bind p _ s _ _ _ (first s enclosed)
  intro _ t begun
  apply ends_mono _ _ _ _ _ _ (second t (enclosed_behind s t enclosed begun))
  · exact fun _ u ended => resumes_trans s t u begun ended
  · exact fun _ _ stopped => stopped

theorem encloses_step (resolving : Resolving Unit)
    (same : ∀ s : Scoping, Ends resolving s (fun _ t => t.inClass = s.inClass) fun _ _ => True) :
    Encloses (Surveying.act resolving) := by
  intro s enclosed
  apply ends_mono _ _ _ _ _ _ (act_ends (same s.scoping))
  · rintro _ t ⟨sites, visits, inClass⟩
    exact ⟨sites, inClass, visits ▸ enclosed.visits⟩
  · exact fun _ _ stopped => stopped

theorem encloses_act (resolving : Resolving Unit) (balances : Balances [] resolving) :
    Encloses (Surveying.act resolving) := by
  apply encloses_step
  intro s
  apply ends_mono _ _ _ _ _ _ (balances s fun _ none => nomatch none)
  · exact fun _ _ balanced => balanced.inClass
  · exact fun _ _ _ => trivial

theorem encloses_locate (id : Nat) (name : Name) : Encloses (Surveying.act (Resolving.locate id name)) := by
  apply encloses_step
  intro s
  apply ends_get
  split
  · exact ends_pure _ _ _ _ rfl
  · unfold Distances.note
    split
    · rename_i noted
      split at noted
      · cases noted
      · exact rfl
    · exact trivial

theorem note_resumes (node : Expr) (s : Survey) (enclosed : s.Enclosed) (rest : Encloses p)
    (here : (⟨node, s.sites, s.scoping.scopes⟩ : Visit).Enclosed) :
    Ends (do Surveying.note node; p) s (fun _ t => s.Resumes t) fun _ _ => True := by
  have noted : Survey.Enclosed { s with visits := ⟨node, s.sites, s.scoping.scopes⟩ :: s.visits } := by
    refine ⟨enclosed.inside, fun v member => ?_⟩
    rcases List.mem_cons.mp member with rfl | before
    · exact here
    · exact enclosed.visits v before
  apply ends_mono _ _ _ _ _ _ (rest _ noted)
  · exact fun _ _ resumes => ⟨resumes.sites, resumes.inClass, resumes.visits⟩
  · exact fun _ _ stopped => stopped

theorem encloses_note (node : Expr) (other : ∀ mark name, node ≠ .this mark name) (rest : Encloses p) :
    Encloses (do Surveying.note node; p) :=
  fun s enclosed => note_resumes node s enclosed rest fun mark name same => absurd same (other mark name)

theorem encloses_this (mark : Mark) (name : Name) (rest : Encloses p) :
    Encloses (do Surveying.act (Resolving.checkThis name); Surveying.note (.this mark name); p) := by
  intro s enclosed
  by_cases inside : s.scoping.inClass = true
  · have checked : Surveying.act (Resolving.checkThis name) s = .ok () s := by
      simp only [Surveying.act, Resolving.checkThis, bind, EStateM.bind, get_run, inside, if_true, pure, EStateM.pure]
    unfold Ends
    rw [bind_ok _ checked]
    exact note_resumes _ s enclosed rest fun _ _ _ => enclosed.inside inside
  · have checked : ∃ e, Surveying.act (Resolving.checkThis name) s = .error e s := by
      simp [Surveying.act, Resolving.checkThis, bind, EStateM.bind, get_run, inside, Resolving.refuse, throw_run]
    obtain ⟨e, refused⟩ := checked
    unfold Ends
    rw [bind_error _ refused]
    trivial

theorem scope_resumes (site : Site) (scope : Scope) (s : Survey)
    (opened : Survey.Enclosed { s with
      scoping := { s.scoping with scopes := scope :: s.scoping.scopes }, sites := site :: s.sites })
    (inner : Encloses p) : Ends (Surveying.inScope site scope p) s (fun _ t => s.Resumes t) fun _ _ => True := by
  have run : Ends (do p; Surveying.act Resolving.closeScope; Surveying.leave)
      { s with scoping := { s.scoping with scopes := scope :: s.scoping.scopes }, sites := site :: s.sites }
      (fun _ t => s.Resumes t) fun _ _ => True := by
    apply ends_bind _ _ _ _ _ _ (inner _ opened)
    intro _ t resumes
    have tail : t.sites.tail = s.sites := congrArg List.tail resumes.sites
    cases scopes : t.scoping.scopes with
    | nil =>
        simp [Ends, Surveying.act, Resolving.closeScope, bind, EStateM.bind, get_run, scopes, Resolving.refuse, throw_run]
    | cons first outer =>
        simp only [Ends, Surveying.act, Resolving.closeScope, Surveying.leave, bind, EStateM.bind, get_run, scopes]
        exact ⟨tail, resumes.inClass, resumes.visits⟩
  exact run

theorem encloses_in_scope (site : Site) (scope : Scope) (inner : Encloses p) :
    Encloses (Surveying.inScope site scope p) := by
  intro s enclosed
  refine scope_resumes site scope s ⟨fun inside => ?_, enclosed.visits⟩ inner
  obtain ⟨outer, member, receiver⟩ := enclosed.inside inside
  exact ⟨outer, List.mem_cons_of_mem _ member, receiver⟩

theorem encloses_class (name : Name) (methods : List Routine) (inner : Encloses p) :
    Encloses (do
      let outside := (← get).scoping.inClass
      Surveying.act (modify fun s => { s with inClass := true })
      Surveying.inScope (.receiver name methods) Resolving.receiverScope p
      Surveying.act (modify fun s => { s with inClass := outside })) := by
  intro s enclosed
  let within : Survey := { s with scoping := { s.scoping with inClass := true } }
  have methods_ := scope_resumes (.receiver name methods) Resolving.receiverScope within
    ⟨fun _ => ⟨_, List.mem_cons_self, rfl⟩, enclosed.visits⟩ inner
  have run : Ends (do
      Surveying.inScope (.receiver name methods) Resolving.receiverScope p
      Surveying.act (modify fun t => { t with inClass := s.scoping.inClass })) within
      (fun _ t => s.Resumes t) fun _ _ => True := by
    apply ends_bind _ _ _ _ _ _ methods_
    exact fun _ t resumes => ⟨resumes.sites, rfl, resumes.visits⟩
  exact run

theorem encloses_around (kind : Surrounding) (inner : Encloses p) :
    Encloses (do
      let outside := (← get).scoping.surrounding
      Surveying.act (modify fun s => { s with surrounding := kind })
      p
      Surveying.act (modify fun s => { s with surrounding := outside })) := by
  intro s
  have begun : Encloses (Surveying.act (modify fun s => { s with surrounding := kind })) :=
    encloses_step _ fun t => (rfl : t.inClass = t.inClass)
  have ended : Encloses (Surveying.act (modify fun t => { t with surrounding := s.scoping.surrounding })) :=
    encloses_step _ fun t => (rfl : t.inClass = t.inClass)
  exact encloses_then begun (encloses_then inner ended) s

theorem encloses_visit (line : Nat) (rest : Encloses p) : Encloses (do Surveying.act (Resolving.visit line); p) :=
  encloses_then (encloses_act _ (balances_visit line)) rest

theorem encloses_name (name : Name) (rest : Encloses p) :
    Encloses (do Surveying.act (Resolving.declare name); Surveying.act (Resolving.define name); p) :=
  encloses_then (encloses_act _ (balances_declare name)) (encloses_then (encloses_act _ (balances_define name)) rest)

end Rules

mutual
theorem encloses_expr : ∀ e : Expr, Encloses e.survey
  | .literal mark _ => encloses_act _ (balances_visit mark.line)
  | .grouping mark inner => encloses_visit mark.line (encloses_expr inner)
  | .unary mark _ right => encloses_visit mark.line (encloses_expr right)
  | .binary mark left _ right | .logical mark left _ right =>
      encloses_visit mark.line (encloses_then (encloses_expr left) (encloses_expr right))
  | .ident mark name =>
      encloses_visit mark.line (encloses_then (encloses_act _ (balances_check_read name))
        (encloses_note _ (by simp) (encloses_locate mark.id name)))
  | .assign mark name value =>
      encloses_visit mark.line (encloses_then (encloses_expr value)
        (encloses_note _ (by simp) (encloses_locate mark.id name)))
  | .call mark callee arguments _ =>
      encloses_visit mark.line (encloses_then (encloses_act _ (balances_check_callee callee))
        (encloses_then (encloses_expr callee) (encloses_exprs arguments)))
  | .get mark object _ => encloses_visit mark.line (encloses_expr object)
  | .set mark object _ value => encloses_visit mark.line (encloses_then (encloses_expr value) (encloses_expr object))
  | .this mark name => encloses_visit mark.line (encloses_this mark name (encloses_locate mark.id name))

theorem encloses_exprs : ∀ es : List Expr, Encloses (Expr.surveyAll es)
  | [] => encloses_pure
  | e :: rest => encloses_then (encloses_expr e) (encloses_exprs rest)
end

mutual
theorem encloses_stmt : ∀ s : Stmt, Encloses s.survey
  | .expression e => encloses_expr e
  | .var name none =>
      encloses_then (encloses_act _ (balances_declare name)) (encloses_act _ (balances_define name))
  | .var name (some e) =>
      encloses_then (encloses_act _ (balances_declare name))
        (encloses_then (encloses_expr e) (encloses_act _ (balances_define name)))
  | .block body => encloses_in_scope _ _ (encloses_stmts body)
  | .branch condition body alternative =>
      encloses_then (encloses_expr condition)
        (encloses_then (encloses_in_scope _ _ (encloses_stmts body)) (encloses_alternative alternative))
  | .while condition body => encloses_then (encloses_expr condition) (encloses_in_scope _ _ (encloses_stmts body))
  | .function routine => encloses_name routine.name (encloses_routine .function routine)
  | .return line none => encloses_act _ (balances_check_return line false)
  | .return line (some e) => encloses_then (encloses_act _ (balances_check_return line true)) (encloses_expr e)
  | .class name methods => by
      apply encloses_name
      cases Resolving.repeated? [] methods with
      | some method => exact encloses_step _ fun _ => trivial
      | none => exact encloses_class name methods (encloses_routines methods)

theorem encloses_alternative : ∀ a : Alternative, Encloses a.survey
  | .none => encloses_pure
  | .elseIf condition body alternative =>
      encloses_then (encloses_expr condition)
        (encloses_then (encloses_in_scope _ _ (encloses_stmts body)) (encloses_alternative alternative))
  | .block body => encloses_in_scope _ _ (encloses_stmts body)

theorem encloses_routine (kind : Surrounding) : ∀ r : Routine, Encloses (r.survey kind)
  | ⟨_, parameters, body⟩ =>
      encloses_around kind (encloses_in_scope _ _
        (encloses_then (encloses_act _ (balances_parameters parameters)) (encloses_stmts body)))

theorem encloses_stmts : ∀ body : List Stmt, Encloses (Stmt.surveyAll body)
  | [] => encloses_pure
  | s :: rest => encloses_then (encloses_stmt s) (encloses_stmts rest)

theorem encloses_routines : ∀ methods : List Routine, Encloses (Routine.surveyAll methods)
  | [] => encloses_pure
  | method :: rest => encloses_then (encloses_routine _ method) (encloses_routines rest)
end

end TreeWalk
