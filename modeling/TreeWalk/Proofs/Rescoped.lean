import TreeWalk.Proofs.Alpha
import TreeWalk.Proofs.Echoes
import TreeWalk.Proofs.Identities
import TreeWalk.Proofs.Runs

set_option autoImplicit false

namespace TreeWalk

open Resolving

variable {r : Alpha}

theorem alpha_apart {own other : Bool} {a b : String} (first : a ≠ r.new) (second : b ≠ r.new)
    (same : r.spell own a = r.spell other b) : a = b := by
  unfold Alpha.spell at same
  split at same <;> split at same
  · simp_all
  · exact (second same.symm).elim
  · exact (first same).elim
  · exact same

theorem reading_spelled (name : String) : ∀ scopes : List (Frame × Bool),
    ∃ own, r.scheme.reading scopes name = r.spell own name
  | [] => ⟨false, rfl⟩
  | (frame, own) :: outer => by
      unfold Scheme.reading
      split
      · exact ⟨own, rfl⟩
      · exact reading_spelled name outer

abbrev Alpha.Respells (r : Alpha) (own : Bool) (scope other : Scope) : Prop :=
  Bindings.Spelled (r.spell own) (· ≠ r.new) Eq scope other

def Alpha.RespellsAll (r : Alpha) : List (Frame × Bool) → List Scope → Prop
  | [], others => others = []
  | (frame, own) :: outer, others =>
      ∃ other rest, others = other :: rest ∧ r.Respells own frame.scope other ∧ RespellsAll r outer rest

theorem respells_contains {own : Bool} {scope other : Scope} (respells : r.Respells own scope other) {name : String}
    (different : name ≠ r.new) {key : String} (spelled : ∃ mark, key = r.spell mark name)
    (absent : scope.contains name = false) : other.contains key = false := by
  obtain ⟨mark, rfl⟩ := spelled
  rw [← Bool.not_eq_true]
  intro known
  obtain ⟨before, inside, same⟩ := respells.origin _ known
  rw [alpha_apart (respells.allowed before inside) different same, absent] at inside
  cases inside

theorem respells_insert {own : Bool} {scope other : Scope} (respells : r.Respells own scope other) (name : String)
    (ready : Bool) (different : name ≠ r.new) :
    r.Respells own (scope.insert name ready) (other.insert (r.spell own name) ready) :=
  Bindings.spelled_insert (fun _ _ first second => alpha_apart first second) respells name ready ready different rfl

theorem respells_place {name : String} (different : name ≠ r.new) : ∀ (scopes : List (Frame × Bool)) (others : List Scope),
    r.RespellsAll scopes others →
    others.findIdx? (fun scope => scope.contains (r.scheme.reading scopes name)) =
      (scopes.map fun scope => scope.1.scope).findIdx? fun scope => scope.contains name
  | [], _, same => by
      cases same
      rfl
  | (frame, own) :: outer, _, ⟨other, rest, same, respells, further⟩ => by
      subst same
      rw [List.findIdx?_cons, List.map_cons, List.findIdx?_cons]
      cases here : frame.scope.contains name with
      | true =>
          have there : other.contains (r.spell own name) = true := Bindings.spelled_contains respells name here
          simp only [Scheme.reading, here, if_true, there]
      | false =>
          have there := respells_contains respells different (reading_spelled name outer) here
          simp only [Scheme.reading, here, Bool.false_eq_true, if_false, there]
          rw [respells_place different outer rest further]

structure Scoping.Respelled (r : Alpha) (scopes : List (Frame × Bool)) (s t : Scoping) : Prop where
  here : s.scopes = scopes.map fun scope => scope.1.scope
  there : r.RespellsAll scopes t.scopes
  surrounding : t.surrounding = s.surrounding
  inClass : t.inClass = s.inClass
  distances : t.distances = s.distances

def Alpha.Checks (r : Alpha) (scopes : List (Frame × Bool)) (p q : Resolving Unit) (after : List (Frame × Bool)) : Prop :=
  ∀ s t, s.Respelled r scopes t → ∀ s', p s = .ok () s' → ∃ t', q t = .ok () t' ∧ s'.Respelled r after t'

section Rules

variable {scopes mid after : List (Frame × Bool)} {p q p' q' : Resolving Unit}

theorem checks_pure : r.Checks scopes (return ()) (return ()) scopes := by
  intro s t state s' run
  cases run
  exact ⟨t, rfl, state⟩

theorem checks_then (first : r.Checks scopes p q mid) (rest : r.Checks mid p' q' after) :
    r.Checks scopes (do p; p') (do q; q') after := by
  intro s t state s'' run
  cases begun : p s with
  | error e s' =>
      rw [bind_error _ begun] at run
      cases run
  | ok a s' =>
      rw [bind_ok _ begun] at run
      obtain ⟨t', there, next⟩ := first s t state s' begun
      rw [bind_ok _ there]
      exact rest s' t' next s'' run

theorem checks_refuse (line : Nat) (fault : ScopeFault) : r.Checks scopes (refuse line fault) q after :=
  fun _ _ _ _ run => nomatch run

theorem checks_get {f g : Scoping → Resolving Unit}
    (rest : ∀ s t, s.Respelled r scopes t → ∀ s', f s s = .ok () s' → ∃ t', g t t = .ok () t' ∧ s'.Respelled r after t') :
    r.Checks scopes (get >>= f) (get >>= g) after :=
  rest

theorem checks_modify (f g : Scoping → Scoping) (kept : ∀ s t, s.Respelled r scopes t → (f s).Respelled r after (g t)) :
    r.Checks scopes (modify f) (modify g) after := by
  intro s t state s' run
  cases run
  exact ⟨g t, rfl, kept s t state⟩

theorem checks_visit (line other : Nat) : r.Checks scopes (visit line) (visit other) scopes :=
  checks_modify _ _ fun _ _ state => ⟨state.here, state.there, state.surrounding, state.inClass, state.distances⟩

theorem checks_in_scope (frame : Frame) {own : Bool} {next : Frame × Bool} {scope : Scope}
    (respells : r.Respells own frame.scope scope) (inner : r.Checks ((frame, own) :: scopes) p q (next :: scopes)) :
    r.Checks scopes (inScope frame.scope p) (inScope scope q) scopes := by
  have opened : r.Checks scopes (openScope frame.scope) (openScope scope) ((frame, own) :: scopes) :=
    checks_modify _ _ fun s t state =>
      ⟨congrArg (frame.scope :: ·) state.here, ⟨scope, t.scopes, rfl, respells, state.there⟩, state.surrounding,
        state.inClass, state.distances⟩
  apply checks_then opened
  · apply checks_then inner
    apply checks_get
    intro s t state s' run
    obtain ⟨other, rest, there, _, outer⟩ := state.there
    rw [there]
    rw [state.here, List.map_cons] at run
    cases run
    exact ⟨_, rfl, rfl, outer, state.surrounding, state.inClass, state.distances⟩

theorem checks_declare (name : Name) (different : name.text ≠ r.new) :
    r.Checks scopes (declare name) (declare (name.respell (r.scheme.declaring scopes))) (declareIn name false scopes) := by
  apply checks_then (checks_visit name.line _)
  apply checks_get
  intro s t state s' run
  cases scopes with
  | nil =>
      have none : t.scopes = [] := state.there
      simp only [state.here, List.map_nil] at run
      cases run
      simp only [none]
      exact ⟨t, rfl, state.here, state.there, state.surrounding, state.inClass, state.distances⟩
  | cons scope outer =>
      obtain ⟨frame, own⟩ := scope
      obtain ⟨other, rest, there, respells, further⟩ := state.there
      simp only [state.here, List.map_cons] at run
      cases known : frame.scope.contains name.text with
      | true =>
          simp only [known, if_true] at run
          cases run
      | false =>
          have absent := respells_contains respells different ⟨own, rfl⟩ known
          simp only [known, Bool.false_eq_true, if_false] at run
          cases run
          have goal : other.contains (name.respell (r.scheme.declaring ((frame, own) :: outer))).text = false := absent
          simp only [there, goal, Bool.false_eq_true, if_false]
          exact ⟨_, rfl, rfl, ⟨_, rest, rfl, respells_insert respells name.text false different, further⟩,
            state.surrounding, state.inClass, state.distances⟩

theorem checks_define (name : Name) (different : name.text ≠ r.new) :
    r.Checks (declareIn name false scopes) (define name) (define (name.respell (r.scheme.declaring scopes)))
      (declareIn name true scopes) := by
  apply checks_get
  intro s t state s' run
  cases scopes with
  | nil =>
      have none : t.scopes = [] := state.there
      have empty : s.scopes = [] := state.here
      simp only [empty] at run
      cases run
      simp only [none]
      exact ⟨t, rfl, state.here, state.there, state.surrounding, state.inClass, state.distances⟩
  | cons scope outer =>
      obtain ⟨frame, own⟩ := scope
      obtain ⟨other, rest, there, respells, further⟩ := state.there
      have here : s.scopes = frame.scope.insert name.text false :: outer.map fun scope => scope.1.scope := state.here
      have known : other.contains (name.respell (r.scheme.declaring ((frame, own) :: outer))).text = true :=
        Bindings.spelled_contains respells name.text (Bindings.contains_insert_self _ _ _)
      simp only [here, Bindings.contains_insert_self, if_true] at run
      cases run
      simp only [there, known, if_true]
      refine ⟨_, rfl, ?_, ⟨_, rest, rfl, ?_, further⟩, state.surrounding, state.inClass, state.distances⟩
      · simp only [Bindings.insert_insert]
        rfl
      · have again := respells_insert respells name.text true different
        rwa [show (Bindings.insert (Bindings.insert frame.scope name.text false) name.text true) = _ from
          Bindings.insert_insert _ _ _ _] at again

theorem checks_declared (scopes : List (Frame × Bool)) (name : Name) (different : name.text ≠ r.new) :
    r.Checks scopes (do declare name; define name)
      (do declare (name.respell (r.scheme.declaring scopes)); define (name.respell (r.scheme.declaring scopes)))
      (declareIn name true scopes) :=
  checks_then (checks_declare name different) (checks_define name different)

theorem checks_parameters (own : Bool) (outer : List (Frame × Bool)) : ∀ (names : List Name) (frame : Frame),
    (∀ name ∈ names, name.text ≠ r.new) →
    r.Checks ((frame, own) :: outer) (declareAll names) (declareAll (names.map (Name.respell (r.spell own))))
      (({ frame with scope := names.foldl (fun scope name => scope.insert name.text true) frame.scope }, own) :: outer)
  | [], _, _ => checks_pure
  | name :: rest, frame, different => by
      have first : r.Checks ((frame, own) :: outer) (do declare name; define name) _ _ :=
        checks_declared _ name (different name List.mem_cons_self)
      have others := checks_parameters own outer rest { frame with scope := frame.scope.insert name.text true }
        fun other member => different other (List.mem_cons_of_mem _ member)
      have whole := checks_then first others
      simp only [bind_assoc] at whole
      exact whole

theorem checks_callee (f : String → String) (callee : Expr) :
    r.Checks scopes (checkCallee callee) (checkCallee (callee.respell f)) scopes := by
  cases callee with
  | get mark object name =>
      simp only [checkCallee, Expr.respell]
      split
      · exact checks_refuse name.line _
      · exact checks_pure
  | _ => exact checks_pure

theorem checks_read (name : Name) (different : name.text ≠ r.new) :
    r.Checks scopes (checkRead name) (checkRead (name.respell (r.scheme.reading scopes))) scopes := by
  apply checks_get
  intro s t state s' run
  cases scopes with
  | nil =>
      have none : t.scopes = [] := state.there
      simp only [state.here, List.map_nil] at run
      cases run
      simp only [none]
      exact ⟨t, rfl, state⟩
  | cons scope outer =>
      obtain ⟨frame, own⟩ := scope
      obtain ⟨other, rest, there, respells, further⟩ := state.there
      have read : other.find? (r.scheme.reading ((frame, own) :: outer) name.text) = frame.scope.find? name.text := by
        cases found : frame.scope.find? name.text with
        | some ready =>
            have known := Bindings.contains_of_find name.text ready found
            obtain ⟨ready', same, rfl⟩ := respells.found name.text ready found
            simpa only [Scheme.reading, known, if_true] using same
        | none =>
            have absent : frame.scope.contains name.text = false := by simp [Bindings.contains, found]
            have gone := respells_contains respells different (reading_spelled name.text ((frame, own) :: outer)) absent
            simpa [Bindings.contains] using gone
      simp only [state.here, List.map_cons] at run
      have same : (other.find? (name.respell (r.scheme.reading ((frame, own) :: outer))).text == some false) =
          (frame.scope.find? name.text == some false) := congrArg (· == some false) read
      cases waiting : frame.scope.find? name.text == some false with
      | true =>
          simp only [waiting, if_true] at run
          cases run
      | false =>
          simp only [waiting, Bool.false_eq_true, if_false] at run
          cases run
          simp only [there, same, waiting, Bool.false_eq_true, if_false]
          exact ⟨t, rfl, state⟩

theorem checks_locate (scopes : List (Frame × Bool)) (id : Nat) (name : Name) (different : name.text ≠ r.new) :
    r.Checks scopes (locate id name) (locate id (name.respell (r.scheme.reading scopes))) scopes := by
  apply checks_get
  intro s t state s' run
  have place := respells_place different scopes t.scopes state.there
  rw [← state.here] at place
  simp only [Name.respell, place, state.distances]
  revert run
  generalize (s.scopes.findIdx? fun scope => scope.contains name.text) = found
  intro run
  cases found with
  | none =>
      cases run
      exact ⟨t, rfl, state⟩
  | some distance =>
      dsimp only at run ⊢
      cases noted : s.distances.note id distance name.line with
      | error e =>
          rw [noted] at run
          cases run
      | ok distances =>
          rw [noted] at run
          cases run
          exact ⟨_, rfl, state.here, state.there, state.surrounding, state.inClass, rfl⟩

theorem checks_this (name : Name) : r.Checks scopes (checkThis name) (checkThis name) scopes := by
  apply checks_get
  intro s t state s' run
  cases inside : s.inClass with
  | false =>
      simp only [inside, Bool.false_eq_true, if_false] at run
      cases run
  | true =>
      simp only [inside, if_true] at run
      cases run
      simp only [state.inClass, inside, if_true]
      exact ⟨t, rfl, state⟩

theorem checks_return (line : Nat) (hasValue : Bool) :
    r.Checks scopes (checkReturn line hasValue) (checkReturn line hasValue) scopes := by
  apply checks_get
  intro s t state s' run
  rw [state.surrounding]
  cases around : s.surrounding <;> cases hasValue <;> rw [around] at run <;> cases run <;> exact ⟨t, rfl, state⟩

theorem checks_around (change : Scoping → Scoping) (undo : Scoping → Scoping → Scoping)
    (inner : r.Checks scopes p q after)
    (changed : ∀ s t, s.Respelled r scopes t → (change s).Respelled r scopes (change t))
    (undone : ∀ s t, s.Respelled r scopes t → ∀ u v, u.Respelled r after v → (undo s u).Respelled r after (undo t v)) :
    r.Checks scopes (do let s ← get; modify change; p; modify (undo s)) (do let s ← get; modify change; q; modify (undo s))
      after := by
  apply checks_get
  intro s t state
  exact checks_then (checks_modify _ _ changed)
    (checks_then inner (checks_modify _ _ (undone s t state))) s t state

end Rules

theorem behind_tail (s : Stmt) (frame : Frame) (own : Bool) (outer : List (Frame × Bool)) :
    ∃ next, s.behind ((frame, own) :: outer) = (next, own) :: outer := by
  cases s <;> exact ⟨_, rfl⟩

def Stmt.behindAll (scopes : List (Frame × Bool)) (body : List Stmt) : List (Frame × Bool) :=
  body.foldl (fun scopes s => s.behind scopes) scopes

theorem behind_all_tail (body : List Stmt) (frame : Frame) (own : Bool) (outer : List (Frame × Bool)) :
    ∃ next, Stmt.behindAll ((frame, own) :: outer) body = (next, own) :: outer := by
  induction body generalizing frame with
  | nil => exact ⟨frame, rfl⟩
  | cons s rest ih =>
      obtain ⟨next, left⟩ := behind_tail s frame own outer
      obtain ⟨last, right⟩ := ih next
      exact ⟨last, by simpa only [Stmt.behindAll, List.foldl_cons, left] using right⟩

theorem repeated_paired {scopes : List (Frame × Bool)} (seen : List String) : ∀ methods others : List Routine,
    Routine.PairedAll r.scheme scopes methods others → repeated? seen others = repeated? seen methods
  | [], _, same => by cases same; rfl
  | ⟨name, parameters, body⟩ :: rest, _, ⟨_, rest', same, ⟨_, _, method, _⟩, others⟩ => by
      subst same
      subst method
      simp only [repeated?]
      rw [repeated_paired _ rest rest' others]

section Programs

def Alpha.Unused (r : Alpha) (references : List Reference) : Prop :=
  r.new ∉ references.map Reference.name

theorem unused_left {first second : List Reference} (unused : r.Unused (first ++ second)) : r.Unused first :=
  fun member => unused (by rw [List.map_append]; exact List.mem_append_left _ member)

theorem unused_right {first second : List Reference} (unused : r.Unused (first ++ second)) : r.Unused second :=
  fun member => unused (by rw [List.map_append]; exact List.mem_append_right _ member)

theorem unused_head {reference : Reference} {rest : List Reference} (unused : r.Unused (reference :: rest)) :
    reference.name ≠ r.new :=
  fun same => unused (same ▸ List.mem_cons_self)

theorem unused_tail {reference : Reference} {rest : List Reference} (unused : r.Unused (reference :: rest)) :
    r.Unused rest :=
  fun member => unused (List.mem_cons_of_mem _ member)

variable {scopes : List (Frame × Bool)} {p q : Resolving Unit} {after : List (Frame × Bool)}

theorem checks_behind (line : Nat) (checks : r.Checks scopes p q after) :
    r.Checks scopes (do visit line; p) (do visit line; q) after :=
  checks_then (checks_visit line line) checks

mutual
theorem checks_expr : ∀ (e : Expr) (scopes : List (Frame × Bool)), e.Proper → r.Unused e.references →
    r.Checks scopes e.resolve (e.respell (r.scheme.reading scopes)).resolve scopes
  | .literal mark _, _, _, _ => checks_visit mark.line mark.line
  | .grouping mark inner, scopes, proper, unused => checks_behind mark.line (checks_expr inner scopes proper unused)
  | .unary mark _ right, scopes, proper, unused => checks_behind mark.line (checks_expr right scopes proper unused)
  | .binary mark left _ right, scopes, proper, unused | .logical mark left _ right, scopes, proper, unused =>
      checks_behind mark.line (checks_then (checks_expr left scopes proper.1 (unused_left unused))
        (checks_expr right scopes proper.2 (unused_right unused)))
  | .ident mark name, scopes, _, unused =>
      checks_behind mark.line (checks_then (checks_read name (unused_head unused))
        (checks_locate scopes mark.id name (unused_head unused)))
  | .assign mark name value, scopes, proper, unused =>
      checks_behind mark.line (checks_then (checks_expr value scopes proper.2 (unused_tail unused))
        (checks_locate scopes mark.id name (unused_head unused)))
  | .call mark callee arguments _, scopes, proper, unused =>
      checks_behind mark.line (checks_then (checks_callee _ callee)
        (checks_then (checks_expr callee scopes proper.1 (unused_left unused))
          (checks_exprs arguments scopes proper.2 (unused_right unused))))
  | .get mark object _, scopes, proper, unused => checks_behind mark.line (checks_expr object scopes proper unused)
  | .set mark object _ value, scopes, proper, unused =>
      checks_behind mark.line (checks_then (checks_expr value scopes proper.2 (unused_right unused))
        (checks_expr object scopes proper.1 (unused_left unused)))
  | .this mark name, scopes, proper, unused => by
      have located := checks_locate scopes mark.id name (unused_head unused)
      rw [receiver_respell r.scheme scopes proper] at located
      exact checks_behind mark.line (checks_then (checks_this name) located)

theorem checks_exprs : ∀ (es : List Expr) (scopes : List (Frame × Bool)), Expr.ProperAll es →
    r.Unused (Expr.referencesAll es) →
    r.Checks scopes (Expr.resolveAll es) (Expr.resolveAll (Expr.respellAll (r.scheme.reading scopes) es)) scopes
  | [], _, _, _ => checks_pure
  | e :: rest, scopes, proper, unused =>
      checks_then (checks_expr e scopes proper.1 (unused_left unused)) (checks_exprs rest scopes proper.2 (unused_right unused))
end

theorem checks_paired {e e' : Expr} {scopes : List (Frame × Bool)} (paired : e.Paired r.scheme scopes e')
    (unused : r.Unused e.references) : r.Checks scopes e.resolve e'.resolve scopes := by
  obtain ⟨rfl, proper⟩ := paired
  exact checks_expr e scopes proper unused

theorem checks_enclosed {site : Site} {own : Bool} {body body' : List Stmt}
    (inner : r.Checks ((.fresh site, own) :: scopes) (Stmt.resolveAll body) (Stmt.resolveAll body')
      (Stmt.behindAll ((.fresh site, own) :: scopes) body)) :
    r.Checks scopes (inScope Bindings.empty (Stmt.resolveAll body)) (inScope Bindings.empty (Stmt.resolveAll body'))
      scopes := by
  obtain ⟨next, left⟩ := behind_all_tail body (.fresh site) own scopes
  rw [left] at inner
  exact checks_in_scope (.fresh site) Bindings.spelled_empty inner

theorem receiver_respelled : r.Respells false receiverScope receiverScope :=
  Bindings.spelled_insert (fun _ _ first second => alpha_apart first second) Bindings.spelled_empty receiverName true true
    (alpha_receiver r) rfl

theorem checks_function {routine routine' : Routine} (keeps : routine.name.Keeps r.scheme scopes)
    (same : routine'.name = routine.name) (different : routine.name.text ≠ r.new)
    (inner : r.Checks (declareIn routine.name true scopes) (routine.resolve .function) (routine'.resolve .function)
      (declareIn routine.name true scopes)) :
    r.Checks scopes (Stmt.function routine).resolve (Stmt.function routine').resolve
      (declareIn routine.name true scopes) := by
  have declared := checks_declared scopes routine.name different
  rw [(keeps_respell r.scheme keeps).trans same.symm] at declared
  have whole := checks_then declared inner
  simp only [bind_assoc] at whole
  exact whole

theorem checks_class {name : Name} {methods methods' : List Routine} (keeps : name.Keeps r.scheme scopes)
    (different : name.text ≠ r.new) (repeats : repeated? [] methods' = repeated? [] methods)
    (inner : r.Checks ((.receiver name methods, false) :: declareIn name true scopes) (Routine.resolveAll methods)
      (Routine.resolveAll methods') ((.receiver name methods, false) :: declareIn name true scopes)) :
    r.Checks scopes (Stmt.class name methods).resolve (Stmt.class name methods').resolve (declareIn name true scopes) := by
  have declared := checks_declared scopes name different
  rw [keeps_respell r.scheme keeps] at declared
  have around := checks_around (fun s => { s with inClass := true }) (fun s t => { t with inClass := s.inClass })
    (checks_in_scope (.receiver name methods) receiver_respelled inner)
    (fun s t state => ⟨state.here, state.there, state.surrounding, rfl, state.distances⟩)
    fun s t state u v next => ⟨next.here, next.there, next.surrounding, state.inClass, next.distances⟩
  unfold Stmt.resolve
  rw [repeats]
  cases repeated? [] methods with
  | some method =>
      have refused : r.Checks (declareIn name true scopes) (refuse method.line (.methodRepeated method.text name.text))
          (refuse method.line (.methodRepeated method.text name.text)) (declareIn name true scopes) :=
        checks_refuse _ _
      have whole := checks_then declared refused
      simp only [bind_assoc] at whole
      exact whole
  | none =>
      have whole := checks_then declared around
      simp only [bind_assoc] at whole
      exact whole

theorem method_kind_paired {method method' : Routine} (paired : method.Paired r.scheme scopes method') :
    methodKind method' = methodKind method := by
  unfold methodKind
  rw [routine_paired_constructor paired]

mutual
theorem checks_stmt : ∀ (s s' : Stmt) (scopes : List (Frame × Bool)), s.Paired r.scheme scopes s' →
    r.new ∉ s.own ++ s.inner → r.Unused s.references → r.Checks scopes s.resolve s'.resolve (s.behind scopes)
  | .expression _, _, _, ⟨_, same, paired⟩, _, unused => by
      subst same
      exact checks_paired paired unused
  | .var name none, _, _, ⟨same, _⟩, fresh, _ => by
      subst same
      exact checks_declared _ name (fresh_head fresh)
  | .var name (some _), _, _, ⟨_, same, _, paired⟩, fresh, unused => by
      subst same
      exact checks_then (checks_declare name (fresh_head fresh))
        (checks_then (checks_paired paired unused) (checks_define name (fresh_head fresh)))
  | .block body, _, _, ⟨_, body', same, _, paired⟩, fresh, unused => by
      subst same
      exact checks_enclosed (checks_stmts body body' _ paired fresh unused)
  | .branch _ body alternative, _, scopes, ⟨_, _, body', alternative', same, first, _, paired, others⟩, fresh, unused => by
      subst same
      exact checks_then (checks_paired first (unused_left (unused_left unused)))
        (checks_then (checks_enclosed (checks_stmts body body' _ paired (fresh_left fresh)
          (unused_right (unused_left unused))))
        (checks_alternative alternative alternative' scopes others (fresh_right fresh) (unused_right unused)))
  | .while _ body, _, _, ⟨_, _, body', same, first, _, paired⟩, fresh, unused => by
      subst same
      exact checks_then (checks_paired first (unused_left unused))
        (checks_enclosed (checks_stmts body body' _ paired fresh (unused_right unused)))
  | .function routine, _, scopes, ⟨routine', same, keeps, paired⟩, fresh, unused => by
      subst same
      exact checks_function keeps (routine_paired_name paired) (fresh_head fresh)
        (checks_routine .function routine routine' _ paired (fresh_tail fresh) unused)
  | .return line none, _, _, same, _, _ => by
      cases same
      exact checks_return line false
  | .return line (some _), _, _, ⟨_, same, paired⟩, _, unused => by
      subst same
      exact checks_then (checks_return line true) (checks_paired paired unused)
  | .class _ methods, _, _, ⟨methods', same, keeps, _, paired⟩, fresh, unused => by
      subst same
      exact checks_class keeps (fresh_head fresh) (repeated_paired [] methods methods' paired)
        (checks_routines methods methods' _ paired (fresh_tail fresh) unused)

theorem checks_alternative : ∀ (a a' : Alternative) (scopes : List (Frame × Bool)), a.Paired r.scheme scopes a' →
    r.new ∉ a.inner → r.Unused a.references → r.Checks scopes a.resolve a'.resolve scopes
  | .none, _, _, same, _, _ => by
      cases same
      exact checks_pure
  | .elseIf _ body alternative, _, scopes, ⟨_, _, body', alternative', same, first, _, paired, others⟩, fresh, unused => by
      subst same
      exact checks_then (checks_paired first (unused_left (unused_left unused)))
        (checks_then (checks_enclosed (checks_stmts body body' _ paired (fresh_left fresh)
          (unused_right (unused_left unused))))
        (checks_alternative alternative alternative' scopes others (fresh_right fresh) (unused_right unused)))
  | .block body, _, _, ⟨_, body', same, _, paired⟩, fresh, unused => by
      subst same
      exact checks_enclosed (checks_stmts body body' _ paired fresh unused)

theorem checks_routine (kind : Surrounding) : ∀ (routine routine' : Routine) (scopes : List (Frame × Bool)),
    routine.Paired r.scheme scopes routine' → r.new ∉ routine.inner → r.Unused routine.references →
    r.Checks scopes (routine.resolve kind) (routine'.resolve kind) scopes
  | ⟨name, parameters, body⟩, _, scopes, ⟨own, body', same, _, _, paired⟩, fresh, unused => by
      subst same
      have different : ∀ parameter ∈ parameters, parameter.text ≠ r.new := fun parameter member same =>
        fresh_left fresh (same ▸ List.mem_map_of_mem member)
      have bodies := checks_stmts body body' _ paired (fresh_right fresh) unused
      obtain ⟨next, left⟩ := behind_all_tail body (Routine.mk name parameters body).frame own scopes
      rw [left] at bodies
      have inner := checks_in_scope (.fresh (.routine ⟨name, parameters, body⟩)) Bindings.spelled_empty
        (checks_then (checks_parameters own scopes parameters (.fresh (.routine ⟨name, parameters, body⟩)) different) bodies)
      exact checks_around (fun s => { s with surrounding := kind }) (fun s t => { t with surrounding := s.surrounding }) inner
        (fun s t state => ⟨state.here, state.there, rfl, state.inClass, state.distances⟩)
        fun s t state u v next => ⟨next.here, next.there, state.surrounding, next.inClass, next.distances⟩

theorem checks_stmts : ∀ (body body' : List Stmt) (scopes : List (Frame × Bool)),
    Stmt.PairedAll r.scheme scopes body body' → r.new ∉ Stmt.declaredAll body → r.Unused (Stmt.referencesAll body) →
    r.Checks scopes (Stmt.resolveAll body) (Stmt.resolveAll body') (Stmt.behindAll scopes body)
  | [], _, _, same, _, _ => by
      cases same
      exact checks_pure
  | s :: rest, _, scopes, ⟨s', rest', same, first, others⟩, fresh, unused => by
      subst same
      exact checks_then (checks_stmt s s' scopes first (fresh_left fresh) (unused_left unused))
        (checks_stmts rest rest' _ others (fresh_right fresh) (unused_right unused))

theorem checks_routines : ∀ (methods methods' : List Routine) (scopes : List (Frame × Bool)),
    Routine.PairedAll r.scheme scopes methods methods' → r.new ∉ Routine.innerAll methods →
    r.Unused (Routine.referencesAll methods) →
    r.Checks scopes (Routine.resolveAll methods) (Routine.resolveAll methods') scopes
  | [], _, _, same, _, _ => by
      cases same
      exact checks_pure
  | method :: rest, _, scopes, ⟨method', rest', same, first, others⟩, fresh, unused => by
      subst same
      have checked : r.Checks scopes (method.resolve (methodKind method)) (method'.resolve (methodKind method')) scopes := by
        rw [method_kind_paired first]
        exact checks_routine (methodKind method) method method' scopes first (fresh_left fresh) (unused_left unused)
      exact checks_then checked (checks_routines rest rest' scopes others (fresh_right fresh) (unused_right unused))
end

theorem resolve_respelled (program renamed : Program) (paired : Stmt.PairedAll r.scheme [] program renamed)
    (fresh : r.new ∉ program.declared) (unused : r.Unused program.references) (distances : Distances)
    (accepted : ∃ a, (program.resolve distances).1 = .ok a) : renamed.resolve distances = program.resolve distances := by
  have checked := checks_stmts program renamed [] paired fresh unused (.start distances) (.start distances)
    ⟨rfl, rfl, rfl, rfl, rfl⟩
  obtain ⟨_, accepted⟩ := accepted
  unfold Program.resolve EStateM.run at accepted ⊢
  cases run : Stmt.resolveAll program (.start distances) with
  | error e s =>
      rw [run] at accepted
      cases accepted
  | ok a s =>
      obtain ⟨t, there, same⟩ := checked s run
      rw [there]
      simp only [same.distances]

end Programs

end TreeWalk
