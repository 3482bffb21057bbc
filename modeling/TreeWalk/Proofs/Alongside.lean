import TreeWalk.Proofs.Accompanied

set_option autoImplicit false

namespace TreeWalk

open Eval

section Declarations

variable {k : Duet} {env : Env} {world : List k.scheme.Mark} {scopes : List (Frame × k.scheme.Mark)}

theorem leads_function (stands : k.scheme.Stands world scopes env) {routine routine' : Routine}
    (keeps : routine.name.Keeps k.scheme scopes)
    (settled : routine.Settled k.seen (routine.name.markIn true (scopes.map Prod.fst)))
    (paired : routine.Paired k.scheme (declareIn routine.name true scopes) routine') :
    k.Leads env world (defineFunction routine) (defineFunction routine') fun _ _ _ => True := by
  unfold defineFunction
  rw [routine_paired_name paired]
  apply leads_bind (leads_store _ _ leads_new_identity)
  rintro wider identity _ grown rfl
  apply leads_env
  have later := stands_declare routine.name true (stands_mono grown stands)
  have same : k.Echoes wider (.function identity ⟨routine, env, false⟩) (.function identity ⟨routine', env, false⟩) :=
    ⟨_, rfl, rfl, rfl, declareIn routine.name true scopes, later.views, later.fits,
      (declare_frames routine.name true scopes).symm ▸ settled, paired⟩
  have defined := leads_define_name (stands_mono grown stands) routine.name keeps.allowed same
  rwa [keeps_respell k.scheme keeps] at defined

theorem methods_echoed {name : Name} {methods : List Routine} (views : Views world scopes env.chain)
    (fits : k.scheme.Fits ((.receiver name methods, k.scheme.receiver) :: scopes)) :
    ∀ (some others : List Routine) (b b' : Bindings Closure),
      b.Paired (Closure.Echoed k.scheme k.seen world [(.receiver name methods, k.scheme.receiver)]) b' →
      Routine.SettledAll k.seen (.receiver name methods :: scopes.map Prod.fst) some →
      Routine.PairedAll k.scheme ((.receiver name methods, k.scheme.receiver) :: scopes) some others →
      ((some.map fun m => (m.name.text, Closure.mk m env m.isConstructor)).foldl
        (fun b entry => b.insert entry.1 entry.2) b).Paired
        (Closure.Echoed k.scheme k.seen world [(.receiver name methods, k.scheme.receiver)])
        ((others.map fun m => (m.name.text, Closure.mk m env m.isConstructor)).foldl
          (fun b entry => b.insert entry.1 entry.2) b')
  | [], _, _, _, before, _, paired => by
      cases paired
      exact before
  | method :: rest, _, b, b', before, settled, ⟨method', rest', same, paired, others⟩ => by
      subst same
      simp only [List.map_cons, List.foldl_cons, routine_paired_name paired, routine_paired_constructor paired]
      exact methods_echoed views fits rest rest' _ _
        (Bindings.paired_insert before _ _ _ ⟨rfl, rfl, scopes, views, fits, settled.1, paired⟩) settled.2 others

theorem define_ok (name : Name) (value : Value) (m : Machine)
    (absent : (m.store.layer m.env.inner).contains name.text = false) :
    define name value m = .ok () { m with store := m.store.write m.env.inner name.text value } := by
  simp only [define, currentEnv, bind, EStateM.bind, get_run, pure, EStateM.pure, onStore, Store.define, absent,
    Bool.false_eq_true, if_false]

theorem define_absent (name : Name) (value : Value) (m m' : Machine) (a : Unit) (run : define name value m = .ok a m') :
    (m.store.layer m.env.inner).contains name.text = false := by
  cases known : (m.store.layer m.env.inner).contains name.text with
  | false => rfl
  | true =>
      simp [define, currentEnv, bind, EStateM.bind, get_run, pure, EStateM.pure, onStore, Store.define, known] at run

theorem define_class_ok (name : Name) (methods : List Routine) (m : Machine)
    (absent : (m.store.layer m.env.inner).contains name.text = false) (inside : m.env.inner < m.store.layers.size) :
    defineClass name methods m = .ok () { m with
      store := Store.write { m.store.write m.env.inner name.text .none with nextIdentity := m.store.nextIdentity + 1 }
        m.env.inner name.text (.class ⟨m.store.nextIdentity, name.text,
          Bindings.ofList (methods.map fun r => (r.name.text, ⟨r, m.env, r.isConstructor⟩))⟩) } := by
  have there : ((m.store.write m.env.inner name.text .none).layer m.env.inner).contains name.text = true := by
    rw [Store.layer_write_self _ _ _ _ inside]
    exact Bindings.contains_insert_self _ _ _
  have owner : Store.owner? { m.store.write m.env.inner name.text .none with nextIdentity := m.store.nextIdentity + 1 }
      m.env.chain name.text = some m.env.inner := List.find?_cons_of_pos there
  unfold defineClass
  rw [bind_ok _ (define_ok name .none m absent)]
  have identity : ∀ s : Store, Store.newIdentity s = .ok s.nextIdentity { s with nextIdentity := s.nextIdentity + 1 } :=
    fun _ => rfl
  have next : (m.store.write m.env.inner name.text .none).nextIdentity = m.store.nextIdentity := rfl
  simp only [currentEnv, bind, EStateM.bind, get_run, pure, EStateM.pure, onStore, identity, next, Store.assign, owner]

theorem leads_class (stands : k.scheme.Stands world scopes env) (name : Name) {methods methods' : List Routine}
    (keeps : name.Keeps k.scheme scopes)
    (fits : k.scheme.Fits ((.receiver name methods, k.scheme.receiver) :: declareIn name true scopes))
    (settled : Routine.SettledAll k.seen (.receiver name methods :: name.markIn true (scopes.map Prod.fst)) methods)
    (paired : Routine.PairedAll k.scheme ((.receiver name methods, k.scheme.receiver) :: declareIn name true scopes)
      methods methods') :
    k.Leads env world (defineClass name methods) (defineClass name methods') fun _ _ _ => True := by
  intro m n echoed a m' run
  have here := echoed.here
  have there := echoed.there
  have marked := views_inner echoed.store scopes env stands.views
  have inside := mark_inside echoed.store marked
  have absent : (m.store.layer m.env.inner).contains name.text = false := by
    cases first : define name .none m with
    | error halt last =>
        unfold defineClass at run
        rw [bind_error _ first] at run
        cases run
    | ok a' last => exact define_absent name .none m last a' first
  have also : (n.store.layer n.env.inner).contains name.text = false := by
    rw [here] at absent
    have spelled := Bindings.spelled_absent (k.scheme.distinct _) (echoed.store.layers _ _ marked) name.text
      keeps.allowed absent
    rwa [show k.scheme.spell _ name.text = name.text from keeps.same, ← there] at spelled
  rw [define_class_ok name methods m absent (here ▸ inside)] at run
  cases run
  refine ⟨world, (), _, List.prefix_refl _,
    define_class_ok name methods' n also (there ▸ echoed.store.sizes ▸ inside), ?_, trivial⟩
  refine ⟨?_, here, there, echoed.distances, echoed.echoed, echoed.source, echoed.sink⟩
  have bound : k.Echoes world (.class ⟨m.store.nextIdentity, name.text, Bindings.ofList
      (methods.map fun r => (r.name.text, ⟨r, env, r.isConstructor⟩))⟩) (.class ⟨n.store.nextIdentity, name.text,
        Bindings.ofList (methods'.map fun r => (r.name.text, ⟨r, env, r.isConstructor⟩))⟩) :=
    ⟨_, rfl, echoed.store.identities, rfl, name, methods,
      methods_echoed (views_declare name true scopes _ stands.views) fits methods methods' _ _ Bindings.paired_empty
        (by rwa [declare_frames]) paired⟩
  have waiting := echoed_identity (echoed_write echoed.store marked keeps.allowed none_echoed)
  have whole := echoed_write waiting marked keeps.allowed bound
  rw [show k.scheme.spell _ name.text = name.text from keeps.same] at whole
  simp only [here, there]
  exact whole

end Declarations

structure Duet.Walks (k : Duet) (regime : Regime) (steps : Nat) : Prop where
  evaluate : ∀ (world : List k.scheme.Mark) (env : Env) (scopes : List (Frame × k.scheme.Mark)) (e e' : Expr),
    k.scheme.Stands world scopes env → e.Settled k.seen (scopes.map Prod.fst) → e.Paired k.scheme scopes e' →
    k.Leads env world (Regime.standard.evaluate steps e) (regime.evaluate steps e') k.Echoes
  arguments : ∀ (world : List k.scheme.Mark) (env : Env) (scopes : List (Frame × k.scheme.Mark)) (es : List Expr),
    k.scheme.Stands world scopes env → Expr.SettledAll k.seen (scopes.map Prod.fst) es → Expr.ProperAll es →
    k.Leads env world (Regime.standard.evaluateAll steps es)
      (regime.evaluateAll steps (Expr.respellAll (k.scheme.reading scopes) es)) k.EchoesAll
  call : ∀ (world : List k.scheme.Mark) (env : Env) (callee callee' : Value) (arguments arguments' : List Value)
    (line : Nat), k.Echoes world callee callee' → k.EchoesAll world arguments arguments' →
    k.Leads env world (Regime.standard.call steps callee arguments line) (regime.call steps callee' arguments' line)
      k.Echoes
  enter : ∀ (world : List k.scheme.Mark) (env : Env) (closure closure' : Closure) (arguments arguments' : List Value),
    closure.Echoed k.scheme k.seen world [] closure' → k.EchoesAll world arguments arguments' →
    k.Leads env world (Regime.standard.enter steps closure arguments) (regime.enter steps closure' arguments') k.Echoes
  execute : ∀ (world : List k.scheme.Mark) (env : Env) (scopes : List (Frame × k.scheme.Mark)) (s s' : Stmt),
    k.scheme.Stands world scopes env → s.Settled k.seen (scopes.map Prod.fst) → s.Paired k.scheme scopes s' →
    k.Leads env world (Regime.standard.execute steps s) (regime.execute steps s') k.Flows
  body : ∀ (world : List k.scheme.Mark) (env : Env) (scopes : List (Frame × k.scheme.Mark)) (body body' : List Stmt),
    k.scheme.Stands world scopes env → Stmt.SettledAll k.seen (scopes.map Prod.fst) body →
    Stmt.PairedAll k.scheme scopes body body' →
    k.Leads env world (Regime.standard.executeAll steps body) (regime.executeAll steps body') k.Flows
  choose : ∀ (world : List k.scheme.Mark) (env : Env) (scopes : List (Frame × k.scheme.Mark)) (condition condition' : Expr)
    (body body' : List Stmt) (mark : k.scheme.Mark) (alternative alternative' : Alternative),
    k.scheme.Stands world scopes env → condition.Settled k.seen (scopes.map Prod.fst) →
    Stmt.SettledAll k.seen (.fresh (.branch body) :: scopes.map Prod.fst) body →
    alternative.Settled k.seen (scopes.map Prod.fst) → condition.Paired k.scheme scopes condition' →
    k.scheme.Fits ((.fresh (.branch body), mark) :: scopes) →
    Stmt.PairedAll k.scheme ((.fresh (.branch body), mark) :: scopes) body body' →
    alternative.Paired k.scheme scopes alternative' →
    k.Leads env world (Regime.standard.choose steps condition body alternative)
      (regime.choose steps condition' body' alternative') k.Flows
  loop : ∀ (world : List k.scheme.Mark) (env inner : Env) (scopes : List (Frame × k.scheme.Mark))
    (condition condition' : Expr) (body body' : List Stmt) (mark : k.scheme.Mark),
    k.scheme.Stands world scopes env → k.scheme.Stands world ((.fresh (.loop body), mark) :: scopes) inner →
    condition.Settled k.seen (scopes.map Prod.fst) →
    Stmt.SettledAll k.seen (.fresh (.loop body) :: scopes.map Prod.fst) body → condition.Paired k.scheme scopes condition' →
    Stmt.PairedAll k.scheme ((.fresh (.loop body), mark) :: scopes) body body' →
    k.Leads env world (Regime.standard.repeatWhile steps condition body inner)
      (regime.repeatWhile steps condition' body' inner) k.Flows

section Walk

variable {k : Duet} {regime : Regime} (follows : k.Follows regime) {steps : Nat} (ih : k.Walks regime steps)
  {env : Env} {world : List k.scheme.Mark} {scopes : List (Frame × k.scheme.Mark)}

include follows ih in
theorem evaluate_alongside (e e' : Expr) (stands : k.scheme.Stands world scopes env)
    (settled : e.Settled k.seen (scopes.map Prod.fst)) (paired : e.Paired k.scheme scopes e') :
    k.Leads env world (Regime.standard.evaluate (steps + 1) e) (regime.evaluate (steps + 1) e') k.Echoes := by
  obtain ⟨rfl, proper⟩ := paired
  cases e with
  | literal mark literal => exact leads_pure _ _ ((echoed_plain (literal_plain literal)).mpr rfl)
  | grouping mark inner => exact ih.evaluate world env scopes inner _ stands settled ⟨rfl, proper⟩
  | unary mark operator right =>
      apply leads_bind (ih.evaluate world env scopes right _ stands settled ⟨rfl, proper⟩)
      exact fun wider value value' grown pair => leads_unary operator pair
  | binary mark left operator right =>
      apply leads_bind (ih.evaluate world env scopes left _ stands settled.1 ⟨rfl, proper.1⟩)
      intro wider first first' grown pair
      apply leads_bind (ih.evaluate wider env scopes right _ (stands_mono grown stands) settled.2 ⟨rfl, proper.2⟩)
      exact fun widest second second' further other => leads_binary operator (value_mono further pair) other
  | logical mark left operator right =>
      apply leads_bind (ih.evaluate world env scopes left _ stands settled.1 ⟨rfl, proper.1⟩)
      intro wider value value' grown pair
      cases value with
      | bool truth =>
          cases pair
          dsimp only
          by_cases done : Value.settles operator truth = true
          · simp only [done, if_true]
            exact leads_pure (Value.bool truth) (Value.bool truth) rfl
          · simp only [done]
            exact ih.evaluate wider env scopes right _ (stands_mono grown stands) settled.2 ⟨rfl, proper.2⟩
      | _ => exact leads_fail _ _
  | ident mark name => exact follows.read world env scopes _ mark.id name rfl settled.1 stands
  | this mark name =>
      have read := follows.read world env scopes (.this mark name) mark.id name rfl settled.1 stands
      rwa [receiver_respell k.scheme scopes proper] at read
  | assign mark name value =>
      apply leads_bind (ih.evaluate world env scopes value _ stands settled.1 ⟨rfl, proper.2⟩)
      intro wider result result' grown pair
      apply leads_bind (follows.write wider env scopes _ mark.id name result result' rfl settled.2
        (stands_mono grown stands) pair)
      exact fun widest _ _ further _ => leads_pure _ _ (value_mono further pair)
  | call mark callee arguments line =>
      apply leads_bind (ih.evaluate world env scopes callee _ stands settled.2.1 ⟨rfl, proper.1⟩)
      intro wider function function' grown pair
      apply leads_bind (ih.arguments wider env scopes arguments (stands_mono grown stands) settled.2.2 proper.2)
      intro widest values values' further pairs
      apply leads_bind (leads_arity line line (value_mono further pair) pairs)
      intro last _ _ final _
      exact ih.call last env _ _ _ _ line (value_mono (further.trans final) pair) (values_mono final pairs)
  | get mark object name =>
      apply leads_bind (ih.evaluate world env scopes object _ stands settled ⟨rfl, proper⟩)
      exact fun wider value value' grown pair => leads_get_property name pair
  | set mark object name value =>
      apply leads_bind (ih.evaluate world env scopes object _ stands settled.2 ⟨rfl, proper.1⟩)
      intro wider target target' grown same
      cases target with
      | object target =>
          obtain ⟨target', rfl, same⟩ := same
          apply leads_bind (ih.evaluate wider env scopes value _ (stands_mono grown stands) settled.1 ⟨rfl, proper.2⟩)
          intro widest result result' further pair
          apply leads_bind (leads_store _ _ (leads_set_field (object_echoed_mono (fun _ => id) further _ _ same)
            name.text pair))
          exact fun last _ _ final _ => leads_pure _ _ (value_mono final pair)
      | _ => exact leads_fail _ _

include ih in
theorem arguments_alongside (es : List Expr) (stands : k.scheme.Stands world scopes env)
    (settled : Expr.SettledAll k.seen (scopes.map Prod.fst) es) (proper : Expr.ProperAll es) :
    k.Leads env world (Regime.standard.evaluateAll (steps + 1) es)
      (regime.evaluateAll (steps + 1) (Expr.respellAll (k.scheme.reading scopes) es)) k.EchoesAll := by
  cases es with
  | nil => exact leads_pure _ _ rfl
  | cons e rest =>
      apply leads_bind (ih.evaluate world env scopes e _ stands settled.1 ⟨rfl, proper.1⟩)
      intro wider value value' grown pair
      apply leads_bind (ih.arguments wider env scopes rest (stands_mono grown stands) settled.2 proper.2)
      intro widest values values' further pairs
      exact leads_pure (value :: values) (value' :: values') ⟨value', values', rfl, value_mono further pair, pairs⟩

include ih in
theorem call_alongside (callee callee' : Value) (arguments arguments' : List Value) (line : Nat)
    (pair : k.Echoes world callee callee') (pairs : k.EchoesAll world arguments arguments') :
    k.Leads env world (Regime.standard.call (steps + 1) callee arguments line)
      (regime.call (steps + 1) callee' arguments' line) k.Echoes := by
  cases callee with
  | native native => cases pair; exact leads_native native pairs line
  | function identity closure =>
      obtain ⟨closure', rfl, same⟩ := pair
      exact ih.enter world env closure closure' arguments arguments' same pairs
  | «class» c =>
      obtain ⟨c', rfl, same⟩ := pair
      apply leads_bind (leads_store _ _ (leads_new_instance same))
      intro wider object object' grown made
      obtain ⟨name, methods, table⟩ := same.methods
      have method : Option.Rel _ c.constructor? c'.constructor? := table Routine.constructorName
      revert method
      generalize c.constructor? = here
      generalize c'.constructor? = there
      rintro (method | _)
      · apply leads_bind (leads_store _ _ (leads_method (closure_echoed_mono (fun _ => id) grown _ _ method) made))
        intro widest bound bound' further entered
        apply leads_bind (ih.enter widest env bound bound' arguments arguments' entered
          (values_mono (grown.trans further) pairs))
        intro last _ _ final _
        exact leads_pure (Value.object object) (Value.object object')
          ⟨object', rfl, object_echoed_mono (fun _ => id) (further.trans final) _ _ made⟩
      · exact leads_pure (Value.object object) (Value.object object') ⟨object', rfl, made⟩
  | _ => exact leads_fail _ _

include ih in
theorem enter_alongside (closure closure' : Closure) (arguments arguments' : List Value)
    (same : closure.Echoed k.scheme k.seen world [] closure') (pairs : k.EchoesAll world arguments arguments') :
    k.Leads env world (Regime.standard.enter (steps + 1) closure arguments)
      (regime.enter (steps + 1) closure' arguments') k.Echoes := by
  have whole := same
  obtain ⟨around, constructor, scopes, views, fits, settled, paired⟩ := same
  obtain ⟨⟨name, parameters, body⟩, inner, isConstructor⟩ := closure
  obtain ⟨routine', inner', isConstructor'⟩ := closure'
  obtain ⟨mark, body', rfl, allowed, inside, bodies⟩ := paired
  obtain rfl : inner' = inner := around
  apply leads_bind (leads_store _ _ (leads_nest mark inner' Bindings.spelled_empty))
  rintro wider env' _ grown nested
  have stands : k.scheme.Stands wider (((Routine.mk name parameters body).frame, mark) :: scopes) env' :=
    ⟨nested_views nested grown views _, inside⟩
  obtain ⟨rfl, _, marked⟩ := nested
  apply leads_bind (leads_parameters _ wider parameters arguments arguments' marked allowed (values_mono grown pairs))
  intro widest _ _ further _
  apply leads_bind (leads_within (ih.body widest _ _ body body' (stands_mono further stands) settled bodies))
  intro last flow flow' final ended
  exact leads_answer (closure_echoed_mono (fun _ => id) ((grown.trans further).trans final) _ _ whole) ended

include ih in
theorem inside_alongside (frame : Frame) (mark : k.scheme.Mark) (body body' : List Stmt)
    (stands : k.scheme.Stands world scopes env) (fits : k.scheme.Fits ((frame, mark) :: scopes))
    (settled : Stmt.SettledAll k.seen (frame :: scopes.map Prod.fst) body)
    (paired : Stmt.PairedAll k.scheme ((frame, mark) :: scopes) body body') :
    k.Leads env world (childEnv >>= fun inner => within inner (Regime.standard.executeAll steps body))
      (childEnv >>= fun inner => within inner (regime.executeAll steps body')) k.Flows := by
  apply leads_bind (leads_child mark)
  rintro wider inner _ grown nested
  have inside : k.scheme.Stands wider ((frame, mark) :: scopes) inner :=
    ⟨nested_views nested grown stands.views frame, fits⟩
  obtain ⟨rfl, _⟩ := nested
  exact leads_within (ih.body wider _ _ body body' inside settled paired)

include ih in
theorem execute_alongside (s s' : Stmt) (stands : k.scheme.Stands world scopes env)
    (settled : s.Settled k.seen (scopes.map Prod.fst)) (paired : s.Paired k.scheme scopes s') :
    k.Leads env world (Regime.standard.execute (steps + 1) s) (regime.execute (steps + 1) s') k.Flows := by
  have behind : ∀ {α β : Type} {good : List k.scheme.Mark → α → β → Prop} {p : Eval α} {q : Eval β},
      k.Leads env world p q good → k.Leads env world (p >>= fun _ => pure Flow.normal) (q >>= fun _ => pure Flow.normal)
        k.Flows := fun leads => leads_bind leads fun _ _ _ _ _ => leads_pure Flow.normal Flow.normal rfl
  cases s with
  | expression e =>
      obtain ⟨e', rfl, paired⟩ := paired
      exact behind (ih.evaluate world env scopes e e' stands settled paired)
  | var name initializer =>
      cases initializer with
      | none =>
          obtain ⟨rfl, allowed⟩ := paired
          exact behind (leads_define_name stands name allowed none_echoed)
      | some e =>
          obtain ⟨e', rfl, allowed, paired⟩ := paired
          rw [show Stmt.Settled k.seen (scopes.map Prod.fst) (.var name (some e)) =
            e.Settled k.seen (name.markIn false (scopes.map Prod.fst)) from rfl, ← declare_frames] at settled
          apply leads_bind (ih.evaluate world env _ e e' (stands_declare name false stands) settled paired)
          intro wider value value' grown pair
          exact leads_bind (leads_define_name (stands_mono grown stands) name allowed pair) fun _ _ _ _ _ =>
            leads_pure Flow.normal Flow.normal rfl
  | block body =>
      obtain ⟨mark, body', rfl, fits, paired⟩ := paired
      exact inside_alongside ih _ mark body body' stands fits settled paired
  | branch condition body alternative =>
      obtain ⟨condition', mark, body', alternative', rfl, first, fits, bodies, others⟩ := paired
      exact ih.choose world env scopes condition condition' body body' mark alternative alternative' stands settled.1
        settled.2.1 settled.2.2 first fits bodies others
  | «while» condition body =>
      obtain ⟨condition', mark, body', rfl, first, fits, bodies⟩ := paired
      apply leads_bind (leads_child mark)
      rintro wider inner _ grown nested
      have inside : k.scheme.Stands wider ((.fresh (.loop body), mark) :: scopes) inner :=
        ⟨nested_views nested grown stands.views _, fits⟩
      obtain ⟨rfl, _⟩ := nested
      exact ih.loop wider env _ scopes condition condition' body body' mark (stands_mono grown stands) inside settled.1
        settled.2 first bodies
  | function routine =>
      obtain ⟨routine', rfl, keeps, paired⟩ := paired
      exact behind (leads_function stands keeps settled paired)
  | «return» line value =>
      cases value with
      | none =>
          cases paired
          exact leads_pure (Flow.returned .none) (Flow.returned .none) ⟨.none, rfl, rfl⟩
      | some e =>
          obtain ⟨e', rfl, paired⟩ := paired
          apply leads_bind (ih.evaluate world env scopes e e' stands settled paired)
          exact fun wider value value' _ pair => leads_pure (Flow.returned value) (Flow.returned value') ⟨value', rfl, pair⟩
  | «class» name methods =>
      obtain ⟨methods', rfl, keeps, fits, paired⟩ := paired
      exact behind (leads_class stands name keeps fits settled paired)

include ih in
theorem body_alongside (body body' : List Stmt) (stands : k.scheme.Stands world scopes env)
    (settled : Stmt.SettledAll k.seen (scopes.map Prod.fst) body) (paired : Stmt.PairedAll k.scheme scopes body body') :
    k.Leads env world (Regime.standard.executeAll (steps + 1) body) (regime.executeAll (steps + 1) body') k.Flows := by
  cases body with
  | nil =>
      cases paired
      exact leads_pure Flow.normal Flow.normal rfl
  | cons s rest =>
      obtain ⟨s', rest', rfl, first, others⟩ := paired
      apply leads_bind (ih.execute world env scopes s s' stands settled.1 first)
      intro wider flow flow' grown ended
      cases flow with
      | normal =>
          cases ended
          exact ih.body wider env _ rest rest' (stands_behind s (stands_mono grown stands))
            ((behind_frames scopes s).symm ▸ settled.2) others
      | returned value =>
          obtain ⟨value', rfl, pair⟩ := ended
          exact leads_pure (Flow.returned value) (Flow.returned value') ⟨value', rfl, pair⟩

include ih in
theorem choose_alongside (condition condition' : Expr) (body body' : List Stmt) (mark : k.scheme.Mark)
    (alternative alternative' : Alternative) (stands : k.scheme.Stands world scopes env)
    (settled : condition.Settled k.seen (scopes.map Prod.fst))
    (bodySettled : Stmt.SettledAll k.seen (.fresh (.branch body) :: scopes.map Prod.fst) body)
    (otherSettled : alternative.Settled k.seen (scopes.map Prod.fst)) (first : condition.Paired k.scheme scopes condition')
    (fits : k.scheme.Fits ((.fresh (.branch body), mark) :: scopes))
    (bodies : Stmt.PairedAll k.scheme ((.fresh (.branch body), mark) :: scopes) body body')
    (others : alternative.Paired k.scheme scopes alternative') :
    k.Leads env world (Regime.standard.choose (steps + 1) condition body alternative)
      (regime.choose (steps + 1) condition' body' alternative') k.Flows := by
  apply leads_bind (ih.evaluate world env scopes condition condition' stands settled first)
  intro wider value value' grown pair
  apply leads_bind (leads_condition .ifStatement _ _ pair)
  rintro widest _ truth further rfl
  have later := stands_mono (grown.trans further) stands
  cases truth with
  | true => exact inside_alongside ih _ mark body body' later fits bodySettled bodies
  | false =>
      cases alternative with
      | none =>
          cases others
          exact leads_pure Flow.normal Flow.normal rfl
      | elseIf next inner rest =>
          obtain ⟨next', mark', inner', rest', rfl, tested, inside, inners, rests⟩ := others
          exact ih.choose widest env scopes next next' inner inner' mark' rest rest' later otherSettled.1 otherSettled.2.1
            otherSettled.2.2 tested inside inners rests
      | block inner =>
          obtain ⟨mark', inner', rfl, inside, inners⟩ := others
          exact inside_alongside ih _ mark' inner inner' later inside otherSettled inners

include follows ih in
theorem loop_alongside (inner : Env) (condition condition' : Expr) (body body' : List Stmt) (mark : k.scheme.Mark)
    (stands : k.scheme.Stands world scopes env)
    (inside : k.scheme.Stands world ((.fresh (.loop body), mark) :: scopes) inner)
    (settled : condition.Settled k.seen (scopes.map Prod.fst))
    (bodySettled : Stmt.SettledAll k.seen (.fresh (.loop body) :: scopes.map Prod.fst) body)
    (first : condition.Paired k.scheme scopes condition')
    (bodies : Stmt.PairedAll k.scheme ((.fresh (.loop body), mark) :: scopes) body body') :
    k.Leads env world (Regime.standard.repeatWhile (steps + 1) condition body inner)
      (regime.repeatWhile (steps + 1) condition' body' inner) k.Flows := by
  apply leads_bind (ih.evaluate world env scopes condition condition' stands settled first)
  intro wider value value' grown pair
  apply leads_bind (leads_condition .whileStatement _ _ pair)
  rintro widest _ truth further rfl
  cases truth with
  | false => exact leads_pure Flow.normal Flow.normal rfl
  | true =>
      have here := stands_mono (grown.trans further) inside
      apply leads_bind (leads_within (ih.body widest inner _ body body' here bodySettled bodies))
      intro last flow flow' final ended
      cases flow with
      | returned result =>
          obtain ⟨result', rfl, pair⟩ := ended
          exact leads_pure (Flow.returned result) (Flow.returned result') ⟨result', rfl, pair⟩
      | normal =>
          cases ended
          have renewed : k.Leads env last (Regime.standard.renew inner) (regime.renew inner) fun _ a b => b = a ∧ a = inner := by
            rw [follows.renew]
            exact leads_bind (leads_store 0 0 (leads_clear inner)) fun _ _ _ _ _ => leads_pure inner inner ⟨rfl, rfl⟩
          apply leads_bind renewed
          rintro world' _ _ last' ⟨rfl, rfl⟩
          have whole := ((grown.trans further).trans final).trans last'
          exact ih.loop world' env _ scopes condition condition' body body' mark (stands_mono whole stands)
            (stands_mono whole inside) settled bodySettled first bodies

end Walk

section Whole

variable {k : Duet} {regime : Regime} (follows : k.Follows regime)
include follows

theorem walks_alongside : ∀ steps, k.Walks regime steps
  | 0 => by constructor <;> intros <;> exact leads_throw _ _
  | steps + 1 =>
      have ih := walks_alongside steps
      { evaluate := fun _ _ _ => evaluate_alongside follows ih
        arguments := fun _ _ _ => arguments_alongside ih
        call := fun _ _ => call_alongside ih
        enter := fun _ _ => enter_alongside ih
        execute := fun _ _ _ => execute_alongside ih
        body := fun _ _ _ => body_alongside ih
        choose := fun _ _ _ => choose_alongside ih
        loop := fun _ _ inner _ => loop_alongside follows ih inner }

theorem program_alongside (steps : Nat) (env : Env) : ∀ (world : List k.scheme.Mark)
    (scopes : List (Frame × k.scheme.Mark)) (program program' : Program), k.scheme.Stands world scopes env →
    Stmt.SettledAll k.seen (scopes.map Prod.fst) program → Stmt.PairedAll k.scheme scopes program program' →
    k.Leads env world (Regime.standard.executeProgram steps program) (regime.executeProgram steps program')
      fun _ _ _ => True
  | _, _, [], _, _, _, paired => by
      cases paired
      exact leads_pure () () trivial
  | world, scopes, s :: rest, _, stands, settled, ⟨s', rest', same, first, others⟩ => by
      subst same
      apply leads_bind ((walks_alongside follows steps).execute world env scopes s s' stands settled.1 first)
      intro wider flow flow' grown ended
      cases flow with
      | normal =>
          cases ended
          exact program_alongside steps env wider _ rest rest' (stands_behind s (stands_mono grown stands))
            ((behind_frames scopes s).symm ▸ settled.2) others
      | returned value =>
          obtain ⟨value', rfl, _⟩ := ended
          exact leads_pure () () trivial

theorem interpret_alongside (steps : Nat) (env : Env) (world : List k.scheme.Mark)
    (scopes : List (Frame × k.scheme.Mark)) (program program' : Program) (stands : k.scheme.Stands world scopes env)
    (settled : Stmt.SettledAll k.seen (scopes.map Prod.fst) program)
    (paired : Stmt.PairedAll k.scheme scopes program program') :
    k.Leads env world (Regime.standard.interpret steps program) (regime.interpret steps program') fun _ _ _ => True := by
  apply leads_bind (program_alongside follows steps env world scopes program program' stands settled paired)
  intro wider _ _ _ _
  exact leads_weaken (leads_sink _ _) fun _ _ _ _ _ => trivial

end Whole

end TreeWalk
