import TreeWalk.Proofs.Chronicle
import TreeWalk.Proofs.Contents

set_option autoImplicit false

namespace TreeWalk

open Watch

section Making

variable (good : Closure → Prop)

mutual
def Stmt.Makes : Stmt → Prop
  | .block body => Stmt.MakesAll body
  | .branch _ body alternative => Stmt.MakesAll body ∧ alternative.Makes
  | .while _ body => Stmt.MakesAll body
  | .function routine => ∀ env, good ⟨routine, env, false⟩
  | .class _ methods => ∀ method ∈ methods, ∀ env, good ⟨method, env, method.isConstructor⟩
  | .expression _ | .var _ _ | .return _ _ => True

def Alternative.Makes : Alternative → Prop
  | .none => True
  | .elseIf _ body alternative => Stmt.MakesAll body ∧ alternative.Makes
  | .block body => Stmt.MakesAll body

def Stmt.MakesAll : List Stmt → Prop
  | [] => True
  | s :: rest => s.Makes ∧ Stmt.MakesAll rest
end

structure Inherited : Prop where
  body : ∀ closure, good closure → Stmt.MakesAll good closure.routine.body
  moved : ∀ closure env, good closure → good { closure with env }

def Event.Calls : Event → Prop
  | entered closure _ => good closure
  | _ => True

structure Watched.Every (w : Watched) : Prop where
  held : w.machine.store.Every good
  called : ∀ event ∈ w.events, event.Calls good

variable {α : Type}

def Fills (p : Eval α) (result : α → Prop) : Prop :=
  ∀ m, m.store.Every good → Ends p m (fun a t => t.store.Every good ∧ result a) fun _ t => t.store.Every good

def Gathers (p : Watch α) (result : α → Prop) : Prop :=
  ∀ w, w.Every good → Ends p w (fun a t => t.Every good ∧ result a) fun _ t => t.Every good

end Making

section Steps

variable {good : Closure → Prop} {α β : Type} {result : α → Prop} {final : β → Prop}

theorem fills_store (line : Nat) {act : StoreM α}
    (done : ∀ s : Store, s.Every good → Ends act s (fun a t => t.Every good ∧ result a) fun _ t => t.Every good) :
    Fills good (Eval.onStore line act) result := by
  intro m every
  apply ends_mono _ _ _ _ _ _ (ends_store line (done m.store every))
  · rintro a _ ⟨s, rfl, ended⟩
    exact ended
  · rintro _ _ ⟨fault, s, rfl, rfl, ended⟩
    exact ended

theorem fills_fail (line : Nat) (fault : RuntimeFault) : Fills good (Eval.fail line fault) result :=
  fun _ every => every

theorem fills_inert {p : Eval α} (inert : Inert p result) : Fills good p result := by
  intro m every
  apply ends_mono _ _ _ _ _ _ (inert m)
  · exact fun a t ⟨same, here⟩ => ⟨same.store ▸ every, here⟩
  · exact fun halt t ⟨same, _⟩ => same.store ▸ every

theorem fills_reads (line : Nat) {act : StoreM Value} {name : String} {faults : RuntimeFault → Prop}
    (reads : Store.Reads act name faults) : Fills good (Eval.onStore line act) (Value.Every good) := by
  apply fills_store
  intro s every
  apply ends_mono _ _ _ _ _ _ (reads s)
  · rintro value _ ⟨rfl, layer, found⟩
    exact ⟨every, every.layers layer name value found⟩
  · rintro _ _ ⟨rfl, _⟩
    exact every

theorem fills_writes (line : Nat) {act : StoreM Unit} {name : String} {value : Value} {faults : RuntimeFault → Prop}
    (writes : Store.Writes act name value faults) (new : value.Every good) :
    Fills good (Eval.onStore line act) fun _ => True := by
  apply fills_store
  intro s every
  apply ends_mono _ _ _ _ _ _ (writes s)
  · rintro _ _ ⟨layer, _, rfl⟩
    exact ⟨Store.every_write layer name value every new, trivial⟩
  · rintro _ _ ⟨rfl, _⟩
    exact every

theorem fills_bound (line : Nat) (env : Env) (name : String) (value : Value) (new : value.Every good) :
    Fills good (Eval.onStore line (Store.define env name value)) fun _ => True := by
  apply fills_store
  intro s every
  apply ends_mono _ _ _ _ _ _ (Store.define_ends env name value s)
  · rintro _ _ ⟨_, rfl⟩
    exact ⟨Store.every_write env.inner name value every new, trivial⟩
  · rintro _ _ ⟨rfl, _⟩
    exact every

theorem fills_define (name : Name) (value : Value) (new : value.Every good) :
    Fills good (Eval.define name value) fun _ => True :=
  fun m => fills_bound name.line m.env name.text value new m

theorem fills_identity (line : Nat) : Fills good (Eval.onStore line Store.newIdentity) fun _ => True := by
  apply fills_store
  exact fun s every => ⟨Store.every_identity every _, trivial⟩

theorem fills_nest (line : Nat) (env : Env) : Fills good (Eval.onStore line (Store.nest env .empty)) fun _ => True := by
  apply fills_store
  exact fun s every => ⟨Store.every_push .empty every fun _ _ none => (nomatch none), trivial⟩

theorem fills_child : Fills good Eval.childEnv fun _ => True :=
  fun m => fills_nest 0 m.env m

theorem fills_instance (line : Nat) (c : ClassValue) (known : c.Every good) :
    Fills good (Eval.onStore line (Store.newInstance c)) fun object => object.ofClass.Every good := by
  apply fills_store
  exact fun s every => ⟨Store.every_instance every, known⟩

theorem fills_field (line : Nat) (object : Instance) (name : String) (value : Value) (new : value.Every good) :
    Fills good (Eval.onStore line (Store.setField object name value)) fun _ => True := by
  apply fills_store
  exact fun s every => ⟨Store.every_field object.identity name value every new, trivial⟩

theorem fills_clear (line : Nat) (env : Env) : Fills good (Eval.onStore line (Store.clear env)) fun _ => True := by
  apply fills_store
  exact fun s every => ⟨Store.every_clear env.inner every, trivial⟩

theorem fills_read (id : Nat) (name : Name) : Fills good (Eval.readName id name) (Value.Every good) := by
  intro m every
  obtain ⟨act, run, reads⟩ := read_name_acts id name m
  exact ends_congr run (fills_reads name.line reads m every)

theorem fills_write (id : Nat) (name : Name) (value : Value) (new : value.Every good) :
    Fills good (Eval.writeName id name value) fun _ => True := by
  intro m every
  obtain ⟨act, run, writes⟩ := write_name_acts id name m value
  exact ends_congr run (fills_writes name.line writes new m every)

theorem fills_answer (closure : Closure) (flow : Flow) (known : flow.Every good) :
    Fills good (Eval.answer closure flow) (Value.Every good) := by
  unfold Eval.answer
  split
  · exact fills_reads _ (Store.reads_get_at closure.env 0 "this")
  · cases flow with
    | normal => exact fun m every => ⟨every, trivial⟩
    | returned value => exact fun m every => ⟨every, known⟩

theorem fills_bind (inherited : Inherited good) (line : Nat) (method : Closure) (object : Instance) (known : good method)
    (methods : object.ofClass.Every good) : Fills good (Eval.onStore line (Store.bind method object)) good := by
  apply fills_store
  exact fun s every =>
    ⟨Store.every_push _ every (receiver_every object methods),
      inherited.moved method (method.env.child s.layers.size) known⟩

theorem fills_property (inherited : Inherited good) (name : Name) (value : Value) (known : value.Every good) :
    Fills good (Eval.property name value) (Value.Every good) := by
  cases value with
  | object object =>
      apply fills_store
      intro s every
      apply ends_mono _ _ _ _ _ _ (store_property_ends object name.text s)
      · rintro value _ (⟨rfl, found⟩ | ⟨method, found, rfl, rfl⟩)
        · exact ⟨every, every.fields _ _ value found⟩
        · exact ⟨Store.every_received object every known,
            inherited.moved method (method.env.child s.layers.size) (known name.text method found)⟩
      · rintro _ _ ⟨rfl, _⟩
        exact every
  | _ => exact fills_fail _ _

theorem gathers_act {p : Eval α} (fills : Fills good p result) : Gathers good (act p) result := by
  intro w every
  have ended := fills w.machine every.held
  unfold Ends at ended ⊢
  unfold act
  cases run : p w.machine with
  | ok a m =>
      rw [run] at ended
      exact ⟨⟨ended.1, every.called⟩, ended.2⟩
  | error halt m =>
      rw [run] at ended
      exact ⟨ended, every.called⟩

theorem gathers_pure (a : α) (here : result a) : Gathers good (pure a) result :=
  fun _ every => ⟨every, here⟩

theorem gathers_stop (halt : Halt) : Gathers good (throw halt : Watch α) result :=
  fun _ every => every

theorem gathers_bind {p : Watch α} {f : α → Watch β} (first : Gathers good p result)
    (rest : ∀ a, result a → Gathers good (f a) final) : Gathers good (p >>= f) final := by
  intro w every
  apply ends_bind p f w _ _ _ (first w every)
  exact fun a t ⟨kept, here⟩ => rest a here t kept

theorem gathers_log (event : Event) (calls : event.Calls good) {p : Watch α} (rest : Gathers good p result) :
    Gathers good (do log event; p) result := by
  intro w every
  refine rest ⟨w.machine, event :: w.events⟩ ⟨every.held, fun other member => ?_⟩
  rcases List.mem_cons.mp member with rfl | older
  · exact calls
  · exact every.called other older

theorem gathers_get {f : Watched → Watch α} (rest : ∀ w, Gathers good (f w) result) : Gathers good (get >>= f) result :=
  fun w => rest w w

theorem gathers_env {f : Env → Watch α} (rest : ∀ env, Gathers good (f env) result) :
    Gathers good (Watch.currentEnv >>= f) result :=
  fun w => rest w.machine.env w

theorem gathers_within (env : Env) {p : Watch α} (inner : Gathers good p result) :
    Gathers good (Watch.within env p) result := by
  intro w every
  have ended := inner { w with machine := { w.machine with env } } ⟨every.held, every.called⟩
  unfold Ends at ended ⊢
  unfold Watch.within
  cases run : p { w with machine := { w.machine with env } } with
  | ok a t =>
      rw [run] at ended
      exact ⟨⟨ended.1.held, ended.1.called⟩, ended.2⟩
  | error halt t =>
      rw [run] at ended
      exact ⟨ended.held, ended.called⟩

theorem gathers_reach (node : Expr) {p : Eval α} (fills : Fills good p result) : Gathers good (reach node p) result :=
  gathers_get fun _ => gathers_log _ (by trivial) (gathers_act fills)

theorem gathers_child (site : Site) {f : Env → Watch α} (rest : ∀ env, Gathers good (f env) result) :
    Gathers good (Watch.childEnv site >>= f) result := by
  have opened : Gathers good (Watch.childEnv site) fun _ => True :=
    gathers_bind (gathers_act fills_child) fun _ _ => gathers_log _ (by trivial) (gathers_pure _ trivial)
  exact gathers_bind opened fun env _ => rest env

theorem gathers_define (name : Name) (value : Value) (new : value.Every good) :
    Gathers good (Watch.define name value) fun _ => True :=
  gathers_bind (gathers_act (fills_define name value new)) fun _ _ => gathers_env fun _ =>
    gathers_log _ (by trivial) (gathers_pure _ trivial)

theorem gathers_parameters (env : Env) : ∀ (names : List Name) (values : List Value),
    (∀ value ∈ values, value.Every good) → Gathers good (Watch.defineAll env names values) fun _ => True
  | [], _, _ => by
      unfold Watch.defineAll
      exact gathers_pure _ trivial
  | _ :: _, [], _ => gathers_pure _ trivial
  | name :: names, value :: values, given => by
      apply gathers_bind (gathers_act (fills_bound name.line env name.text value (given value List.mem_cons_self)))
      exact fun _ _ => gathers_log _ (by trivial)
        (gathers_parameters env names values fun other member => given other (List.mem_cons_of_mem _ member))

theorem gathers_function (routine : Routine) (makes : Stmt.Makes good (.function routine)) :
    Gathers good (Watch.defineFunction routine) fun _ => True :=
  gathers_bind (gathers_act (fills_identity routine.name.line)) fun identity _ => gathers_env fun env =>
    gathers_define routine.name (.function identity ⟨routine, env, false⟩) (makes env)

theorem gathers_class (name : Name) (methods : List Routine) (makes : Stmt.Makes good (.class name methods)) :
    Gathers good (Watch.defineClass name methods) fun _ => True := by
  apply gathers_bind (gathers_define name .none trivial)
  intro _ _
  apply gathers_env
  intro env
  apply gathers_bind (gathers_act (fills_identity name.line))
  intro identity _
  have made : (ClassValue.made identity name methods env).Every good :=
    made_every identity name methods env fun method member => makes method member env
  exact gathers_log _ (by trivial) (gathers_act (fills_writes name.line (Store.writes_assign env name.text _) made))

theorem gathers_bound (cause : Cause) (closure : Closure) (object : Instance) :
    Gathers good (logBound cause closure object) fun _ => True :=
  gathers_log _ (by trivial) (gathers_log _ (by trivial) (gathers_pure _ trivial))

theorem gathers_receive (inherited : Inherited good) (line : Nat) (cause : Cause) (method : Closure) (object : Instance)
    (known : good method) (methods : object.ofClass.Every good) :
    Gathers good (receive line cause method object) good :=
  gathers_bind (gathers_act (fills_bind inherited line method object known methods)) fun closure bound =>
    gathers_bind (gathers_bound cause closure object) fun _ _ => gathers_pure closure bound

theorem gathers_property (inherited : Inherited good) (name : Name) (value : Value) (known : value.Every good) :
    Gathers good (Watch.property name value) (Value.Every good) := by
  have whole := gathers_act (fills_property inherited name value known)
  cases value with
  | object object =>
      apply gathers_get
      intro w
      apply gathers_bind whole
      intro found here
      cases found with
      | function identity closure =>
          dsimp only
          split
          · exact gathers_bind (gathers_bound _ closure object) fun _ _ => gathers_pure _ here
          · exact gathers_pure _ here
      | _ => exact gathers_pure _ here
  | _ => exact whole

end Steps

section Walk

variable (good : Closure → Prop)

structure WalkGathers (steps : Nat) : Prop where
  evaluate : ∀ e, Gathers good (Watch.evaluate steps e) (Value.Every good)
  arguments : ∀ es, Gathers good (Watch.evaluateAll steps es) fun values => ∀ value ∈ values, value.Every good
  call : ∀ callee arguments line, callee.Every good → (∀ value ∈ arguments, value.Every good) →
    Gathers good (Watch.call steps callee arguments line) (Value.Every good)
  enter : ∀ closure arguments, good closure → (∀ value ∈ arguments, value.Every good) →
    Gathers good (Watch.enter steps closure arguments) (Value.Every good)
  execute : ∀ s, s.Makes good → Gathers good (Watch.execute steps s) (Flow.Every good)
  body : ∀ body, Stmt.MakesAll good body → Gathers good (Watch.executeAll steps body) (Flow.Every good)
  choose : ∀ condition body alternative, Stmt.MakesAll good body → alternative.Makes good →
    Gathers good (Watch.choose steps condition body alternative) (Flow.Every good)
  loop : ∀ condition body env, Stmt.MakesAll good body →
    Gathers good (Watch.repeatWhile steps condition body env) (Flow.Every good)

variable {good} {steps : Nat} (ih : WalkGathers good steps)
include ih

theorem gathers_call (inherited : Inherited good) (callee : Value) (arguments : List Value) (line : Nat)
    (known : callee.Every good) (given : ∀ value ∈ arguments, value.Every good) :
    Gathers good (Watch.call (steps + 1) callee arguments line) (Value.Every good) := by
  cases callee with
  | native native =>
      apply gathers_act
      exact fun m every => ends_mono _ _ _ _ _ _ (fills_inert (inert_native native arguments line) m every)
        (fun value _ ⟨kept, inert⟩ => ⟨kept, every_inert value inert⟩) fun _ _ => id
  | function identity closure => exact ih.enter closure arguments known given
  | «class» c =>
      apply gathers_bind (gathers_act (fills_instance line c known))
      intro object methods
      cases found : c.constructor? with
      | none => exact gathers_pure _ methods
      | some method =>
          apply gathers_bind (gathers_receive inherited line .creation method object (known _ method found) methods)
          intro bound here
          apply gathers_bind (ih.enter bound arguments here given)
          exact fun _ _ => gathers_pure (Value.object object) methods
  | _ => exact gathers_act (fills_fail _ _)

theorem gathers_enter (inherited : Inherited good) (closure : Closure) (arguments : List Value) (known : good closure)
    (given : ∀ value ∈ arguments, value.Every good) :
    Gathers good (Watch.enter (steps + 1) closure arguments) (Value.Every good) := by
  apply gathers_get
  intro w
  apply gathers_log (.entered closure w.machine) known
  apply gathers_bind (gathers_act (fills_nest 0 closure.env))
  intro env _
  apply gathers_log _ (by trivial)
  apply gathers_bind (gathers_parameters env closure.routine.parameters arguments given)
  intro _ _
  apply gathers_bind (gathers_within env (ih.body closure.routine.body (inherited.body closure known)))
  exact fun flow returned => gathers_act (fills_answer closure flow returned)

theorem gathers_evaluate (inherited : Inherited good) (e : Expr) :
    Gathers good (Watch.evaluate (steps + 1) e) (Value.Every good) := by
  have operated : ∀ {p : Eval Value}, Inert p Value.IsInert → Gathers good (act p) (Value.Every good) := by
    intro p inert
    apply gathers_act
    exact fun m every => ends_mono _ _ _ _ _ _ (fills_inert inert m every)
      (fun value _ ⟨kept, plain⟩ => ⟨kept, every_inert value plain⟩) fun _ _ => id
  cases e with
  | literal mark value => exact gathers_pure _ (every_literal value)
  | grouping mark inner => exact ih.evaluate inner
  | unary mark operator right =>
      apply gathers_bind (ih.evaluate right)
      exact fun value _ => operated (inert_unary operator value)
  | binary mark left operator right =>
      apply gathers_bind (ih.evaluate left)
      intro first _
      apply gathers_bind (ih.evaluate right)
      exact fun second _ => operated (inert_binary operator first second)
  | logical mark left operator right =>
      apply gathers_bind (ih.evaluate left)
      intro value _
      cases value with
      | bool truth =>
          dsimp only
          split
          · exact gathers_pure _ trivial
          · exact ih.evaluate right
      | _ => exact gathers_act (fills_fail _ _)
  | ident mark name | this mark name => exact gathers_reach _ (fills_read _ _)
  | assign mark name value =>
      apply gathers_bind (ih.evaluate value)
      intro new known
      apply gathers_bind (gathers_reach _ (fills_write mark.id name new known))
      exact fun _ _ => gathers_pure _ known
  | call mark callee arguments line =>
      apply gathers_log _ (by trivial)
      apply gathers_bind (ih.evaluate callee)
      intro function known
      apply gathers_bind (ih.arguments arguments)
      intro values given
      apply gathers_bind (gathers_act (fills_inert (inert_arity function values line)))
      exact fun _ _ => ih.call function values line known given
  | get mark object name =>
      apply gathers_bind (ih.evaluate object)
      exact fun value known => gathers_property inherited name value known
  | set mark object name value =>
      apply gathers_bind (ih.evaluate object)
      intro target _
      cases target with
      | object object =>
          apply gathers_bind (ih.evaluate value)
          intro new known
          apply gathers_bind (gathers_act (fills_field name.line object name.text new known))
          exact fun _ _ => gathers_pure _ known
      | _ => exact gathers_act (fills_fail _ _)

theorem gathers_arguments (es : List Expr) :
    Gathers good (Watch.evaluateAll (steps + 1) es) fun values => ∀ value ∈ values, value.Every good := by
  cases es with
  | nil => exact gathers_pure _ fun _ none => nomatch none
  | cons e rest =>
      apply gathers_bind (ih.evaluate e)
      intro value known
      apply gathers_bind (ih.arguments rest)
      intro values given
      apply gathers_pure
      intro other member
      rcases List.mem_cons.mp member with rfl | later
      · exact known
      · exact given other later

theorem gathers_scope (site : Site) (body : List Stmt) (makes : Stmt.MakesAll good body) :
    Gathers good (do Watch.within (← Watch.childEnv site) (Watch.executeAll steps body)) (Flow.Every good) :=
  gathers_child site fun env => gathers_within env (ih.body body makes)

theorem gathers_execute (s : Stmt) (makes : s.Makes good) :
    Gathers good (Watch.execute (steps + 1) s) (Flow.Every good) := by
  cases s with
  | expression e => exact gathers_bind (ih.evaluate e) fun _ _ => gathers_pure _ trivial
  | var name initializer =>
      cases initializer with
      | none => exact gathers_bind (gathers_define name .none trivial) fun _ _ => gathers_pure _ trivial
      | some e =>
          apply gathers_bind (ih.evaluate e)
          exact fun value known => gathers_bind (gathers_define name value known) fun _ _ => gathers_pure _ trivial
  | block body => exact gathers_scope ih _ body makes
  | branch condition body alternative => exact ih.choose condition body alternative makes.1 makes.2
  | «while» condition body => exact gathers_child _ fun env => ih.loop condition body env makes
  | function routine => exact gathers_bind (gathers_function routine makes) fun _ _ => gathers_pure _ trivial
  | «return» line value =>
      cases value with
      | none => exact gathers_pure _ trivial
      | some e => exact gathers_bind (ih.evaluate e) fun _ known => gathers_pure _ known
  | «class» name methods => exact gathers_bind (gathers_class name methods makes) fun _ _ => gathers_pure _ trivial

theorem gathers_body (body : List Stmt) (makes : Stmt.MakesAll good body) :
    Gathers good (Watch.executeAll (steps + 1) body) (Flow.Every good) := by
  cases body with
  | nil => exact gathers_pure _ trivial
  | cons s rest =>
      apply gathers_bind (ih.execute s makes.1)
      intro flow known
      cases flow with
      | normal => exact ih.body rest makes.2
      | returned value => exact gathers_pure _ known

theorem gathers_choose (condition : Expr) (body : List Stmt) (alternative : Alternative) (makes : Stmt.MakesAll good body)
    (others : alternative.Makes good) :
    Gathers good (Watch.choose (steps + 1) condition body alternative) (Flow.Every good) := by
  apply gathers_bind (ih.evaluate condition)
  intro value _
  apply gathers_bind (gathers_act (fills_inert (inert_condition _ _ value)))
  intro truth _
  cases truth with
  | true => exact gathers_scope ih _ body makes
  | false =>
      cases alternative with
      | none => exact gathers_pure _ trivial
      | elseIf next inner other => exact ih.choose next inner other others.1 others.2
      | block inner => exact gathers_scope ih _ inner others

theorem gathers_loop (condition : Expr) (body : List Stmt) (env : Env) (makes : Stmt.MakesAll good body) :
    Gathers good (Watch.repeatWhile (steps + 1) condition body env) (Flow.Every good) := by
  apply gathers_bind (ih.evaluate condition)
  intro value _
  apply gathers_bind (gathers_act (fills_inert (inert_condition _ _ value)))
  intro truth _
  cases truth with
  | false => exact gathers_pure _ trivial
  | true =>
      apply gathers_bind (gathers_within env (ih.body body makes))
      intro flow known
      cases flow with
      | returned value => exact gathers_pure _ known
      | normal =>
          exact gathers_bind (gathers_act (fills_clear 0 env)) fun _ _ =>
            gathers_log _ (by trivial) (ih.loop condition body env makes)

end Walk

section Whole

variable {good : Closure → Prop} (inherited : Inherited good)
include inherited

theorem walk_gathers : ∀ steps, WalkGathers good steps
  | 0 => by
      constructor <;> intros <;> exact gathers_stop _
  | steps + 1 => by
      have ih := walk_gathers steps
      exact ⟨gathers_evaluate ih inherited, gathers_arguments ih, gathers_call ih inherited, gathers_enter ih inherited,
        gathers_execute ih, gathers_body ih, gathers_choose ih, gathers_loop ih⟩

theorem gathers_program (steps : Nat) : ∀ program : Program, Stmt.MakesAll good program →
    Gathers good (Watch.executeProgram steps program) fun _ => True
  | [], _ => gathers_pure _ trivial
  | s :: rest, makes => by
      apply gathers_bind ((walk_gathers inherited steps).execute s makes.1)
      intro flow _
      cases flow with
      | normal => exact gathers_program steps rest makes.2
      | returned value => exact gathers_pure _ trivial

theorem gathers_interpret (steps : Nat) (program : Program) (makes : Stmt.MakesAll good program) :
    Gathers good (Watch.interpret steps program) fun _ => True :=
  gathers_bind (gathers_program inherited steps program makes) fun _ _ => gathers_act (fills_inert inert_flush)

end Whole

end TreeWalk
