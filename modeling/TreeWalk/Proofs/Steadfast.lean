import TreeWalk.Proofs.Contents
import TreeWalk.Proofs.Growth

set_option autoImplicit false

namespace TreeWalk

open Eval

def Closure.Proper (closure : Closure) : Prop :=
  closure.routine.Proper

structure Store.Holds (layer : Nat) (receiver : Value) (s : Store) : Prop where
  code : s.Every Closure.Proper
  receiver : (s.layer layer).find? receiverName = some receiver

section Stores

variable {layer : Nat} {receiver : Value} {s : Store}

theorem holds_inside (holds : s.Holds layer receiver) : layer < s.layers.size := by
  apply Store.inside_of_contains s layer receiverName
  simp [Bindings.contains, holds.receiver]

theorem holds_write (id : Nat) (name : String) (value : Value) (holds : s.Holds layer receiver)
    (proper : name ≠ receiverName) (new : value.Every Closure.Proper) : (s.write id name value).Holds layer receiver := by
  refine ⟨Store.every_write id name value holds.code new, ?_⟩
  rw [Store.find_write_kept s id layer name receiverName value (Ne.symm proper)]
  exact holds.receiver

theorem holds_push (bindings : Bindings Value) (holds : s.Holds layer receiver)
    (new : ∀ name value, bindings.find? name = some value → value.Every Closure.Proper) :
    Store.Holds layer receiver { s with layers := s.layers.push bindings } := by
  refine ⟨Store.every_push bindings holds.code new, ?_⟩
  rw [Store.layer_push s bindings layer (holds_inside holds)]
  exact holds.receiver

theorem holds_clear (id : Nat) (holds : s.Holds layer receiver) (other : id ≠ layer) :
    Store.Holds layer receiver { s with layers := s.layers.modify id fun _ => .empty } := by
  refine ⟨Store.every_clear id holds.code, ?_⟩
  rw [layer_clear_other s id layer (Ne.symm other)]
  exact holds.receiver

theorem holds_identity (holds : s.Holds layer receiver) (next : Nat) :
    Store.Holds layer receiver { s with nextIdentity := next } :=
  ⟨Store.every_identity holds.code next, holds.receiver⟩

end Stores

section Steps

variable {α β : Type} {layer : Nat} {receiver : Value}

variable (layer receiver) in
def Holding (p : Eval α) (good : α → Prop) : Prop :=
  ∀ m : Machine, m.store.Holds layer receiver →
    Ends p m (fun a t => t.store.Holds layer receiver ∧ good a) fun _ t => t.store.Holds layer receiver

theorem holding_pure (a : α) (good : α → Prop) (here : good a) : Holding layer receiver (pure a) good :=
  fun _ holds => ⟨holds, here⟩

theorem holding_stop (halt : Halt) (good : α → Prop) : Holding layer receiver (throw halt : Eval α) good :=
  fun _ holds => holds

theorem holding_bind {p : Eval α} {f : α → Eval β} {mid : α → Prop} {good : β → Prop}
    (first : Holding layer receiver p mid) (rest : ∀ a, mid a → Holding layer receiver (f a) good) :
    Holding layer receiver (p >>= f) good := by
  intro m holds
  apply ends_bind p f m _ _ _ (first m holds)
  exact fun a t ⟨kept, middle⟩ => rest a middle t kept

theorem holding_weaken {p : Eval α} {strong weak : α → Prop} (holding : Holding layer receiver p strong)
    (weaker : ∀ a, strong a → weak a) : Holding layer receiver p weak :=
  fun m holds => ends_mono _ _ _ _ _ _ (holding m holds) (fun a _ ⟨kept, final⟩ => ⟨kept, weaker a final⟩) fun _ _ => id

theorem holding_inert {p : Eval α} {good : α → Prop} (inert : Inert p good) : Holding layer receiver p good := by
  intro m holds
  apply ends_mono _ _ _ _ _ _ (inert m)
  · exact fun a t ⟨same, final⟩ => ⟨same.store ▸ holds, final⟩
  · exact fun halt t ⟨same, _⟩ => same.store ▸ holds

theorem holding_within (env : Env) {p : Eval α} {good : α → Prop} (inner : Holding layer receiver p good) :
    Holding layer receiver (within env p) good :=
  fun m holds => ends_within env (inner { m with env } holds)

theorem holding_store (line : Nat) {act : StoreM α} {good : α → Prop}
    (done : ∀ s : Store, s.Holds layer receiver →
      Ends act s (fun a t => t.Holds layer receiver ∧ good a) fun _ t => t.Holds layer receiver) :
    Holding layer receiver (onStore line act) good := by
  intro m holds
  apply ends_mono _ _ _ _ _ _ (ends_store line (done m.store holds))
  · rintro a _ ⟨s, rfl, ended⟩
    exact ended
  · rintro _ _ ⟨fault, s, rfl, rfl, ended⟩
    exact ended

theorem holding_reads (line : Nat) {act : StoreM Value} {name : String} {faults : RuntimeFault → Prop}
    (reads : Store.Reads act name faults) :
    Holding layer receiver (onStore line act) fun value => value.Every Closure.Proper := by
  apply holding_store
  intro s holds
  apply ends_mono _ _ _ _ _ _ (reads s)
  · rintro value _ ⟨rfl, other, found⟩
    exact ⟨holds, holds.code.layers other name value found⟩
  · rintro _ _ ⟨rfl, _⟩
    exact holds

theorem holding_writes (line : Nat) {act : StoreM Unit} {name : String} {value : Value} {faults : RuntimeFault → Prop}
    (writes : Store.Writes act name value faults) (proper : name ≠ receiverName) (new : value.Every Closure.Proper) :
    Holding layer receiver (onStore line act) fun _ => True := by
  apply holding_store
  intro s holds
  apply ends_mono _ _ _ _ _ _ (writes s)
  · rintro _ _ ⟨other, _, rfl⟩
    exact ⟨holds_write other name value holds proper new, trivial⟩
  · rintro _ _ ⟨rfl, _⟩
    exact holds

theorem holding_env {f : Env → Eval β} {good : β → Prop} (rest : ∀ env, Holding layer receiver (f env) good) :
    Holding layer receiver (currentEnv >>= f) good :=
  fun m => rest m.env m

theorem holding_nested (outer : Env) {f : Env → Eval β} {good : β → Prop}
    (inside : ∀ env, env.inner ≠ layer → Holding layer receiver (f env) good) :
    Holding layer receiver (onStore 0 (Store.nest outer .empty) >>= f) good :=
  fun m holds => inside (outer.child m.store.layers.size) (Nat.ne_of_gt (holds_inside holds)) _
    (holds_push .empty holds fun _ _ none => nomatch none)

theorem holding_child {f : Env → Eval β} {good : β → Prop}
    (inside : ∀ env, env.inner ≠ layer → Holding layer receiver (f env) good) :
    Holding layer receiver (childEnv >>= f) good :=
  fun m => holding_nested m.env inside m

theorem holding_bound (env : Env) (name : Name) (value : Value) (proper : name.Proper)
    (new : value.Every Closure.Proper) :
    Holding layer receiver (onStore name.line (Store.define env name.text value)) fun _ => True := by
  apply holding_store
  intro s holds
  apply ends_mono _ _ _ _ _ _ (Store.define_ends env name.text value s)
  · rintro _ _ ⟨_, rfl⟩
    exact ⟨holds_write env.inner name.text value holds proper new, trivial⟩
  · rintro _ _ ⟨rfl, _⟩
    exact holds

theorem holding_define (name : Name) (value : Value) (proper : name.Proper) (new : value.Every Closure.Proper) :
    Holding layer receiver (define name value) fun _ => True :=
  holding_env fun env => holding_bound env name value proper new

theorem holding_parameters (env : Env) : ∀ (names : List Name) (values : List Value),
    (∀ name ∈ names, name.Proper) → (∀ value ∈ values, value.Every Closure.Proper) →
    Holding layer receiver (defineAll env names values) fun _ => True
  | [], _, _, _ | _ :: _, [], _, _ => holding_pure _ _ trivial
  | name :: names, value :: values, proper, given => by
      apply holding_bind (holding_bound env name value (proper name List.mem_cons_self) (given value List.mem_cons_self))
      exact fun _ _ => holding_parameters env names values (fun other member => proper other (List.mem_cons_of_mem _ member))
        fun other member => given other (List.mem_cons_of_mem _ member)

theorem holding_read (id : Nat) (name : Name) :
    Holding layer receiver (readName id name) fun value => value.Every Closure.Proper := by
  intro m holds
  obtain ⟨act, run, reads⟩ := read_name_acts id name m
  exact ends_congr run (holding_reads name.line reads m holds)

theorem holding_write (id : Nat) (name : Name) (value : Value) (proper : name.Proper)
    (new : value.Every Closure.Proper) : Holding layer receiver (writeName id name value) fun _ => True := by
  intro m holds
  obtain ⟨act, run, writes⟩ := write_name_acts id name m value
  exact ends_congr run (holding_writes name.line writes proper new m holds)

theorem holding_identity (line : Nat) : Holding layer receiver (onStore line Store.newIdentity) fun _ => True := by
  apply holding_store
  exact fun s holds => ⟨holds_identity holds _, trivial⟩

theorem holding_receiver (line : Nat) (closure : Closure) (object : Instance) (proper : closure.Proper)
    (methods : object.ofClass.Every Closure.Proper) :
    Holding layer receiver (onStore line (Store.bind closure object)) Closure.Proper := by
  apply holding_store
  exact fun s holds => ⟨holds_push _ holds (receiver_every object methods), proper⟩

theorem holding_property (name : Name) (value : Value) (known : value.Every Closure.Proper) :
    Holding layer receiver (property name value) fun result => result.Every Closure.Proper := by
  cases value with
  | object object =>
      apply holding_store
      intro s holds
      apply ends_mono _ _ _ _ _ _ (store_property_ends object name.text s)
      · rintro value _ (⟨rfl, found⟩ | ⟨method, found, rfl, rfl⟩)
        · exact ⟨holds, holds.code.fields _ _ value found⟩
        · exact ⟨holds_push _ (holds_identity holds (s.nextIdentity + 1)) (receiver_every object known),
            known name.text method found⟩
      · rintro _ _ ⟨rfl, _⟩
        exact holds
  | _ => exact holding_stop _ _

theorem holding_answer (closure : Closure) (flow : Flow) (known : flow.Every Closure.Proper) :
    Holding layer receiver (answer closure flow) fun value => value.Every Closure.Proper := by
  unfold answer
  split
  · exact holding_reads _ (Store.reads_get_at closure.env 0 "this")
  · cases flow with
    | normal => exact holding_pure _ _ trivial
    | returned value => exact holding_pure _ _ known

theorem holding_instance (line : Nat) (c : ClassValue) (known : c.Every Closure.Proper) :
    Holding layer receiver (onStore line (Store.newInstance c)) fun object => object.ofClass.Every Closure.Proper := by
  apply holding_store
  exact fun s holds => ⟨⟨Store.every_instance holds.code, holds.receiver⟩, known⟩

theorem holding_field (line : Nat) (object : Instance) (name : String) (value : Value)
    (new : value.Every Closure.Proper) :
    Holding layer receiver (onStore line (Store.setField object name value)) fun _ => True := by
  apply holding_store
  exact fun s holds => ⟨⟨Store.every_field object.identity name value holds.code new, holds.receiver⟩, trivial⟩

theorem holding_renew (env : Env) (other : env.inner ≠ layer) :
    Holding layer receiver (onStore 0 (Store.clear env)) fun _ => True := by
  apply holding_store
  exact fun s holds => ⟨holds_clear env.inner holds other, trivial⟩

theorem holding_function (routine : Routine) (proper : routine.Proper) :
    Holding layer receiver (defineFunction routine) fun _ => True := by
  have named : routine.name.Proper := by
    cases routine
    exact proper.1
  apply holding_bind (holding_identity routine.name.line)
  intro identity _
  apply holding_env
  exact fun env => holding_define routine.name (.function identity ⟨routine, env, false⟩) named proper

theorem holding_class (name : Name) (methods : List Routine) (named : name.Proper)
    (proper : Routine.ProperAll methods) : Holding layer receiver (defineClass name methods) fun _ => True := by
  apply holding_bind (holding_define name .none named trivial)
  intro _ _
  apply holding_env
  intro env
  apply holding_bind (holding_identity name.line)
  intro identity _
  have made : (ClassValue.made identity name methods env).Every Closure.Proper :=
    made_every identity name methods env fun method member => routine_proper_mem methods method proper member
  exact holding_writes name.line (Store.writes_assign env name.text _) named made

end Steps

def Closure.run (closure : Closure) (steps : Nat) (arguments : List Value) : Eval Flow := do
  let env ← onStore 0 (Store.nest closure.env .empty)
  defineAll env closure.routine.parameters arguments
  within env (Regime.standard.executeAll steps closure.routine.body)

theorem enter_run (closure : Closure) (steps : Nat) (arguments : List Value) :
    Regime.standard.enter (steps + 1) closure arguments = closure.run steps arguments >>= answer closure := by
  simp only [Regime.enter, Closure.run, bind_assoc]

section Walk

variable (layer : Nat) (receiver : Value)

structure Steadfast (steps : Nat) : Prop where
  evaluate : ∀ e : Expr, e.Proper →
    Holding layer receiver (Regime.standard.evaluate steps e) fun value => value.Every Closure.Proper
  arguments : ∀ es : List Expr, Expr.ProperAll es →
    Holding layer receiver (Regime.standard.evaluateAll steps es) fun values => ∀ value ∈ values, value.Every Closure.Proper
  call : ∀ (callee : Value) (arguments : List Value) (line : Nat), callee.Every Closure.Proper →
    (∀ value ∈ arguments, value.Every Closure.Proper) →
    Holding layer receiver (Regime.standard.call steps callee arguments line) fun value => value.Every Closure.Proper
  enter : ∀ (closure : Closure) (arguments : List Value), closure.Proper →
    (∀ value ∈ arguments, value.Every Closure.Proper) →
    Holding layer receiver (Regime.standard.enter steps closure arguments) fun value => value.Every Closure.Proper
  execute : ∀ s : Stmt, s.Proper →
    Holding layer receiver (Regime.standard.execute steps s) fun flow => flow.Every Closure.Proper
  body : ∀ body : List Stmt, Stmt.ProperAll body →
    Holding layer receiver (Regime.standard.executeAll steps body) fun flow => flow.Every Closure.Proper
  choose : ∀ (condition : Expr) (body : List Stmt) (alternative : Alternative), condition.Proper →
    Stmt.ProperAll body → alternative.Proper →
    Holding layer receiver (Regime.standard.choose steps condition body alternative) fun flow => flow.Every Closure.Proper
  loop : ∀ (condition : Expr) (body : List Stmt) (env : Env), condition.Proper → Stmt.ProperAll body →
    env.inner ≠ layer →
    Holding layer receiver (Regime.standard.repeatWhile steps condition body env) fun flow => flow.Every Closure.Proper

variable {layer receiver} {steps : Nat} (ih : Steadfast layer receiver steps)
include ih

theorem holding_evaluate (e : Expr) (proper : e.Proper) :
    Holding layer receiver (Regime.standard.evaluate (steps + 1) e) fun value => value.Every Closure.Proper := by
  cases e with
  | literal mark value => exact holding_pure _ _ (every_literal value)
  | grouping mark inner => exact ih.evaluate inner proper
  | unary mark operator right =>
      apply holding_bind (ih.evaluate right proper)
      exact fun value _ => holding_weaken (holding_inert (inert_unary operator value)) every_inert
  | binary mark left operator right =>
      apply holding_bind (ih.evaluate left proper.1)
      intro first _
      apply holding_bind (ih.evaluate right proper.2)
      exact fun second _ => holding_weaken (holding_inert (inert_binary operator first second)) every_inert
  | logical mark left operator right =>
      apply holding_bind (ih.evaluate left proper.1)
      intro value _
      cases value with
      | bool truth =>
          dsimp only
          split
          · exact holding_pure _ _ trivial
          · exact ih.evaluate right proper.2
      | _ => exact holding_stop _ _
  | ident mark name | this mark name => exact holding_read _ _
  | assign mark name value =>
      apply holding_bind (ih.evaluate value proper.2)
      intro result known
      apply holding_bind (holding_write mark.id name result proper.1 known)
      exact fun _ _ => holding_pure _ _ known
  | call mark callee arguments line =>
      apply holding_bind (ih.evaluate callee proper.1)
      intro function known
      apply holding_bind (ih.arguments arguments proper.2)
      intro values given
      apply holding_bind (holding_inert (inert_arity function values line))
      exact fun _ _ => ih.call function values line known given
  | get mark object name =>
      apply holding_bind (ih.evaluate object proper)
      exact fun value known => holding_property name value known
  | set mark object name value =>
      apply holding_bind (ih.evaluate object proper.1)
      intro target _
      cases target with
      | object object =>
          apply holding_bind (ih.evaluate value proper.2)
          intro result known
          apply holding_bind (holding_field name.line object name.text result known)
          exact fun _ _ => holding_pure _ _ known
      | _ => exact holding_stop _ _

theorem holding_arguments (es : List Expr) (proper : Expr.ProperAll es) :
    Holding layer receiver (Regime.standard.evaluateAll (steps + 1) es)
      fun values => ∀ value ∈ values, value.Every Closure.Proper := by
  cases es with
  | nil => exact holding_pure _ _ fun _ none => nomatch none
  | cons e rest =>
      apply holding_bind (ih.evaluate e proper.1)
      intro value known
      apply holding_bind (ih.arguments rest proper.2)
      intro values given
      apply holding_pure
      intro other member
      rcases List.mem_cons.mp member with rfl | later
      · exact known
      · exact given other later

theorem holding_call (callee : Value) (arguments : List Value) (line : Nat) (known : callee.Every Closure.Proper)
    (given : ∀ value ∈ arguments, value.Every Closure.Proper) :
    Holding layer receiver (Regime.standard.call (steps + 1) callee arguments line)
      fun value => value.Every Closure.Proper := by
  cases callee with
  | native native => exact holding_weaken (holding_inert (inert_native native arguments line)) every_inert
  | function identity closure => exact ih.enter closure arguments known given
  | «class» c =>
      apply holding_bind (holding_instance line c known)
      intro object methods
      cases found : c.constructor? with
      | none => exact holding_pure _ _ methods
      | some method =>
          apply holding_bind (holding_receiver line method object (known _ method found) methods)
          intro bound proper
          apply holding_bind (ih.enter bound arguments proper given)
          exact fun _ _ => holding_pure _ _ methods
  | _ => exact holding_stop _ _

theorem holding_run (closure : Closure) (arguments : List Value) (proper : closure.Proper)
    (given : ∀ value ∈ arguments, value.Every Closure.Proper) :
    Holding layer receiver (closure.run steps arguments) fun flow => flow.Every Closure.Proper := by
  obtain ⟨_, parameters, body⟩ := routine_proper_parts closure.routine proper
  apply holding_nested
  intro env _
  apply holding_bind (holding_parameters env closure.routine.parameters arguments parameters given)
  exact fun _ _ => holding_within env (ih.body closure.routine.body body)

theorem holding_enter (closure : Closure) (arguments : List Value) (proper : closure.Proper)
    (given : ∀ value ∈ arguments, value.Every Closure.Proper) :
    Holding layer receiver (Regime.standard.enter (steps + 1) closure arguments)
      fun value => value.Every Closure.Proper := by
  rw [enter_run]
  apply holding_bind (holding_run ih closure arguments proper given)
  exact fun flow known => holding_answer closure flow known

theorem holding_scope (body : List Stmt) (proper : Stmt.ProperAll body) :
    Holding layer receiver (childEnv >>= fun env => within env (Regime.standard.executeAll steps body))
      fun flow => flow.Every Closure.Proper :=
  holding_child fun env _ => holding_within env (ih.body body proper)

theorem holding_execute (s : Stmt) (proper : s.Proper) :
    Holding layer receiver (Regime.standard.execute (steps + 1) s) fun flow => flow.Every Closure.Proper := by
  cases s with
  | expression e =>
      apply holding_bind (ih.evaluate e proper)
      exact fun _ _ => holding_pure _ _ trivial
  | var name value =>
      cases value with
      | none =>
          apply holding_bind (holding_define name .none proper trivial)
          exact fun _ _ => holding_pure _ _ trivial
      | some e =>
          apply holding_bind (ih.evaluate e proper.2)
          intro value known
          apply holding_bind (holding_define name value proper.1 known)
          exact fun _ _ => holding_pure _ _ trivial
  | block body => exact holding_scope ih body proper
  | branch condition body alternative => exact ih.choose condition body alternative proper.1 proper.2.1 proper.2.2
  | «while» condition body =>
      apply holding_child
      exact fun env other => ih.loop condition body env proper.1 proper.2 other
  | function routine =>
      apply holding_bind (holding_function routine proper)
      exact fun _ _ => holding_pure _ _ trivial
  | «return» line value =>
      cases value with
      | none => exact holding_pure _ _ trivial
      | some e =>
          apply holding_bind (ih.evaluate e proper)
          exact fun _ known => holding_pure _ _ known
  | «class» name methods =>
      apply holding_bind (holding_class name methods proper.1 proper.2)
      exact fun _ _ => holding_pure _ _ trivial

theorem holding_body (body : List Stmt) (proper : Stmt.ProperAll body) :
    Holding layer receiver (Regime.standard.executeAll (steps + 1) body) fun flow => flow.Every Closure.Proper := by
  cases body with
  | nil => exact holding_pure _ _ trivial
  | cons s rest =>
      apply holding_bind (ih.execute s proper.1)
      intro flow known
      cases flow with
      | normal => exact ih.body rest proper.2
      | returned value => exact holding_pure _ _ known

theorem holding_choose (condition : Expr) (body : List Stmt) (alternative : Alternative) (tested : condition.Proper)
    (proper : Stmt.ProperAll body) (others : alternative.Proper) :
    Holding layer receiver (Regime.standard.choose (steps + 1) condition body alternative)
      fun flow => flow.Every Closure.Proper := by
  apply holding_bind (ih.evaluate condition tested)
  intro value _
  apply holding_bind (holding_inert (inert_condition _ _ value))
  intro truth _
  cases truth with
  | true => exact holding_scope ih body proper
  | false =>
      cases alternative with
      | none => exact holding_pure _ _ trivial
      | elseIf condition body alternative => exact ih.choose condition body alternative others.1 others.2.1 others.2.2
      | block body => exact holding_scope ih body others

theorem holding_loop (condition : Expr) (body : List Stmt) (env : Env) (tested : condition.Proper)
    (proper : Stmt.ProperAll body) (other : env.inner ≠ layer) :
    Holding layer receiver (Regime.standard.repeatWhile (steps + 1) condition body env)
      fun flow => flow.Every Closure.Proper := by
  apply holding_bind (ih.evaluate condition tested)
  intro value _
  apply holding_bind (holding_inert (inert_condition _ _ value))
  intro truth _
  cases truth with
  | false => exact holding_pure _ _ trivial
  | true =>
      apply holding_bind (holding_within env (ih.body body proper))
      intro flow known
      cases flow with
      | returned value => exact holding_pure _ _ known
      | normal =>
          have again : Holding layer receiver (do
              onStore 0 (Store.clear env)
              Regime.standard.repeatWhile steps condition body env) fun flow => flow.Every Closure.Proper :=
            holding_bind (holding_renew env other) fun _ _ => ih.loop condition body env tested proper other
          exact again

end Walk

theorem walk_steadfast (layer : Nat) (receiver : Value) : ∀ steps, Steadfast layer receiver steps
  | 0 => by
      constructor <;> intros <;> exact holding_stop _ _
  | steps + 1 => by
      have ih := walk_steadfast layer receiver steps
      exact ⟨holding_evaluate ih, holding_arguments ih, holding_call ih, holding_enter ih, holding_execute ih,
        holding_body ih, holding_choose ih, holding_loop ih⟩

end TreeWalk
