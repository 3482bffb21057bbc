import TreeWalk.Proofs.Alpha
import TreeWalk.Proofs.Environments
import TreeWalk.Proofs.Quiet

set_option autoImplicit false

namespace TreeWalk

open Eval

namespace Store

structure Gains (layer : Nat) (names : List String) (s t : Store) : Prop where
  size : s.layers.size ≤ t.layers.size
  kept : ∀ other name, (s.layer other).contains name = true → (t.layer other).contains name = true
  gained : ∀ other name, other < s.layers.size → (t.layer other).contains name = true →
    (s.layer other).contains name = true ∨ (other = layer ∧ name ∈ names)

structure Spares (layer : Nat) (s t : Store) : Prop where
  size : s.layers.size ≤ t.layers.size
  names : ∀ other < s.layers.size, other ≠ layer → ∀ name, (t.layer other).contains name = (s.layer other).contains name

variable {layer : Nat} {names more : List String} {s t u : Store}

theorem gains_refl (layer : Nat) (names : List String) (s : Store) : Gains layer names s s :=
  ⟨Nat.le_refl _, fun _ _ => id, fun _ _ _ => .inl⟩

theorem gains_trans (first : Gains layer names s t) (second : Gains layer more t u) :
    Gains layer (names ++ more) s u := by
  refine ⟨Nat.le_trans first.size second.size, fun other name here => second.kept other name (first.kept other name here),
    fun other name inside found => ?_⟩
  rcases second.gained other name (Nat.lt_of_lt_of_le inside first.size) found with earlier | ⟨here, declared⟩
  · rcases first.gained other name inside earlier with before | ⟨here, declared⟩
    · exact .inl before
    · exact .inr ⟨here, List.mem_append_left _ declared⟩
  · exact .inr ⟨here, List.mem_append_right _ declared⟩

theorem gains_wider (gains : Gains layer names s t) (wider : ∀ name ∈ names, name ∈ more) : Gains layer more s t := by
  refine ⟨gains.size, gains.kept, fun other name inside found => ?_⟩
  rcases gains.gained other name inside found with before | ⟨here, declared⟩
  · exact .inl before
  · exact .inr ⟨here, wider name declared⟩

theorem gains_nothing (gains : Gains layer [] s t) (other : Nat) : Gains other [] s t := by
  refine ⟨gains.size, gains.kept, fun place name inside found => ?_⟩
  rcases gains.gained place name inside found with before | ⟨_, declared⟩
  · exact .inl before
  · cases declared

theorem gains_layers (layer : Nat) (names : List String) (s t : Store) (same : t.layers = s.layers) :
    Gains layer names s t := by
  have layers : ∀ other, t.layer other = s.layer other := fun other => by unfold Store.layer; rw [same]
  refine ⟨Nat.le_of_eq (by rw [same]), fun other name => ?_, fun other name _ => ?_⟩
  · rw [layers]
    exact id
  · rw [layers]
    exact .inl

theorem gains_write (s : Store) (id : Nat) (name : String) (value : Value) :
    Gains id [name] s (s.write id name value) := by
  refine ⟨by simp [write], fun other known => contains_write s id other name known value,
    fun other known _ found => ?_⟩
  obtain ⟨result, read⟩ := Option.isSome_iff_exists.mp found
  by_cases named : known = name
  · by_cases same : other = id
    · exact .inr ⟨same, by simp [named]⟩
    · rw [layer_write_other s id other name value same] at found
      exact .inl found
  · rw [find_write_kept s id other name known value named] at read
    exact .inl (by simp [Bindings.contains, read])

theorem gains_rewrite (layer : Nat) (s : Store) (id : Nat) (name : String) (value : Value)
    (bound : (s.layer id).contains name = true) : Gains layer [] s (s.write id name value) := by
  have written := gains_write s id name value
  refine ⟨written.size, written.kept, fun other known inside found => ?_⟩
  rcases written.gained other known inside found with before | ⟨rfl, declared⟩
  · exact .inl before
  · exact .inl (List.mem_singleton.mp declared ▸ bound)

theorem gains_push (layer : Nat) (s : Store) (bindings : Bindings Value) :
    Gains layer [] s { s with layers := s.layers.push bindings } := by
  refine ⟨by simp, fun other name here => ?_, fun other name inside found => ?_⟩
  · rwa [layer_push s bindings other (inside_of_contains s other name here)]
  · rw [layer_push s bindings other inside] at found
    exact .inl found

theorem spares_gains (gains : Gains layer names s t) : Spares layer s t := by
  refine ⟨gains.size, fun other inside different name => ?_⟩
  rw [Bool.eq_iff_iff]
  constructor
  · intro found
    rcases gains.gained other name inside found with before | ⟨same, _⟩
    · exact before
    · exact absurd same different
  · exact gains.kept other name

theorem spares_trans (first : Spares layer s t) (second : Spares layer t u) : Spares layer s u := by
  refine ⟨Nat.le_trans first.size second.size, fun other inside different name => ?_⟩
  exact (second.names other (Nat.lt_of_lt_of_le inside first.size) different name).trans
    (first.names other inside different name)

theorem spares_clear (layer : Nat) (s : Store) :
    Spares layer s { s with layers := s.layers.modify layer fun _ => .empty } := by
  refine ⟨Nat.le_of_eq (Array.size_modify ..).symm, fun other _ different name => ?_⟩
  rw [layer_clear_other s layer other different]

theorem gains_apart (layer : Nat) (bindings : Bindings Value)
    (inside : Spares s.layers.size { s with layers := s.layers.push bindings } t) : Gains layer [] s t := by
  have pushed : s.layers.size + 1 ≤ t.layers.size := by simpa using inside.size
  have same : ∀ other < s.layers.size, ∀ name, (t.layer other).contains name = (s.layer other).contains name := by
    intro other below name
    rw [inside.names other (by simpa using Nat.lt_succ_of_lt below) (Nat.ne_of_lt below) name,
      layer_push s bindings other below]
  refine ⟨Nat.le_of_succ_le pushed, fun other name here => ?_, fun other name below found => ?_⟩
  · rwa [same other (inside_of_contains s other name here) name]
  · exact .inl (same other below name ▸ found)

end Store

section Steps

variable {α β : Type}

def Adds (names : List String) (p : Eval α) : Prop :=
  ∀ m, (endState (p m)).env = m.env ∧ m.store.Gains m.env.inner names (endState (p m)).store

theorem adds_pure (names : List String) (a : α) : Adds names (pure a) :=
  fun m => ⟨rfl, Store.gains_refl _ _ m.store⟩

theorem adds_exhausted (names : List String) : Adds names (throw .exhausted : Eval α) :=
  fun m => ⟨rfl, Store.gains_refl _ _ m.store⟩

theorem adds_fail (names : List String) (line : Nat) (fault : RuntimeFault) : Adds names (fail line fault : Eval α) :=
  fun m => ⟨rfl, Store.gains_refl _ _ m.store⟩

theorem adds_then {p : Eval α} {f : α → Eval β} {names more : List String} (first : Adds names p)
    (second : ∀ a, Adds more (f a)) : Adds (names ++ more) (p >>= f) := by
  intro m
  obtain ⟨env, gains⟩ := first m
  cases run : p m with
  | ok a next =>
      rw [run] at env gains
      obtain ⟨back, later⟩ := second a next
      rw [bind_ok f run]
      exact ⟨back.trans env, Store.gains_trans gains ((show next.env = m.env from env) ▸ later)⟩
  | error halt next =>
      rw [run] at env gains
      rw [bind_error f run]
      exact ⟨env, Store.gains_wider gains fun name member => List.mem_append_left _ member⟩

theorem adds_next {p : Eval α} {f : α → Eval β} {names : List String} (first : Adds [] p)
    (second : ∀ a, Adds names (f a)) : Adds names (p >>= f) :=
  adds_then first second

theorem adds_inert {p : Eval α} {good : α → Prop} (names : List String) (inert : Inert p good) : Adds names p := by
  intro m
  have kept : ∀ next : Machine, SameButStreams m next → next.env = m.env ∧ m.store.Gains m.env.inner names next.store :=
    fun next same => ⟨same.env, Store.gains_layers _ _ _ _ (congrArg Store.layers same.store)⟩
  exact ends_state (inert m) (fun _ next ended => kept next ended.1) fun _ next ended => kept next ended.1

theorem adds_store (line : Nat) (act : StoreM α) (gains : ∀ s : Store, s.Gains 0 [] (endState (act s))) :
    Adds [] (onStore line act) := by
  intro m
  have ended := Store.gains_nothing (gains m.store) m.env.inner
  unfold onStore
  cases run : act m.store <;> rw [run] at ended <;> simp only [run] <;> exact ⟨rfl, ended⟩

theorem adds_env : Adds [] currentEnv :=
  fun m => ⟨rfl, Store.gains_refl _ _ m.store⟩

theorem adds_define (name : Name) (value : Value) : Adds [name.text] (define name value) := by
  intro m
  have run : define name value m = onStore name.line (Store.define m.env name.text value) m := rfl
  rw [run]
  unfold onStore Store.define
  by_cases known : (m.store.layer m.env.inner).contains name.text
  · simp only [known, if_true]
    exact ⟨rfl, Store.gains_refl _ _ _⟩
  · simp only [known]
    exact ⟨rfl, Store.gains_write _ _ _ _⟩

theorem gains_reads {act : StoreM Value} {name : String} {faults : RuntimeFault → Prop}
    (reads : Store.Reads act name faults) (s : Store) : s.Gains 0 [] (endState (act s)) := by
  apply ends_state (reads s)
  · rintro _ _ ⟨rfl, _⟩
    exact Store.gains_refl _ _ _
  · rintro _ _ ⟨rfl, _⟩
    exact Store.gains_refl _ _ _

theorem gains_writes {act : StoreM Unit} {name : String} {value : Value} {faults : RuntimeFault → Prop}
    (writes : Store.Writes act name value faults) (s : Store) : s.Gains 0 [] (endState (act s)) := by
  apply ends_state (writes s)
  · rintro _ _ ⟨layer, bound, rfl⟩
    exact Store.gains_rewrite 0 s layer name value bound
  · rintro _ _ ⟨rfl, _⟩
    exact Store.gains_refl _ _ _

theorem adds_read (id : Nat) (name : Name) : Adds [] (readName id name) := by
  intro m
  obtain ⟨act, run, reads⟩ := read_name_acts id name m
  rw [run]
  exact adds_store name.line act (gains_reads reads) m

theorem adds_write (id : Nat) (name : Name) (value : Value) : Adds [] (writeName id name value) := by
  intro m
  obtain ⟨act, run, writes⟩ := write_name_acts id name m value
  rw [run]
  exact adds_store name.line act (gains_writes writes) m

theorem adds_bind (line : Nat) (closure : Closure) (object : Instance) :
    Adds [] (onStore line (Store.bind closure object)) :=
  adds_store _ _ fun s => Store.gains_push 0 s _

theorem gains_received (s : Store) (object : Instance) : s.Gains 0 [] (s.received object) := by
  have numbered := Store.gains_layers 0 [] s { s with nextIdentity := s.nextIdentity + 1 } rfl
  exact Store.gains_trans numbered (Store.gains_push 0 _ (Bindings.empty.insert receiverName (.object object)))

theorem adds_property (name : Name) (value : Value) : Adds [] (property name value) := by
  cases value with
  | object object =>
      refine adds_store _ _ fun s => ?_
      apply ends_state (store_property_ends object name.text s)
      · rintro _ _ (⟨rfl, _⟩ | ⟨_, _, rfl, _⟩)
        · exact Store.gains_refl _ _ _
        · exact gains_received s object
      · rintro _ _ ⟨rfl, _⟩
        exact Store.gains_refl _ _ _
  | _ => exact adds_fail _ _ _

theorem adds_answer (closure : Closure) (flow : Flow) : Adds [] (answer closure flow) := by
  unfold answer
  split
  · exact adds_store _ _ (gains_reads (Store.reads_get_at _ _ _))
  · cases flow <;> exact adds_pure _ _

theorem adds_function (routine : Routine) : Adds [routine.name.text] (defineFunction routine) :=
  adds_next (adds_store _ _ fun s => Store.gains_layers 0 [] s _ rfl) fun _ =>
    adds_next adds_env fun _ => adds_define _ _

theorem adds_class (name : Name) (methods : List Routine) : Adds [name.text] (defineClass name methods) :=
  adds_then (adds_define name .none) fun _ => adds_next adds_env fun _ =>
    adds_next (adds_store _ _ fun s => Store.gains_layers 0 [] s _ rfl) fun _ =>
      adds_store _ _ (gains_writes (Store.writes_assign _ _ _))

end Steps

section Layers

variable {α β : Type}

def Confined (layer : Nat) (p : Eval α) : Prop :=
  ∀ m, (endState (p m)).env = m.env ∧ m.store.Spares layer (endState (p m)).store

theorem confined_bind {layer : Nat} {p : Eval α} {f : α → Eval β} (first : Confined layer p)
    (second : ∀ a, Confined layer (f a)) : Confined layer (p >>= f) := by
  intro m
  obtain ⟨env, spares⟩ := first m
  cases run : p m with
  | ok a next =>
      rw [run] at env spares
      obtain ⟨back, later⟩ := second a next
      rw [bind_ok f run]
      exact ⟨back.trans env, Store.spares_trans spares later⟩
  | error halt next =>
      rw [run] at env spares
      rw [bind_error f run]
      exact ⟨env, spares⟩

theorem confined_adds (layer : Nat) {p : Eval α} (adds : Adds [] p) : Confined layer p :=
  fun m => ⟨(adds m).1, Store.spares_gains (Store.gains_nothing (adds m).2 layer)⟩

theorem confined_within (env : Env) {names : List String} {p : Eval α} (adds : Adds names p) :
    Confined env.inner (within env p) := by
  intro m
  obtain ⟨_, gains⟩ := adds { m with env }
  unfold within
  cases run : p { m with env } with
  | ok a next => rw [run] at gains; exact ⟨rfl, Store.spares_gains gains⟩
  | error halt next => rw [run] at gains; exact ⟨rfl, Store.spares_gains gains⟩

theorem confined_parameters (env : Env) : ∀ (names : List Name) (values : List Value),
    Confined env.inner (defineAll env names values)
  | [], _ => confined_adds _ (adds_pure [] ())
  | _ :: _, [] => confined_adds _ (adds_pure [] ())
  | name :: names, value :: values => by
      refine confined_bind (fun m => ?_) fun _ => confined_parameters env names values
      have run : onStore name.line (Store.define env name.text value) m =
          within env (define name value) m := by
        unfold within define currentEnv onStore Store.define
        by_cases known : (m.store.layer env.inner).contains name.text <;>
          simp [known, bind, EStateM.bind, get_run, pure, EStateM.pure]
      rw [run]
      exact confined_within env (adds_define name value) m

theorem confined_renew (env : Env) {f : Env → Eval β} (next : Confined env.inner (f env)) :
    Confined env.inner (Regime.standard.renew env >>= f) := by
  intro m
  let cleared : Machine :=
    { m with store := { m.store with layers := m.store.layers.modify env.inner fun _ => .empty } }
  have run : Regime.standard.renew env m = .ok env cleared := rfl
  obtain ⟨back, later⟩ := next cleared
  rw [bind_ok f run]
  exact ⟨back, Store.spares_trans (Store.spares_clear env.inner m.store) later⟩

theorem adds_nested (outer : Env) (f : Env → Eval β) (inside : ∀ env, Confined env.inner (f env)) :
    Adds [] (onStore 0 (Store.nest outer .empty) >>= f) := by
  intro m
  let nested : Machine := { m with store := { m.store with layers := m.store.layers.push .empty } }
  have made : onStore 0 (Store.nest outer .empty) m = .ok (outer.child m.store.layers.size) nested := rfl
  obtain ⟨env, spares⟩ := inside (outer.child m.store.layers.size) nested
  rw [bind_ok f made]
  exact ⟨env, Store.gains_apart _ _ spares⟩

theorem adds_child (f : Env → Eval β) (inside : ∀ env, Confined env.inner (f env)) : Adds [] (childEnv >>= f) :=
  fun m => adds_nested m.env f inside m

end Layers

section Walk

structure Widens (steps : Nat) : Prop where
  evaluate : ∀ e, Adds [] (Regime.standard.evaluate steps e)
  arguments : ∀ es, Adds [] (Regime.standard.evaluateAll steps es)
  call : ∀ callee arguments line, Adds [] (Regime.standard.call steps callee arguments line)
  enter : ∀ closure arguments, Adds [] (Regime.standard.enter steps closure arguments)
  execute : ∀ s : Stmt, Adds s.own (Regime.standard.execute steps s)
  body : ∀ body : List Stmt, Adds (body.flatMap Stmt.own) (Regime.standard.executeAll steps body)
  choose : ∀ condition body alternative, Adds [] (Regime.standard.choose steps condition body alternative)
  loop : ∀ condition body env, Confined env.inner (Regime.standard.repeatWhile steps condition body env)

variable {steps : Nat} (ih : Widens steps)
include ih

theorem adds_evaluate (e : Expr) : Adds [] (Regime.standard.evaluate (steps + 1) e) := by
  cases e with
  | literal mark value => exact adds_pure _ _
  | grouping mark inner => exact ih.evaluate inner
  | unary mark operator right =>
      exact adds_next (ih.evaluate right) fun _ => adds_inert _ (inert_unary operator _)
  | binary mark left operator right =>
      exact adds_next (ih.evaluate left) fun _ => adds_next (ih.evaluate right) fun _ =>
        adds_inert _ (inert_binary operator _ _)
  | logical mark left operator right =>
      refine adds_next (ih.evaluate left) fun value => ?_
      cases value with
      | bool truth =>
          dsimp only
          split
          · exact adds_pure _ _
          · exact ih.evaluate right
      | _ => exact adds_fail _ _ _
  | ident mark name | this mark name => exact adds_read _ _
  | assign mark name value =>
      exact adds_next (ih.evaluate value) fun _ => adds_next (adds_write _ _ _) fun _ => adds_pure _ _
  | call mark callee arguments line =>
      exact adds_next (ih.evaluate callee) fun _ => adds_next (ih.arguments arguments) fun _ =>
        adds_next (adds_inert _ (inert_arity _ _ _)) fun _ => ih.call _ _ _
  | get mark object name => exact adds_next (ih.evaluate object) fun _ => adds_property _ _
  | set mark object name value =>
      refine adds_next (ih.evaluate object) fun target => ?_
      cases target with
      | object object =>
          exact adds_next (ih.evaluate value) fun _ =>
            adds_next (adds_store _ _ fun s => Store.gains_layers 0 [] s _ rfl) fun _ => adds_pure _ _
      | _ => exact adds_fail _ _ _

theorem adds_call (callee : Value) (arguments : List Value) (line : Nat) :
    Adds [] (Regime.standard.call (steps + 1) callee arguments line) := by
  cases callee with
  | native native => exact adds_inert _ (inert_native native arguments line)
  | function identity closure => exact ih.enter _ _
  | «class» c =>
      refine adds_next (adds_store _ _ fun s => Store.gains_layers 0 [] s _ rfl) fun object => ?_
      cases c.constructor? with
      | none => exact adds_pure _ _
      | some method =>
          exact adds_next (adds_bind _ _ _) fun _ => adds_next (ih.enter _ _) fun _ => adds_pure _ _
  | _ => exact adds_fail _ _ _

theorem adds_enter (closure : Closure) (arguments : List Value) :
    Adds [] (Regime.standard.enter (steps + 1) closure arguments) := by
  refine adds_nested closure.env _ fun env => ?_
  refine confined_bind (confined_parameters env _ _) fun _ => ?_
  exact confined_bind (confined_within env (ih.body _)) fun _ => confined_adds _ (adds_answer closure _)

theorem adds_scope (body : List Stmt) :
    Adds [] (childEnv >>= fun env => within env (Regime.standard.executeAll steps body)) :=
  adds_child _ fun env => confined_within env (ih.body body)

theorem adds_execute (s : Stmt) : Adds s.own (Regime.standard.execute (steps + 1) s) := by
  cases s with
  | expression e => exact adds_next (ih.evaluate e) fun _ => adds_pure _ _
  | var name value =>
      cases value with
      | none => exact adds_then (adds_define name _) fun _ => adds_pure [] _
      | some e => exact adds_next (ih.evaluate e) fun _ => adds_then (adds_define name _) fun _ => adds_pure [] _
  | block body => exact adds_scope ih body
  | branch condition body alternative => exact ih.choose _ _ _
  | «while» condition body => exact adds_child _ fun env => ih.loop condition body env
  | function routine => exact adds_then (adds_function routine) fun _ => adds_pure [] _
  | «return» line value =>
      cases value with
      | none => exact adds_pure _ _
      | some e => exact adds_next (ih.evaluate e) fun _ => adds_pure _ _
  | «class» name methods => exact adds_then (adds_class name methods) fun _ => adds_pure [] _

theorem adds_body (body : List Stmt) : Adds (body.flatMap Stmt.own) (Regime.standard.executeAll (steps + 1) body) := by
  cases body with
  | nil => exact adds_pure _ _
  | cons s rest =>
      refine adds_then (ih.execute s) fun flow => ?_
      cases flow with
      | normal => exact ih.body rest
      | returned value => exact adds_pure _ _

theorem adds_choose (condition : Expr) (body : List Stmt) (alternative : Alternative) :
    Adds [] (Regime.standard.choose (steps + 1) condition body alternative) := by
  refine adds_next (ih.evaluate condition) fun value => adds_next (adds_inert _ (inert_condition _ _ value)) fun truth => ?_
  cases truth with
  | true => exact adds_scope ih body
  | false =>
      cases alternative with
      | none => exact adds_pure _ _
      | elseIf condition body alternative => exact ih.choose _ _ _
      | block body => exact adds_scope ih body

theorem confined_loop (condition : Expr) (body : List Stmt) (env : Env) :
    Confined env.inner (Regime.standard.repeatWhile (steps + 1) condition body env) := by
  refine confined_bind (confined_adds _ (ih.evaluate condition)) fun value => ?_
  refine confined_bind (confined_adds _ (adds_inert _ (inert_condition _ _ value))) fun truth => ?_
  cases truth with
  | true =>
      refine confined_bind (confined_within env (ih.body body)) fun flow => ?_
      cases flow with
      | normal => exact confined_renew env (ih.loop condition body env)
      | returned value => exact confined_adds _ (adds_pure [] _)
  | false => exact confined_adds _ (adds_pure [] _)

omit ih

theorem walk_widens : ∀ steps, Widens steps
  | 0 => by
      constructor <;> intros <;> first | exact adds_exhausted _ | exact confined_adds _ (adds_exhausted [])
  | steps + 1 =>
      have ih := walk_widens steps
      { evaluate := adds_evaluate ih
        arguments := fun es => by
          cases es with
          | nil => exact adds_pure _ _
          | cons e rest =>
              exact adds_next (ih.evaluate e) fun _ => adds_next (ih.arguments rest) fun _ => adds_pure _ _
        call := adds_call ih
        enter := adds_enter ih
        execute := adds_execute ih
        body := adds_body ih
        choose := adds_choose ih
        loop := confined_loop ih }

end Walk

end TreeWalk
