import TreeWalk.Proofs.Accesses

set_option autoImplicit false

namespace TreeWalk

open Eval

structure Composed (holds : {α : Type} → Eval α → Prop) : Prop where
  done : ∀ {α : Type} (a : α), holds (pure a : Eval α)
  follow : ∀ {α β : Type} (p : Eval α) (f : α → Eval β), holds p → (∀ a, holds (f a)) → holds (p >>= f)
  env : holds currentEnv
  distance : ∀ id, holds (distance? id)
  exhausted : ∀ {α : Type}, holds (throw .exhausted : Eval α)
  failed : ∀ {α : Type} (line : Nat) (fault : RuntimeFault), holds (fail line fault : Eval α)
  store : ∀ {α : Type} (line : Nat) (act : StoreM α), holds (onStore line act)

structure Throughout (holds : {α : Type} → Eval α → Prop) : Prop extends Composed holds where
  print : ∀ (native : Native) (line : Nat) (text : String), holds (native.writeLine line text)
  input : ∀ (arguments : List Value) (line : Nat), holds (Native.input.call arguments line)
  flushed : holds flush
  inside : ∀ {α : Type} (env : Env) (p : Eval α), holds p → holds (within env p)

structure Regime.Throughout (regime : Regime) (holds : {α : Type} → Eval α → Prop) : Prop
    extends TreeWalk.Throughout holds where
  read : ∀ id name, holds (regime.read id name)
  write : ∀ id name value, holds (regime.write id name value)
  renew : ∀ env, holds (regime.renew env)

section Steps

variable {holds : {α : Type} → Eval α → Prop} (all : Composed holds)
include all

theorem throughout_child : holds childEnv :=
  all.follow _ _ all.env fun _ => all.store _ _

theorem throughout_define (name : Name) (value : Value) : holds (define name value) :=
  all.follow _ _ all.env fun _ => all.store _ _

theorem throughout_read (id : Nat) (name : Name) : holds (readName id name) := by
  refine all.follow _ _ (all.distance id) fun distance => ?_
  cases distance with
  | none => exact all.store _ _
  | some distance => exact all.follow _ _ all.env fun _ => all.store _ _

theorem throughout_write (id : Nat) (name : Name) (value : Value) : holds (writeName id name value) := by
  refine all.follow _ _ (all.distance id) fun distance => ?_
  cases distance with
  | none => exact all.store _ _
  | some distance => exact all.follow _ _ all.env fun _ => all.store _ _

theorem throughout_except {α : Type} (line : Nat) (result : Except RuntimeFault α) :
    holds (ofExcept line result) := by
  cases result with
  | ok a => exact all.done a
  | error fault => exact all.failed line fault

theorem throughout_condition (construct : Construct) (line : Nat) (value : Value) :
    holds (asCondition construct line value) := by
  cases value with
  | bool truth => exact all.done truth
  | _ => exact all.failed _ _

theorem throughout_arity (value : Value) (arguments : List Value) (line : Nat) :
    holds (checkArity value arguments line) := by
  unfold checkArity
  cases value.arity? with
  | none => exact all.failed _ _
  | some arity =>
      by_cases fits : arguments.length = arity
      · simp only [fits, if_true]
        exact all.done _
      · simp only [fits, if_false]
        exact all.failed _ _

theorem throughout_parameters (env : Env) : ∀ (names : List Name) (values : List Value),
    holds (defineAll env names values)
  | [], _ => all.done _
  | _ :: _, [] => all.done _
  | _ :: names, _ :: values =>
      all.follow _ _ (all.store _ _) fun _ => throughout_parameters env names values

theorem throughout_property (name : Name) (value : Value) : holds (property name value) := by
  cases value with
  | object object => exact all.store _ _
  | _ => exact all.failed _ _

theorem throughout_answer (closure : Closure) (flow : Flow) : holds (answer closure flow) := by
  unfold answer
  split
  · exact all.store _ _
  · cases flow <;> exact all.done _

theorem throughout_function (routine : Routine) : holds (defineFunction routine) :=
  all.follow _ _ (all.store _ _) fun _ =>
    all.follow _ _ all.env fun _ => throughout_define all _ _

theorem throughout_class (name : Name) (methods : List Routine) : holds (defineClass name methods) :=
  all.follow _ _ (throughout_define all _ _) fun _ => all.follow _ _ all.env fun _ =>
    all.follow _ _ (all.store _ _) fun _ => all.store _ _

end Steps

section Natives

variable {holds : {α : Type} → Eval α → Prop} (all : Throughout holds)
include all

theorem throughout_native (native : Native) (arguments : List Value) (line : Nat) :
    holds (native.call arguments line) := by
  have parity : ∀ (n : Native) (value : Value), holds (n.parity line value) := by
    intro n value
    cases value with
    | number x => exact all.done _
    | _ => exact all.failed _ _
  cases native with
  | print => exact all.follow _ _ (all.print _ _ _) fun _ => all.done _
  | input => exact all.input arguments line
  | isOdd => exact all.follow _ _ (parity .isOdd _) fun _ => all.done _
  | isEven => exact all.follow _ _ (parity .isEven _) fun _ => all.done _
  | typeOf =>
      unfold Native.call
      dsimp only
      split
      · exact all.follow _ _ (all.print _ _ _) fun _ => all.done _
      · exact all.failed _ _

theorem throughout_standard : Regime.standard.Throughout holds where
  toThroughout := all
  read := throughout_read all.toComposed
  write := throughout_write all.toComposed
  renew _ := all.follow _ _ (all.store _ _) fun _ => all.done _

end Natives

structure Regime.Walks (regime : Regime) (holds : {α : Type} → Eval α → Prop) (steps : Nat) : Prop where
  evaluate : ∀ e, holds (regime.evaluate steps e)
  arguments : ∀ es, holds (regime.evaluateAll steps es)
  call : ∀ callee arguments line, holds (regime.call steps callee arguments line)
  enter : ∀ closure arguments, holds (regime.enter steps closure arguments)
  execute : ∀ s, holds (regime.execute steps s)
  body : ∀ body, holds (regime.executeAll steps body)
  choose : ∀ condition body alternative, holds (regime.choose steps condition body alternative)
  loop : ∀ condition body env, holds (regime.repeatWhile steps condition body env)

section Walk

variable {regime : Regime} {holds : {α : Type} → Eval α → Prop} (all : regime.Throughout holds) {steps : Nat}
  (ih : regime.Walks holds steps)
include all ih

theorem throughout_evaluate (e : Expr) : holds (regime.evaluate (steps + 1) e) := by
  have parts := all.toComposed
  cases e with
  | literal mark value => exact all.done _
  | grouping mark inner => exact ih.evaluate inner
  | unary mark operator right =>
      exact all.follow _ _ (ih.evaluate right) fun _ => throughout_except parts _ _
  | binary mark left operator right =>
      exact all.follow _ _ (ih.evaluate left) fun _ =>
        all.follow _ _ (ih.evaluate right) fun _ => throughout_except parts _ _
  | logical mark left operator right =>
      refine all.follow _ _ (ih.evaluate left) fun value => ?_
      cases value with
      | bool truth =>
          dsimp only
          split
          · exact all.done _
          · exact ih.evaluate right
      | _ => exact all.failed _ _
  | ident mark name | this mark name => exact all.read _ _
  | assign mark name value =>
      exact all.follow _ _ (ih.evaluate value) fun _ => all.follow _ _ (all.write _ _ _) fun _ => all.done _
  | call mark callee arguments line =>
      exact all.follow _ _ (ih.evaluate callee) fun _ => all.follow _ _ (ih.arguments arguments) fun _ =>
        all.follow _ _ (throughout_arity parts _ _ _) fun _ => ih.call _ _ _
  | get mark object name =>
      exact all.follow _ _ (ih.evaluate object) fun _ => throughout_property parts _ _
  | set mark object name value =>
      refine all.follow _ _ (ih.evaluate object) fun target => ?_
      cases target with
      | object object =>
          exact all.follow _ _ (ih.evaluate value) fun _ => all.follow _ _ (all.store _ _) fun _ => all.done _
      | _ => exact all.failed _ _

theorem throughout_call (callee : Value) (arguments : List Value) (line : Nat) :
    holds (regime.call (steps + 1) callee arguments line) := by
  cases callee with
  | native native => exact throughout_native all.toThroughout native arguments line
  | function identity closure => exact ih.enter _ _
  | «class» c =>
      refine all.follow _ _ (all.store _ _) fun object => ?_
      cases c.constructor? with
      | none => exact all.done _
      | some method =>
          exact all.follow _ _ (all.store _ _) fun _ => all.follow _ _ (ih.enter _ _) fun _ => all.done _
  | _ => exact all.failed _ _

theorem throughout_enter (closure : Closure) (arguments : List Value) :
    holds (regime.enter (steps + 1) closure arguments) :=
  all.follow _ _ (all.store _ _) fun env =>
    all.follow _ _ (throughout_parameters all.toComposed env _ _) fun _ =>
      all.follow _ _ (all.inside _ _ (ih.body _)) fun _ => throughout_answer all.toComposed _ _

theorem throughout_scope (body : List Stmt) :
    holds (childEnv >>= fun env => within env (regime.executeAll steps body)) :=
  all.follow _ _ (throughout_child all.toComposed) fun _ => all.inside _ _ (ih.body body)

theorem throughout_execute (s : Stmt) : holds (regime.execute (steps + 1) s) := by
  have parts := all.toComposed
  cases s with
  | expression e => exact all.follow _ _ (ih.evaluate e) fun _ => all.done _
  | var name value =>
      cases value with
      | none => exact all.follow _ _ (throughout_define parts _ _) fun _ => all.done _
      | some e =>
          exact all.follow _ _ (ih.evaluate e) fun _ =>
            all.follow _ _ (throughout_define parts _ _) fun _ => all.done _
  | block body => exact throughout_scope all ih body
  | branch condition body alternative => exact ih.choose _ _ _
  | «while» condition body => exact all.follow _ _ (throughout_child parts) fun _ => ih.loop _ _ _
  | function routine => exact all.follow _ _ (throughout_function parts _) fun _ => all.done _
  | «return» line value =>
      cases value with
      | none => exact all.done _
      | some e => exact all.follow _ _ (ih.evaluate e) fun _ => all.done _
  | «class» name methods => exact all.follow _ _ (throughout_class parts _ _) fun _ => all.done _

theorem throughout_choose (condition : Expr) (body : List Stmt) (alternative : Alternative) :
    holds (regime.choose (steps + 1) condition body alternative) := by
  refine all.follow _ _ (ih.evaluate condition) fun value =>
    all.follow _ _ (throughout_condition all.toComposed _ _ _) fun truth => ?_
  cases truth with
  | true => exact throughout_scope all ih body
  | false =>
      cases alternative with
      | none => exact all.done _
      | elseIf condition body alternative => exact ih.choose _ _ _
      | block body => exact throughout_scope all ih body

theorem throughout_loop (condition : Expr) (body : List Stmt) (env : Env) :
    holds (regime.repeatWhile (steps + 1) condition body env) := by
  refine all.follow _ _ (ih.evaluate condition) fun value =>
    all.follow _ _ (throughout_condition all.toComposed _ _ _) fun truth => ?_
  cases truth with
  | true =>
      refine all.follow _ _ (all.inside _ _ (ih.body body)) fun flow => ?_
      cases flow with
      | normal => exact all.follow _ _ (all.renew env) fun _ => ih.loop _ _ _
      | returned value => exact all.done _
  | false => exact all.done _

end Walk

section Whole

variable {regime : Regime} {holds : {α : Type} → Eval α → Prop} (all : regime.Throughout holds)
include all

theorem walks_throughout : ∀ steps, regime.Walks holds steps
  | 0 => by constructor <;> intros <;> exact all.exhausted
  | steps + 1 =>
      have ih := walks_throughout steps
      { evaluate := throughout_evaluate all ih
        arguments := fun es => by
          cases es with
          | nil => exact all.done _
          | cons e rest =>
              exact all.follow _ _ (ih.evaluate e) fun _ => all.follow _ _ (ih.arguments rest) fun _ => all.done _
        call := throughout_call all ih
        enter := throughout_enter all ih
        execute := throughout_execute all ih
        body := fun body => by
          cases body with
          | nil => exact all.done _
          | cons s rest =>
              refine all.follow _ _ (ih.execute s) fun flow => ?_
              cases flow with
              | normal => exact ih.body rest
              | returned value => exact all.done _
        choose := throughout_choose all ih
        loop := throughout_loop all ih }

theorem throughout_program (steps : Nat) : ∀ program : Program, holds (regime.executeProgram steps program)
  | [] => all.done _
  | s :: rest => by
      refine all.follow _ _ ((walks_throughout all steps).execute s) fun flow => ?_
      cases flow with
      | normal => exact throughout_program steps rest
      | returned value => exact all.done _

theorem throughout_interpret (steps : Nat) (program : Program) : holds (regime.interpret steps program) :=
  all.follow _ _ (throughout_program all steps program) fun _ => all.flushed

end Whole

section Stages

def Halt.isStatic : Halt → Bool
  | .failed error => error.isStatic
  | .exhausted => false

def StopsLate {α : Type} (eval : Eval α) : Prop :=
  ∀ m, Ends eval m (fun _ _ => True) fun halt _ => halt.isStatic = false

theorem sink_stops_late {α : Type} (report : StreamError → Error) (act : EStateM StreamError Sink α)
    (late : ∀ e, (report e).isStatic = false) : StopsLate (onSink report act) := by
  intro m
  unfold Ends onSink
  cases run : act m.sink with
  | ok a sink => simp only [run]
  | error e sink =>
      simp only [run]
      exact late e

theorem stops_late : Throughout StopsLate where
  done _ _ := trivial
  follow p f first rest m :=
    ends_bind p f m (fun _ _ => True) _ _ (first m) fun a next _ => rest a next
  env _ := trivial
  distance _ _ := trivial
  exhausted _ := rfl
  failed _ _ _ := rfl
  store line act m := by
    unfold Ends onStore
    cases run : act m.store with
    | ok a s => simp only [run]
    | error fault s => simp only [run]; trivial
  print native line text := sink_stops_late _ _ fun _ => rfl
  input arguments line m := by
    have read : StopsLate (onSource (Native.input.streamError line) Source.readLine) := by
      intro m
      unfold Ends onSource
      cases Source.readLine m.source <;> trivial
    apply ends_bind _ _ m _ _ _ (sink_stops_late _ Sink.flush (fun _ => rfl) m)
    intro _ next _
    exact ends_bind _ _ next _ _ _ (read next) fun _ _ _ => trivial
  flushed := sink_stops_late _ _ fun _ => rfl
  inside env p inner m := ends_within env (inner { m with env })

theorem interpret_stops_late (steps : Nat) (program : Program) : StopsLate (Regime.standard.interpret steps program) :=
  throughout_interpret (throughout_standard stops_late) steps program

end Stages

end TreeWalk
