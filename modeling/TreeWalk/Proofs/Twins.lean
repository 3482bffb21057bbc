import TreeWalk.Evaluation
import TreeWalk.Proofs.Relabeled

set_option autoImplicit false

namespace TreeWalk

def Halt.report? : Halt → Option Diagnostic
  | .failed error => some error.diagnostic
  | .exhausted => none

def Flow.rename (ids : Nat → Nat) : Flow → Flow
  | .normal => .normal
  | .returned value => .returned (value.rename ids)

structure Pairing where
  ids : Nat → Nat
  here : Distances
  there : Distances
  found : ∀ id, there[ids id]? = here[id]?
  refuses : Bool

structure Pairing.Twin (pair : Pairing) (m n : Machine) : Prop where
  store : n.store = m.store.rename pair.ids
  env : n.env = m.env
  source : n.source = m.source
  sink : n.sink = m.sink
  here : m.distances = pair.here
  there : n.distances = pair.there
  refuses : m.sink.refusesFlush = pair.refuses

abbrev Pairing.Repeats (pair : Pairing) {α β : Type} (f : α → β) (p : Eval α) (q : Eval β) : Prop :=
  Matched pair.Twin (fun halt other => other.report? = halt.report?) (fun a b => b = f a) p q

section Repeats

open Eval

variable {pair : Pairing} {α β γ δ : Type}

theorem repeats_pure (f : α → β) (a : α) : pair.Repeats f (pure a) (pure (f a)) :=
  matched_pure _ _ _ _ _ rfl

theorem repeats_bind {f : α → β} {g : γ → δ} {p : Eval α} {q : Eval β} {rest : α → Eval γ} {other : β → Eval δ}
    (first : pair.Repeats f p q) (later : ∀ a, pair.Repeats g (rest a) (other (f a))) :
    pair.Repeats g (p >>= rest) (q >>= other) := by
  apply matched_bind _ _ _ _ p q rest other first
  rintro a _ rfl
  exact later a

theorem repeats_fail (f : α → β) (line : Nat) {fault other : RuntimeFault} (same : other.text = fault.text) :
    pair.Repeats f (fail line fault) (fail line other) :=
  matched_throw _ _ _ _ _ (congrArg (fun text => some (Diagnostic.runtime line text)) same)

def NamesByText (fault : Value → RuntimeFault) : Prop :=
  ∀ value other : Value, other.text = value.text → (fault other).text = (fault value).text

theorem not_condition_by_text (construct : Construct) : NamesByText (.notCondition construct) :=
  fun _ _ same => congrArg (_ ++ ·) same

theorem not_callable_by_text : NamesByText .notCallable :=
  fun _ _ same => congrArg (· ++ _) same

theorem no_properties_by_text : NamesByText .noProperties :=
  fun _ _ same => congrArg (_ ++ ·) same

theorem no_parity_by_text (native : Native) : NamesByText (.noParity native) :=
  fun _ _ same => congrArg (_ ++ ·) same

theorem no_type_by_text : NamesByText .noType :=
  fun _ _ same => congrArg (_ ++ ·) same

theorem repeats_fail_on (f : α → β) (line : Nat) (fault : Value → RuntimeFault) (value : Value)
    (named : NamesByText fault) :
    pair.Repeats f (fail line (fault value)) (fail line (fault (value.rename pair.ids))) :=
  repeats_fail f line (named _ _ (value_rename_text value))

theorem repeats_on_store {f : α → β} (line : Nat) {p : StoreM α} {q : StoreM β}
    (relabels : Store.Relabels pair.ids f p q) : pair.Repeats f (onStore line p) (onStore line q) := by
  intro m n twin
  unfold onStore
  rcases agree_cases _ _ _ _ _ (relabels m.store n.store twin.store) with
    ⟨a, b, s, t, left, right, value, store⟩ | ⟨fault, other, s, t, left, right, same, store⟩
  · simp only [left, right]
    exact .ok _ _ _ _ value ⟨store, twin.env, twin.source, twin.sink, twin.here, twin.there, twin.refuses⟩
  · simp only [left, right]
    exact .error _ _ _ _ (congrArg (fun text => some (Diagnostic.runtime line text)) same)
      ⟨store, twin.env, twin.source, twin.sink, twin.here, twin.there, twin.refuses⟩

theorem repeats_of_except (f : α → β) (line : Nat) {result : Except RuntimeFault α} {other : Except RuntimeFault β}
    (same : other = result.map f) : pair.Repeats f (ofExcept line result) (ofExcept line other) := by
  subst same
  cases result with
  | ok a => exact repeats_pure f a
  | error fault => exact repeats_fail f line rfl

def SinkKeeps (act : EStateM StreamError Sink α) : Prop :=
  ∀ sink, Ends act sink (fun _ next => next.refusesFlush = sink.refusesFlush)
    fun _ next => next.refusesFlush = sink.refusesFlush

theorem sink_keeps_write (text : String) : SinkKeeps (Sink.write text) := by
  intro sink
  unfold Ends Sink.write
  dsimp only
  split <;> rename_i run <;> split at run <;> cases run <;> rfl

theorem sink_keeps_flush : SinkKeeps Sink.flush := by
  intro sink
  unfold Ends Sink.flush
  split <;> rename_i run <;> split at run <;> cases run <;> rfl

theorem repeats_on_sink (error : StreamError → Error) {act : EStateM StreamError Sink α} (keeps : SinkKeeps act) :
    pair.Repeats id (onSink error act) (onSink error act) := by
  intro m n twin
  unfold onSink
  have kept := keeps m.sink
  unfold Ends at kept
  rw [twin.sink]
  cases run : act m.sink with
  | ok a sink =>
      rw [run] at kept
      simp only [run]
      exact .ok _ _ _ _ rfl ⟨twin.store, twin.env, twin.source, rfl, twin.here, twin.there, kept.trans twin.refuses⟩
  | error e sink =>
      rw [run] at kept
      simp only [run]
      exact .error _ _ _ _ rfl ⟨twin.store, twin.env, twin.source, rfl, twin.here, twin.there, kept.trans twin.refuses⟩

theorem repeats_on_source (error : StreamError → Error) (act : EStateM StreamError Source α) :
    pair.Repeats id (onSource error act) (onSource error act) := by
  intro m n twin
  unfold onSource
  rw [twin.source]
  cases act m.source with
  | ok a source => exact .ok _ _ _ _ rfl ⟨twin.store, twin.env, rfl, twin.sink, twin.here, twin.there, twin.refuses⟩
  | error e source =>
      exact .error _ _ _ _ rfl ⟨twin.store, twin.env, rfl, twin.sink, twin.here, twin.there, twin.refuses⟩

theorem repeats_flush : pair.Repeats id flush flush :=
  repeats_on_sink _ sink_keeps_flush

theorem repeats_within {f : α → β} (env : Env) {p : Eval α} {q : Eval β} (inner : pair.Repeats f p q) :
    pair.Repeats f (within env p) (within env q) := by
  intro m n twin
  unfold within
  rcases agree_cases _ _ _ _ _ (inner { m with env } { n with env }
      ⟨twin.store, rfl, twin.source, twin.sink, twin.here, twin.there, twin.refuses⟩) with
    ⟨a, b, s, t, left, right, value, next⟩ | ⟨halt, other, s, t, left, right, same, next⟩
  · simp only [left, right]
    exact .ok _ _ _ _ value ⟨next.store, twin.env, next.source, next.sink, next.here, next.there, next.refuses⟩
  · simp only [left, right]
    exact .error _ _ _ _ same ⟨next.store, twin.env, next.source, next.sink, next.here, next.there, next.refuses⟩

theorem repeats_current_env : pair.Repeats id currentEnv currentEnv :=
  fun m n twin => .ok m.env n.env m n twin.env twin

theorem repeats_child_env : pair.Repeats id childEnv childEnv :=
  repeats_bind repeats_current_env fun env => repeats_on_store 0 (Store.relabels_nest env .empty)

theorem repeats_define (name : Name) (value : Value) :
    pair.Repeats id (define name value) (define name (value.rename pair.ids)) :=
  repeats_bind repeats_current_env fun env => repeats_on_store name.line (Store.relabels_define env name.text value)

theorem repeats_distance (mark : Nat) : pair.Repeats id (distance? mark) (distance? (pair.ids mark)) := by
  intro m n twin
  have same : n.distances[pair.ids mark]? = m.distances[mark]? := by
    rw [twin.here, twin.there, pair.found]
  exact .ok _ _ _ _ same twin

theorem repeats_read_name (mark : Nat) (name : Name) :
    pair.Repeats (Value.rename pair.ids) (readName mark name) (readName (pair.ids mark) name) := by
  apply repeats_bind (repeats_distance mark)
  intro distance
  cases distance with
  | none => exact repeats_on_store name.line (Store.relabels_get Machine.globals name.text)
  | some distance =>
      exact repeats_bind repeats_current_env fun env =>
        repeats_on_store name.line (Store.relabels_get_at env distance name.text)

theorem repeats_write_name (mark : Nat) (name : Name) (value : Value) :
    pair.Repeats id (writeName mark name value) (writeName (pair.ids mark) name (value.rename pair.ids)) := by
  apply repeats_bind (repeats_distance mark)
  intro distance
  cases distance with
  | none => exact repeats_on_store name.line (Store.relabels_assign Machine.globals name.text value)
  | some distance =>
      exact repeats_bind repeats_current_env fun env =>
        repeats_on_store name.line (Store.relabels_assign_at env distance name.text value)

theorem repeats_as_condition (construct : Construct) (line : Nat) (value : Value) :
    pair.Repeats id (asCondition construct line value) (asCondition construct line (value.rename pair.ids)) := by
  cases value with
  | bool truth => exact repeats_pure id truth
  | _ => exact repeats_fail_on id line (.notCondition construct) _ (not_condition_by_text construct)

theorem repeats_check_arity (value : Value) (arguments : List Value) (line : Nat) :
    pair.Repeats id (checkArity value arguments line)
      (checkArity (value.rename pair.ids) (arguments.map (Value.rename pair.ids)) line) := by
  unfold checkArity
  rw [value_rename_arity, List.length_map]
  cases value.arity? with
  | none => exact repeats_fail_on id line .notCallable value not_callable_by_text
  | some arity =>
      dsimp only
      split
      · exact repeats_pure id ()
      · exact repeats_fail id line rfl

theorem repeats_define_all (env : Env) : ∀ (names : List Name) (values : List Value),
    pair.Repeats id (defineAll env names values) (defineAll env names (values.map (Value.rename pair.ids)))
  | name :: names, value :: values =>
      repeats_bind (repeats_on_store name.line (Store.relabels_define env name.text value)) fun _ =>
        repeats_define_all env names values
  | [], _ => by simpa only [defineAll] using repeats_pure id ()
  | _ :: _, [] => repeats_pure id ()

theorem repeats_define_function (routine : Routine) :
    pair.Repeats id (defineFunction routine) (defineFunction (routine.rename (.ofIds pair.ids))) := by
  unfold defineFunction
  rw [routine_rename_name]
  exact repeats_bind (repeats_on_store _ Store.relabels_new_identity) fun identity =>
    repeats_bind repeats_current_env fun env => repeats_define routine.name (.function identity ⟨routine, env, false⟩)

theorem methods_rename (methods : List Routine) (env : Env) (ids : Nat → Nat) :
    (Bindings.ofList (methods.map fun m => (m.name.text, Closure.mk m env m.isConstructor))).map (Closure.rename ids) =
      Bindings.ofList
        ((Routine.renameAll (.ofIds ids) methods).map fun m => (m.name.text, Closure.mk m env m.isConstructor)) := by
  rw [Bindings.map_of_list]
  congr 1
  induction methods with
  | nil => rfl
  | cons method rest ih =>
      rw [List.map_cons, List.map_cons, Routine.renameAll, List.map_cons, ih]
      simp only [Closure.rename, Routine.isConstructor, routine_rename_name]

theorem repeats_define_class (name : Name) (methods : List Routine) :
    pair.Repeats id (defineClass name methods) (defineClass name (Routine.renameAll (.ofIds pair.ids) methods)) := by
  apply repeats_bind (repeats_define name .none)
  intro _
  apply repeats_bind repeats_current_env
  intro env
  apply repeats_bind (repeats_on_store name.line Store.relabels_new_identity)
  intro identity
  dsimp only [id]
  rw [← methods_rename]
  exact repeats_on_store name.line (Store.relabels_assign env name.text (.class ⟨identity, name.text, _⟩))

theorem repeats_property (name : Name) (value : Value) :
    pair.Repeats (Value.rename pair.ids) (property name value) (property name (value.rename pair.ids)) := by
  cases value with
  | object object => exact repeats_on_store name.line (Store.relabels_property object name.text)
  | _ => exact repeats_fail_on _ name.line .noProperties _ no_properties_by_text

theorem repeats_answer (closure : Closure) (flow : Flow) :
    pair.Repeats (Value.rename pair.ids) (answer closure flow) (answer (closure.rename pair.ids) (flow.rename pair.ids)) := by
  have name : (closure.rename pair.ids).routine.name = closure.routine.name := routine_rename_name closure.routine
  unfold answer
  rw [name, show (closure.rename pair.ids).isConstructor = closure.isConstructor from rfl]
  cases closure.isConstructor with
  | true => exact repeats_on_store closure.routine.name.line (Store.relabels_get_at closure.env 0 "this")
  | false =>
      cases flow with
      | normal => exact repeats_pure _ Value.none
      | returned value => exact repeats_pure _ value

theorem repeats_write_line (native : Native) (line : Nat) (text : String) :
    pair.Repeats id (native.writeLine line text) (native.writeLine line text) :=
  repeats_on_sink _ (sink_keeps_write _)

theorem repeats_parity (native : Native) (line : Nat) (value : Value) :
    pair.Repeats id (native.parity line value) (native.parity line (value.rename pair.ids)) := by
  cases value with
  | number n => exact repeats_pure id (Binary64.ofFloat n).isEven
  | _ => exact repeats_fail_on id line (.noParity native) _ (no_parity_by_text native)

theorem repeats_native (native : Native) (arguments : List Value) (line : Nat) :
    pair.Repeats (Value.rename pair.ids) (native.call arguments line)
      (native.call (arguments.map (Value.rename pair.ids)) line) := by
  have first : (arguments.map (Value.rename pair.ids)).headD .none = (arguments.headD .none).rename pair.ids := by
    cases arguments <;> rfl
  unfold Native.call
  rw [first]
  dsimp only
  generalize arguments.headD .none = value
  cases native with
  | print =>
      dsimp only
      rw [value_rename_text]
      exact repeats_bind (repeats_write_line _ line value.text) fun _ => repeats_pure _ Value.none
  | input =>
      apply repeats_bind (repeats_on_sink _ sink_keeps_flush)
      intro _
      exact repeats_bind (repeats_on_source _ Source.readLine) fun read => repeats_pure _ (Value.string (Native.trimLine read))
  | isOdd => exact repeats_bind (repeats_parity _ line value) fun even => repeats_pure _ (Value.bool !even)
  | isEven => exact repeats_bind (repeats_parity _ line value) fun even => repeats_pure _ (Value.bool even)
  | typeOf =>
      dsimp only
      rw [value_rename_type_name]
      cases value.typeName? with
      | none => exact repeats_fail_on _ line .noType value no_type_by_text
      | some name => exact repeats_bind (repeats_write_line _ line name) fun _ => repeats_pure _ Value.none

structure WalkRepeats (pair : Pairing) (steps : Nat) : Prop where
  evaluate : ∀ e, pair.Repeats (Value.rename pair.ids) (Regime.standard.evaluate steps e)
    (Regime.standard.evaluate steps (e.rename (.ofIds pair.ids)))
  evaluateAll : ∀ es, pair.Repeats (List.map (Value.rename pair.ids)) (Regime.standard.evaluateAll steps es)
    (Regime.standard.evaluateAll steps (Expr.renameAll (.ofIds pair.ids) es))
  call : ∀ callee arguments line,
    pair.Repeats (Value.rename pair.ids) (Regime.standard.call steps callee arguments line)
      (Regime.standard.call steps (callee.rename pair.ids) (arguments.map (Value.rename pair.ids)) line)
  enter : ∀ closure arguments, pair.Repeats (Value.rename pair.ids) (Regime.standard.enter steps closure arguments)
    (Regime.standard.enter steps (closure.rename pair.ids) (arguments.map (Value.rename pair.ids)))
  execute : ∀ s, pair.Repeats (Flow.rename pair.ids) (Regime.standard.execute steps s)
    (Regime.standard.execute steps (s.rename (.ofIds pair.ids)))
  executeAll : ∀ body, pair.Repeats (Flow.rename pair.ids) (Regime.standard.executeAll steps body)
    (Regime.standard.executeAll steps (Stmt.renameAll (.ofIds pair.ids) body))
  choose : ∀ condition body alternative,
    pair.Repeats (Flow.rename pair.ids) (Regime.standard.choose steps condition body alternative)
      (Regime.standard.choose steps (condition.rename (.ofIds pair.ids)) (Stmt.renameAll (.ofIds pair.ids) body)
        (alternative.rename (.ofIds pair.ids)))
  repeatWhile : ∀ condition body env,
    pair.Repeats (Flow.rename pair.ids) (Regime.standard.repeatWhile steps condition body env)
      (Regime.standard.repeatWhile steps (condition.rename (.ofIds pair.ids)) (Stmt.renameAll (.ofIds pair.ids) body) env)

theorem repeats_exhausted (f : α → β) : pair.Repeats f (throw .exhausted) (throw .exhausted) :=
  matched_throw _ _ _ _ _ rfl

section Step

variable {steps : Nat} (ih : WalkRepeats pair steps)

include ih

theorem repeats_evaluate (e : Expr) : pair.Repeats (Value.rename pair.ids) (Regime.standard.evaluate (steps + 1) e)
    (Regime.standard.evaluate (steps + 1) (e.rename (.ofIds pair.ids))) := by
  cases e with
  | literal mark literal => exact matched_pure _ _ _ _ _ (literal_rename literal).symm
  | grouping mark inner => exact ih.evaluate inner
  | unary mark operator right =>
      exact repeats_bind (ih.evaluate right) fun value => repeats_of_except _ _ (unary_rename operator value)
  | binary mark left operator right =>
      exact repeats_bind (ih.evaluate left) fun first => repeats_bind (ih.evaluate right) fun second =>
        repeats_of_except _ _ (binary_rename operator first second)
  | logical mark left operator right =>
      apply repeats_bind (ih.evaluate left)
      intro value
      cases value with
      | bool truth =>
          rw [token_rename_ids]
          dsimp only [Value.rename]
          split
          · exact repeats_pure _ (Value.bool truth)
          · exact ih.evaluate right
      | _ => exact repeats_fail _ operator.line rfl
  | ident mark name => exact repeats_read_name mark.id name
  | this mark name => exact repeats_read_name mark.id name
  | assign mark name value =>
      exact repeats_bind (ih.evaluate value) fun result =>
        repeats_bind (repeats_write_name mark.id name result) fun _ => repeats_pure _ result
  | call mark callee arguments line =>
      apply repeats_bind (ih.evaluate callee)
      intro function
      apply repeats_bind (ih.evaluateAll arguments)
      intro values
      exact repeats_bind (repeats_check_arity function values line) fun _ => ih.call function values line
  | get mark object name => exact repeats_bind (ih.evaluate object) fun value => repeats_property name value
  | set mark object name value =>
      apply repeats_bind (ih.evaluate object)
      intro target
      cases target with
      | object target =>
          apply repeats_bind (ih.evaluate value)
          intro result
          exact repeats_bind (repeats_on_store name.line (Store.relabels_set_field target name.text result)) fun _ =>
            repeats_pure _ result
      | _ => exact repeats_fail _ name.line rfl

theorem repeats_evaluate_all (es : List Expr) :
    pair.Repeats (List.map (Value.rename pair.ids)) (Regime.standard.evaluateAll (steps + 1) es)
      (Regime.standard.evaluateAll (steps + 1) (Expr.renameAll (.ofIds pair.ids) es)) := by
  cases es with
  | nil => exact repeats_pure _ []
  | cons e rest =>
      exact repeats_bind (ih.evaluate e) fun value => repeats_bind (ih.evaluateAll rest) fun values =>
        repeats_pure _ (value :: values)

theorem repeats_call (callee : Value) (arguments : List Value) (line : Nat) :
    pair.Repeats (Value.rename pair.ids) (Regime.standard.call (steps + 1) callee arguments line)
      (Regime.standard.call (steps + 1) (callee.rename pair.ids) (arguments.map (Value.rename pair.ids)) line) := by
  cases callee with
  | native native => exact repeats_native native arguments line
  | function identity closure => exact ih.enter closure arguments
  | «class» c =>
      apply repeats_bind (repeats_on_store line (Store.relabels_new_instance c))
      intro object
      rw [class_rename_constructor]
      cases c.constructor? with
      | none => exact repeats_pure _ (Value.object object)
      | some method =>
          exact repeats_bind (repeats_on_store line (Store.relabels_bind method object)) fun bound =>
            repeats_bind (ih.enter bound arguments) fun _ => repeats_pure _ (Value.object object)
  | _ => exact repeats_fail_on _ line .notCallable _ not_callable_by_text

theorem repeats_enter (closure : Closure) (arguments : List Value) :
    pair.Repeats (Value.rename pair.ids) (Regime.standard.enter (steps + 1) closure arguments)
      (Regime.standard.enter (steps + 1) (closure.rename pair.ids) (arguments.map (Value.rename pair.ids))) := by
  have parameters : (closure.rename pair.ids).routine.parameters = closure.routine.parameters :=
    routine_rename_parameters closure.routine
  have body : (closure.rename pair.ids).routine.body = Stmt.renameAll (.ofIds pair.ids) closure.routine.body :=
    routine_rename_body closure.routine
  apply repeats_bind (repeats_on_store 0 (Store.relabels_nest closure.env .empty))
  intro env
  rw [parameters, body]
  apply repeats_bind (repeats_define_all env closure.routine.parameters arguments)
  intro _
  exact repeats_bind (repeats_within env (ih.executeAll closure.routine.body)) fun flow => repeats_answer closure flow

theorem repeats_enclosed (body : List Stmt) :
    pair.Repeats (Flow.rename pair.ids) (do within (← childEnv) (Regime.standard.executeAll steps body))
      (do within (← childEnv) (Regime.standard.executeAll steps (Stmt.renameAll (.ofIds pair.ids) body))) :=
  repeats_bind repeats_child_env fun env => repeats_within env (ih.executeAll body)

theorem repeats_execute (s : Stmt) : pair.Repeats (Flow.rename pair.ids) (Regime.standard.execute (steps + 1) s)
    (Regime.standard.execute (steps + 1) (s.rename (.ofIds pair.ids))) := by
  cases s with
  | expression e => exact repeats_bind (ih.evaluate e) fun _ => repeats_pure _ Flow.normal
  | var name initializer =>
      cases initializer with
      | none => exact repeats_bind (repeats_define name .none) fun _ => repeats_pure _ Flow.normal
      | some e =>
          exact repeats_bind (ih.evaluate e) fun value =>
            repeats_bind (repeats_define name value) fun _ => repeats_pure _ Flow.normal
  | block body => exact repeats_enclosed ih body
  | branch condition body alternative => exact ih.choose condition body alternative
  | «while» condition body => exact repeats_bind repeats_child_env fun env => ih.repeatWhile condition body env
  | function routine => exact repeats_bind (repeats_define_function routine) fun _ => repeats_pure _ Flow.normal
  | «return» line value =>
      cases value with
      | none => exact repeats_pure _ (Flow.returned .none)
      | some e => exact repeats_bind (ih.evaluate e) fun value => repeats_pure _ (Flow.returned value)
  | «class» name methods => exact repeats_bind (repeats_define_class name methods) fun _ => repeats_pure _ Flow.normal

theorem repeats_execute_all (body : List Stmt) :
    pair.Repeats (Flow.rename pair.ids) (Regime.standard.executeAll (steps + 1) body)
      (Regime.standard.executeAll (steps + 1) (Stmt.renameAll (.ofIds pair.ids) body)) := by
  cases body with
  | nil => exact repeats_pure _ Flow.normal
  | cons s rest =>
      apply repeats_bind (ih.execute s)
      intro flow
      cases flow with
      | normal => exact ih.executeAll rest
      | returned value => exact repeats_pure _ (Flow.returned value)

theorem repeats_choose (condition : Expr) (body : List Stmt) (alternative : Alternative) :
    pair.Repeats (Flow.rename pair.ids) (Regime.standard.choose (steps + 1) condition body alternative)
      (Regime.standard.choose (steps + 1) (condition.rename (.ofIds pair.ids))
        (Stmt.renameAll (.ofIds pair.ids) body) (alternative.rename (.ofIds pair.ids))) := by
  apply repeats_bind (ih.evaluate condition)
  intro value
  rw [line_rename, line_of_ids]
  apply repeats_bind (repeats_as_condition .ifStatement condition.line value)
  intro truth
  cases truth with
  | true => exact repeats_enclosed ih body
  | false =>
      cases alternative with
      | none => exact repeats_pure _ Flow.normal
      | elseIf next inner other => exact ih.choose next inner other
      | block inner => exact repeats_enclosed ih inner

theorem repeats_repeat_while (condition : Expr) (body : List Stmt) (env : Env) :
    pair.Repeats (Flow.rename pair.ids) (Regime.standard.repeatWhile (steps + 1) condition body env)
      (Regime.standard.repeatWhile (steps + 1) (condition.rename (.ofIds pair.ids))
        (Stmt.renameAll (.ofIds pair.ids) body) env) := by
  apply repeats_bind (ih.evaluate condition)
  intro value
  rw [line_rename, line_of_ids]
  apply repeats_bind (repeats_as_condition .whileStatement condition.line value)
  intro truth
  cases truth with
  | false => exact repeats_pure _ Flow.normal
  | true =>
      apply repeats_bind (repeats_within env (ih.executeAll body))
      intro flow
      cases flow with
      | returned result => exact repeats_pure _ (Flow.returned result)
      | normal =>
          have renewed : pair.Repeats id (Regime.standard.renew env) (Regime.standard.renew env) :=
            repeats_bind (repeats_on_store 0 (Store.relabels_clear env)) fun _ => repeats_pure _ env
          exact repeats_bind renewed fun next => ih.repeatWhile condition body next

end Step

theorem walk_repeats (pair : Pairing) : ∀ steps, WalkRepeats pair steps
  | 0 => by
      constructor <;> intros <;> exact repeats_exhausted _
  | steps + 1 => by
      have ih := walk_repeats pair steps
      exact ⟨repeats_evaluate ih, repeats_evaluate_all ih, repeats_call ih, repeats_enter ih, repeats_execute ih,
        repeats_execute_all ih, repeats_choose ih, repeats_repeat_while ih⟩

theorem repeats_execute_program (steps : Nat) : ∀ program : Program,
    pair.Repeats id (Regime.standard.executeProgram steps program)
      (Regime.standard.executeProgram steps (Stmt.renameAll (.ofIds pair.ids) program))
  | [] => repeats_pure _ ()
  | s :: rest => by
      apply repeats_bind ((walk_repeats pair steps).execute s)
      intro flow
      cases flow with
      | normal => exact repeats_execute_program steps rest
      | returned value => exact repeats_pure _ ()

theorem repeats_interpret (steps : Nat) (program : Program) :
    pair.Repeats id (Regime.standard.interpret steps program)
      (Regime.standard.interpret steps (Stmt.renameAll (.ofIds pair.ids) program)) :=
  repeats_bind (repeats_execute_program steps program) fun _ => repeats_flush

end Repeats

end TreeWalk
