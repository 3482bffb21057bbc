import TreeWalk.Evaluation
import TreeWalk.Proofs.Events
import TreeWalk.Proofs.ReceiverName
import TreeWalk.Proofs.Runs

set_option autoImplicit false

namespace TreeWalk

def ClassValue.made (identity : Nat) (name : Name) (methods : List Routine) (env : Env) : ClassValue :=
  ⟨identity, name.text, Bindings.ofList (methods.map fun m => (m.name.text, ⟨m, env, m.isConstructor⟩))⟩

structure Watched where
  machine : Machine
  events : List Event

abbrev Watch := EStateM Halt Watched

namespace Watch

variable {α : Type}

def act (eval : Eval α) : Watch α := fun w =>
  match eval w.machine with
  | .ok a machine => .ok a { w with machine }
  | .error halt machine => .error halt { w with machine }

def log (event : Event) : Watch Unit :=
  modify fun w => { w with events := event :: w.events }

def within (env : Env) (inner : Watch α) : Watch α := fun w =>
  let here := w.machine.env
  match inner { w with machine := { w.machine with env } } with
  | .ok a w => .ok a { w with machine := { w.machine with env := here } }
  | .error halt w => .error halt { w with machine := { w.machine with env := here } }

def currentEnv : Watch Env :=
  act Eval.currentEnv

def reach (node : Expr) (eval : Eval α) : Watch α := do
  log (.reached node (← get).machine)
  act eval

def childEnv (site : Site) : Watch Env := do
  let env ← act Eval.childEnv
  log (.opened site env.inner)
  return env

def define (name : Name) (value : Value) : Watch Unit := do
  act (Eval.define name value)
  log (.named (← currentEnv).inner name.text)

def defineAll (env : Env) : List Name → List Value → Watch Unit
  | name :: names, value :: values => do
      act (Eval.onStore name.line (Store.define env name.text value))
      log (.named env.inner name.text)
      defineAll env names values
  | _, _ => return ()

def defineFunction (routine : Routine) : Watch Unit := do
  let identity ← act (Eval.onStore routine.name.line Store.newIdentity)
  define routine.name (.function identity ⟨routine, ← currentEnv, false⟩)

def defineClass (name : Name) (methods : List Routine) : Watch Unit := do
  define name .none
  let env ← currentEnv
  let identity ← act (Eval.onStore name.line Store.newIdentity)
  log (.declared name methods (ClassValue.made identity name methods env))
  act (Eval.onStore name.line (Store.assign env name.text (.class (ClassValue.made identity name methods env))))

def logBound (cause : Cause) (closure : Closure) (object : Instance) : Watch Unit := do
  log (.named closure.env.inner receiverName)
  log (.bound cause closure object)

def receive (line : Nat) (cause : Cause) (method : Closure) (object : Instance) : Watch Closure := do
  let closure ← act (Eval.onStore line (Store.bind method object))
  logBound cause closure object
  return closure

def property (name : Name) : Value → Watch Value
  | .object object => do
      let fields := (← get).machine.store.fields object.identity
      let value ← act (Eval.property name (.object object))
      match value with
      | .function _ closure =>
          if (fields.find? name.text).isNone then logBound (.property name) closure object
          return value
      | _ => return value
  | value => act (Eval.property name value)

mutual
def evaluate : Nat → Expr → Watch Value
  | 0, _ => throw .exhausted
  | steps + 1, e =>
      match e with
      | .literal _ value => return value.value
      | .grouping _ inner => evaluate steps inner
      | .unary _ operator right => do
          let right ← evaluate steps right
          act (Eval.ofExcept operator.line (right.applyUnary operator))
      | .binary _ left operator right => do
          let left ← evaluate steps left
          let right ← evaluate steps right
          act (Eval.ofExcept operator.line (left.applyBinary operator right))
      | .logical _ left operator right => do
          match ← evaluate steps left with
          | .bool truth =>
              if Value.settles operator truth then return .bool truth
              else evaluate steps right
          | _ => act (Eval.fail operator.line (.notLogical operator.lexeme))
      | .ident mark name => reach (.ident mark name) (Eval.readName mark.id name)
      | .this mark name => reach (.this mark name) (Eval.readName mark.id name)
      | .assign mark name value => do
          let result ← evaluate steps value
          reach (.assign mark name value) (Eval.writeName mark.id name result)
          return result
      | .call _ callee arguments line => do
          log (.called callee)
          let callee ← evaluate steps callee
          let arguments ← evaluateAll steps arguments
          act (Eval.checkArity callee arguments line)
          call steps callee arguments line
      | .get _ object name => do
          property name (← evaluate steps object)
      | .set _ object name value => do
          match ← evaluate steps object with
          | .object object =>
              let value ← evaluate steps value
              act (Eval.onStore name.line (Store.setField object name.text value))
              return value
          | _ => act (Eval.fail name.line .noFields)

def evaluateAll : Nat → List Expr → Watch (List Value)
  | 0, _ => throw .exhausted
  | _ + 1, [] => return []
  | steps + 1, e :: rest => do
      let value ← evaluate steps e
      return value :: (← evaluateAll steps rest)

def call : Nat → Value → List Value → Nat → Watch Value
  | 0, _, _, _ => throw .exhausted
  | steps + 1, callee, arguments, line =>
      match callee with
      | .native native => act (native.call arguments line)
      | .function _ closure => enter steps closure arguments
      | .class c => do
          let object ← act (Eval.onStore line (Store.newInstance c))
          match c.constructor? with
          | some method =>
              let bound ← receive line .creation method object
              let _ ← enter steps bound arguments
              return .object object
          | none => return .object object
      | value => act (Eval.fail line (.notCallable value))

def enter : Nat → Closure → List Value → Watch Value
  | 0, _, _ => throw .exhausted
  | steps + 1, closure, arguments => do
      log (.entered closure (← get).machine)
      let env ← act (Eval.onStore 0 (Store.nest closure.env .empty))
      log (.opened (.routine closure.routine) env.inner)
      defineAll env closure.routine.parameters arguments
      let flow ← within env (executeAll steps closure.routine.body)
      act (Eval.answer closure flow)

def execute : Nat → Stmt → Watch Flow
  | 0, _ => throw .exhausted
  | steps + 1, s =>
      match s with
      | .expression e => do
          let _ ← evaluate steps e
          return .normal
      | .var name none => do
          define name .none
          return .normal
      | .var name (some e) => do
          define name (← evaluate steps e)
          return .normal
      | .block body => do
          within (← childEnv (.block body)) (executeAll steps body)
      | .branch condition body alternative => choose steps condition body alternative
      | .while condition body => do
          repeatWhile steps condition body (← childEnv (.loop body))
      | .function routine => do
          defineFunction routine
          return .normal
      | .return _ none => return .returned .none
      | .return _ (some e) => do
          return .returned (← evaluate steps e)
      | .class name methods => do
          defineClass name methods
          return .normal

def executeAll : Nat → List Stmt → Watch Flow
  | 0, _ => throw .exhausted
  | _ + 1, [] => return .normal
  | steps + 1, s :: rest => do
      match ← execute steps s with
      | .normal => executeAll steps rest
      | .returned value => return .returned value

def choose : Nat → Expr → List Stmt → Alternative → Watch Flow
  | 0, _, _, _ => throw .exhausted
  | steps + 1, condition, body, alternative => do
      if ← act (Eval.asCondition .ifStatement condition.line (← evaluate steps condition)) then
        within (← childEnv (.branch body)) (executeAll steps body)
      else
        match alternative with
        | .none => return .normal
        | .elseIf condition body alternative => choose steps condition body alternative
        | .block body => within (← childEnv (.otherwise body)) (executeAll steps body)

def repeatWhile : Nat → Expr → List Stmt → Env → Watch Flow
  | 0, _, _, _ => throw .exhausted
  | steps + 1, condition, body, env => do
      if ← act (Eval.asCondition .whileStatement condition.line (← evaluate steps condition)) then
        match ← within env (executeAll steps body) with
        | .normal =>
            act (Eval.onStore 0 (Store.clear env))
            log (.emptied env.inner)
            repeatWhile steps condition body env
        | .returned value => return .returned value
      else
        return .normal
end

def executeProgram (steps : Nat) : Program → Watch Unit
  | [] => return ()
  | s :: rest => do
      match ← execute steps s with
      | .normal => executeProgram steps rest
      | .returned _ => return ()

def interpret (steps : Nat) (program : Program) : Watch Unit := do
  executeProgram steps program
  act Eval.flush

end Watch

def Watched.Shows (w : Watched) (machine : Machine) : Prop :=
  w.machine = machine

abbrev Mirrors {α : Type} (watch : Watch α) (eval : Eval α) : Prop :=
  Matched Watched.Shows Eq Eq watch eval

section Mirrors

open Watch

variable {α β : Type}

theorem mirrors_act (eval : Eval α) : Mirrors (act eval) eval := by
  rintro w _ rfl
  unfold act
  cases eval w.machine with
  | ok a machine => exact .ok a a _ machine rfl rfl
  | error halt machine => exact .error halt halt _ machine rfl rfl

theorem mirrors_pure (a : α) : Mirrors (pure a) (pure a) :=
  matched_pure _ _ _ a a rfl

theorem mirrors_bind {p : Watch α} {q : Eval α} {f : α → Watch β} {g : α → Eval β} (first : Mirrors p q)
    (rest : ∀ a, Mirrors (f a) (g a)) : Mirrors (p >>= f) (q >>= g) := by
  apply matched_bind _ _ _ _ p q f g first
  rintro a _ rfl
  exact rest a

theorem mirrors_log (event : Event) {p : Watch α} {q : Eval α} (rest : Mirrors p q) :
    Mirrors (do log event; p) q := by
  rintro w _ rfl
  exact rest _ _ rfl

theorem mirrors_get {f : Watched → Watch α} {q : Eval α} (rest : ∀ w, Mirrors (f w) q) :
    Mirrors (get >>= f) q := by
  rintro w _ rfl
  exact rest w w _ rfl

theorem mirrors_within (env : Env) {p : Watch α} {q : Eval α} (inner : Mirrors p q) :
    Mirrors (Watch.within env p) (Eval.within env q) := by
  rintro w _ rfl
  unfold Watch.within Eval.within
  rcases agree_cases _ _ _ _ _ (inner { w with machine := { w.machine with env } } { w.machine with env } rfl) with
    ⟨a, _, v, m, left, right, rfl, same⟩ | ⟨halt, _, v, m, left, right, rfl, same⟩
  · subst same
    simp only [left, right]
    exact .ok a a _ _ rfl rfl
  · subst same
    simp only [left, right]
    exact .error halt halt _ _ rfl rfl

theorem mirrors_behind {p : Watch α} {q : Eval α} {record : α → Watch α} (first : Mirrors p q)
    (silent : ∀ a, Mirrors (record a) (pure a)) : Mirrors (p >>= record) q := by
  have whole : Mirrors (p >>= record) (q >>= pure) := mirrors_bind first silent
  rwa [bind_pure] at whole

theorem mirrors_reach (node : Expr) (eval : Eval α) : Mirrors (reach node eval) eval :=
  mirrors_get fun _ => mirrors_log _ (mirrors_act eval)

theorem mirrors_child_env (site : Site) : Mirrors (Watch.childEnv site) Eval.childEnv :=
  mirrors_behind (mirrors_act _) fun env => mirrors_log (.opened site env.inner) (mirrors_pure env)

theorem mirrors_current_env {f : Env → Watch α} {q : Eval α} (rest : ∀ env, Mirrors (f env) q) :
    Mirrors (Watch.currentEnv >>= f) q := by
  rintro w _ rfl
  exact rest w.machine.env w _ rfl

theorem mirrors_define (name : Name) (value : Value) : Mirrors (Watch.define name value) (Eval.define name value) :=
  mirrors_behind (mirrors_act _) fun _ => mirrors_current_env fun _ => mirrors_log _ (mirrors_pure ())

theorem mirrors_define_all (env : Env) : ∀ (names : List Name) (values : List Value),
    Mirrors (Watch.defineAll env names values) (Eval.defineAll env names values)
  | name :: names, value :: values =>
      mirrors_bind (mirrors_act _) fun _ => mirrors_log _ (mirrors_define_all env names values)
  | [], _ => by simpa only [Watch.defineAll, Eval.defineAll] using mirrors_pure ()
  | _ :: _, [] => mirrors_pure ()

theorem mirrors_define_function (routine : Routine) :
    Mirrors (Watch.defineFunction routine) (Eval.defineFunction routine) :=
  mirrors_bind (mirrors_act _) fun _ => mirrors_bind (mirrors_act _) fun _ => mirrors_define _ _

theorem mirrors_define_class (name : Name) (methods : List Routine) :
    Mirrors (Watch.defineClass name methods) (Eval.defineClass name methods) :=
  mirrors_bind (mirrors_define _ _) fun _ => mirrors_bind (mirrors_act _) fun _ =>
    mirrors_bind (mirrors_act _) fun _ => mirrors_log _ (mirrors_act _)

theorem mirrors_log_bound (cause : Cause) (closure : Closure) (object : Instance) :
    Mirrors (logBound cause closure object) (pure ()) :=
  mirrors_log _ (mirrors_log _ (mirrors_pure ()))

theorem mirrors_receive (line : Nat) (cause : Cause) (method : Closure) (object : Instance) :
    Mirrors (receive line cause method object) (Eval.onStore line (Store.bind method object)) :=
  mirrors_behind (mirrors_act _) fun _ => mirrors_bind (g := fun _ => pure _) (mirrors_log_bound _ _ _) fun _ =>
    mirrors_pure _

theorem mirrors_property (name : Name) (value : Value) :
    Mirrors (Watch.property name value) (Eval.property name value) := by
  unfold Watch.property
  split
  · rename_i object
    apply mirrors_get
    intro w
    apply mirrors_behind (mirrors_act _)
    intro value
    split
    · dsimp only
      split
      · exact mirrors_bind (g := fun _ => pure _) (mirrors_log_bound _ _ _) fun _ => mirrors_pure _
      · exact mirrors_pure _
    · exact mirrors_pure _
  · exact mirrors_act _

structure WalkMirrors (steps : Nat) : Prop where
  evaluate : ∀ e, Mirrors (Watch.evaluate steps e) (Regime.standard.evaluate steps e)
  evaluateAll : ∀ es, Mirrors (Watch.evaluateAll steps es) (Regime.standard.evaluateAll steps es)
  call : ∀ callee arguments line,
    Mirrors (Watch.call steps callee arguments line) (Regime.standard.call steps callee arguments line)
  enter : ∀ closure arguments, Mirrors (Watch.enter steps closure arguments) (Regime.standard.enter steps closure arguments)
  execute : ∀ s, Mirrors (Watch.execute steps s) (Regime.standard.execute steps s)
  executeAll : ∀ body, Mirrors (Watch.executeAll steps body) (Regime.standard.executeAll steps body)
  choose : ∀ condition body alternative,
    Mirrors (Watch.choose steps condition body alternative) (Regime.standard.choose steps condition body alternative)
  repeatWhile : ∀ condition body env,
    Mirrors (Watch.repeatWhile steps condition body env) (Regime.standard.repeatWhile steps condition body env)

theorem mirrors_exhausted : Mirrors (throw .exhausted : Watch α) (throw .exhausted) :=
  matched_throw _ _ _ _ _ rfl

section Step

variable {steps : Nat} (ih : WalkMirrors steps)

include ih

theorem mirrors_evaluate (e : Expr) :
    Mirrors (Watch.evaluate (steps + 1) e) (Regime.standard.evaluate (steps + 1) e) := by
  cases e with
  | literal mark value => exact mirrors_pure _
  | grouping mark inner => exact ih.evaluate inner
  | unary mark operator right => exact mirrors_bind (ih.evaluate right) fun _ => mirrors_act _
  | binary mark left operator right =>
      exact mirrors_bind (ih.evaluate left) fun _ => mirrors_bind (ih.evaluate right) fun _ => mirrors_act _
  | logical mark left operator right =>
      apply mirrors_bind (ih.evaluate left)
      intro value
      cases value with
      | bool truth =>
          dsimp only
          split
          · exact mirrors_pure _
          · exact ih.evaluate right
      | _ => exact mirrors_act _
  | ident mark name => exact mirrors_reach _ _
  | this mark name => exact mirrors_reach _ _
  | assign mark name value =>
      exact mirrors_bind (ih.evaluate value) fun _ => mirrors_bind (mirrors_reach _ _) fun _ => mirrors_pure _
  | call mark callee arguments line =>
      apply mirrors_log
      apply mirrors_bind (ih.evaluate callee)
      intro function
      apply mirrors_bind (ih.evaluateAll arguments)
      intro values
      exact mirrors_bind (mirrors_act _) fun _ => ih.call function values line
  | get mark object name => exact mirrors_bind (ih.evaluate object) fun _ => mirrors_property _ _
  | set mark object name value =>
      apply mirrors_bind (ih.evaluate object)
      intro target
      cases target with
      | object object =>
          exact mirrors_bind (ih.evaluate value) fun _ => mirrors_bind (mirrors_act _) fun _ => mirrors_pure _
      | _ => exact mirrors_act _

theorem mirrors_evaluate_all (es : List Expr) :
    Mirrors (Watch.evaluateAll (steps + 1) es) (Regime.standard.evaluateAll (steps + 1) es) := by
  cases es with
  | nil => exact mirrors_pure _
  | cons e rest =>
      exact mirrors_bind (ih.evaluate e) fun _ => mirrors_bind (ih.evaluateAll rest) fun _ => mirrors_pure _

theorem mirrors_call (callee : Value) (arguments : List Value) (line : Nat) :
    Mirrors (Watch.call (steps + 1) callee arguments line)
      (Regime.standard.call (steps + 1) callee arguments line) := by
  cases callee with
  | native native => exact mirrors_act _
  | function identity closure => exact ih.enter closure arguments
  | «class» c =>
      apply mirrors_bind (mirrors_act _)
      intro object
      cases c.constructor? with
      | none => exact mirrors_pure _
      | some method =>
          exact mirrors_bind (mirrors_receive line .creation method object) fun bound =>
            mirrors_bind (ih.enter bound arguments) fun _ => mirrors_pure (Value.object object)
  | _ => exact mirrors_act (Eval.fail line _)

theorem mirrors_enter (closure : Closure) (arguments : List Value) :
    Mirrors (Watch.enter (steps + 1) closure arguments) (Regime.standard.enter (steps + 1) closure arguments) := by
  apply mirrors_get
  intro w
  apply mirrors_log
  apply mirrors_bind (mirrors_act _)
  intro env
  apply mirrors_log
  apply mirrors_bind (mirrors_define_all env closure.routine.parameters arguments)
  intro _
  exact mirrors_bind (mirrors_within env (ih.executeAll closure.routine.body)) fun _ => mirrors_act _

theorem mirrors_enclosed (site : Site) (body : List Stmt) :
    Mirrors (do Watch.within (← Watch.childEnv site) (Watch.executeAll steps body))
      (do Eval.within (← Eval.childEnv) (Regime.standard.executeAll steps body)) :=
  mirrors_bind (mirrors_child_env site) fun env => mirrors_within env (ih.executeAll body)

theorem mirrors_execute (s : Stmt) :
    Mirrors (Watch.execute (steps + 1) s) (Regime.standard.execute (steps + 1) s) := by
  cases s with
  | expression e => exact mirrors_bind (ih.evaluate e) fun _ => mirrors_pure _
  | var name initializer =>
      cases initializer with
      | none => exact mirrors_bind (mirrors_define _ _) fun _ => mirrors_pure _
      | some e =>
          exact mirrors_bind (ih.evaluate e) fun _ => mirrors_bind (mirrors_define _ _) fun _ => mirrors_pure _
  | block body => exact mirrors_enclosed ih _ body
  | branch condition body alternative => exact ih.choose condition body alternative
  | «while» condition body =>
      exact mirrors_bind (mirrors_child_env _) fun env => ih.repeatWhile condition body env
  | function routine => exact mirrors_bind (mirrors_define_function routine) fun _ => mirrors_pure _
  | «return» line value =>
      cases value with
      | none => exact mirrors_pure _
      | some e => exact mirrors_bind (ih.evaluate e) fun _ => mirrors_pure _
  | «class» name methods => exact mirrors_bind (mirrors_define_class name methods) fun _ => mirrors_pure _

theorem mirrors_execute_all (body : List Stmt) :
    Mirrors (Watch.executeAll (steps + 1) body) (Regime.standard.executeAll (steps + 1) body) := by
  cases body with
  | nil => exact mirrors_pure _
  | cons s rest =>
      apply mirrors_bind (ih.execute s)
      intro flow
      cases flow with
      | normal => exact ih.executeAll rest
      | returned value => exact mirrors_pure _

theorem mirrors_choose (condition : Expr) (body : List Stmt) (alternative : Alternative) :
    Mirrors (Watch.choose (steps + 1) condition body alternative)
      (Regime.standard.choose (steps + 1) condition body alternative) := by
  apply mirrors_bind (ih.evaluate condition)
  intro value
  apply mirrors_bind (mirrors_act _)
  intro truth
  split
  · exact mirrors_enclosed ih _ body
  · cases alternative with
    | none => exact mirrors_pure _
    | elseIf next inner other => exact ih.choose next inner other
    | block inner => exact mirrors_enclosed ih _ inner

theorem mirrors_repeat_while (condition : Expr) (body : List Stmt) (env : Env) :
    Mirrors (Watch.repeatWhile (steps + 1) condition body env)
      (Regime.standard.repeatWhile (steps + 1) condition body env) := by
  apply mirrors_bind (ih.evaluate condition)
  intro value
  apply mirrors_bind (mirrors_act _)
  intro truth
  split
  · apply mirrors_bind (mirrors_within env (ih.executeAll body))
    intro flow
    cases flow with
    | returned result => exact mirrors_pure _
    | normal =>
        have renewed : Mirrors (do act (Eval.onStore 0 (Store.clear env)); Watch.repeatWhile steps condition body env)
            (do Eval.onStore 0 (Store.clear env); Regime.standard.repeatWhile steps condition body env) :=
          mirrors_bind (mirrors_act _) fun _ => ih.repeatWhile condition body env
        exact mirrors_bind (mirrors_act _) fun _ => mirrors_log _ (ih.repeatWhile condition body env)
  · exact mirrors_pure _

end Step

theorem walk_mirrors : ∀ steps, WalkMirrors steps
  | 0 => by
      constructor <;> intros <;> exact mirrors_exhausted
  | steps + 1 => by
      have ih := walk_mirrors steps
      exact ⟨mirrors_evaluate ih, mirrors_evaluate_all ih, mirrors_call ih, mirrors_enter ih, mirrors_execute ih,
        mirrors_execute_all ih, mirrors_choose ih, mirrors_repeat_while ih⟩

theorem mirrors_execute_program (steps : Nat) : ∀ program : Program,
    Mirrors (Watch.executeProgram steps program) (Regime.standard.executeProgram steps program)
  | [] => mirrors_pure ()
  | s :: rest => by
      apply mirrors_bind ((walk_mirrors steps).execute s)
      intro flow
      cases flow with
      | normal => exact mirrors_execute_program steps rest
      | returned value => exact mirrors_pure ()

theorem mirrors_interpret (steps : Nat) (program : Program) :
    Mirrors (Watch.interpret steps program) (Regime.standard.interpret steps program) :=
  mirrors_bind (mirrors_execute_program steps program) fun _ => mirrors_act _

end Mirrors

end TreeWalk
