import TreeWalk.Proofs.Chronicle

set_option autoImplicit false

namespace TreeWalk

namespace Event

def opens (layer : Nat) : Event → Bool
  | opened _ made => made == layer
  | _ => false

-- The layer was made for a loop with one of the bodies that are picked.
def opensLoop (picked : List Stmt → Bool) (layer : Nat) : Event → Bool
  | opened (.loop body) made => made == layer && picked body
  | _ => false

def empties (layer : Nat) : Event → Bool
  | emptied old => old == layer
  | _ => false

-- The loop was emptied after the layer was made, so that the round that it was made for is over.
def roundOver (layer loop : Nat) : List Event → Bool
  | [] => false
  | event :: older => event.empties loop && older.any (opens layer) || roundOver layer loop older

-- A reference to a name in the layer of a round that is over.
def isLate (picked : List Stmt → Bool) (older : List Event) : Event → Bool
  | reached node machine =>
      (node.reference?.bind fun r => machine.distances[r.id]?).any fun distance =>
        machine.env.chain[distance]?.any fun layer => machine.env.chain[distance + 1]?.any fun loop =>
          older.any (opensLoop picked loop) && roundOver layer loop older
  | _ => false

def anyLate (picked : List Stmt → Bool) : List Event → Bool
  | [] => false
  | event :: older => event.isLate picked older || anyLate picked older

variable {picked : List Stmt → Bool} {older events : List Event}

theorem any_longer (longer : older <:+ events) (test : Event → Bool) (found : older.any test = true) :
    events.any test = true := by
  obtain ⟨event, member, holds⟩ := List.any_eq_true.mp found
  exact List.any_eq_true.mpr ⟨event, longer.subset member, holds⟩

theorem round_over_longer (longer : older <:+ events) {layer loop : Nat} (ended : roundOver layer loop older = true) :
    roundOver layer loop events = true := by
  obtain ⟨newer, rfl⟩ := longer
  induction newer with
  | nil => exact ended
  | cons event rest ih => simp [roundOver, ih]

theorem any_late_longer (longer : older <:+ events) (late : anyLate picked older = true) : anyLate picked events = true := by
  obtain ⟨newer, rfl⟩ := longer
  induction newer with
  | nil => exact late
  | cons event rest ih => simp [anyLate, ih]

end Event

-- Whatever comes of it, the record is the old one with more in front.
def Watch.Records {α : Type} (p : Watch α) : Prop :=
  ∀ n : Watched, n.events <:+ (endState (p n)).events

section Records

open Watch

variable {α β : Type} {p : Watch α}

theorem records_ok (records : p.Records) {n w : Watched} {a : α} (run : p n = .ok a w) : n.events <:+ w.events := by
  have longer := records n
  rwa [run] at longer

theorem records_error (records : p.Records) {n w : Watched} {halt : Halt} (run : p n = .error halt w) :
    n.events <:+ w.events := by
  have longer := records n
  rwa [run] at longer

theorem records_pure (a : α) : Records (pure a) :=
  fun _ => List.suffix_refl _

theorem records_exhausted : Records (throw .exhausted : Watch α) :=
  fun _ => List.suffix_refl _

theorem records_act (eval : Eval α) : Records (act eval) := by
  intro n
  unfold act
  cases eval n.machine <;> exact List.suffix_refl _

theorem records_bind {f : α → Watch β} (first : p.Records) (rest : ∀ a, (f a).Records) : Records (p >>= f) := by
  intro n
  cases run : p n with
  | ok a w =>
      rw [bind_ok f run]
      exact (records_ok first run).trans (rest a w)
  | error halt w =>
      rw [bind_error f run]
      exact records_error first run

theorem records_log (event : Event) (rest : p.Records) : Records (do log event; p) :=
  fun n => (List.suffix_cons event n.events).trans (rest ⟨n.machine, event :: n.events⟩)

theorem records_get {f : Watched → Watch α} (rest : ∀ w, (f w).Records) : Records (get >>= f) :=
  fun n => rest n n

theorem records_within (env : Env) (inner : p.Records) : Records (Watch.within env p) := by
  intro n
  have longer := inner { n with machine := { n.machine with env } }
  unfold Watch.within
  cases run : p { n with machine := { n.machine with env } } with
  | ok a w =>
      rw [run] at longer
      exact longer
  | error halt w =>
      rw [run] at longer
      exact longer

theorem records_reach (node : Expr) (eval : Eval α) : Records (reach node eval) :=
  records_get fun _ => records_log _ (records_act eval)

theorem records_child_env (site : Site) : Records (Watch.childEnv site) :=
  records_bind (records_act _) fun _ => records_log _ (records_pure _)

theorem records_define (name : Name) (value : Value) : Records (Watch.define name value) :=
  records_bind (records_act _) fun _ => records_bind (records_act _) fun _ => records_log _ (records_pure _)

theorem records_define_all (env : Env) : ∀ (names : List Name) (values : List Value),
    Records (Watch.defineAll env names values)
  | _ :: names, _ :: values => records_bind (records_act _) fun _ => records_log _ (records_define_all env names values)
  | [], [] | [], _ :: _ | _ :: _, [] => records_pure ()

theorem records_define_function (routine : Routine) : Records (Watch.defineFunction routine) :=
  records_bind (records_act _) fun _ => records_bind (records_act _) fun _ => records_define _ _

theorem records_define_class (name : Name) (methods : List Routine) : Records (Watch.defineClass name methods) :=
  records_bind (records_define _ _) fun _ => records_bind (records_act _) fun _ =>
    records_bind (records_act _) fun _ => records_log _ (records_act _)

theorem records_log_bound (cause : Cause) (closure : Closure) (object : Instance) : Records (logBound cause closure object) :=
  records_log _ (records_log _ (records_pure _))

theorem records_receive (line : Nat) (cause : Cause) (method : Closure) (object : Instance) :
    Records (receive line cause method object) :=
  records_bind (records_act _) fun _ => records_bind (records_log_bound _ _ _) fun _ => records_pure _

theorem records_property (name : Name) (value : Value) : Records (Watch.property name value) := by
  unfold Watch.property
  split
  · refine records_get fun w => records_bind (records_act _) fun value => ?_
    split
    · dsimp only
      split
      · exact records_bind (records_log_bound _ _ _) fun _ => records_pure _
      · exact records_pure _
    · exact records_pure _
  · exact records_act _

structure WalkRecords (steps : Nat) : Prop where
  evaluate : ∀ e, (Watch.evaluate steps e).Records
  evaluateAll : ∀ es, (Watch.evaluateAll steps es).Records
  call : ∀ callee arguments line, (Watch.call steps callee arguments line).Records
  enter : ∀ closure arguments, (Watch.enter steps closure arguments).Records
  execute : ∀ s, (Watch.execute steps s).Records
  executeAll : ∀ body, (Watch.executeAll steps body).Records
  choose : ∀ condition body alternative, (Watch.choose steps condition body alternative).Records
  repeatWhile : ∀ condition body env, (Watch.repeatWhile steps condition body env).Records

section Step

variable {steps : Nat} (ih : WalkRecords steps)

include ih

theorem records_evaluate (e : Expr) : (Watch.evaluate (steps + 1) e).Records := by
  cases e with
  | literal mark value => exact records_pure _
  | grouping mark inner => exact ih.evaluate inner
  | unary mark operator right => exact records_bind (ih.evaluate right) fun _ => records_act _
  | binary mark left operator right =>
      exact records_bind (ih.evaluate left) fun _ => records_bind (ih.evaluate right) fun _ => records_act _
  | logical mark left operator right =>
      refine records_bind (ih.evaluate left) fun value => ?_
      cases value with
      | bool truth =>
          dsimp only
          split
          · exact records_pure _
          · exact ih.evaluate right
      | _ => exact records_act _
  | ident mark name => exact records_reach _ _
  | this mark name => exact records_reach _ _
  | assign mark name value =>
      exact records_bind (ih.evaluate value) fun _ => records_bind (records_reach _ _) fun _ => records_pure _
  | call mark callee arguments line =>
      exact records_log _ (records_bind (ih.evaluate callee) fun _ => records_bind (ih.evaluateAll arguments) fun _ =>
        records_bind (records_act _) fun _ => ih.call _ _ line)
  | get mark object name => exact records_bind (ih.evaluate object) fun _ => records_property _ _
  | set mark object name value =>
      refine records_bind (ih.evaluate object) fun target => ?_
      cases target with
      | object object =>
          exact records_bind (ih.evaluate value) fun _ => records_bind (records_act _) fun _ => records_pure _
      | _ => exact records_act _

theorem records_evaluate_all (es : List Expr) : (Watch.evaluateAll (steps + 1) es).Records := by
  cases es with
  | nil => exact records_pure _
  | cons e rest => exact records_bind (ih.evaluate e) fun _ => records_bind (ih.evaluateAll rest) fun _ => records_pure _

theorem records_call (callee : Value) (arguments : List Value) (line : Nat) :
    (Watch.call (steps + 1) callee arguments line).Records := by
  cases callee with
  | native native => exact records_act _
  | function identity closure => exact ih.enter closure arguments
  | «class» c =>
      refine records_bind (records_act _) fun object => ?_
      cases c.constructor? with
      | none => exact records_pure _
      | some method =>
          exact records_bind (records_receive line .creation method object) fun bound =>
            records_bind (ih.enter bound arguments) fun _ => records_pure (Value.object object)
  | _ => exact records_act (Eval.fail line _)

theorem records_enter (closure : Closure) (arguments : List Value) : (Watch.enter (steps + 1) closure arguments).Records :=
  records_get fun _ => records_log _ (records_bind (records_act _) fun env => records_log _
    (records_bind (records_define_all env _ _) fun _ => records_bind (records_within env (ih.executeAll _)) fun _ =>
      records_act _))

theorem records_enclosed (site : Site) (body : List Stmt) :
    Records (do Watch.within (← Watch.childEnv site) (Watch.executeAll steps body)) :=
  records_bind (records_child_env site) fun env => records_within env (ih.executeAll body)

theorem records_execute (s : Stmt) : (Watch.execute (steps + 1) s).Records := by
  cases s with
  | expression e => exact records_bind (ih.evaluate e) fun _ => records_pure _
  | var name initializer =>
      cases initializer with
      | none => exact records_bind (records_define _ _) fun _ => records_pure _
      | some e => exact records_bind (ih.evaluate e) fun _ => records_bind (records_define _ _) fun _ => records_pure _
  | block body => exact records_enclosed ih _ body
  | branch condition body alternative => exact ih.choose condition body alternative
  | «while» condition body => exact records_bind (records_child_env _) fun env => ih.repeatWhile condition body env
  | function routine => exact records_bind (records_define_function routine) fun _ => records_pure _
  | «return» line value =>
      cases value with
      | none => exact records_pure _
      | some e => exact records_bind (ih.evaluate e) fun _ => records_pure _
  | «class» name methods => exact records_bind (records_define_class name methods) fun _ => records_pure _

theorem records_execute_all (body : List Stmt) : (Watch.executeAll (steps + 1) body).Records := by
  cases body with
  | nil => exact records_pure _
  | cons s rest =>
      refine records_bind (ih.execute s) fun flow => ?_
      cases flow with
      | normal => exact ih.executeAll rest
      | returned value => exact records_pure _

theorem records_choose (condition : Expr) (body : List Stmt) (alternative : Alternative) :
    (Watch.choose (steps + 1) condition body alternative).Records := by
  refine records_bind (ih.evaluate condition) fun value => records_bind (records_act _) fun truth => ?_
  split
  · exact records_enclosed ih _ body
  · cases alternative with
    | none => exact records_pure _
    | elseIf next inner other => exact ih.choose next inner other
    | block inner => exact records_enclosed ih _ inner

theorem records_repeat_while (condition : Expr) (body : List Stmt) (env : Env) :
    (Watch.repeatWhile (steps + 1) condition body env).Records := by
  refine records_bind (ih.evaluate condition) fun value => records_bind (records_act _) fun truth => ?_
  split
  · refine records_bind (records_within env (ih.executeAll body)) fun flow => ?_
    cases flow with
    | returned result => exact records_pure _
    | normal => exact records_bind (records_act _) fun _ => records_log _ (ih.repeatWhile condition body env)
  · exact records_pure _

end Step

theorem walk_records : ∀ steps, WalkRecords steps
  | 0 => by
      constructor <;> intros <;> exact records_exhausted
  | steps + 1 => by
      have ih := walk_records steps
      exact ⟨records_evaluate ih, records_evaluate_all ih, records_call ih, records_enter ih, records_execute ih,
        records_execute_all ih, records_choose ih, records_repeat_while ih⟩

theorem records_program (steps : Nat) : ∀ program : Program, (Watch.executeProgram steps program).Records
  | [] => records_pure ()
  | s :: rest => by
      refine records_bind ((walk_records steps).execute s) fun flow => ?_
      cases flow with
      | normal => exact records_program steps rest
      | returned value => exact records_pure ()

end Records

end TreeWalk
