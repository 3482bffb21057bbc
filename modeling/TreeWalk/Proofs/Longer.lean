import TreeWalk.Evaluation
import TreeWalk.Proofs.Runs
import TreeWalk.Session

set_option autoImplicit false

namespace TreeWalk

open Eval

def Prolongs {σ α : Type} (p q : EStateM Halt σ α) : Prop :=
  ∀ s, (∃ t, p s = .error .exhausted t) ∨ q s = p s

section Steps

variable {σ α β : Type} {p q : EStateM Halt σ α} {f g : α → EStateM Halt σ β}

theorem prolongs_refl (p : EStateM Halt σ α) : Prolongs p p :=
  fun _ => .inr rfl

theorem prolongs_exhausted (q : EStateM Halt σ α) : Prolongs (throw .exhausted) q :=
  fun s => .inl ⟨s, rfl⟩

theorem prolongs_bind (first : Prolongs p q) (rest : ∀ a, Prolongs (f a) (g a)) : Prolongs (p >>= f) (q >>= g) := by
  intro s
  rcases first s with ⟨t, out⟩ | same
  · exact .inl ⟨t, bind_error f out⟩
  · cases run : p s with
    | ok a t =>
        rw [bind_ok f run, bind_ok g (same.trans run)]
        exact rest a t
    | error halt t =>
        rw [bind_error f run, bind_error g (same.trans run)]
        exact .inr rfl

theorem prolongs_then (rest : ∀ a, Prolongs (f a) (g a)) : Prolongs (p >>= f) (p >>= g) :=
  prolongs_bind (prolongs_refl p) rest

theorem prolongs_first (f : α → EStateM Halt σ β) (first : Prolongs p q) : Prolongs (p >>= f) (q >>= f) :=
  prolongs_bind first fun a => prolongs_refl (f a)

theorem prolongs_trans {r : EStateM Halt σ α} (first : Prolongs p q) (second : Prolongs q r) : Prolongs p r := by
  intro s
  rcases first s with out | same
  · exact .inl out
  · rw [← same]
    exact second s

theorem prolongs_within {p q : Eval α} (env : Env) (inner : Prolongs p q) : Prolongs (within env p) (within env q) := by
  intro m
  rcases inner { m with env } with ⟨n, out⟩ | same
  · exact .inl ⟨{ n with env := m.env }, by simp only [within, out]⟩
  · exact .inr (by simp only [within, same])

end Steps

structure Regime.Prolonged (regime : Regime) (steps : Nat) : Prop where
  evaluate : ∀ e, Prolongs (regime.evaluate steps e) (regime.evaluate (steps + 1) e)
  arguments : ∀ es, Prolongs (regime.evaluateAll steps es) (regime.evaluateAll (steps + 1) es)
  call : ∀ callee arguments line,
    Prolongs (regime.call steps callee arguments line) (regime.call (steps + 1) callee arguments line)
  enter : ∀ closure arguments, Prolongs (regime.enter steps closure arguments) (regime.enter (steps + 1) closure arguments)
  execute : ∀ s, Prolongs (regime.execute steps s) (regime.execute (steps + 1) s)
  body : ∀ body, Prolongs (regime.executeAll steps body) (regime.executeAll (steps + 1) body)
  choose : ∀ condition body alternative,
    Prolongs (regime.choose steps condition body alternative) (regime.choose (steps + 1) condition body alternative)
  loop : ∀ condition body env,
    Prolongs (regime.repeatWhile steps condition body env) (regime.repeatWhile (steps + 1) condition body env)

section Walk

variable {regime : Regime} {steps : Nat} (ih : regime.Prolonged steps)
include ih

theorem prolongs_evaluate (e : Expr) : Prolongs (regime.evaluate (steps + 1) e) (regime.evaluate (steps + 2) e) := by
  cases e with
  | literal _ _ | ident _ _ | this _ _ => exact prolongs_refl _
  | grouping _ inner => exact ih.evaluate inner
  | unary _ _ right => exact prolongs_first _ (ih.evaluate right)
  | binary _ left _ right => exact prolongs_bind (ih.evaluate left) fun _ => prolongs_first _ (ih.evaluate right)
  | logical _ left operator right =>
      refine prolongs_bind (ih.evaluate left) fun value => ?_
      cases value with
      | bool truth =>
          dsimp only
          split
          · exact prolongs_refl _
          · exact ih.evaluate right
      | _ => exact prolongs_refl _
  | assign _ _ value => exact prolongs_first _ (ih.evaluate value)
  | call _ callee arguments _ =>
      exact prolongs_bind (ih.evaluate callee) fun _ => prolongs_bind (ih.arguments arguments) fun _ =>
        prolongs_then fun _ => ih.call _ _ _
  | get _ object _ => exact prolongs_first _ (ih.evaluate object)
  | set _ object _ value =>
      refine prolongs_bind (ih.evaluate object) fun target => ?_
      cases target with
      | object object => exact prolongs_first _ (ih.evaluate value)
      | _ => exact prolongs_refl _

theorem prolongs_call (callee : Value) (arguments : List Value) (line : Nat) :
    Prolongs (regime.call (steps + 1) callee arguments line) (regime.call (steps + 2) callee arguments line) := by
  cases callee with
  | function _ closure => exact ih.enter closure arguments
  | «class» c =>
      refine prolongs_then fun object => ?_
      cases c.constructor? with
      | none => exact prolongs_refl _
      | some method => exact prolongs_then fun _ => prolongs_first _ (ih.enter _ _)
  | _ => exact prolongs_refl _

theorem prolongs_enter (closure : Closure) (arguments : List Value) :
    Prolongs (regime.enter (steps + 1) closure arguments) (regime.enter (steps + 2) closure arguments) :=
  prolongs_then fun _ => prolongs_then fun _ => prolongs_first _ (prolongs_within _ (ih.body _))

theorem prolongs_scope (body : List Stmt) :
    Prolongs (childEnv >>= fun env => within env (regime.executeAll steps body))
      (childEnv >>= fun env => within env (regime.executeAll (steps + 1) body)) :=
  prolongs_then fun env => prolongs_within env (ih.body body)

theorem prolongs_execute (s : Stmt) : Prolongs (regime.execute (steps + 1) s) (regime.execute (steps + 2) s) := by
  cases s with
  | expression e => exact prolongs_first _ (ih.evaluate e)
  | var name value =>
      cases value with
      | none => exact prolongs_refl _
      | some e => exact prolongs_first _ (ih.evaluate e)
  | block body => exact prolongs_scope ih body
  | branch condition body alternative => exact ih.choose condition body alternative
  | «while» condition body => exact prolongs_then fun env => ih.loop condition body env
  | function _ | «class» _ _ => exact prolongs_refl _
  | «return» _ value =>
      cases value with
      | none => exact prolongs_refl _
      | some e => exact prolongs_first _ (ih.evaluate e)

theorem prolongs_choose (condition : Expr) (body : List Stmt) (alternative : Alternative) :
    Prolongs (regime.choose (steps + 1) condition body alternative)
      (regime.choose (steps + 2) condition body alternative) := by
  refine prolongs_bind (ih.evaluate condition) fun _ => prolongs_then fun truth => ?_
  cases truth with
  | true => exact prolongs_scope ih body
  | false =>
      cases alternative with
      | none => exact prolongs_refl _
      | elseIf condition body alternative => exact ih.choose condition body alternative
      | block body => exact prolongs_scope ih body

theorem prolongs_loop (condition : Expr) (body : List Stmt) (env : Env) :
    Prolongs (regime.repeatWhile (steps + 1) condition body env) (regime.repeatWhile (steps + 2) condition body env) := by
  refine prolongs_bind (ih.evaluate condition) fun _ => prolongs_then fun truth => ?_
  cases truth with
  | true =>
      refine prolongs_bind (prolongs_within env (ih.body body)) fun flow => ?_
      cases flow with
      | normal => exact prolongs_then fun env => ih.loop condition body env
      | returned _ => exact prolongs_refl _
  | false => exact prolongs_refl _

end Walk

section Whole

variable (regime : Regime)

theorem prolonged : ∀ steps, regime.Prolonged steps
  | 0 => by constructor <;> intros <;> exact prolongs_exhausted _
  | steps + 1 =>
      have ih := prolonged steps
      { evaluate := prolongs_evaluate ih
        arguments := fun es => by
          cases es with
          | nil => exact prolongs_refl _
          | cons e rest => exact prolongs_bind (ih.evaluate e) fun _ => prolongs_first _ (ih.arguments rest)
        call := prolongs_call ih
        enter := prolongs_enter ih
        execute := prolongs_execute ih
        body := fun body => by
          cases body with
          | nil => exact prolongs_refl _
          | cons s rest =>
              refine prolongs_bind (ih.execute s) fun flow => ?_
              cases flow with
              | normal => exact ih.body rest
              | returned _ => exact prolongs_refl _
        choose := prolongs_choose ih
        loop := prolongs_loop ih }

theorem prolongs_program (steps : Nat) : ∀ program : Program,
    Prolongs (regime.executeProgram steps program) (regime.executeProgram (steps + 1) program)
  | [] => prolongs_refl _
  | s :: rest => by
      refine prolongs_bind ((prolonged regime steps).execute s) fun flow => ?_
      cases flow with
      | normal => exact prolongs_program steps rest
      | returned _ => exact prolongs_refl _

theorem prolongs_interpret (steps : Nat) (program : Program) :
    Prolongs (regime.interpret steps program) (regime.interpret (steps + 1) program) :=
  prolongs_first _ (prolongs_program regime steps program)

end Whole

section Runs

theorem prolongs_machine {α : Type} {p q : Eval α} (longer : Prolongs p q) :
    Prolongs (Session.onMachine p) (Session.onMachine q) := by
  intro s
  rcases longer s.machine with ⟨m, out⟩ | same
  · exact .inl ⟨{ s with machine := m }, by simp only [Session.onMachine, out]⟩
  · exact .inr (by simp only [Session.onMachine, same])

variable {steps more : Nat} {text : String} {s t : Session}

theorem prolongs_run (steps : Nat) (text : String) (later : steps ≤ more) :
    Prolongs (Session.run steps text) (Session.run more text) := by
  induction later with
  | refl => exact prolongs_refl _
  | step _ ih =>
      exact prolongs_trans ih (prolongs_then fun program =>
        prolongs_machine (prolongs_then fun _ => prolongs_interpret _ _ program))

theorem run_longer {outcome : EStateM.Result Halt Session Unit} (run : Session.run steps text s = outcome)
    (back : ∀ t, outcome ≠ .error .exhausted t) (later : steps ≤ more) : Session.run more text s = outcome := by
  rcases prolongs_run steps text later s with ⟨t, out⟩ | same
  · exact (back t (run.symm.trans out)).elim
  · exact same.trans run

end Runs

end TreeWalk
