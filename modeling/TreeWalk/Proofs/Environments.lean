import TreeWalk.Proofs.Reached
import TreeWalk.Proofs.Throughout

set_option autoImplicit false

namespace TreeWalk

open Eval

section Steps

variable {α β : Type}

def Returns (p : Eval α) : Prop :=
  ∀ m, (endState (p m)).env = m.env

theorem returns_bind (p : Eval α) (f : α → Eval β) (first : Returns p) (rest : ∀ a, Returns (f a)) :
    Returns (p >>= f) := by
  intro m
  have before := first m
  cases run : p m with
  | ok a next =>
      rw [run] at before
      rw [bind_ok f run]
      exact (rest a next).trans before
  | error halt next =>
      rw [run] at before
      rw [bind_error f run]
      exact before

theorem returns_store (line : Nat) (act : StoreM α) : Returns (onStore line act) := by
  intro m
  unfold onStore
  cases run : act m.store <;> simp only [run, endState]

theorem returns_sink (report : StreamError → Error) (act : EStateM StreamError Sink α) :
    Returns (onSink report act) := by
  intro m
  unfold onSink
  cases run : act m.sink <;> simp only [run, endState]

theorem returns_source (report : StreamError → Error) (act : EStateM StreamError Source α) :
    Returns (onSource report act) := by
  intro m
  unfold onSource
  cases act m.source <;> rfl

theorem returns_within (env : Env) (p : Eval α) : Returns (within env p) := by
  intro m
  unfold within
  cases p { m with env } <;> rfl

theorem returns : Throughout Returns where
  done _ _ := rfl
  follow := returns_bind
  env _ := rfl
  distance _ _ := rfl
  exhausted _ := rfl
  failed _ _ _ := rfl
  store := returns_store
  print _ _ _ := returns_sink _ _
  input _ _ := returns_bind _ _ (returns_sink _ _) fun _ => returns_bind _ _ (returns_source _ _) fun _ _ => rfl
  flushed := returns_sink _ _
  inside env p _ := returns_within env p

end Steps

section Sessions

theorem resolve_returns (program : Program) : Returns (Session.resolve program) := by
  intro m
  unfold Session.resolve
  rcases program.resolve m.distances with ⟨_ | _, _⟩ <;> rfl

theorem parse_machine (source : String) (s : Session) : (endState (Session.parse source s)).machine = s.machine := by
  have ended := parse_ends source s
  unfold Ends at ended
  cases parsed : Session.parse source s with
  | ok program next => rw [parsed] at ended; exact ended.2.1
  | error halt next => rw [parsed] at ended; exact congrArg Session.machine ended.1

theorem on_machine_state {α : Type} (act : Eval α) (s : Session) :
    endState (Session.onMachine act s) = { s with machine := endState (act s.machine) } := by
  unfold Session.onMachine
  cases act s.machine <;> rfl

theorem run_cases (steps : Nat) (source : String) (s : Session) :
    (∃ halt, Session.parse source s = .error halt s ∧ Session.run steps source s = .error halt s) ∨
      ∃ program t, Session.parse source s = .ok program t ∧ (endState (Session.run steps source s)).machine =
        endState ((do Session.resolve program; Regime.standard.interpret steps program) s.machine) := by
  have ended := parse_ends source s
  unfold Ends at ended
  cases parsed : Session.parse source s with
  | error halt t =>
      rw [parsed] at ended
      obtain ⟨rfl, _⟩ := ended
      exact .inl ⟨halt, rfl, bind_error _ parsed⟩
  | ok program t =>
      rw [parsed] at ended
      refine .inr ⟨program, t, rfl, ?_⟩
      unfold Session.run Session.runUnder
      rw [bind_ok _ parsed, on_machine_state, ended.2.1]

theorem run_returns (steps : Nat) (source : String) (s : Session) :
    (endState (Session.run steps source s)).machine.env = s.machine.env := by
  rcases run_cases steps source s with ⟨halt, _, run⟩ | ⟨program, _, _, run⟩
  · rw [run]
    rfl
  · rw [run]
    exact returns_bind _ _ (resolve_returns program)
      (fun _ => throughout_interpret (throughout_standard returns) steps program) s.machine

-- A session in which texts were run one after the other, each within its own number of steps and
-- whatever came of the ones before it.
def Session.after (s : Session) (runs : List (Nat × String)) : Session :=
  runs.foldl (fun s run => endState (Session.run run.1 run.2 s)) s

theorem after_returns (runs : List (Nat × String)) (s : Session) : (s.after runs).machine.env = s.machine.env := by
  induction runs generalizing s with
  | nil => rfl
  | cons run rest ih => exact (ih _).trans (run_returns run.1 run.2 s)

end Sessions

theorem environment_restored :
    (∀ (steps : Nat) (m : Machine),
      (∀ s : Stmt, (endState (Regime.standard.execute steps s m)).env = m.env) ∧
      (∀ (body : List Stmt) (env : Env), (endState (within env (Regime.standard.executeAll steps body) m)).env = m.env) ∧
      (∀ e : Expr, (endState (Regime.standard.evaluate steps e m)).env = m.env)) ∧
    ∀ (source : Source) (sink : Sink) (runs : List (Nat × String)),
      ((Session.start source sink).after runs).machine.env = Machine.globals := by
  refine ⟨fun steps m => ?_, fun source sink runs => after_returns runs (.start source sink)⟩
  have walks := walks_throughout (throughout_standard returns) steps
  exact ⟨fun s => walks.execute s m, fun body env => returns_within env _ m, fun e => walks.evaluate e m⟩

end TreeWalk
