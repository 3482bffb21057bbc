import TreeWalk.Proofs.Parsed
import TreeWalk.Proofs.Surveyed
import TreeWalk.Proofs.Walked
import TreeWalk.Session

set_option autoImplicit false

namespace TreeWalk

structure Chronicle where
  session : Session
  events : List Event

abbrev Chronicling := EStateM Halt Chronicle

def Watch.resolve (program : Program) : Watch Unit := fun w =>
  match Stmt.surveyAll program ⟨.start w.machine.distances, [], []⟩ with
  | .ok _ s =>
      .ok ()
        { machine := { w.machine with distances := s.scoping.distances }
          events := s.visits.map Event.visited ++ w.events }
  | .error e s =>
      .error (.failed (.scoping e)) { w with machine := { w.machine with distances := s.scoping.distances } }

namespace Chronicle

variable {α : Type}

def onSession (act : SessionM α) : Chronicling α := fun c =>
  match act c.session with
  | .ok a session => .ok a { c with session }
  | .error halt session => .error halt { c with session }

def onMachine (watch : Watch α) : Chronicling α := fun c =>
  match watch ⟨c.session.machine, c.events⟩ with
  | .ok a w => .ok a ⟨{ c.session with machine := w.machine }, w.events⟩
  | .error halt w => .error halt ⟨{ c.session with machine := w.machine }, w.events⟩

def run (steps : Nat) (source : String) : Chronicling Unit := do
  let program ← onSession (Session.parse source)
  onMachine do
    Watch.resolve program
    Watch.interpret steps program

def Shows (c : Chronicle) (session : Session) : Prop :=
  c.session = session

end Chronicle

def endState {ε σ α : Type} : EStateM.Result ε σ α → σ
  | .ok _ s | .error _ s => s

section Ends

variable {ε ζ σ τ α β : Type} {states more : σ → τ → Prop} {errors : ε → ζ → Prop} {values : α → β → Prop}
  {left : EStateM.Result ε σ α} {right : EStateM.Result ζ τ β}

theorem agree_ends (agree : Agree states errors values left right)
    (there : states (endState left) (endState right) → more (endState left) (endState right)) :
    Agree more errors values left right := by
  cases agree with
  | ok a b s t value state => exact .ok a b s t value (there state)
  | error e f s t failure state => exact .error e f s t failure (there state)

theorem agree_end_states (agree : Agree states errors values left right) : states (endState left) (endState right) := by
  cases agree with
  | ok a b s t value state => exact state
  | error e f s t failure state => exact state

end Ends

theorem ends_state {ε σ α : Type} {p : EStateM ε σ α} {s : σ} {done : α → σ → Prop} {stopped : ε → σ → Prop}
    {good : σ → Prop} (ended : Ends p s done stopped) (here : ∀ a t, done a t → good t)
    (there : ∀ e t, stopped e t → good t) : good (endState (p s)) := by
  unfold Ends at ended
  cases run : p s with
  | ok a t => rw [run] at ended; exact here a t ended
  | error e t => rw [run] at ended; exact there e t ended

namespace Chronicle

-- Programs are run and texts are parsed in any order, whatever comes of them; between them the
-- streams may change. The events of a run are those of the same run with a record.
inductive Reachable : Chronicle → Prop where
  | start (source : Source) (sink : Sink) : Reachable ⟨.start source sink, []⟩
  | run (c : Chronicle) (steps : Nat) (source : String) (before : Reachable c) :
      Reachable ⟨endState (Session.run steps source c.session), (endState (run steps source c)).events⟩
  | parse (c : Chronicle) (source : String) (before : Reachable c) :
      Reachable { c with session := endState (Session.parse source c.session) }
  | streams (c : Chronicle) (source : Source) (sink : Sink) (before : Reachable c) :
      Reachable { c with session := { c.session with machine := { c.session.machine with source, sink } } }

end Chronicle

theorem mirrors_resolve (program : Program) : Mirrors (Watch.resolve program) (Session.resolve program) := by
  rintro w _ rfl
  unfold Watch.resolve Session.resolve Program.resolve EStateM.run
  rcases agree_cases _ _ _ _ _
    (erases_stmts program ⟨.start w.machine.distances, [], []⟩ (.start w.machine.distances) rfl) with
    ⟨_, _, s, t, left, right, _, same⟩ | ⟨e, _, s, t, left, right, rfl, same⟩
  · have distances : s.scoping.distances = t.distances := congrArg Scoping.distances same
    simp only [left, right]
    exact .ok _ _ _ _ rfl (by simp only [Watched.Shows, distances])
  · have distances : s.scoping.distances = t.distances := congrArg Scoping.distances same
    simp only [left, right]
    exact .error _ _ _ _ rfl (by simp only [Watched.Shows, distances])

theorem run_shows (steps : Nat) (source : String) :
    Matched Chronicle.Shows Eq Eq (Chronicle.run steps source) (Session.run steps source) := by
  have parsed : Matched Chronicle.Shows Eq Eq (Chronicle.onSession (Session.parse source)) (Session.parse source) := by
    rintro c _ rfl
    unfold Chronicle.onSession
    cases Session.parse source c.session with
    | ok a session => exact .ok _ _ _ _ rfl rfl
    | error halt session => exact .error _ _ _ _ rfl rfl
  apply matched_bind _ _ _ _ _ _ _ _ parsed
  rintro program _ rfl c _ rfl
  have whole : Mirrors (do Watch.resolve program; Watch.interpret steps program)
      (do Session.resolve program; Regime.standard.interpret steps program) :=
    mirrors_bind (mirrors_resolve program) fun _ => mirrors_interpret steps program
  unfold Chronicle.onMachine Session.onMachine
  rcases agree_cases _ _ _ _ _ (whole ⟨c.session.machine, c.events⟩ c.session.machine rfl) with
    ⟨_, _, w, m, left, right, _, same⟩ | ⟨halt, _, w, m, left, right, rfl, same⟩
  · subst same
    simp only [left, right]
    exact .ok _ _ _ _ rfl rfl
  · subst same
    simp only [left, right]
    exact .error _ _ _ _ rfl rfl

theorem end_shows (steps : Nat) (source : String) (c : Chronicle) :
    (endState (Chronicle.run steps source c)).session = endState (Session.run steps source c.session) := by
  rcases agree_cases _ _ _ _ _ (run_shows steps source c c.session rfl) with
    ⟨_, _, _, _, left, right, _, same⟩ | ⟨_, _, _, _, left, right, _, same⟩
  · rw [left, right]
    exact same
  · rw [left, right]
    exact same

def Chronicle.ofText (steps : Nat) (text : String) : Chronicle :=
  ⟨endState (Session.run steps text (.start ⟨[]⟩ .unlimited)),
    (endState (Chronicle.run steps text ⟨.start ⟨[]⟩ .unlimited, []⟩)).events⟩

theorem of_text_reachable (steps : Nat) (text : String) : (Chronicle.ofText steps text).Reachable :=
  .run ⟨.start ⟨[]⟩ .unlimited, []⟩ steps text (.start ⟨[]⟩ .unlimited)

end TreeWalk
