import TreeWalk.Proofs.Counterparts
import TreeWalk.Proofs.Widened

set_option autoImplicit false

namespace TreeWalk

open Eval Overlay

-- The steps were enough for the run to come to its end.
def Observation.isOver (seen : Observation) : Bool :=
  match seen.ending with
  | .error none => false
  | _ => true

namespace Session

-- In the record of the run, a name is looked up among the variables of a round that is over, in one of the loops
-- that are picked.
def LooksBack (s : Session) (picked : List Stmt → Bool) (steps : Nat) (text : String) : Prop :=
  Event.anyLate picked (endState (Chronicle.run steps text ⟨s, []⟩)).events = true

def ComesTo (s : Session) (steps : Nat) (text : String) (seen : Observation) : Prop :=
  observe (run steps text s) = seen ∧ seen.isOver = true

end Session

theorem not_over {seen : Observation} (spent : seen.ending = .error none) : seen.isOver = false := by
  simp only [Observation.isOver, spent]

theorem accepted_iff {program : Program} {distances : Distances} (nodup : (Stmt.idsAll program).Nodup)
    (fresh : ∀ id ∈ Stmt.idsAll program, distances[id]? = none) : program.Accepted distances ↔ program.WellFormed := by
  have decided := decides_program program nodup (.start distances) rfl fresh
  unfold Program.Accepted Program.resolve EStateM.run
  cases run : Stmt.resolveAll program (.start distances) with
  | ok a s => exact ⟨fun _ => (ends_ok _ _ _ _ _ _ decided run).1, fun _ => rfl⟩
  | error e s => exact ⟨nofun, fun formed => ((ends_error _ _ _ _ _ _ decided run).1 formed).elim⟩

section Sessions

variable {c : Chronicle} {steps steps' : Nat} {text text' : String} {program program' : Program} {s s' : Session}
  {picked : List Stmt → Bool}

theorem observe_error {p : Eval Unit} {halt : Halt} {m : Machine} (run : p s.machine = .error halt m) :
    observe (Session.onMachine p s) = ⟨.error halt.report?, m.sink, m.source⟩ := by
  simp only [Session.onMachine, run, observe]

theorem chronicle_run_read (read : Session.parse text c.session = .ok program s) :
    Chronicle.run steps text ⟨c.session, []⟩ =
      Chronicle.onMachine (do Watch.resolve program; Watch.interpret steps program) ⟨s, []⟩ := by
  apply bind_ok
  simp only [Chronicle.onSession, read]

theorem end_on_machine {α : Type} (watch : Watch α) (c : Chronicle) :
    (endState (Chronicle.onMachine watch c)).events = (endState (watch ⟨c.session.machine, c.events⟩)).events := by
  unfold Chronicle.onMachine
  cases watch ⟨c.session.machine, c.events⟩ <;> rfl

theorem runs_tandem (reachable : c.Reachable) (read : Session.parse text c.session = .ok program s)
    (read' : Session.parse text' c.session = .ok program' s')
    (added : Stmt.AlignedAll (fun _ _ _ => True) picked [] program program')
    (accepted : program.Accepted c.session.machine.distances) (accepted' : program'.Accepted c.session.machine.distances)
    (wide : Bool) (paced : Paced wide steps steps') (forward : ¬ c.session.LooksBack picked steps' text') :
    observe (Session.run steps' text' c.session) = observe (Session.run steps text c.session) ∨
      (wide = true ∧ (observe (Session.run steps text c.session)).ending = .error none) ∨
      (wide = false ∧ (observe (Session.run steps' text' c.session)).ending = .error none) := by
  have sound := reachable_sound c reachable
  obtain ⟨later, machine, ids, proper⟩ := ends_ok _ _ _ _ _ _ (parse_ends text c.session) read
  obtain ⟨later', machine', ids', proper'⟩ := ends_ok _ _ _ _ _ _ (parse_ends text' c.session) read'
  have left : Session.run steps text c.session = Session.onMachine (program.run steps) s := bind_ok _ read
  have right : Session.run steps' text' c.session = Session.onMachine (program'.run steps') s' := bind_ok _ read'
  have resting : Resting c.session.nextId ⟨c.session.machine, c.events⟩ := ⟨sound.record, sound.counted, sound.globals⟩
  rw [left, right]
  rcases checked_tandem resting resting (beside_itself resting picked wide []) later later' ids ids' proper proper'
      accepted accepted' added wide paced with ⟨k, w, _, agree⟩ | late | spent
  · have shown := agree_shown (mirrors_run steps' program') ⟨c.session.machine, []⟩ agree
    have beside : Agree (fun s t => ∃ events, k.Beside w Machine.globals Machine.globals s.machine ⟨t.machine, events⟩)
        Halt.ReportsAs Eq (Session.onMachine (program.run steps) s) (Session.onMachine (program'.run steps') s') := by
      apply agree_on_machine (by rw [machine, machine']; exact shown)
      exact fun _ _ => id
    exact .inl (agree_observe beside fun _ _ ⟨_, state⟩ => ⟨state.like.sink, state.like.source⟩).1
  · refine (forward ?_).elim
    unfold Session.LooksBack
    rw [chronicle_run_read read', end_on_machine, machine']
    exact late
  · have spent := spent_shown (mirrors_run steps' program') ⟨c.session.machine, []⟩ spent
    cases wide with
    | true =>
        obtain ⟨_, run⟩ := spent
        rw [← machine] at run
        exact .inr (.inl ⟨rfl, by rw [observe_error run]; rfl⟩)
    | false =>
        obtain ⟨_, run⟩ := spent
        rw [← machine'] at run
        exact .inr (.inr ⟨rfl, by rw [observe_error run]; rfl⟩)

-- Loops of the second text have an idle action more than in the first. It is accepted like the first, and both come to
-- the same end, for all runs of it in which no name is looked up among the variables of a round that is over.
theorem idle_actions_unnoticed (c : Chronicle) (reachable : c.Reachable) (picked : List Stmt → Bool) (text text' : String)
    (program program' : Program) (s s' : Session) (read : Session.parse text c.session = .ok program s)
    (read' : Session.parse text' c.session = .ok program' s') (added : Stmt.idlesAll picked program program' = true)
    (accepted : program.Accepted c.session.machine.distances) :
    program'.Accepted c.session.machine.distances ∧
      (∀ steps steps' seen, 3 * steps ≤ steps' → ¬ c.session.LooksBack picked steps' text' →
        c.session.ComesTo steps text seen → c.session.ComesTo steps' text' seen) ∧
      ∀ steps steps' seen, steps' ≤ steps → ¬ c.session.LooksBack picked steps' text' →
        c.session.ComesTo steps' text' seen → c.session.ComesTo steps text seen := by
  have counted := (reachable_sound c reachable).counted
  have aligned := idles_aligned_all [] added
  have fresh : ∀ {text : String} {program : Program} {s : Session}, Session.parse text c.session = .ok program s →
      (program.Accepted c.session.machine.distances ↔ program.WellFormed) := by
    intro text program s read
    have parsed := parse_ends text c.session
    unfold Ends at parsed
    rw [read] at parsed
    obtain ⟨_, _, ids, _⟩ := parsed
    exact accepted_iff ids.nodup fun id member => counted.fresh id (ids.within id member).1
  have accepted' := (fresh read').mpr ((aligned_well_formed aligned).mp ((fresh read).mp accepted))
  refine ⟨accepted', ?_, ?_⟩
  · rintro steps steps' _ paced forward ⟨rfl, whole⟩
    rcases runs_tandem reachable read read' aligned accepted accepted' true paced forward with same | ⟨_, spent⟩ | ⟨no, _⟩
    · exact ⟨same, whole⟩
    · rw [not_over spent] at whole
      cases whole
    · cases no
  · rintro steps steps' _ paced forward ⟨rfl, whole⟩
    rcases runs_tandem reachable read read' aligned accepted accepted' false paced forward with same | ⟨no, _⟩ | ⟨_, spent⟩
    · exact ⟨same.symm, same ▸ whole⟩
    · cases no
    · rw [not_over spent] at whole
      cases whole

def endsIdle (body : List Stmt) : Bool :=
  (Stmt.unidle? body).isSome

def busyLoop (action : String) : String :=
  "var a = none; var go = true; for (; go;" ++ action ++ ") \x7b var x = a; func g() \x7b return x; \x7d " ++
    "class A \x7b m() \x7b return go; \x7d \x7d a = A(); if (g() != none) \x7b go = false; \x7d \x7d Print(a.m());"

theorem idle_actions_unnoticed_busy : ∃ program program' s s' seen,
    Session.parse (busyLoop "") (Chronicle.ofText 9 "").session = .ok program s ∧
    Session.parse (busyLoop " none") (Chronicle.ofText 9 "").session = .ok program' s' ∧
    Stmt.idlesAll endsIdle program program' = true ∧
    ¬ (Chronicle.ofText 9 "").session.LooksBack endsIdle 90 (busyLoop " none") ∧
    (Chronicle.ofText 9 "").session.ComesTo 30 (busyLoop "") seen ∧
    program'.Accepted (Chronicle.ofText 9 "").session.machine.distances ∧
    (Chronicle.ofText 9 "").session.ComesTo 90 (busyLoop " none") seen := by
  have checked : (match Session.parse (busyLoop "") (Chronicle.ofText 9 "").session,
      Session.parse (busyLoop " none") (Chronicle.ofText 9 "").session with
    | .ok program _, .ok program' _ => decide (Stmt.idlesAll endsIdle program program' = true ∧
        Event.anyLate endsIdle
          (endState (Chronicle.run 90 (busyLoop " none") ⟨(Chronicle.ofText 9 "").session, []⟩)).events = false ∧
        (observe (Session.run 30 (busyLoop "") (Chronicle.ofText 9 "").session)).isOver = true ∧
        program.Accepted (Chronicle.ofText 9 "").session.machine.distances)
    | _, _ => false) = true := by decide +kernel
  revert checked
  cases read : Session.parse (busyLoop "") (Chronicle.ofText 9 "").session with
  | error halt s => exact fun none => nomatch none
  | ok program s =>
      cases read' : Session.parse (busyLoop " none") (Chronicle.ofText 9 "").session with
      | error halt s => exact fun none => nomatch none
      | ok program' s' =>
          intro checked
          obtain ⟨added, late, whole, accepted⟩ := of_decide_eq_true checked
          have forward : ¬ (Chronicle.ofText 9 "").session.LooksBack endsIdle 90 (busyLoop " none") := by
            unfold Session.LooksBack
            rw [late]
            exact Bool.false_ne_true
          obtain ⟨accepted', same, _⟩ := idle_actions_unnoticed (.ofText 9 "") (of_text_reachable 9 "") endsIdle _ _ program
            program' s s' read read' added accepted
          exact ⟨program, program', s, s', _, rfl, rfl, added, forward, ⟨rfl, whole⟩, accepted',
            same 30 90 _ (Nat.le_refl _) forward ⟨rfl, whole⟩⟩

def leftLoop (action : String) : String :=
  "var f = none; for (; f == none;" ++ action ++ ") \x7b var x = true; func g() \x7b return x; \x7d f = g; \x7d Print(f());"

theorem idle_actions_not_always_unnoticed : ¬ ∀ (c : Chronicle) (picked : List Stmt → Bool) (text text' : String)
    (program program' : Program) (s s' : Session), c.Reachable → Session.parse text c.session = .ok program s →
    Session.parse text' c.session = .ok program' s' → Stmt.idlesAll picked program program' = true →
    program.Accepted c.session.machine.distances → ∀ steps steps' seen, 3 * steps ≤ steps' →
      c.session.ComesTo steps text seen → c.session.ComesTo steps' text' seen := by
  intro always
  have checked : (match Session.parse (leftLoop "") (Chronicle.ofText 9 "").session,
      Session.parse (leftLoop " none") (Chronicle.ofText 9 "").session with
    | .ok program _, .ok program' _ => decide (Stmt.idlesAll endsIdle program program' = true ∧
        program.Accepted (Chronicle.ofText 9 "").session.machine.distances ∧
        (observe (Session.run 20 (leftLoop "") (Chronicle.ofText 9 "").session)).isOver = true ∧
        (observe (Session.run 20 (leftLoop "") (Chronicle.ofText 9 "").session)).ending.isOk = false ∧
        (observe (Session.run 60 (leftLoop " none") (Chronicle.ofText 9 "").session)).ending.isOk = true)
    | _, _ => false) = true := by decide +kernel
  revert checked
  cases read : Session.parse (leftLoop "") (Chronicle.ofText 9 "").session with
  | error halt s => exact fun none => nomatch none
  | ok program s =>
      cases read' : Session.parse (leftLoop " none") (Chronicle.ofText 9 "").session with
      | error halt s => exact fun none => nomatch none
      | ok program' s' =>
          intro checked
          obtain ⟨added, accepted, whole, failed, fine⟩ := of_decide_eq_true checked
          obtain ⟨same, _⟩ := always (.ofText 9 "") endsIdle _ _ program program' s s' (of_text_reachable 9 "") read read' added
            accepted 20 60 _ (Nat.le_refl _) ⟨rfl, whole⟩
          rw [same, failed] at fine
          cases fine

end Sessions

end TreeWalk
