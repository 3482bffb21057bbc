import TreeWalk.Proofs.Closures
import TreeWalk.Proofs.Constructors
import TreeWalk.Proofs.IdleActions

set_option autoImplicit false

namespace TreeWalk

open Enclosure (surrounding inClass)
open Position (Lawful)

namespace Closure

def Lawful (closure : Closure) : Prop :=
  ∃ scopes, Position.Lawful ⟨scopes, .scope (.routine closure.routine)⟩ ∧
    (closure.isConstructor = true → inClass scopes = true ∧ closure.routine.isConstructor = true)

def ReturnsNothing (closure : Closure) : Prop :=
  closure.isConstructor = true → ∀ steps m n value,
    Regime.standard.executeAll steps closure.routine.body m = .ok (.returned value) n → value = .none

end Closure

theorem lawful_returns_nothing (closure : Closure) (lawful : closure.Lawful) : closure.ReturnsNothing := by
  obtain ⟨scopes, rules, standing⟩ := lawful
  intro constructor steps m n value run
  obtain ⟨inside, named⟩ := standing constructor
  have kind :
      surrounding (⟨.routine closure.routine, (Site.routine closure.routine).given⟩ :: scopes) = .constructor := by
    simp [surrounding, Enclosure.routine?, inside, Resolving.methodKind, named]
  have allowed := (walk_departs .standard steps).body _ _ (scope_lawful rfl rules) m n _ run
  exact allowed.2 kind

section Making

mutual
theorem lawful_makes : ∀ (s : Stmt) (scopes : List Enclosure), Lawful ⟨scopes, .statement s⟩ → s.Makes Closure.Lawful
  | .block body, scopes, lawful =>
      lawful_makes_all body _ (scope_lawful rfl (lawful_has lawful (.block scopes body)))
  | .branch condition body alternative, scopes, lawful => by
      have rules := (Position.lawful_else_if scopes condition body alternative).mp
        (lawful_has lawful (.branch scopes condition body alternative))
      exact ⟨lawful_makes_all body _ (scope_lawful rfl rules.2.1), lawful_makes_other alternative scopes rules.2.2⟩
  | .while condition body, scopes, lawful =>
      lawful_makes_all body _ (scope_lawful rfl (lawful_has lawful (.loop scopes condition body)))
  | .function routine, scopes, lawful => by
      have rules := lawful_has lawful (.function scopes routine)
      exact fun env => ⟨_, rules, fun none => nomatch none⟩
  | .class name methods, scopes, lawful => by
      have rules := (Position.lawful_receiver _ name methods).mp ((Position.lawful_class scopes name methods).mp lawful).2
      exact fun method member env => ⟨_, rules method member, fun constructor => ⟨rfl, constructor⟩⟩
  | .expression _, _, _ | .var _ _, _, _ | .return _ _, _, _ => trivial

theorem lawful_makes_other : ∀ (a : Alternative) (scopes : List Enclosure), Lawful ⟨scopes, .alternative a⟩ →
    a.Makes Closure.Lawful
  | .none, _, _ => trivial
  | .elseIf condition body alternative, scopes, lawful => by
      have rules := (Position.lawful_else_if scopes condition body alternative).mp lawful
      exact ⟨lawful_makes_all body _ (scope_lawful rfl rules.2.1), lawful_makes_other alternative scopes rules.2.2⟩
  | .block body, scopes, lawful =>
      lawful_makes_all body _ (scope_lawful rfl (lawful_has lawful (.otherwise scopes body)))

theorem lawful_makes_all : ∀ (body : List Stmt) (scopes : List Enclosure), Stmt.LawfulAll scopes body →
    Stmt.MakesAll Closure.Lawful body
  | [], _, _ => trivial
  | s :: rest, scopes, lawful =>
      have rules := (lawful_all_cons scopes s rest).mp lawful
      ⟨lawful_makes s scopes rules.1, lawful_makes_all rest _ rules.2⟩
end

theorem lawful_inherited : Inherited Closure.Lawful where
  body _ := fun ⟨_, rules, _⟩ => lawful_makes_all _ _ (scope_lawful rfl rules)
  moved _ _ lawful := lawful

end Making

theorem gathers_checked {program : Program} {w : Watched} (steps : Nat) (nodup : (Stmt.idsAll program).Nodup)
    (fresh : ∀ id ∈ Stmt.idsAll program, w.machine.distances[id]? = none) (every : w.Every Closure.Lawful) :
    Ends (do Watch.resolve program; Watch.interpret steps program) w (fun _ t => t.Every Closure.Lawful)
      fun _ t => t.Every Closure.Lawful := by
  have resolved : Ends (Watch.resolve program) w (fun _ t => t.Every Closure.Lawful ∧ program.WellFormed)
      fun _ t => t.Every Closure.Lawful := by
    have decided := decides_program program nodup (.start w.machine.distances) rfl fresh
    have erased := erases_stmts program ⟨.start w.machine.distances, [], []⟩ (.start w.machine.distances) rfl
    unfold Ends Watch.resolve
    rcases agree_cases _ _ _ _ _ erased with ⟨_, _, s, t, left, right, _, _⟩ | ⟨e, _, s, t, left, right, _, _⟩
    · simp only [left]
      refine ⟨⟨every.held, fun event member => ?_⟩, (ends_ok _ _ _ _ _ _ decided right).1⟩
      rcases List.mem_append.mp member with new | old
      · obtain ⟨visit, _, rfl⟩ := List.mem_map.mp new
        trivial
      · exact every.called event old
    · simp only [left]
      exact ⟨every.held, every.called⟩
  apply ends_bind _ _ w _ _ _ resolved
  intro _ t ⟨kept, formed⟩
  have makes := lawful_makes_all program [] ((well_formed_all program).mp formed)
  exact ends_mono _ _ _ _ _ _ (gathers_interpret lawful_inherited steps program makes t kept)
    (fun _ _ ended => ended.1) fun _ _ => id

theorem start_lawful (source : Source) (sink : Sink) : Watched.Every Closure.Lawful ⟨.start source sink, []⟩ :=
  ⟨start_every Closure.Lawful source sink, fun _ none => nomatch none⟩

theorem run_lawful (steps : Nat) (text : String) (c : Chronicle) (sound : c.Sound)
    (every : Watched.Every Closure.Lawful ⟨c.session.machine, c.events⟩) :
    Ends (Chronicle.run steps text) c (fun _ d => Watched.Every Closure.Lawful ⟨d.session.machine, d.events⟩)
      fun _ d => Watched.Every Closure.Lawful ⟨d.session.machine, d.events⟩ := by
  apply ends_bind _ _ c _ _ _
    (ends_mono _ _ _ _ _ _ (on_session_ends _ c _ _ (parse_ends text c.session)) (fun _ _ parsed => parsed) ?_)
  · rintro program d ⟨⟨_, machine, ids, _⟩, events⟩
    rw [← machine, ← events] at every
    have fresh : ∀ id ∈ Stmt.idsAll program, d.session.machine.distances[id]? = none := by
      rw [machine]
      exact fun id member => sound.counted.fresh id (ids.within id member).1
    exact ends_mono _ _ _ _ _ _ (on_machine_ends _ d _ _ (gathers_checked steps ids.nodup fresh every))
      (fun _ _ ended => ended.1) fun _ _ ended => ended.1
  · rintro halt d ⟨⟨same, _⟩, events⟩
    rwa [same, events]

theorem reachable_lawful (c : Chronicle) (reachable : c.Reachable) :
    Watched.Every Closure.Lawful ⟨c.session.machine, c.events⟩ := by
  induction reachable with
  | start source sink => exact start_lawful source sink
  | run c steps source before ih =>
      rw [← end_shows]
      exact ends_state (run_lawful steps source c (reachable_sound c before) ih) (fun _ _ => id) fun _ _ => id
  | parse c source before ih =>
      have kept : (endState (Session.parse source c.session)).machine = c.session.machine :=
        ends_state (parse_ends source c.session) (fun _ _ parsed => parsed.2.1) fun _ _ refused => by rw [refused.1]
      exact kept.symm ▸ ih
  | streams c source sink before ih => exact ⟨ih.held, ih.called⟩

def Regime.inOrder (regime : Regime) (steps : Nat) (program : Program) : Eval Unit :=
  program.forM fun s => discard (regime.execute steps s)

theorem execute_program_in_order (regime : Regime) (steps : Nat) : ∀ program : Program,
    (∀ s ∈ program, Departs .topLevel (regime.execute steps s)) →
      regime.executeProgram steps program = regime.inOrder steps program
  | [], _ => rfl
  | s :: rest, departs => by
      have later := execute_program_in_order regime steps rest fun t member => departs t (List.mem_cons_of_mem s member)
      have split : regime.inOrder steps (s :: rest) =
          (do discard (regime.execute steps s); regime.inOrder steps rest) := rfl
      rw [split, ← later]
      funext m
      cases run : regime.execute steps s m with
      | ok flow n =>
          obtain rfl := Flow.allowed_top (departs s List.mem_cons_self m n flow run)
          have discarded : discard (regime.execute steps s) m = .ok () n := bind_ok _ run
          rw [bind_ok _ discarded]
          exact bind_ok _ run
      | error halt n =>
          have discarded : discard (regime.execute steps s) m = .error halt n := bind_error _ run
          rw [bind_error _ discarded]
          exact bind_error _ run

structure Chronicle.ReturnsKept (c : Chronicle) : Prop where
  -- No return leaves a statement of the top level, and each of them is executed unless one in front of it fails.
  onward : ∀ text program s, Session.parse text c.session = .ok program s → program.Accepted s.machine.distances →
    (∀ statement ∈ program, ∀ steps m n flow,
      Regime.standard.execute steps statement m = .ok flow n → flow = .normal) ∧
    ∀ steps, Regime.standard.interpret steps program = do
      Regime.standard.inOrder steps program
      Eval.flush
  -- Of all closures in reach, and of all that were ever called.
  held : c.session.machine.store.Every Closure.ReturnsNothing
  called : ∀ closure machine, .entered closure machine ∈ c.events → closure.ReturnsNothing

theorem returns_kept (c : Chronicle) (reachable : c.Reachable) : c.ReturnsKept := by
  have every := reachable_lawful c reachable
  refine ⟨fun text program s read accepted => ?_, Store.every_mono lawful_returns_nothing every.held,
    fun closure machine member => lawful_returns_nothing closure (every.called _ member)⟩
  obtain ⟨_, machine, ids, _⟩ := ends_ok _ _ _ _ _ _ (parse_ends text c.session) read
  rw [machine] at accepted
  have fresh : ∀ id ∈ Stmt.idsAll program, c.session.machine.distances[id]? = none := fun id member =>
    (reachable_sound c reachable).counted.fresh id (ids.within id member).1
  have departs := fun steps => departs_program .standard steps ((accepted_iff ids.nodup fresh).mp accepted)
  refine ⟨fun statement member steps m n flow run => ?_, fun steps => ?_⟩
  · exact Flow.allowed_top (departs steps statement member m n flow run)
  · unfold Regime.interpret
    rw [execute_program_in_order .standard steps program (departs steps)]

def earlyConstructor : String :=
  "class A \x7b constructor() \x7b func one() \x7b return 1; \x7d while (one() == 1) \x7b if (true) \x7b return; " ++
    "\x7d \x7d \x7d \x7d var a = A();"

theorem returns_kept_early : (Chronicle.ofText 30 earlyConstructor).Reachable ∧
    (Chronicle.ofText 30 earlyConstructor).events.any Event.isConstruction = true ∧
    (Chronicle.ofText 30 earlyConstructor).ReturnsKept :=
  ⟨of_text_reachable _ _, by decide +kernel, returns_kept _ (of_text_reachable _ _)⟩

end TreeWalk
