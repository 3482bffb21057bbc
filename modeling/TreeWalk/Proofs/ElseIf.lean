import TreeWalk.Proofs.Answers
import TreeWalk.Proofs.Unchained

set_option autoImplicit false

namespace TreeWalk

open Overlay

section Outlines

structure Closure.Relinked (closure other : Closure) : Prop where
  code : other.routine.outline = closure.routine.outline
  constructor : other.isConstructor = closure.isConstructor

theorem outline_name (routine : Routine) : routine.outline.name = routine.name := by
  cases routine
  rfl

theorem outline_parameters (routine : Routine) : routine.outline.parameters = routine.parameters := by
  cases routine
  exact names_rename_ids _

theorem relinked_head (closure other : Closure) (relinked : closure.Relinked other) : closure.SameHead other where
  name := by rw [← outline_name, relinked.code, outline_name]
  parameters := by rw [← outline_parameters, relinked.code, outline_parameters]
  constructor := relinked.constructor

def Likeness.relinked : Likeness where
  function := Closure.Relinked
  method := Closure.Relinked
  function_head := relinked_head
  method_head := relinked_head

theorem relinked_join (closure other common : Closure) (left : closure.Relinked common) (right : other.Relinked common) :
    closure.Relinked other :=
  ⟨right.code.symm.trans left.code, right.constructor.symm.trans left.constructor⟩

theorem paired_join {α β : Type} {related : α → β → Prop} {joined : α → α → Prop}
    (join : ∀ a a' b, related a b → related a' b → joined a a') {b b' : Bindings α} {common : Bindings β}
    (left : b.Paired related common) (right : b'.Paired related common) : b.Paired joined b' := by
  intro name
  have here := left name
  have there := right name
  revert here there
  generalize b.find? name = x
  generalize b'.find? name = y
  generalize common.find? name = z
  rintro (⟨first⟩ | _) there
  · cases there with
    | some second => exact .some (join _ _ _ first second)
  · cases there with
    | none => exact .none

theorem class_join {c other common : ClassValue} (left : c.Like .relinked common) (right : other.Like .relinked common) :
    c.Like .relinked other where
  identity := right.identity.symm.trans left.identity
  name := right.name.symm.trans left.name
  methods := paired_join relinked_join left.methods right.methods

theorem value_join (value other common : Value) (left : value.Like .relinked common) (right : other.Like .relinked common) :
    value.Like .relinked other := by
  cases left with
  | plain value plain =>
      cases right with
      | plain _ _ => exact .plain value plain
      | _ => exact plain.elim
  | function identity closure common same =>
      cases right with
      | plain _ plain => exact plain.elim
      | function _ other _ also => exact .function identity closure other (relinked_join closure other common same also)
  | «class» c common same =>
      cases right with
      | plain _ plain => exact plain.elim
      | «class» other _ also => exact .class c other (class_join same also)
  | object object common same =>
      cases right with
      | plain _ plain => exact plain.elim
      | object other _ also =>
          exact .object object other
            ⟨also.identity.symm.trans same.identity, class_join same.ofClass also.ofClass⟩

end Outlines

-- What two runs have come to: what they wrote and left to be read, the globals, and the fields of all instances.
structure Machine.SameOutcome (m n : Machine) : Prop where
  sink : n.sink = m.sink
  source : n.source = m.source
  globals : (m.store.layer 0).Paired (Value.Like .relinked) (n.store.layer 0)
  fields : ∀ object, (m.store.fields object).Paired (Value.Like .relinked) (n.store.fields object)

theorem outcome_join {m n common : Machine} (left : m.SameOutcome common) (right : n.SameOutcome common) :
    m.SameOutcome n where
  sink := right.sink.symm.trans left.sink
  source := right.source.symm.trans left.source
  globals := paired_join value_join left.globals right.globals
  fields object := paired_join value_join (left.fields object) (right.fields object)

abbrev SameEnd : EStateM.Result Halt Machine Unit → EStateM.Result Halt Machine Unit → Prop :=
  Agree Machine.SameOutcome Halt.ReportsAs Eq

theorem end_join {left right common : EStateM.Result Halt Machine Unit} (first : SameEnd left common)
    (second : SameEnd right common) : SameEnd left right := by
  cases first with
  | ok a _ m _ _ state =>
      cases second with
      | ok b _ n _ _ also => exact .ok a b m n rfl (outcome_join state also)
  | error halt _ m _ failure state =>
      cases second with
      | error other _ n _ also here => exact .error halt other m n (also.symm.trans failure) (outcome_join state here)

section Runs

variable {older : Watched} {first next nextId : Nat} {program program' : Program} {steps steps' : Nat}

theorem likeness_relinked (here there : Distances) (w : Overlay) :
    (w.likeness here there fun _ => false).Within .relinked where
  function _ _ := fun ⟨_, laid, _⟩ => ⟨aligned_unchained_routine laid.routine, laid.constructor⟩
  method _ _ := fun ⟨_, laid⟩ => ⟨aligned_unchained_routine laid.routine, laid.constructor⟩

theorem counterpart_outcome {m n : Machine} (counterpart : m.Counterpart nextId n) : m.SameOutcome n := by
  obtain ⟨_, _, _, _, ⟨here, there, _, _⟩, w, rfl, beside⟩ := counterpart
  have within := like_within (likeness_relinked here there w)
  exact
    { sink := beside.like.sink
      source := beside.like.source
      globals := Bindings.paired_mono within (beside.like.store.layers 0 0 (ground_overlay w))
      fields := fun object => Bindings.paired_mono within (beside.like.store.fields object) }

theorem unchained_accepted {distances : Distances} (nodup : (Stmt.idsAll program).Nodup)
    (fresh : ∀ id ∈ Stmt.idsAll program, distances[id]? = none) :
    Program.Accepted (Stmt.unchainedAll program) distances ↔ program.Accepted distances := by
  have same := unchained_ids_all program
  rw [accepted_iff nodup fresh, accepted_iff (same.symm ▸ nodup) (same.symm ▸ fresh)]
  have aligned : Stmt.AlignedAll (fun _ _ _ => True) (fun _ => false) [] program (Stmt.unchainedAll program) :=
    stmts_unchain [] program
  exact (aligned_well_formed aligned).symm

theorem unchained_counterpart (resting : Resting first older) (later : first ≤ next)
    (ids : Spread first next (Stmt.idsAll program)) (proper : Stmt.ProperAll program)
    (accepted : program.Accepted older.machine.distances) (wide : Bool) (paced : Paced wide steps steps') :
    Agree (Machine.Counterpart next) Halt.ReportsAs Eq (program.run steps older.machine)
        (Program.run steps' (Stmt.unchainedAll program) older.machine) ∨
      Spent (program.run steps older.machine) (Program.run steps' (Stmt.unchainedAll program) older.machine) wide := by
  have ids' : Spread first next (Stmt.idsAll (Stmt.unchainedAll program)) := (unchained_ids_all program).symm ▸ ids
  have accepted' := (unchained_accepted ids.nodup fun id member =>
    resting.counted.fresh id (ids.within id member).1).mpr accepted
  exact run_counterpart (counterpart_itself resting) later ids ids' proper ((unchained_proper_all program).mpr proper) accepted
    accepted' (stmts_unchain [] program) wide paced

def ranOut : EStateM.Result Halt Machine Unit → Bool
  | .error .exhausted _ => true
  | _ => false

theorem end_ran_out {left right : EStateM.Result Halt Machine Unit} (same : SameEnd left right)
    (whole : ranOut left = false) : ¬ ∃ n, right = .error .exhausted n := by
  rintro ⟨n, rfl⟩
  cases same with
  | error halt _ m _ failure _ =>
      cases halt with
      | exhausted => cases whole
      | failed error => cases failure

theorem relinked_counterparts (resting : Resting first older) (later : first ≤ next)
    (ids : Spread first next (Stmt.idsAll program)) (proper : Stmt.ProperAll program)
    (accepted : program.Accepted older.machine.distances) (accepted' : program'.Accepted older.machine.distances)
    (same : Stmt.unchainedAll program' = Stmt.unchainedAll program)
    (whole : ranOut (program.run steps older.machine) = false) :
    ∃ common : EStateM.Result Halt Machine Unit,
      Agree (Machine.Counterpart next) Halt.ReportsAs Eq (program.run steps older.machine) common ∧
        Agree (Machine.Counterpart next) Halt.ReportsAs Eq (program'.run (3 * steps) older.machine) common := by
  have ids' : Spread first next (Stmt.idsAll program') := by
    rwa [← unchained_ids_all, same, unchained_ids_all]
  have proper' : Stmt.ProperAll program' := by
    rwa [← unchained_proper_all, same, unchained_proper_all]
  have wide : Paced true steps (3 * steps) := Nat.le_refl _
  have narrow : Paced false (3 * steps) (3 * steps) := Nat.le_refl _
  rcases unchained_counterpart resting later ids proper accepted true wide with left | spent
  · rcases unchained_counterpart resting later ids' proper' accepted' false narrow with right | spent
    · rw [same] at right
      exact ⟨_, left, right⟩
    · rw [same] at spent
      exact (end_ran_out (agree_ends left counterpart_outcome) whole spent).elim
  · obtain ⟨_, run⟩ := spent
    rw [run] at whole
    cases whole

end Runs

-- In place of the first program the second comes to the same end, and what is asked next is answered in the same way.
structure Session.Replaces (s : Session) (program program' : Program) : Prop where
  ends : ∀ steps, ranOut (program.run steps s.machine) = false →
    SameEnd (program.run steps s.machine) (program'.run (3 * steps) s.machine)
  answers : ∀ steps requests, ranOut (program.run steps s.machine) = false →
    (∀ seen ∈ Session.observations requests (endState (Session.onMachine (program.run steps) s)), seen.isOver = true) →
      Session.observations (requests.map Request.longer) (endState (Session.onMachine (program'.run (3 * steps)) s)) =
        Session.observations requests (endState (Session.onMachine (program.run steps) s))

section Sessions

variable {s : Session} {program program' : Program}

theorem relinked_replaces
    (common : ∀ steps, ranOut (program.run steps s.machine) = false → ∃ common : EStateM.Result Halt Machine Unit,
      Agree (Machine.Counterpart s.nextId) Halt.ReportsAs Eq (program.run steps s.machine) common ∧
        Agree (Machine.Counterpart s.nextId) Halt.ReportsAs Eq (program'.run (3 * steps) s.machine) common) :
    s.Replaces program program' where
  ends steps whole := by
    obtain ⟨_, left, right⟩ := common steps whole
    exact end_join (agree_ends left counterpart_outcome) (agree_ends right counterpart_outcome)
  answers steps requests whole finished := by
    obtain ⟨result, left, right⟩ := common steps whole
    rw [on_machine_state] at finished ⊢
    rw [on_machine_state]
    have first : Session.Counterpart ⟨endState (program.run steps s.machine), s.nextId⟩ ⟨endState result, s.nextId⟩ :=
      ⟨rfl, agree_end_states left⟩
    have second : Session.Counterpart ⟨endState (program'.run (3 * steps) s.machine), s.nextId⟩
        ⟨endState result, s.nextId⟩ := ⟨rfl, agree_end_states right⟩
    have paced : List.Forall₂ (Request.Paced true) requests (requests.map Request.longer) :=
      List.forall₂_map_right_iff.mpr (List.forall₂_same.mpr fun request _ => longer_paced request)
    have here := observations_counterpart paced first finished
    have there := observations_counterpart (List.forall₂_same.mpr fun request _ => itself_paced request) second
      (here ▸ finished)
    exact there.symm.trans here

end Sessions

theorem else_if_nests (c : Chronicle) (reachable : c.Reachable) (text : String) (program program' : Program) (s : Session)
    (read : Session.parse text c.session = .ok program s)
    (relinked : Stmt.unchainedAll program' = Stmt.unchainedAll program) :
    (program'.Accepted s.machine.distances ↔ program.Accepted s.machine.distances) ∧
      (program.Accepted s.machine.distances → s.Replaces program program' ∧ s.Replaces program' program) := by
  obtain ⟨later, machine, ids, proper⟩ := ends_ok _ _ _ _ _ _ (parse_ends text c.session) read
  have sound := reachable_sound c reachable
  have resting : Resting c.session.nextId ⟨s.machine, c.events⟩ := by
    rw [machine]
    exact ⟨sound.record, sound.counted, sound.globals⟩
  have ids' : Spread c.session.nextId s.nextId (Stmt.idsAll program') := by
    rwa [← unchained_ids_all, relinked, unchained_ids_all]
  have proper' : Stmt.ProperAll program' := by
    rwa [← unchained_proper_all, relinked, unchained_proper_all]
  have fresh : ∀ id, c.session.nextId ≤ id ∧ id < s.nextId → s.machine.distances[id]? = none :=
    fun id within => resting.counted.fresh id within.1
  have verdict : program'.Accepted s.machine.distances ↔ program.Accepted s.machine.distances := by
    rw [← unchained_accepted ids'.nodup fun id member => fresh id (ids'.within id member), relinked]
    exact unchained_accepted ids.nodup fun id member => fresh id (ids.within id member)
  refine ⟨verdict, fun accepted => ⟨relinked_replaces fun steps whole => ?_, relinked_replaces fun steps whole => ?_⟩⟩
  · exact relinked_counterparts resting later ids proper accepted (verdict.mpr accepted) relinked whole
  · exact relinked_counterparts resting later ids' proper' (verdict.mpr accepted) accepted relinked.symm whole

theorem completed_accepted {program : Program} {steps : Nat} {m n : Machine} (run : program.run steps m = .ok () n) :
    program.Accepted m.distances := by
  by_contra refusal
  obtain ⟨_, _, _, refused⟩ := refused_resolve refusal
  rw [show program.run steps m = _ from bind_error _ refused] at run
  cases run

def chainOfLinks : String :=
  "var f = none; var n = 2; if (n == 1) \x7b\x7d else if (n == 2) \x7b var x = 7; func g() \x7b x = x + n; " ++
    "return x; \x7d f = g; \x7d else if (n == 3) \x7b\x7d else \x7b f = n; \x7d Print(f());"

def callAgain : Request :=
  .run 20 "Print(f());"

theorem else_if_nests_links : ∃ program s,
    (Chronicle.ofText 9 "").Reachable ∧ Session.parse chainOfLinks (Chronicle.ofText 9 "").session = .ok program s ∧
    Stmt.unchainedAll (Stmt.unchainedAll program) = Stmt.unchainedAll program ∧
    program.Accepted s.machine.distances ∧ ranOut (program.run 20 s.machine) = false ∧
    Program.Accepted (Stmt.unchainedAll program) s.machine.distances ∧
    SameEnd (program.run 20 s.machine) (Program.run 60 (Stmt.unchainedAll program) s.machine) ∧
    (Session.observations [callAgain] (endState (Session.onMachine (program.run 20) s))).map
      (fun seen => (seen.isOver, seen.sink.written)) = [(true, "9\n11\n".toUTF8)] ∧
    Session.observations [callAgain.longer] (endState (Session.onMachine (Program.run 60 (Stmt.unchainedAll program)) s)) =
      Session.observations [callAgain] (endState (Session.onMachine (program.run 20) s)) := by
  have checked : (observe (Session.run 20 chainOfLinks (Chronicle.ofText 9 "").session)).ending.isOk = true ∧
      (Session.observations [callAgain] (endState (Session.run 20 chainOfLinks (Chronicle.ofText 9 "").session))).map
        (fun seen => (seen.isOver, seen.sink.written)) = [(true, "9\n11\n".toUTF8)] := by
    decide +kernel
  obtain ⟨fine, seen⟩ := checked
  cases read : Session.parse chainOfLinks (Chronicle.ofText 9 "").session with
  | error halt s =>
      rw [show Session.run 20 chainOfLinks _ = .error halt s from bind_error _ read] at fine
      cases fine
  | ok program s =>
      have same : Session.run 20 chainOfLinks (Chronicle.ofText 9 "").session = Session.onMachine (program.run 20) s :=
        bind_ok _ read
      rw [same] at fine seen
      cases run : program.run 20 s.machine with
      | error halt m =>
          rw [observe_error run] at fine
          cases fine
      | ok a m =>
          have accepted := completed_accepted run
          have whole : ranOut (program.run 20 s.machine) = false := by rw [run]; rfl
          have finished : ∀ o ∈ Session.observations [callAgain] (endState (Session.onMachine (program.run 20) s)),
              o.isOver = true := by
            simp only [Session.observations, List.map_cons, List.map_nil, List.cons.injEq, Prod.mk.injEq] at seen
            simpa [Session.observations] using seen.1.1
          obtain ⟨verdict, same⟩ := else_if_nests (.ofText 9 "") (of_text_reachable 9 "") chainOfLinks program
            (Stmt.unchainedAll program) s read (unchained_again_all program)
          have replaces := (same accepted).1
          exact ⟨program, s, of_text_reachable 9 "", rfl, unchained_again_all program, accepted, whole,
            verdict.mpr accepted, replaces.ends 20 whole, seen, replaces.answers 20 [callAgain] whole finished⟩

end TreeWalk
