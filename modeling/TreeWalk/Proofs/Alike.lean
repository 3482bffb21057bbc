import TreeWalk.Proofs.Programs
import TreeWalk.Proofs.Reached
import TreeWalk.Proofs.Rechecked
import TreeWalk.Proofs.Twins

set_option autoImplicit false

namespace TreeWalk

open Renaming

structure Machine.Alike (ids : Nat → Nat) (m n : Machine) : Prop where
  store : n.store = m.store.rename ids
  env : n.env = m.env
  source : n.source = m.source
  sink : n.sink = m.sink
  found : ∀ id, n.distances[ids id]? = m.distances[id]?

structure Session.Alike (first distance : Nat) (s t : Session) : Prop where
  machine : s.machine.Alike (moved first distance) t.machine
  begun : first ≤ s.nextId
  next : t.nextId = s.nextId + distance

def Halt.ReportsAs (halt other : Halt) : Prop :=
  other.report? = halt.report?

section Machines

variable {ids : Nat → Nat} {m n : Machine}

theorem alike_twin (alike : m.Alike ids n) :
    Pairing.Twin ⟨ids, m.distances, n.distances, alike.found, m.sink.refusesFlush⟩ m n :=
  ⟨alike.store, alike.env, alike.source, alike.sink, rfl, rfl, rfl⟩

theorem twin_alike {pair : Pairing} (twin : pair.Twin m n) : m.Alike pair.ids n :=
  ⟨twin.store, twin.env, twin.source, twin.sink, by rw [twin.here, twin.there]; exact pair.found⟩

theorem interpret_alike (steps : Nat) (program : Program) :
    Matched (Machine.Alike ids) Halt.ReportsAs Eq (Regime.standard.interpret steps program)
      (Regime.standard.interpret steps (Stmt.renameAll (.ofIds ids) program)) := by
  intro m n alike
  rcases agree_cases _ _ _ _ _ (repeats_interpret steps program m n (alike_twin alike)) with
    ⟨_, _, s, t, left, right, _, twin⟩ | ⟨halt, other, s, t, left, right, same, twin⟩
  · rw [left, right]
    exact .ok _ _ _ _ rfl (twin_alike twin)
  · rw [left, right]
    exact .error _ _ _ _ same (twin_alike twin)

theorem resolve_alike (program : Program) (injective : Function.Injective ids) (alike : m.Alike ids n)
    (nodup : (Stmt.idsAll program).Nodup) (fresh : ∀ id ∈ Stmt.idsAll program, m.distances[id]? = none) :
    Agree (Machine.Alike ids) Halt.ReportsAs Eq (Session.resolve program m)
      (Session.resolve (Stmt.renameAll (.ofIds ids) program) n) := by
  have balanced := balances_stmts program nodup (.start m.distances) fresh
  unfold Session.resolve Program.resolve EStateM.run
  rcases agree_cases _ _ _ _ _ (rechecks_stmts (r := .ofIds ids) injective program (.start m.distances)
      (.start n.distances) ⟨rfl, rfl, rfl, alike.found⟩) with
    ⟨_, _, s, t, left, right, _, state⟩ | ⟨e, f, s, t, left, right, same, state⟩
  · simp only [left, right]
    exact .ok _ _ _ _ rfl ⟨alike.store, alike.env, alike.source, alike.sink, state.distances⟩
  · have refused := ends_error _ _ _ _ _ _ balanced left
    obtain rfl := same refused.opened refused.fresh
    simp only [left, right]
    exact .error _ _ _ _ rfl ⟨alike.store, alike.env, alike.source, alike.sink, state.distances⟩

theorem checked_run_alike (steps : Nat) (program : Program) (injective : Function.Injective ids)
    (alike : m.Alike ids n) (nodup : (Stmt.idsAll program).Nodup)
    (fresh : ∀ id ∈ Stmt.idsAll program, m.distances[id]? = none) :
    Agree (Machine.Alike ids) Halt.ReportsAs Eq
      ((do Session.resolve program; Regime.standard.interpret steps program) m)
      ((do
        Session.resolve (Stmt.renameAll (.ofIds ids) program)
        Regime.standard.interpret steps (Stmt.renameAll (.ofIds ids) program)) n) := by
  rcases agree_cases _ _ _ _ _ (resolve_alike program injective alike nodup fresh) with
    ⟨_, _, s, t, left, right, _, state⟩ | ⟨halt, other, s, t, left, right, same, state⟩
  · rw [bind_ok _ left, bind_ok _ right]
    exact interpret_alike steps program s t state
  · rw [bind_error _ left, bind_error _ right]
    exact .error _ _ _ _ same state

end Machines

inductive ParsedAlike (first distance : Nat) (s t : Session) :
    EStateM.Result Halt Session Program → EStateM.Result Halt Session Program → Prop where
  | read (program : Program) (next : Nat) (later : s.nextId ≤ next) (ids : Spread s.nextId next (Stmt.idsAll program)) :
      ParsedAlike first distance s t (.ok program { s with nextId := next })
        (.ok (Stmt.renameAll (.ofIds (moved first distance)) program) { t with nextId := next + distance })
  | refused (halt other : Halt) (same : halt.ReportsAs other) :
      ParsedAlike first distance s t (.error halt s) (.error other t)

theorem parse_alike (first distance : Nat) (s t : Session) (begun : first ≤ s.nextId)
    (next : t.nextId = s.nextId + distance) (source : String) :
    ParsedAlike first distance s t (Session.parse source s) (Session.parse source t) := by
  unfold Session.parse
  cases read : tokenize source with
  | error e => exact .refused _ _ rfl
  | ok tokens =>
      obtain ⟨ahead, items, rfl⟩ := lines_of_tokenize source tokens read
      dsimp only
      rw [bind_ok _ (get_run s), bind_ok _ (get_run t)]
      have moves : t.nextId = (Renaming.ofIds (moved first distance)).id s.nextId :=
        next.trans (moved_from begun).symm
      have same : (ahead ++ [Token.finish (Text.lines source.toList).length]).map
          (Token.rename (.ofIds (moved first distance))) = ahead ++ [Token.finish (Text.lines source.toList).length] :=
        List.map_id'' (fun _ => rfl) _
      rw [moves]
      cases parsed : TreeWalk.parse s.nextId (ahead ++ [Token.finish (Text.lines source.toList).length]) with
      | error e =>
          have renamed := parse_renamed_error (.ofIds (moved first distance)) s.nextId ahead _
            (fun id above => moved_next (Nat.le_trans begun above)) rfl e parsed
          rw [same] at renamed
          rw [renamed]
          exact .refused _ _ rfl
      | ok result =>
          obtain ⟨program, last⟩ := result
          have built := parse_built _ _ _ program (tokenize_proper source _ read) parsed
          have renamed := parse_renamed (.ofIds (moved first distance)) s.nextId ahead _
            (fun id above => moved_next (Nat.le_trans begun above)) rfl last program parsed
          rw [same, show (Renaming.ofIds (moved first distance)).id last = last + distance from
            moved_from (Nat.le_trans begun built.1)] at renamed
          rw [renamed]
          exact .read program last built.1 built.2.1

theorem parse_both {s t : Session} (text : String) (next : t.nextId = s.nextId) :
    (∃ halt, Session.parse text s = .error halt s ∧ Session.parse text t = .error halt t) ∨
      ∃ program last, Session.parse text s = .ok program { s with nextId := last } ∧
        Session.parse text t = .ok program { t with nextId := last } := by
  unfold Session.parse
  cases tokenize text with
  | error e => exact .inl ⟨_, rfl, rfl⟩
  | ok tokens =>
      dsimp only
      rw [bind_ok _ (get_run s), bind_ok _ (get_run t), next]
      cases TreeWalk.parse s.nextId tokens with
      | error e => exact .inl ⟨_, rfl, rfl⟩
      | ok result => exact .inr ⟨result.1, result.2, rfl, rfl⟩

theorem run_parsed (steps : Nat) (source : String) (s : Session) (program : Program) (next : Nat)
    (read : Session.parse source s = .ok program { s with nextId := next }) :
    Session.run steps source s =
      Session.onMachine (do Session.resolve program; Regime.standard.interpret steps program) { s with nextId := next } :=
  bind_ok _ read

theorem agree_on_machine {α β : Type} {machines : Machine → Machine → Prop} {sessions : Session → Session → Prop}
    {values : α → β → Prop} {p : Eval α} {q : Eval β} {s t : Session}
    (agree : Agree machines Halt.ReportsAs values (p s.machine) (q t.machine))
    (kept : ∀ m n, machines m n → sessions { s with machine := m } { t with machine := n }) :
    Agree sessions Halt.ReportsAs values (Session.onMachine p s) (Session.onMachine q t) := by
  unfold Session.onMachine
  rcases agree_cases _ _ _ _ _ agree with
    ⟨a, b, m, n, left, right, value, state⟩ | ⟨halt, other, m, n, left, right, same, state⟩
  · simp only [left, right]
    exact .ok _ _ _ _ value (kept m n state)
  · simp only [left, right]
    exact .error _ _ _ _ same (kept m n state)

theorem on_machine_alike {α : Type} {first distance next : Nat} {p q : Eval α} {m n : Machine} (begun : first ≤ next)
    (agree : Agree (Machine.Alike (moved first distance)) Halt.ReportsAs Eq (p m) (q n)) :
    Agree (Session.Alike first distance) Halt.ReportsAs Eq (Session.onMachine p ⟨m, next⟩)
      (Session.onMachine q ⟨n, next + distance⟩) :=
  agree_on_machine (s := ⟨m, next⟩) (t := ⟨n, next + distance⟩) agree fun _ _ state => ⟨state, begun, rfl⟩

theorem run_alike (first distance steps : Nat) (s t : Session) (source : String) (alike : s.Alike first distance t)
    (fresh : ∀ id, s.nextId ≤ id → s.machine.distances[id]? = none) :
    Agree (Session.Alike first distance) Halt.ReportsAs Eq (Session.run steps source s) (Session.run steps source t) := by
  have outcome := parse_alike first distance s t alike.begun alike.next source
  generalize left : Session.parse source s = one, right : Session.parse source t = two at outcome
  cases outcome with
  | refused halt other same =>
      unfold Session.run Session.runUnder
      rw [bind_error _ left, bind_error _ right]
      exact .error _ _ _ _ same alike
  | read program next later ids =>
      rw [run_parsed steps source s program next left, run_parsed steps source t _ _ right]
      apply on_machine_alike (Nat.le_trans alike.begun later)
      exact checked_run_alike steps program (moved_injective first distance) alike.machine ids.nodup
        fun id member => fresh id (ids.within id member).1

-- What can be asked of a session: to run a text, to read one, or to go on with other streams.
inductive Request where
  | run (steps : Nat) (text : String)
  | parse (text : String)
  | streams (source : Source) (sink : Sink)

-- What is seen of an answer: how it ended, with a report unless the steps ran out, what was written
-- so far, and what is still to be read.
structure Observation where
  ending : Except (Option Diagnostic) Unit
  sink : Sink
  source : Source

def observe {α : Type} : EStateM.Result Halt Session α → Observation
  | .ok _ s => ⟨.ok (), s.machine.sink, s.machine.source⟩
  | .error halt s => ⟨.error halt.report?, s.machine.sink, s.machine.source⟩

namespace Session

def answer : Request → SessionM Unit
  | .run steps text => run steps text
  | .parse text => do
      let _ ← parse text
  | .streams source sink => modify fun s => { s with machine := { s.machine with source, sink } }

def observations : List Request → Session → List Observation
  | [], _ => []
  | request :: rest, s => observe (answer request s) :: observations rest (endState (answer request s))

end Session

theorem agree_observe {α β : Type} {sessions : Session → Session → Prop} {values : α → β → Prop}
    {one : EStateM.Result Halt Session α} {two : EStateM.Result Halt Session β}
    (agree : Agree sessions Halt.ReportsAs values one two)
    (streams : ∀ s t, sessions s t → t.machine.sink = s.machine.sink ∧ t.machine.source = s.machine.source) :
    observe two = observe one ∧ sessions (endState one) (endState two) := by
  refine ⟨?_, agree_end_states agree⟩
  cases agree with
  | ok _ _ s t _ state =>
      obtain ⟨sink, source⟩ := streams s t state
      simp only [observe, sink, source]
  | error halt other s t same state =>
      obtain ⟨sink, source⟩ := streams s t state
      simp only [observe, sink, source, show other.report? = halt.report? from same]

theorem alike_streams {first distance : Nat} (s t : Session) (alike : s.Alike first distance t) :
    t.machine.sink = s.machine.sink ∧ t.machine.source = s.machine.source :=
  ⟨alike.machine.sink, alike.machine.source⟩

theorem answer_alike (first distance : Nat) (s t : Session) (alike : s.Alike first distance t)
    (fresh : ∀ id, s.nextId ≤ id → s.machine.distances[id]? = none) (request : Request) :
    Agree (Session.Alike first distance) Halt.ReportsAs Eq (Session.answer request s) (Session.answer request t) := by
  cases request with
  | run steps text => exact run_alike first distance steps s t text alike fresh
  | streams source sink =>
      exact .ok _ _ _ _ rfl
        ⟨⟨alike.machine.store, alike.machine.env, rfl, rfl, alike.machine.found⟩, alike.begun, alike.next⟩
  | parse text =>
      have outcome := parse_alike first distance s t alike.begun alike.next text
      rw [Session.answer]
      generalize left : Session.parse text s = one, right : Session.parse text t = two at outcome
      cases outcome with
      | refused halt other same =>
          rw [bind_error _ left, bind_error _ right]
          exact .error _ _ _ _ same alike
      | read program next later ids =>
          rw [bind_ok _ left, bind_ok _ right]
          exact .ok _ _ _ _ rfl ⟨alike.machine, Nat.le_trans alike.begun later, rfl⟩

theorem answer_reachable (c : Chronicle) (reachable : c.Reachable) (request : Request) :
    ∃ d : Chronicle, d.Reachable ∧ d.session = endState (Session.answer request c.session) := by
  cases request with
  | run steps text => exact ⟨_, .run c steps text reachable, rfl⟩
  | streams source sink => exact ⟨_, .streams c source sink reachable, rfl⟩
  | parse text =>
      refine ⟨_, .parse c text reachable, ?_⟩
      rw [Session.answer]
      cases read : Session.parse text c.session with
      | ok program s => rw [bind_ok _ read]; rfl
      | error halt s => rw [bind_error _ read]; rfl

theorem observations_alike (first distance : Nat) : ∀ (requests : List Request) (c : Chronicle) (t : Session),
    c.Reachable → c.session.Alike first distance t →
      Session.observations requests t = Session.observations requests c.session
  | [], _, _, _, _ => rfl
  | request :: rest, c, t, reachable, alike => by
      have agree := answer_alike first distance c.session t alike (reachable_sound c reachable).counted.fresh request
      obtain ⟨seen, next⟩ := agree_observe agree alike_streams
      obtain ⟨d, reached, session⟩ := answer_reachable c reachable request
      rw [← session] at next
      simp only [Session.observations, seen, observations_alike first distance rest d _ reached next, session]

end TreeWalk
