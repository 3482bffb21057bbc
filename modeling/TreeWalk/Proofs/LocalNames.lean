import TreeWalk.Proofs.Places
import TreeWalk.Proofs.Reached
import TreeWalk.Proofs.Reflected
import TreeWalk.Proofs.Rescoped

set_option autoImplicit false

namespace TreeWalk

namespace Program

def run (steps : Nat) (program : Program) : Eval Unit := do
  Session.resolve program
  Regime.standard.interpret steps program

def Accepted (program : Program) (distances : Distances) : Prop :=
  (match (program.resolve distances).1 with
    | .ok _ => true
    | .error _ => false) = true

theorem accepted_ok {program : Program} {distances : Distances} (accepted : program.Accepted distances) :
    ∃ a, (program.resolve distances).1 = .ok a := by
  unfold Accepted at accepted
  split at accepted
  · exact ⟨_, ‹_›⟩
  · cases accepted

instance (program : Program) (distances : Distances) : Decidable (program.Accepted distances) :=
  inferInstanceAs (Decidable (_ = true))

def FollowedBy (program other : Program) (m : Machine) : Prop :=
  ∀ steps last, program.run steps m = .ok () last →
    ∃ next, other.run steps m = .ok () next ∧ next.sink = last.sink ∧ next.source = last.source

end Program

def Alpha.ofScope (old new : String) (place : List Nat) (plain : Keyword.ofText? new = none) : Alpha :=
  ⟨old, new, fun other => other == place, plain⟩

section Plain

variable {r : Alpha}

def Plain (scopes : List (Frame × Bool)) : Prop :=
  ∀ scope ∈ scopes, scope.2 = false

theorem plain_scope (frame : Frame) {scopes : List (Frame × Bool)} (plain : Plain scopes) :
    Plain ((frame, false) :: scopes) := by
  intro other member
  rcases List.mem_cons.mp member with rfl | later
  · rfl
  · exact plain other later

theorem plain_outer {scope : Frame × Bool} {scopes : List (Frame × Bool)} (plain : Plain (scope :: scopes)) :
    Plain scopes :=
  fun other member => plain other (List.mem_cons_of_mem _ member)

theorem plain_declare (name : Name) (ready : Bool) {scopes : List (Frame × Bool)} (plain : Plain scopes) :
    Plain (declareIn name ready scopes) := by
  cases scopes with
  | nil => exact plain
  | cons scope outer =>
      obtain ⟨frame, mark⟩ := scope
      obtain rfl : mark = false := plain _ List.mem_cons_self
      exact plain_scope _ (plain_outer plain)

theorem plain_reading (name : String) : ∀ {scopes : List (Frame × Bool)}, Plain scopes → r.scheme.reading scopes name = name
  | [], _ => rfl
  | (frame, mark) :: outer, plain => by
      obtain rfl : mark = false := plain _ List.mem_cons_self
      unfold Scheme.reading
      split
      · rfl
      · exact plain_reading name (plain_outer plain)

theorem plain_reflects : r.scheme.Reflects fun scopes _ => Plain scopes where
  reading _ _ plain name := plain_reading name plain
  declare _ _ name ready plain := plain_declare name ready plain
  left _ _ _ := id
  right _ _ _ := id
  scope _ _ _ _ frame _ plain :=
    ⟨false, trivial, fun _ _ => ⟨fun own => absurd own Bool.false_ne_true, rfl⟩, plain_scope frame plain⟩
  receiver _ _ _ _ plain := ⟨trivial, plain_scope _ plain⟩

end Plain

section Reflexive

variable {r : Alpha} {w : Watched}

def Alpha.world (r : Alpha) (w : Watched) : List r.scheme.Mark :=
  List.replicate w.machine.store.layers.size false

theorem world_marked {layer : Nat} (inside : layer < w.machine.store.layers.size) : (r.world w)[layer]? = some false := by
  unfold Alpha.world
  rw [List.getElem?_replicate, if_pos inside]

theorem views_of_matches (sound : w.Sound) : ∀ (frames : List Frame) (layers : List Nat), Matches w.events frames layers →
    Views (r.world w) (frames.map fun frame => (frame, false)) layers
  | [], _, same => same
  | _ :: outer, layer :: rest, ⟨opened, named, further⟩ =>
      ⟨world_marked (matches_inside w sound (_ :: outer) (layer :: rest) ⟨opened, named, further⟩ layer List.mem_cons_self),
        views_of_matches sound outer rest further⟩

theorem unmarked_frames (frames : List Frame) : (frames.map fun frame => (frame, false)).map Prod.fst = frames := by
  rw [List.map_map]
  exact List.map_id frames

theorem unmarked_plain (frames : List Frame) : Plain (frames.map fun frame => (frame, false)) := by
  intro scope member
  obtain ⟨frame, _, rfl⟩ := List.mem_map.mp member
  rfl

theorem closure_echoes_itself (sound : w.Sound) (closure : Closure) (known : closure.Known w.events) :
    closure.Echoed r.scheme (Visit.Known w.events) (r.world w) [] closure := by
  obtain ⟨proper, frames, layers, settled, _⟩ := known
  refine ⟨rfl, rfl, _, views_of_matches sound frames _ layers, trivial, ?_,
    routine_reflected plain_reflects _ _ proper (unmarked_plain frames)⟩
  rw [List.nil_append, unmarked_frames]
  exact settled

theorem class_echoes_itself (sound : w.Sound) (c : ClassValue) (known : c.Known w.events) :
    c.Echoed r.scheme (Visit.Known w.events) (r.world w) c := by
  obtain ⟨name, methods, _, table⟩ := known
  refine ⟨rfl, rfl, name, methods, fun key => ?_⟩
  cases found : c.methods.find? key with
  | none => exact .none
  | some closure =>
      obtain ⟨proper, _, _, frames, layers, settled, _⟩ := table key closure found
      refine .some ⟨rfl, rfl, _, views_of_matches sound frames _ layers, trivial, ?_,
        routine_reflected plain_reflects _ _ proper (plain_scope _ (unmarked_plain frames))⟩
      rw [List.cons_append, List.nil_append, List.map_cons, unmarked_frames]
      exact settled

theorem value_echoes_itself (sound : w.Sound) (value : Value) (known : value.Known w.events) :
    value.Echoed r.scheme (Visit.Known w.events) (r.world w) value := by
  cases value with
  | function identity closure => exact ⟨closure, rfl, closure_echoes_itself sound closure known.1⟩
  | «class» c => exact ⟨c, rfl, class_echoes_itself sound c known⟩
  | object target => exact ⟨target, rfl, rfl, class_echoes_itself sound target.ofClass known⟩
  | _ => rfl

theorem store_echoes_itself (sound : w.Sound) :
    w.machine.store.Echoed r.scheme (Visit.Known w.events) (r.world w) w.machine.store where
  size := List.length_replicate
  sizes := rfl
  ground := world_marked sound.ground
  layers layer mark marked := by
    obtain rfl : false = mark := by
      have inside := (List.getElem?_eq_some_iff.mp marked).1
      rw [Alpha.world, List.length_replicate] at inside
      exact Option.some.inj ((world_marked inside).symm.trans marked)
    exact ⟨fun _ _ own => absurd own Bool.false_ne_true,
      fun name value found => ⟨value, found, value_echoes_itself sound value (sound.values layer name value found)⟩,
      fun key known => ⟨key, known, rfl⟩⟩
  objects := rfl
  fields object name := by
    cases found : (w.machine.store.fields object).find? name with
    | none => exact .none
    | some value => exact .some (value_echoes_itself sound value (sound.fields object name value found))
  identities := rfl

end Reflexive

theorem interpret_respelled (steps : Nat) (r : Alpha) (next : Nat) (program renamed : Program) (w : Watched)
    (ready : Ready next program w) (globals : w.machine.env = Machine.globals)
    (paired : Stmt.PairedAll r.scheme [] program renamed) (m : Machine)
    (run : Regime.standard.interpret steps program w.machine = .ok () m) :
    ∃ n, Regime.standard.interpret steps renamed w.machine = .ok () n ∧ n.sink = m.sink ∧ n.source = m.source := by
  let k : Duet := ⟨r.scheme, Visit.Known w.events, w.machine.distances, ready.sound.distances⟩
  have stands : k.scheme.Stands (r.world w) [] Machine.globals := ⟨rfl, trivial⟩
  have echoed : Machine.Echoed k Machine.globals (r.world w) w.machine w.machine :=
    ⟨store_echoes_itself ready.sound, globals, globals, rfl, rfl, rfl, rfl⟩
  obtain ⟨_, _, n, _, other, last, _⟩ := interpret_alongside (follows_standard k) steps Machine.globals (r.world w) []
    program renamed stands ready.settled paired w.machine w.machine echoed () m run
  exact ⟨n, other, last.sink, last.source⟩

theorem local_names_free (c : Chronicle) (reachable : c.Reachable) (text : String) (program : Program) (s : Session)
    (read : Session.parse text c.session = .ok program s) (r : Alpha) (fresh : r.new ∉ program.declared)
    (unused : r.new ∉ program.references.map Reference.name) (accepted : program.Accepted s.machine.distances) :
    (r.program program).resolve s.machine.distances = program.resolve s.machine.distances ∧
      program.FollowedBy (r.program program) s.machine := by
  have sound := reachable_sound c reachable
  have parsed := parse_ends text c.session
  unfold Ends at parsed
  rw [read] at parsed
  obtain ⟨later, machine, ids, proper⟩ := parsed
  have paired : Stmt.PairedAll r.scheme [] program (r.program program) :=
    stmts_alpha program [] [] proper fresh fun own => nomatch own
  have same := resolve_respelled program (r.program program) paired fresh unused s.machine.distances
    (Program.accepted_ok accepted)
  refine ⟨same, fun steps last run => ?_⟩
  rw [machine] at run same ⊢
  have checked : Session.resolve (r.program program) c.session.machine = Session.resolve program c.session.machine := by
    unfold Session.resolve
    rw [same]
  have ended := resolve_ready ⟨c.session.machine, c.events⟩ program _ _ sound.record sound.counted later ids proper
  unfold Ends at ended
  unfold Program.run at run ⊢
  rcases agree_cases _ _ _ _ _ (mirrors_resolve program ⟨c.session.machine, c.events⟩ c.session.machine rfl) with
    ⟨_, _, w, _, watched, resolved, _, rfl⟩ | ⟨_, _, _, _, _, refused, _, _⟩
  · rw [watched] at ended
    obtain ⟨ready, env⟩ := ended
    rw [bind_ok _ resolved] at run
    rw [bind_ok _ (checked.trans resolved)]
    exact interpret_respelled steps r _ program (r.program program) w ready (env.trans sound.globals) paired last run
  · rw [bind_error _ refused] at run
    cases run

def shadowedText : String :=
  "var x = \"a\"; \x7b var x = \"b\"; func f(y) \x7b x = x + y; return x; \x7d \x7b var x = f; x(\"c\"); \x7d Print(x); \x7d"

theorem local_names_free_shadowed : ∃ program s,
    Session.parse shadowedText (Chronicle.ofText 20 "var y = none;").session = .ok program s ∧
    (program.references.map Reference.name = ["x", "x", "y", "x", "f", "x", "Print", "x"] ∧
      ((Alpha.ofScope "x" "z" [0, 1] rfl).program program).references.map Reference.name =
        ["z", "z", "y", "z", "f", "x", "Print", "z"]) ∧
    (∃ last, program.run 20 s.machine = .ok () last) ∧
    ((Alpha.ofScope "x" "z" [0, 1] rfl).program program).resolve s.machine.distances =
      program.resolve s.machine.distances ∧
    program.FollowedBy ((Alpha.ofScope "x" "z" [0, 1] rfl).program program) s.machine := by
  have checked : (match Session.parse shadowedText (Chronicle.ofText 20 "var y = none;").session with
    | .ok program s => decide (
        (program.references.map Reference.name = ["x", "x", "y", "x", "f", "x", "Print", "x"] ∧
          ((Alpha.ofScope "x" "z" [0, 1] rfl).program program).references.map Reference.name =
            ["z", "z", "y", "z", "f", "x", "Print", "z"]) ∧
        (match program.run 20 s.machine with | .ok _ _ => true | .error _ _ => false) = true ∧
        "z" ∉ program.declared ∧ "z" ∉ program.references.map Reference.name ∧ program.Accepted s.machine.distances)
    | .error _ _ => false) = true := by decide +kernel
  revert checked
  cases read : Session.parse shadowedText (Chronicle.ofText 20 "var y = none;").session with
  | error halt s => exact fun none => nomatch none
  | ok program s =>
      intro checked
      obtain ⟨names, ended, fresh, unused, accepted⟩ := of_decide_eq_true checked
      cases run : program.run 20 s.machine with
      | error halt m => rw [run] at ended; cases ended
      | ok a last =>
          exact ⟨program, s, rfl, names, ⟨last, run⟩,
            local_names_free _ (of_text_reachable 20 "var y = none;") _ program s read _ fresh unused accepted⟩

end TreeWalk
