import TreeWalk.Proofs.Sequence
import TreeWalk.Proofs.Throughout

set_option autoImplicit false

namespace TreeWalk

open Renaming

def Session.withStreams (s : Session) (source : Source) (sink : Sink) : Session :=
  { s with machine := { s.machine with source, sink } }

def Session.Unstreamed {α : Type} (act : SessionM α) (s : Session) : Prop :=
  ∀ source sink, Agree (fun one two => two = one.withStreams source sink) Eq Eq (act s) (act (s.withStreams source sink))

-- Nothing is written, flushed or read, and no binding or field is changed. Whatever is asked later,
-- a session that was never given the act answers alike.
structure Session.Traceless {α : Type} (act : SessionM α) (s : Session) : Prop where
  kept : ∃ distances nextId, endState (act s) = ⟨{ s.machine with distances }, nextId⟩
  unstreamed : s.Unstreamed act
  unseen : ∀ requests, Session.observations requests (endState (act s)) = Session.observations requests s

-- The text is refused by the lexer, the parser or the check of its names.
def Session.Refuses (s : Session) (steps : Nat) (text : String) : Prop :=
  (match Session.run steps text s with
    | .error halt _ => halt.isStatic
    | .ok _ _ => false) = true

instance (s : Session) (steps : Nat) (text : String) : Decidable (s.Refuses steps text) :=
  inferInstanceAs (Decidable (_ = true))

section Parts

variable {s : Session} {text : String}

theorem alike_behind {next : Nat} {distances : Distances} (tidy : s.Tidy)
    (fresh : ∀ id, s.nextId ≤ id → s.machine.distances[id]? = none) (later : s.nextId ≤ next)
    (others : ∀ id, id < s.nextId ∨ next ≤ id → distances[id]? = s.machine.distances[id]?) :
    s.Alike s.nextId (next - s.nextId) ⟨{ s.machine with distances }, next⟩ := by
  refine ⟨⟨(tidy _ _ (Nat.le_refl _)).symm, rfl, rfl, rfl, fun id => ?_⟩, Nat.le_refl _, by simp only; omega⟩
  by_cases below : id < s.nextId
  · rw [moved_below below]
    exact others id (.inl below)
  · have above : s.nextId ≤ id := Nat.le_of_not_lt below
    have beyond : next ≤ id + (next - s.nextId) := by omega
    rw [moved_from above, fresh id above]
    exact (others _ (.inr beyond)).trans (fresh _ (Nat.le_trans later beyond))

theorem parse_unstreamed (text : String) (s : Session) : s.Unstreamed (Session.parse text) := by
  intro source sink
  unfold Session.parse
  cases tokenize text with
  | error e => exact .error _ _ _ _ rfl rfl
  | ok tokens =>
      dsimp only
      rw [bind_ok _ (get_run s), bind_ok _ (get_run (s.withStreams source sink)),
        show (s.withStreams source sink).nextId = s.nextId from rfl]
      cases TreeWalk.parse s.nextId tokens with
      | error e => exact .error _ _ _ _ rfl rfl
      | ok result => exact .ok _ _ _ _ rfl rfl

variable (text) in
theorem parse_alike_behind (tidy : s.Tidy) (fresh : ∀ id, s.nextId ≤ id → s.machine.distances[id]? = none) :
    ∃ next, endState (Session.parse text s) = { s with nextId := next } ∧
      s.Alike s.nextId (next - s.nextId) { s with nextId := next } := by
  have parsed := parse_ends text s
  unfold Ends at parsed
  cases read : Session.parse text s with
  | error halt t =>
      rw [read] at parsed
      obtain ⟨rfl, _⟩ := parsed
      exact ⟨t.nextId, rfl, alike_behind tidy fresh (Nat.le_refl _) fun _ _ => rfl⟩
  | ok program t =>
      rw [read] at parsed
      obtain ⟨later, machine, _⟩ := parsed
      exact ⟨t.nextId, by rw [← machine]; rfl, alike_behind tidy fresh later fun _ _ => rfl⟩

theorem resolve_refused {program : Program} {m : Machine} {halt : Halt} {next : Machine}
    (nodup : (Stmt.idsAll program).Nodup) (fresh : ∀ id ∈ Stmt.idsAll program, m.distances[id]? = none)
    (refused : Session.resolve program m = .error halt next) :
    ∃ distances : Distances, next = { m with distances } ∧
      (∀ id, id ∉ Stmt.idsAll program → distances[id]? = m.distances[id]?) ∧
      ∀ source sink, Session.resolve program { m with source, sink } =
        .error halt { m with distances, source, sink } := by
  have balanced := balances_stmts program nodup (.start m.distances) fresh
  unfold Session.resolve Program.resolve EStateM.run at *
  cases checked : Stmt.resolveAll program (.start m.distances) with
  | ok _ t => simp [checked] at refused
  | error e t =>
      have own := ends_error _ _ _ _ _ _ balanced checked
      simp only [checked, EStateM.Result.error.injEq] at refused ⊢
      obtain ⟨rfl, rfl⟩ := refused
      exact ⟨t.distances, rfl, own.others, fun _ _ => ⟨rfl, rfl⟩⟩

theorem refuses_error {steps : Nat} (refuses : s.Refuses steps text) :
    ∃ halt t, Session.run steps text s = .error halt t ∧ halt.isStatic = true := by
  unfold Session.Refuses at refuses
  cases run : Session.run steps text s with
  | ok a t => simp [run] at refuses
  | error halt t => exact ⟨halt, t, rfl, by simpa [run] using refuses⟩

theorem run_unread {halt : Halt} {t : Session} (steps : Nat) (read : Session.parse text s = .error halt t) :
    Session.run steps text s = .error halt t :=
  bind_error _ read

theorem run_unchecked {program : Program} {t : Session} {halt : Halt} {m : Machine} (steps : Nat)
    (read : Session.parse text s = .ok program t) (checked : Session.resolve program t.machine = .error halt m) :
    Session.run steps text s = .error halt ⟨m, t.nextId⟩ := by
  refine (bind_ok _ read).trans ?_
  unfold Session.onMachine
  rw [bind_error _ checked]

theorem run_late {program : Program} {t last : Session} {halt : Halt} {m : Machine} {steps : Nat}
    (read : Session.parse text s = .ok program t) (checked : Session.resolve program t.machine = .ok () m)
    (run : Session.run steps text s = .error halt last) : halt.isStatic = false := by
  have ended := interpret_stops_late steps program m
  have whole : Session.run steps text s = Session.onMachine (Regime.standard.interpret steps program) ⟨m, t.nextId⟩ := by
    refine (bind_ok _ read).trans ?_
    unfold Session.onMachine
    rw [bind_ok _ checked]
  rw [whole] at run
  unfold Session.onMachine at run
  cases walked : Regime.standard.interpret steps program m with
  | ok _ n => simp [walked] at run
  | error other n =>
      simp only [walked, EStateM.Result.error.injEq] at run
      rw [← run.1]
      exact ends_error _ m n other (fun _ _ => True) (fun stop _ => stop.isStatic = false) ended walked

theorem parse_streams_ok {program : Program} {t : Session} (source : Source) (sink : Sink)
    (read : Session.parse text s = .ok program t) :
    Session.parse text (s.withStreams source sink) = .ok program (t.withStreams source sink) := by
  rcases agree_cases _ _ _ _ _ (parse_unstreamed text s source sink) with
    ⟨_, _, u, v, left, right, rfl, rfl⟩ | ⟨_, _, _, _, left, _⟩
  · obtain ⟨rfl, rfl⟩ := EStateM.Result.ok.inj (read.symm.trans left)
    exact right
  · cases read.symm.trans left

theorem parse_streams_error {halt : Halt} {t : Session} (source : Source) (sink : Sink)
    (read : Session.parse text s = .error halt t) :
    Session.parse text (s.withStreams source sink) = .error halt (t.withStreams source sink) := by
  rcases agree_cases _ _ _ _ _ (parse_unstreamed text s source sink) with
    ⟨_, _, _, _, left, _⟩ | ⟨_, _, u, v, left, right, rfl, rfl⟩
  · cases read.symm.trans left
  · obtain ⟨rfl, rfl⟩ := EStateM.Result.error.inj (read.symm.trans left)
    exact right

theorem refuses_cases {steps : Nat} (tidy : s.Tidy) (fresh : ∀ id, s.nextId ≤ id → s.machine.distances[id]? = none)
    (refuses : s.Refuses steps text) :
    ∃ halt next distances, Session.run steps text s = .error halt ⟨{ s.machine with distances }, next⟩ ∧
      s.Alike s.nextId (next - s.nextId) ⟨{ s.machine with distances }, next⟩ ∧
      ∀ source sink, Session.run steps text (s.withStreams source sink) =
        .error halt ⟨{ s.machine with distances, source, sink }, next⟩ := by
  have parsed := parse_ends text s
  cases read : Session.parse text s with
  | error halt t =>
      obtain ⟨rfl, _⟩ := ends_error _ _ _ _ _ _ parsed read
      exact ⟨halt, t.nextId, t.machine.distances, run_unread steps read,
        alike_behind tidy fresh (Nat.le_refl _) fun _ _ => rfl,
        fun source sink => run_unread steps (parse_streams_error source sink read)⟩
  | ok program t =>
      obtain ⟨later, machine, ids, _⟩ := ends_ok _ _ _ _ _ _ parsed read
      cases checked : Session.resolve program t.machine with
      | ok _ m =>
          -- Behind an accepted check only the walk can fail, and never in this way.
          obtain ⟨halt, last, run, early⟩ := refuses_error refuses
          simp [run_late read checked run] at early
      | error halt m =>
          have own : ∀ id ∈ Stmt.idsAll program, t.machine.distances[id]? = none :=
            fun id member => machine ▸ fresh id (ids.within id member).1
          obtain ⟨distances, rfl, others, anywhere⟩ := resolve_refused ids.nodup own checked
          have run := run_unchecked steps read checked
          rw [machine] at run others
          refine ⟨halt, t.nextId, distances, run, alike_behind tidy fresh later fun id outside => ?_, fun source sink => ?_⟩
          · refine others id fun member => ?_
            have bounds := ids.within id member
            omega
          · have there := run_unchecked steps (parse_streams_ok source sink read) (anywhere source sink)
            rwa [machine] at there

end Parts

theorem refusals_traceless (c : Chronicle) (reachable : c.Reachable) (text : String) :
    c.session.Traceless (Session.parse text) ∧
      ∀ steps, c.session.Refuses steps text → c.session.Traceless (Session.run steps text) := by
  have fresh := (reachable_sound c reachable).counted.fresh
  have tidy := reachable_tidy c reachable
  constructor
  · obtain ⟨next, ended, alike⟩ := parse_alike_behind text tidy fresh
    refine ⟨⟨c.session.machine.distances, next, ended⟩, parse_unstreamed text c.session, fun requests => ?_⟩
    rw [ended]
    exact observations_alike _ _ requests c _ reachable alike
  · intro steps refuses
    obtain ⟨halt, next, distances, ended, alike, anywhere⟩ := refuses_cases tidy fresh refuses
    refine ⟨⟨distances, next, by rw [ended]; rfl⟩, fun source sink => ?_, fun requests => ?_⟩
    · rw [ended, anywhere source sink]
      exact .error _ _ _ _ rfl rfl
    · rw [ended]
      exact observations_alike _ _ requests c _ reachable alike

theorem refusals_traceless_return :
    (Chronicle.ofText 20 "var x = 1;").Reachable ∧
      (Chronicle.ofText 20 "var x = 1;").session.Refuses 20 "\x7b var y = x; Print(y); \x7d return x;" ∧
      (Chronicle.ofText 20 "var x = 1;").session.Traceless (Session.run 20 "\x7b var y = x; Print(y); \x7d return x;") := by
  have refuses : (Chronicle.ofText 20 "var x = 1;").session.Refuses 20 "\x7b var y = x; Print(y); \x7d return x;" :=
    by decide +kernel
  exact ⟨of_text_reachable _ _, refuses, (refusals_traceless _ (of_text_reachable _ _) _).2 20 refuses⟩

end TreeWalk
