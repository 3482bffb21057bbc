import TreeWalk.Proofs.Nodes
import TreeWalk.Proofs.Turns
import TreeWalk.Proofs.Untouched
import TreeWalk.Proofs.Verdicts

set_option autoImplicit false

namespace TreeWalk

-- A program that a session has read, with the counts of identities in front of it and behind it.
structure Reading where
  program : Program
  first : Nat
  next : Nat

namespace Reading

-- No identity twice, none outside the counts, and children below their parents.
structure Numbered (r : Reading) : Prop where
  ids : Spread r.first r.next (Stmt.idsAll r.program)
  falling : ∀ e ∈ Stmt.nodesAll r.program, e.Falling

def idsAll (readings : List Reading) : List Nat :=
  readings.flatMap fun r => Stmt.idsAll r.program

end Reading

namespace Session

-- The program of a text, where it is one.
def reads (text : String) (s : Session) : List Reading :=
  match parse text s with
  | .ok program t => [⟨program, s.nextId, t.nextId⟩]
  | .error _ _ => []

-- The program of a line at the prompt; a blank line is none.
def answered (line : String) (s : Session) : List Reading :=
  if line.toList.all Text.isBlank then [] else s.reads line

def asks (prompt : String) (s : Session) : List Reading :=
  match ask prompt s with
  | .ok line t => t.answered line
  | .error _ _ => []

-- A session with the programs that it has read. Texts are parsed and run, and turns are taken at the
-- prompt in any order, whatever comes of them; between them the streams may change.
inductive History : Session → List Reading → Prop where
  | start (source : Source) (sink : Sink) : History (.start source sink) []
  | parse (s : Session) (readings : List Reading) (text : String) (before : History s readings) :
      History (endState (parse text s)) (readings ++ s.reads text)
  | run (s : Session) (readings : List Reading) (steps : Nat) (text : String) (before : History s readings) :
      History (endState (run steps text s)) (readings ++ s.reads text)
  | turn (s : Session) (readings : List Reading) (steps : Nat) (prompt : String) (before : History s readings) :
      History (endState (turn steps prompt s)) (readings ++ s.asks prompt)
  | streams (s : Session) (readings : List Reading) (source : Source) (sink : Sink) (before : History s readings) :
      History { s with machine := { s.machine with source, sink } } readings

-- The check of some text, run as it is or at the prompt, ends in the error.
def CheckFails (s : Session) (e : ScopeError) : Prop :=
  (∃ steps text t, run steps text s = .error (.failed (.scoping e)) t) ∨
    ∃ steps prompt t, turn steps prompt s = .ok (.failed (.scoping e)) t

structure Numbered (s : Session) (readings : List Reading) : Prop where
  apart : (Reading.idsAll readings).Nodup
  formed : ∀ r ∈ readings, r.Numbered
  below : ∀ id ∈ Reading.idsAll readings, id < s.nextId
  recorded : ∀ id, s.machine.distances.contains id = true → id ∈ Reading.idsAll readings

end Session

def Error.isInternal : Error → Bool
  | .scoping e => !e.fault.isRule
  | _ => false

def Halt.isInternal : Halt → Bool
  | .failed error => error.isInternal
  | .exhausted => false

section Texts

variable {s t : Session} {readings : List Reading}

theorem numbered_fresh (numbered : s.Numbered readings) (id : Nat) (above : s.nextId ≤ id) :
    s.machine.distances[id]? = none := by
  cases known : s.machine.distances.contains id with
  | true => exact absurd (numbered.below id (numbered.recorded id known)) (Nat.not_lt.mpr above)
  | false => exact Std.TreeMap.getElem?_eq_none_of_contains_eq_false known

theorem numbered_same (numbered : s.Numbered readings) (counter : t.nextId = s.nextId)
    (distances : t.machine.distances = s.machine.distances) : t.Numbered readings :=
  ⟨numbered.apart, numbered.formed, counter ▸ numbered.below, distances ▸ numbered.recorded⟩

theorem numbered_streamed (numbered : s.Numbered readings) (streamed : s.Streamed t) : t.Numbered readings := by
  obtain ⟨_, _, rfl⟩ := streamed
  exact numbered_same numbered rfl rfl

theorem reads_numbered {first next : Nat} {text : String} {program : Program} (reads : ReadsAs first text program next) :
    first ≤ next ∧ Reading.Numbered ⟨program, first, next⟩ := by
  obtain ⟨tokens, read, parsed⟩ := reads
  obtain ⟨later, built⟩ := parse_yields first next tokens program (tokenize_proper text tokens read) parsed
  exact ⟨later, stmts_nodes_ids program ▸ built.ids, built.falling⟩

theorem numbered_more (numbered : s.Numbered readings) {text : String} {program : Program}
    (reads : ReadsAs s.nextId text program t.nextId)
    (others : ∀ id, id ∉ Stmt.idsAll program → t.machine.distances[id]? = s.machine.distances[id]?) :
    t.Numbered (readings ++ [⟨program, s.nextId, t.nextId⟩]) := by
  obtain ⟨later, formed⟩ := reads_numbered reads
  have split : Reading.idsAll (readings ++ [⟨program, s.nextId, t.nextId⟩]) =
      Reading.idsAll readings ++ Stmt.idsAll program := by
    simp [Reading.idsAll]
  constructor
  · rw [split]
    refine List.nodup_append.mpr ⟨numbered.apart, formed.ids.nodup, fun old member new fresh same => ?_⟩
    exact Nat.lt_irrefl new (Nat.lt_of_lt_of_le (same ▸ numbered.below old member) (formed.ids.within new fresh).1)
  · intro r member
    rcases List.mem_append.mp member with old | new
    · exact numbered.formed r old
    · rw [List.mem_singleton.mp new]
      exact formed
  · intro id member
    rw [split] at member
    rcases List.mem_append.mp member with old | new
    · exact Nat.lt_of_lt_of_le (numbered.below id old) later
    · exact (formed.ids.within id new).2
  · intro id known
    rw [split]
    by_cases new : id ∈ Stmt.idsAll program
    · exact List.mem_append_right _ new
    · rw [Std.TreeMap.contains_eq_isSome_getElem?, others id new, ← Std.TreeMap.contains_eq_isSome_getElem?] at known
      exact List.mem_append_left _ (numbered.recorded id known)

end Texts

section Runs

variable {s : Session} {readings : List Reading}

theorem parse_fails (s : Session) (text : String) :
    Ends (Session.parse text) s (fun _ _ => True) fun halt t => t = s ∧ halt.isInternal = false := by
  unfold Session.parse
  cases read : tokenize text with
  | error e => exact ⟨rfl, rfl⟩
  | ok tokens =>
      apply ends_get
      cases parsed : TreeWalk.parse s.nextId tokens with
      | error e => exact ⟨rfl, rfl⟩
      | ok result => trivial

theorem parse_numbers (s : Session) (text : String) :
    Ends (Session.parse text) s
      (fun program t => t.machine = s.machine ∧ ReadsAs s.nextId text program t.nextId ∧
        s.reads text = [⟨program, s.nextId, t.nextId⟩])
      fun halt t => t = s ∧ s.reads text = [] ∧ halt.isInternal = false := by
  have ended := parse_fails s text
  unfold Ends Session.reads at *
  cases run : Session.parse text s with
  | ok program t =>
      have reads := reads_of_parse run
      have same : { s with nextId := t.nextId } = t := (EStateM.Result.ok.inj ((parse_reads reads).symm.trans run)).2
      exact ⟨same ▸ rfl, reads, rfl⟩
  | error halt t =>
      rw [run] at ended
      exact ⟨ended.1, rfl, ended.2⟩

def Machine.Apart (ids : List Nat) (m n : Machine) : Prop :=
  ∀ id, id ∉ ids → n.distances[id]? = m.distances[id]?

theorem resolve_new {program : Program} {m : Machine} (nodup : (Stmt.idsAll program).Nodup)
    (new : ∀ id ∈ Stmt.idsAll program, m.distances[id]? = none) :
    Ends (Session.resolve program) m (fun _ n => m.Apart (Stmt.idsAll program) n)
      fun halt n => m.Apart (Stmt.idsAll program) n ∧ halt.isInternal = false := by
  have balanced := balances_stmts program nodup (.start m.distances) new
  have decided := decides_program program nodup (.start m.distances) rfl new
  unfold Ends Session.resolve Program.resolve EStateM.run
  cases run : Stmt.resolveAll program (.start m.distances) with
  | ok _ t => exact (ends_ok _ _ _ _ _ _ balanced run).others
  | error e t =>
      refine ⟨(ends_error _ _ _ _ _ _ balanced run).others, ?_⟩
      simp [Halt.isInternal, Error.isInternal, (ends_error _ _ _ _ _ _ decided run).2]

theorem late_not_internal {halt : Halt} (late : halt.isStatic = false) : halt.isInternal = false := by
  cases halt with
  | exhausted => rfl
  | failed e =>
      cases e with
      | scoping e => cases late
      | _ => rfl

theorem interpret_distances (steps : Nat) (program : Program) (m : Machine) :
    Ends (Regime.standard.interpret steps program) m (fun _ n => n.distances = m.distances)
      fun halt n => n.distances = m.distances ∧ halt.isInternal = false := by
  have late := interpret_stops_late steps program m
  have left := interpret_leaves distances_aside steps program m
  unfold Ends at late ⊢
  cases run : Regime.standard.interpret steps program m with
  | ok _ n => rw [run] at left; exact left
  | error halt n => rw [run] at late left; exact ⟨left, late_not_internal late⟩

theorem checked_new (steps : Nat) {program : Program} {m : Machine} (nodup : (Stmt.idsAll program).Nodup)
    (new : ∀ id ∈ Stmt.idsAll program, m.distances[id]? = none) :
    Ends (do Session.resolve program; Regime.standard.interpret steps program) m
      (fun _ n => m.Apart (Stmt.idsAll program) n)
      fun halt n => m.Apart (Stmt.idsAll program) n ∧ halt.isInternal = false := by
  apply ends_bind _ _ m _ _ _ (resolve_new nodup new)
  intro _ n apart
  apply ends_mono _ _ _ _ _ _ (interpret_distances steps program n)
  · intro _ last same
    unfold Machine.Apart
    rwa [same]
  · intro halt last ⟨same, clean⟩
    unfold Machine.Apart
    rw [same]
    exact ⟨apart, clean⟩

theorem run_numbers (numbered : s.Numbered readings) (steps : Nat) (text : String) :
    Ends (Session.run steps text) s (fun _ t => t.Numbered (readings ++ s.reads text))
      fun halt t => t.Numbered (readings ++ s.reads text) ∧ halt.isInternal = false := by
  apply ends_bind _ _ s _ _ _ (ends_mono _ _ _ _ _ _ (parse_numbers s text) (fun _ _ parsed => parsed) ?_)
  · rintro program t ⟨machine, reads, one⟩
    have ids := (reads_spread reads).2
    have checked := checked_new steps (m := t.machine) ids.nodup fun id member => by
      rw [machine]
      exact numbered_fresh numbered id (ids.within id member).1
    rw [one]
    have more : ∀ u : Session, u.nextId = t.nextId → t.machine.Apart (Stmt.idsAll program) u.machine →
        u.Numbered (readings ++ [⟨program, s.nextId, t.nextId⟩]) := by
      intro u counter apart
      rw [← counter] at reads ⊢
      exact numbered_more numbered reads fun id other => machine ▸ apart id other
    apply ends_mono _ _ _ _ _ _ (Session.ends_machine _ t _ _ checked)
    · exact fun _ u done => more u done.1 done.2
    · exact fun _ u stopped => ⟨more u stopped.1 stopped.2.1, stopped.2.2⟩
  · rintro halt t ⟨rfl, none, clean⟩
    rw [none, List.append_nil]
    exact ⟨numbered, clean⟩

theorem respond_numbers (numbered : s.Numbered readings) (steps : Nat) (line : String) :
    Ends (Session.respond steps line) s
      (fun turn t => t.Numbered (readings ++ s.answered line) ∧
        ∀ error, turn = .failed error → error.isInternal = false)
      fun _ t => t.Numbered (readings ++ s.answered line) := by
  unfold Session.answered
  by_cases empty : line = ""
  · subst empty
    rw [Session.respond_over, show "".toList.all Text.isBlank = true from rfl, if_pos rfl, List.append_nil]
    apply ends_bind _ _ s _ _ _ (ends_mono _ _ _ _ _ _ (Session.streams_sink _ s)
      (fun _ t streamed => numbered_streamed numbered streamed)
      fun _ t stopped => numbered_streamed numbered stopped.1)
    exact fun _ t numbered => ⟨numbered, nofun⟩
  cases blank : line.toList.all Text.isBlank with
  | true =>
      rw [Session.respond_blank steps empty blank, if_pos rfl, List.append_nil]
      exact ⟨numbered, nofun⟩
  | false =>
      rw [Session.respond_run steps blank, if_neg Bool.false_ne_true]
      apply ends_mono _ _ _ _ _ _ (Session.ends_reporting (run_numbers numbered steps line))
      · rintro _ t (⟨rfl, numbered⟩ | ⟨error, rfl, numbered, clean⟩)
        · exact ⟨numbered, nofun⟩
        · refine ⟨numbered, ?_⟩
          rintro _ ⟨rfl⟩
          exact clean
      · exact fun _ t stopped => stopped.2.1

theorem turn_numbers (numbered : s.Numbered readings) (steps : Nat) (prompt : String) :
    Ends (Session.turn steps prompt) s
      (fun turn t => t.Numbered (readings ++ s.asks prompt) ∧
        ∀ error, turn = .failed error → error.isInternal = false)
      fun _ t => t.Numbered (readings ++ s.asks prompt) := by
  have asked := Session.streams_ask prompt s
  rw [Session.turn_ask]
  unfold Session.asks
  unfold Ends at asked ⊢
  cases ask : Session.ask prompt s with
  | ok line t =>
      rw [ask] at asked
      rw [bind_ok _ ask]
      exact respond_numbers (numbered_streamed numbered asked) steps line
  | error halt t =>
      rw [ask] at asked
      rw [bind_error _ ask, List.append_nil]
      exact numbered_streamed numbered asked.1

theorem parse_keeps (numbered : s.Numbered readings) (text : String) :
    Ends (Session.parse text) s (fun _ t => t.Numbered (readings ++ s.reads text))
      fun _ t => t.Numbered (readings ++ s.reads text) := by
  apply ends_mono _ _ _ _ _ _ (parse_numbers s text)
  · rintro program t ⟨machine, reads, one⟩
    rw [one]
    exact numbered_more numbered reads fun id _ => by rw [machine]
  · rintro _ t ⟨rfl, none, _⟩
    rwa [none, List.append_nil]

theorem history_numbered (history : s.History readings) : s.Numbered readings := by
  induction history with
  | start source sink =>
      refine ⟨List.nodup_nil, nofun, nofun, fun id known => ?_⟩
      rw [show (Session.start source sink).machine.distances = ∅ from rfl, Std.TreeMap.contains_emptyc] at known
      cases known
  | parse s readings text before ih =>
      exact ends_state (parse_keeps ih text) (fun _ _ done => done) fun _ _ stopped => stopped
  | run s readings steps text before ih =>
      exact ends_state (run_numbers ih steps text) (fun _ _ done => done) fun _ _ stopped => stopped.1
  | turn s readings steps prompt before ih =>
      exact ends_state (turn_numbers ih steps prompt) (fun _ _ done => done.1) fun _ _ stopped => stopped
  | streams s readings source sink before ih => exact numbered_same ih rfl rfl

theorem fails_rule (numbered : s.Numbered readings) (e : ScopeError) (fails : s.CheckFails e) :
    e.fault.isRule = true := by
  rcases fails with ⟨steps, text, t, run⟩ | ⟨steps, prompt, t, turn⟩
  · simpa [Halt.isInternal, Error.isInternal] using (ends_error _ _ _ _ _ _ (run_numbers numbered steps text) run).2
  · simpa [Error.isInternal] using (ends_ok _ _ _ _ _ _ (turn_numbers numbered steps prompt) turn).2 _ rfl

end Runs

theorem identities_never_collide (s : Session) (readings : List Reading) (history : s.History readings) :
    (Reading.idsAll readings).Nodup ∧
    (∀ r ∈ readings, (∀ id ∈ Stmt.idsAll r.program, r.first ≤ id ∧ id < r.next) ∧
      ∀ e ∈ Stmt.nodesAll r.program, ∀ child ∈ e.children, child.id < e.id) ∧
    (∀ id, s.machine.distances.contains id = true → ∃ r ∈ readings, id ∈ Stmt.idsAll r.program) ∧
    ∀ e, s.CheckFails e →
      (∀ id, e.fault ≠ .alreadyLocal id) ∧ (∀ name, e.fault ≠ .undeclared name) ∧ e.fault ≠ .noOpenScope := by
  have numbered := history_numbered history
  refine ⟨numbered.apart, fun r member => ?_, fun id known => ?_, fun e fails => ?_⟩
  · exact ⟨(numbered.formed r member).ids.within, (numbered.formed r member).falling⟩
  · exact List.mem_flatMap.mp (numbered.recorded id known)
  · have rule := fails_rule numbered e fails
    refine ⟨fun id same => ?_, fun name same => ?_, fun same => ?_⟩ <;> simp [same, ScopeFault.isRule] at rule

theorem identities_never_collide_refused : ∃ s readings, Session.History s readings ∧
    s.machine.distances.contains 1 = true ∧ Reading.idsAll readings = [0, 1, 2, 3, 4] ∧
    (Reading.idsAll readings).Nodup ∧ ∀ e, s.CheckFails e → e.fault ≠ .noOpenScope := by
  have history := Session.History.parse _ _ "\x7b var a = 1; a; \x7d"
    (.run _ _ 9 "\x7b var a = 1; a; var b = b; \x7d" (.start ⟨[]⟩ .unlimited))
  obtain ⟨apart, _, _, fails⟩ := identities_never_collide _ _ history
  exact ⟨_, _, history, by decide +kernel, by decide +kernel, apart, fun e failed => (fails e failed).2.2⟩

end TreeWalk
