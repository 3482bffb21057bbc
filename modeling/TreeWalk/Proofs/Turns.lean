import TreeWalk.Proofs.Runs
import TreeWalk.Session

set_option autoImplicit false

namespace TreeWalk

namespace Session

theorem ends_machine {α : Type} (act : Eval α) (s : Session) (done : α → Machine → Prop)
    (stopped : Halt → Machine → Prop) (ended : Ends act s.machine done stopped) :
    Ends (onMachine act) s (fun a t => t.nextId = s.nextId ∧ done a t.machine)
      fun halt t => t.nextId = s.nextId ∧ stopped halt t.machine := by
  unfold Ends onMachine at *
  cases run : act s.machine with
  | ok a machine => rw [run] at ended; exact ⟨rfl, ended⟩
  | error halt machine => rw [run] at ended; exact ⟨rfl, ended⟩

def ask (prompt : String) : SessionM String := do
  write prompt
  onMachine Eval.flush
  onMachine (Eval.onSource .stream Source.readLine)

def reporting (p : SessionM Unit) : SessionM Turn := fun s =>
  match p s with
  | .ok _ s => .ok .done s
  | .error (.failed error) s => .ok (.failed error) s
  | .error .exhausted s => .error .exhausted s

def respond (steps : Nat) (line : String) : SessionM Turn :=
  if line.isEmpty then do
    write "\n"
    return .over
  else if line.toList.all Text.isBlank then
    return .done
  else reporting (run steps line)

theorem turn_ask (steps : Nat) (prompt : String) :
    turn steps prompt = (do let line ← ask prompt; respond steps line) := by
  unfold turn ask
  rw [bind_assoc]
  refine congrArg _ (funext fun _ => ?_)
  rw [bind_assoc]
  rfl

theorem respond_over (steps : Nat) : respond steps "" = (do write "\n"; return .over) :=
  rfl

theorem respond_blank (steps : Nat) {line : String} (some : line ≠ "") (blank : line.toList.all Text.isBlank = true) :
    respond steps line = (return .done) := by
  unfold respond
  rw [if_neg (by simpa using some), if_pos blank]

theorem respond_run (steps : Nat) {line : String} (written : line.toList.all Text.isBlank = false) :
    respond steps line = reporting (run steps line) := by
  have some : line.isEmpty = false := by
    cases empty : line.isEmpty with
    | false => rfl
    | true =>
        rw [String.isEmpty_iff.mp empty] at written
        cases written
  simp [respond, some, written]

theorem ends_reporting {p : SessionM Unit} {s : Session} {done : Session → Prop} {stopped : Halt → Session → Prop}
    (ended : Ends p s (fun _ t => done t) stopped) :
    Ends (reporting p) s
      (fun turn t => (turn = .done ∧ done t) ∨ ∃ error, turn = .failed error ∧ stopped (.failed error) t)
      fun halt t => halt = .exhausted ∧ stopped .exhausted t := by
  unfold Ends reporting at *
  cases run : p s with
  | ok _ t =>
      rw [run] at ended
      exact .inl ⟨rfl, ended⟩
  | error halt t =>
      rw [run] at ended
      cases halt with
      | failed error => exact .inr ⟨error, rfl, ended⟩
      | exhausted => exact ⟨rfl, ended⟩

def Streamed (s t : Session) : Prop :=
  ∃ source sink, t = { s with machine := { s.machine with source, sink } }

theorem streamed_trans {s t u : Session} (first : s.Streamed t) (second : t.Streamed u) : s.Streamed u := by
  obtain ⟨_, _, rfl⟩ := first
  obtain ⟨source, sink, rfl⟩ := second
  exact ⟨source, sink, rfl⟩

def Streams {α : Type} (p : SessionM α) : Prop :=
  ∀ s, Ends p s (fun _ t => s.Streamed t) fun halt t => s.Streamed t ∧ ∃ e, halt = .failed (.stream e)

theorem streams_bind {α β : Type} (p : SessionM α) (f : α → SessionM β) (first : Streams p)
    (rest : ∀ a, Streams (f a)) : Streams (p >>= f) := by
  intro s
  apply ends_bind p f s _ _ _ (first s)
  intro a t before
  exact ends_mono _ _ _ _ _ _ (rest a t) (fun _ _ after => streamed_trans before after)
    fun _ _ stopped => ⟨streamed_trans before stopped.1, stopped.2⟩

theorem streams_sink {α : Type} (act : EStateM StreamError Sink α) :
    Streams (onMachine (Eval.onSink .stream act)) := by
  intro s
  unfold Ends onMachine Eval.onSink
  cases run : act s.machine.sink with
  | ok a sink => simp only [run]; exact ⟨s.machine.source, sink, rfl⟩
  | error e sink => simp only [run]; exact ⟨⟨s.machine.source, sink, rfl⟩, e, rfl⟩

theorem streams_source {α : Type} (act : EStateM StreamError Source α) :
    Streams (onMachine (Eval.onSource .stream act)) := by
  intro s
  unfold Ends onMachine Eval.onSource
  cases act s.machine.source with
  | ok a source => exact ⟨source, s.machine.sink, rfl⟩
  | error e source => exact ⟨⟨source, s.machine.sink, rfl⟩, e, rfl⟩

theorem streams_ask (prompt : String) : Streams (ask prompt) :=
  streams_bind _ _ (streams_sink _) fun _ => streams_bind _ _ (streams_sink _) fun _ => streams_source _

end Session

end TreeWalk
