import TreeWalk.Proofs.Enough

set_option autoImplicit false

namespace TreeWalk

namespace Parser

inductive Stack : Task → Type where
  | bottom : Stack .program
  | frame (outer : Task) (began : Cursor) {task : Task} (next : task.Answer → Script outer.Answer)
      (below : Stack outer) : Stack task

structure Moment where
  task : Task
  began : Cursor
  script : Script task.Answer
  below : Stack task
  cursor : Cursor

namespace Stack

def resume : {task : Task} → Stack task → task.Answer → Cursor → Option Moment
  | _, bottom, _, _ => none
  | _, frame outer began next below, answer, c => some ⟨outer, began, next answer, below, c⟩

def outcome : {task : Task} → Stack task → task.Answer → Cursor → Option (Program × Nat)
  | _, bottom, program, c => some (program, c.nextId)
  | _, frame _ _ _ _, _, _ => none

def waiting : {task : Task} → Stack task → List (Task × Cursor)
  | _, bottom => []
  | _, frame outer began _ below => (outer, began) :: below.waiting

end Stack

namespace Moment

def start (firstId : Nat) (tokens : List Token) : Moment :=
  ⟨.program, ⟨tokens, firstId⟩, Task.program.script, .bottom, ⟨tokens, firstId⟩⟩

def step (m : Moment) : Option Moment :=
  match m.script with
  | .done answer => m.below.resume answer m.cursor
  | .refused _ _ => none
  | .looks next => some { m with script := next m.cursor.peek }
  | .advances next => some { m with script := next, cursor := m.cursor.advance }
  | .counts next => some { m with script := next m.cursor.nextId }
  | .marks line next =>
      some { m with
        script := next ⟨m.cursor.nextId, line⟩
        cursor := { m.cursor with nextId := m.cursor.nextId + 1 } }
  | .calls task next => some ⟨task, m.cursor, task.script, .frame m.task m.began next m.below, m.cursor⟩

def after : Nat → Moment → Option Moment
  | 0, m => some m
  | n + 1, m => m.step.bind (after n)

def outcome (m : Moment) : Option (Except ParseError (Program × Nat)) :=
  match m.script with
  | .done answer => (m.below.outcome answer m.cursor).map .ok
  | .refused token expected => some (.error (.ofToken token expected))
  | _ => none

def calls (m : Moment) : List (Task × Cursor) :=
  (m.task, m.began) :: m.below.waiting

section Steps

theorem after_append {m mid : Moment} {n : Nat} (first : m.after n = some mid) (k : Nat) :
    m.after (n + k) = mid.after k := by
  induction n generalizing m with
  | zero =>
      cases first
      rw [Nat.zero_add]
  | succ n ih =>
      obtain ⟨next, stepped, rest⟩ := Option.bind_eq_some_iff.mp first
      rw [Nat.add_right_comm, after, stepped]
      exact ih rest

theorem outcome_stops {m : Moment} {answer : Except ParseError (Program × Nat)} (out : m.outcome = some answer) :
    m.step = none := by
  obtain ⟨task, began, script, below, c⟩ := m
  cases script with
  | done a =>
      cases below with
      | bottom => rfl
      | frame outer began next below => cases out
  | refused token expected => rfl
  | _ => cases out

end Steps

end Moment

section Runs

variable {task : Task} (began : Cursor) (below : Stack task)

def Shows (s : Script task.Answer) (c : Cursor) : EStateM.Result Stop Cursor task.Answer → Prop
  | .ok answer last => ∃ n, (Moment.mk task began s below c).after n = some ⟨task, began, .done answer, below, last⟩
  | .error (.refused error) _ => ∃ n m, (Moment.mk task began s below c).after n = some m ∧ m.outcome = some (.error error)
  | .error .exhausted _ => True

theorem shows_after {s : Script task.Answer} {c last : Cursor} {m : Moment}
    {result : EStateM.Result Stop Cursor task.Answer} {n : Nat} {t : Script task.Answer}
    (there : (Moment.mk task began s below c).after n = some m) (back : m.step = some ⟨task, began, t, below, last⟩)
    (rest : Shows began below t last result) : Shows began below s c result := by
  have reached : (Moment.mk task began s below c).after (n + 1) = some ⟨task, began, t, below, last⟩ := by
    rw [Moment.after_append there, Moment.after, back]
    rfl
  match result, rest with
  | .ok answer last, ⟨k, later⟩ => exact ⟨n + 1 + k, (Moment.after_append reached k).trans later⟩
  | .error (.refused error) _, ⟨k, m, later, out⟩ => exact ⟨n + 1 + k, m, (Moment.after_append reached k).trans later, out⟩
  | .error .exhausted _, _ => trivial

theorem shows_step {s t : Script task.Answer} {c d : Cursor} {result : EStateM.Result Stop Cursor task.Answer}
    (stepped : (Moment.mk task began s below c).step = some ⟨task, began, t, below, d⟩)
    (rest : Shows began below t d result) : Shows began below s c result :=
  have here : (Moment.mk task began s below c).after 0 = some ⟨task, began, s, below, c⟩ := rfl
  shows_after began below here stepped rest

theorem script_shows {n : Nat} (s : Script task.Answer) (c : Cursor)
    (called : ∀ (inner : Task) (c : Cursor) (below : Stack inner), Shows c below inner.script c (inner.read n c)) :
    Shows began below s c (s.play n c) := by
  induction s generalizing c with
  | done answer => exact ⟨0, rfl⟩
  | refused token expected => exact ⟨0, _, rfl, rfl⟩
  | looks next ih => exact shows_step began below rfl (ih _ c)
  | advances next ih => exact shows_step began below rfl (ih c.advance)
  | counts next ih => exact shows_step began below rfl (ih _ c)
  | marks line next ih => exact shows_step began below rfl (ih _ _)
  | calls inner next ih =>
      have down := called inner c (.frame task began next below)
      show Shows began below (.calls inner next) c ((inner.read n >>= fun answer => (next answer).play n) c)
      cases run : inner.read n c with
      | ok answer last =>
          rw [run] at down
          obtain ⟨k, there⟩ := down
          rw [bind_ok _ run]
          have back : (Moment.mk task began (.calls inner next) below c).after (k + 1) =
            some ⟨inner, c, .done answer, .frame task began next below, last⟩ := there
          exact shows_after began below back rfl (ih answer last)
      | error stop last =>
          rw [bind_error _ run]
          rw [run] at down
          cases stop with
          | refused error =>
              obtain ⟨k, m, there, out⟩ := down
              exact ⟨k + 1, m, there, out⟩
          | exhausted => trivial

end Runs

theorem read_zero (task : Task) (c : Cursor) : task.read 0 c = .error .exhausted c := by
  cases task <;> rfl

theorem read_shows (n : Nat) (task : Task) (c began : Cursor) (below : Stack task) :
    Shows began below task.script c (task.read n c) := by
  induction n generalizing task c began with
  | zero =>
      rw [read_zero]
      trivial
  | succ n ih =>
      rw [← Script.play_script]
      exact script_shows began below task.script c fun inner c below => ih inner c c below

theorem parse_shows (firstId : Nat) (tokens : List Token) :
    ∃ n m, (Moment.start firstId tokens).after n = some m ∧ m.outcome = some (parse firstId tokens) := by
  have shown := read_shows (stepBound tokens) .program ⟨tokens, firstId⟩ ⟨tokens, firstId⟩ .bottom
  unfold parse
  cases run : (program (stepBound tokens)).run ⟨tokens, firstId⟩ with
  | ok list last =>
      rw [show Task.program.read (stepBound tokens) ⟨tokens, firstId⟩ = .ok list last from run] at shown
      obtain ⟨n, there⟩ := shown
      exact ⟨n, _, there, rfl⟩
  | error stop last =>
      rw [show Task.program.read (stepBound tokens) ⟨tokens, firstId⟩ = .error stop last from run] at shown
      cases stop with
      | refused error => exact shown
      | exhausted => exact absurd run (program_never_exhausted (Nat.le_refl _) last)

end Parser

end TreeWalk
