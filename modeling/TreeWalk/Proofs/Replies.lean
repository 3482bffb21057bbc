import Mathlib.Data.List.DropRight
import TreeWalk.Proofs.Rounds
import TreeWalk.Text.Lines

set_option autoImplicit false

namespace TreeWalk

open Eval

namespace Text

-- A line of a text without its line ending; behind the last line there is nothing.
def lineAt (text : List Char) (n : Nat) : List Char :=
  (lines text)[n]?.getD []

def withoutReturns (line : List Char) : List Char :=
  line.rdropWhile (· == '\r')

end Text

-- What a run comes to, where it does not fail.
def endValue? {α : Type} : EStateM.Result Halt Machine α → Option α
  | .ok a _ => some a
  | .error _ _ => none

-- What the calls of the native that reads answer while a program runs, in order, with `none` for a
-- call that fails.
inductive Replies : {α : Type} → Eval α → Machine → List (Option Value) → Prop where
  | quiet {α : Type} (p : Eval α) (m : Machine) (sourceless : Sourceless p)
      (leaves : Leaves (fun m => m.sink.manner) p) : Replies p m []
  | input (arguments : List Value) (line : Nat) (m : Machine) :
      Replies (Native.input.call arguments line) m [endValue? (Native.input.call arguments line m)]
  | next {α β : Type} (p : Eval α) (f : α → Eval β) (m n : Machine) (a : α) (first rest : List (Option Value))
      (run : p m = .ok a n) (before : Replies p m first) (after : Replies (f a) n rest) :
      Replies (p >>= f) m (first ++ rest)
  | stopped {α β : Type} (p : Eval α) (f : α → Eval β) (m n : Machine) (halt : Halt) (replies : List (Option Value))
      (run : p m = .error halt n) (before : Replies p m replies) : Replies (p >>= f) m replies
  | inside {α : Type} (env : Env) (p : Eval α) (m : Machine) (replies : List (Option Value))
      (inner : Replies p { m with env } replies) : Replies (within env p) m replies

namespace Session

def Replies (s : Session) (steps : Nat) (source : String) (replies : List (Option Value)) : Prop :=
  match parse source s with
  | .ok program _ => TreeWalk.Replies (do resolve program; Regime.standard.interpret steps program) s.machine replies
  | .error _ _ => replies = []

-- The replies during texts that are run one after the other.
inductive Hears : Session → List (Nat × String) → List (Option Value) → Prop where
  | none (s : Session) : Hears s [] []
  | run (s : Session) (steps : Nat) (source : String) (runs : List (Nat × String)) (first rest : List (Option Value))
      (here : s.Replies steps source first) (behind : Hears (endState (run steps source s)) runs rest) :
      Hears s ((steps, source) :: runs) (first ++ rest)

end Session

-- Every reply is the next line of the text, and the rest of the text has the lines behind them.
structure Answered (text : List Char) (replies : List (Option Value)) (rest : List Char) : Prop where
  lines : Text.lines rest = (Text.lines text).drop replies.length
  each : ∀ n (made : n < replies.length),
    replies[n] = some (.string (String.ofList (Text.withoutReturns (Text.lineAt text n))))

-- A machine that has text to read, and an output that can be flushed.
structure Machine.Reads (m : Machine) (text : List Char) : Prop where
  source : m.source.rest = text.map some
  flushes : m.sink.refusesFlush = false

section Lines

theorem somes_of_map_id {α : Type} (items : List (Option α)) (found : List α) (read : items.mapM id = some found) :
    items = found.map some := by
  induction items generalizing found with
  | nil =>
      cases read
      rfl
  | cons item items ih =>
      rw [List.mapM_cons] at read
      obtain ⟨first, here, later⟩ := Option.bind_eq_some_iff.mp read
      obtain ⟨rest, behind, same⟩ := Option.bind_eq_some_iff.mp later
      cases same
      rw [ih rest behind, List.map_cons]
      exact congrArg (· :: _) here

namespace Text

theorem lines_from_feed (earlier line rest : List Char) (plain : '\n' ∉ line) :
    linesFrom earlier (line ++ '\n' :: rest) = (dropReturn (line.reverse ++ earlier)).reverse :: lines rest := by
  induction line generalizing earlier with
  | nil => rfl
  | cons c line ih =>
      obtain ⟨other, later⟩ := not_or.mp (mt List.mem_cons.mpr plain)
      rw [List.cons_append, linesFrom, if_neg (Ne.symm other), ih (c :: earlier) later]
      simp

theorem lines_from_last (earlier line : List Char) (plain : '\n' ∉ line) (some : line ≠ []) :
    linesFrom earlier line = [earlier.reverse ++ line] := by
  induction line generalizing earlier with
  | nil => exact (some rfl).elim
  | cons c line ih =>
      obtain ⟨other, later⟩ := not_or.mp (mt List.mem_cons.mpr plain)
      rw [linesFrom, if_neg (Ne.symm other)]
      by_cases last : line = []
      · simp [last, linesFrom]
      · rw [ih (c :: earlier) later last]
        simp

theorem drop_return_returns (line : List Char) :
    (dropReturn line).dropWhile (· == '\r') = line.dropWhile (· == '\r') := by
  unfold dropReturn
  split <;> simp

theorem trim_line_plain (line : List Char) (plain : '\n' ∉ line) :
    line.rdropWhile (fun c => c == '\n' || c == '\r') = withoutReturns line := by
  have same : ∀ line : List Char, '\n' ∉ line →
      line.dropWhile (fun c => c == '\n' || c == '\r') = line.dropWhile (· == '\r') := by
    intro line plain
    induction line with
    | nil => rfl
    | cons c line ih =>
        obtain ⟨other, later⟩ := not_or.mp (mt List.mem_cons.mpr plain)
        simp [List.dropWhile_cons, Ne.symm other, ih later]
  exact congrArg List.reverse (same line.reverse (by simpa using plain))

theorem trim_line (line : List Char) :
    Native.trimLine (String.ofList line) = String.ofList (line.rdropWhile fun c => c == '\n' || c == '\r') := by
  simp [Native.trimLine, List.rdropWhile]

theorem line_read (text : List Char) : ∃ line rest,
    Source.readLine ⟨text.map some⟩ = .ok (String.ofList line) ⟨rest.map some⟩ ∧
    lines rest = (lines text).tail ∧
    Native.trimLine (String.ofList line) = String.ofList (withoutReturns (lineAt text 0)) := by
  obtain ⟨line, rest, rfl, read, plain, more, ended⟩ := read_line_text text
  refine ⟨line, rest, read, ?_⟩
  rw [trim_line]
  obtain rfl | ⟨inside, last, rfl⟩ := List.eq_nil_or_concat' line
  · have none : rest = [] := by
      by_contra left
      exact more left rfl
    subst none
    exact ⟨rfl, rfl⟩
  · rw [List.dropLast_concat] at plain
    by_cases feed : last = '\n'
    · subst feed
      have whole : lines (inside ++ ['\n'] ++ rest) = (dropReturn inside.reverse).reverse :: lines rest := by
        simpa [lines] using lines_from_feed [] inside rest plain
      refine ⟨by rw [whole, List.tail_cons], ?_⟩
      rw [List.rdropWhile_concat_pos _ _ _ (by rfl), trim_line_plain inside plain, lineAt, whole]
      simp only [List.getElem?_cons_zero, Option.getD_some, withoutReturns, List.rdropWhile_reverse,
        drop_return_returns]
      rfl
    · have none : rest = [] := by
        by_contra left
        exact feed (by simpa using ended left)
      have plain : '\n' ∉ inside ++ [last] := by simp [plain, Ne.symm feed]
      have whole : lines (inside ++ [last] ++ rest) = [inside ++ [last]] := by
        simpa [lines, none] using lines_from_last [] (inside ++ [last]) plain (by simp)
      exact ⟨by rw [whole, none]; rfl, by rw [trim_line_plain _ plain, lineAt, whole]; rfl⟩

theorem without_returns_same (line : List Char) : withoutReturns line = line ↔ line.getLast? ≠ some '\r' := by
  rw [withoutReturns, List.rdropWhile_eq_self_iff]
  cases line using List.reverseRecOn <;> simp

end Text

end Lines

section Calls

variable {text mid last : List Char} {first rest : List (Option Value)} {m : Machine}

theorem answered_none (text : List Char) : Answered text [] text :=
  ⟨rfl, nofun⟩

theorem answered_append (before : Answered text first mid) (after : Answered mid rest last) :
    Answered text (first ++ rest) last := by
  refine ⟨?_, fun n made => ?_⟩
  · rw [after.lines, before.lines, List.drop_drop, List.length_append]
  · by_cases early : n < first.length
    · rw [List.getElem_append_left early]
      exact before.each n early
    · have late : first.length ≤ n := Nat.le_of_not_lt early
      have same : Text.lineAt mid (n - first.length) = Text.lineAt text n := by
        rw [Text.lineAt, before.lines, List.getElem?_drop, Nat.add_sub_cancel' late, Text.lineAt]
      rw [List.getElem_append_right late, ← same]
      exact after.each _ _

theorem flush_reads (reads : m.Reads text) (report : StreamError → Error) : onSink report Sink.flush m = .ok () m := by
  simp [onSink, Sink.flush, reads.flushes]

theorem input_answers (arguments : List Value) (line : Nat) (reads : m.Reads text) :
    ∃ rest, Answered text [endValue? (Native.input.call arguments line m)] rest ∧
      (endState (Native.input.call arguments line m)).Reads rest := by
  obtain ⟨taken, rest, read, behind, trimmed⟩ := Text.line_read text
  have had : onSource (Native.input.streamError line) Source.readLine m =
      .ok (String.ofList taken) { m with source := ⟨rest.map some⟩ } := by
    obtain ⟨store, env, distances, ⟨_⟩, sink⟩ := m
    cases reads.source
    simp only [onSource, read]
  have run : Native.input.call arguments line m =
      .ok (.string (Native.trimLine (String.ofList taken))) { m with source := ⟨rest.map some⟩ } := by
    rw [input_call, bind_ok _ (flush_reads reads _), bind_ok _ had]
    rfl
  refine ⟨rest, ⟨by rw [behind, List.length_singleton, List.drop_one], fun n made => ?_⟩, ?_⟩
  · obtain rfl : n = 0 := by simpa using made
    simp only [endValue?, run, List.getElem_cons_zero, trimmed]
  · rw [run]
    exact ⟨rfl, reads.flushes⟩

theorem replies_answered {α : Type} {p : Eval α} {m : Machine} {replies : List (Option Value)}
    (made : Replies p m replies) {text : List Char} (reads : m.Reads text) :
    ∃ rest, Answered text replies rest ∧ (endState (p m)).Reads rest := by
  induction made generalizing text with
  | quiet p m sourceless leaves =>
      have same : (endState (p m)).source.rest = text.map some := by
        rw [sourceless_source sourceless]
        exact reads.source
      exact ⟨text, answered_none text, same, (congrArg Prod.snd (leaves m)).trans reads.flushes⟩
  | input arguments line m => exact input_answers arguments line reads
  | next p f m n a first rest run before after one two =>
      obtain ⟨mid, answered, going⟩ := one reads
      rw [run] at going
      obtain ⟨last, later, ended⟩ := two going
      rw [bind_ok f run]
      exact ⟨last, answered_append answered later, ended⟩
  | stopped p f m n halt replies run before ih =>
      obtain ⟨rest, answered, ended⟩ := ih reads
      rw [run] at ended
      rw [bind_error f run]
      exact ⟨rest, answered, ended⟩
  | inside env p m replies inner ih =>
      obtain ⟨rest, answered, ended⟩ := ih ⟨reads.source, reads.flushes⟩
      refine ⟨rest, answered, ?_⟩
      unfold within
      cases run : p { m with env } <;> rw [run] at ended <;> exact ⟨ended.source, ended.flushes⟩

end Calls

section Runs

theorem replies : Throughout fun {α} (p : Eval α) => ∀ m, ∃ replies, Replies p m replies :=
  have aside := leaves manner_aside
  { done := fun a m => ⟨[], .quiet _ m (fun _ _ => rfl) (aside.done a)⟩
    follow := fun p f first rest m => by
      obtain ⟨replies, before⟩ := first m
      cases run : p m with
      | ok a n =>
          obtain ⟨more, after⟩ := rest a n
          exact ⟨replies ++ more, .next p f m n a replies more run before after⟩
      | error halt n => exact ⟨replies, .stopped p f m n halt replies run before⟩
    env := fun m => ⟨[], .quiet _ m (fun _ _ => rfl) aside.env⟩
    distance := fun id m => ⟨[], .quiet _ m (fun _ _ => rfl) (aside.distance id)⟩
    exhausted := fun m => ⟨[], .quiet _ m (fun _ _ => rfl) aside.exhausted⟩
    failed := fun line fault m => ⟨[], .quiet _ m (fun _ _ => rfl) (aside.failed line fault)⟩
    store := fun line act m => ⟨[], .quiet _ m (sourceless_store line act) (aside.store line act)⟩
    print := fun native line text m => ⟨[], .quiet _ m (sourceless_sink _ _) (aside.print native line text)⟩
    input := fun arguments line m => ⟨_, .input arguments line m⟩
    flushed := fun m => ⟨[], .quiet _ m (sourceless_sink _ _) aside.flushed⟩
    inside := fun env p inner m => by
      obtain ⟨replies, made⟩ := inner { m with env }
      exact ⟨replies, .inside env p m replies made⟩ }

theorem session_replies (steps : Nat) (source : String) (s : Session) : ∃ replies, s.Replies steps source replies := by
  unfold Session.Replies
  cases Session.parse source s with
  | ok program _ =>
      exact replies.follow _ _ (fun m => ⟨[], .quiet _ m (sourceless_resolve program) (resolve_manner program)⟩)
        (fun _ => throughout_interpret (throughout_standard replies) steps program) s.machine
  | error _ _ => exact ⟨[], rfl⟩

theorem session_hears (runs : List (Nat × String)) (s : Session) : ∃ replies, s.Hears runs replies := by
  induction runs generalizing s with
  | nil => exact ⟨[], .none s⟩
  | cons run runs ih =>
      obtain ⟨first, here⟩ := session_replies run.1 run.2 s
      obtain ⟨rest, behind⟩ := ih (endState (Session.run run.1 run.2 s))
      exact ⟨first ++ rest, .run s run.1 run.2 runs first rest here behind⟩

theorem run_answered {s : Session} {steps : Nat} {source : String} {replies : List (Option Value)} {text : List Char}
    (made : s.Replies steps source replies) (reads : s.machine.Reads text) :
    ∃ rest, Answered text replies rest ∧ (endState (Session.run steps source s)).machine.Reads rest := by
  unfold Session.Replies at made
  rcases run_cases steps source s with ⟨halt, parsed, run⟩ | ⟨program, t, parsed, run⟩
  · rw [parsed] at made
    rw [run, made]
    exact ⟨text, answered_none text, reads⟩
  · rw [parsed] at made
    rw [run]
    exact replies_answered made reads

theorem hears_answered {s : Session} {runs : List (Nat × String)} {replies : List (Option Value)}
    (hears : s.Hears runs replies) {text : List Char} (reads : s.machine.Reads text) :
    ∃ rest, Answered text replies rest ∧ (s.after runs).machine.Reads rest := by
  induction hears generalizing text with
  | none s => exact ⟨text, answered_none text, reads⟩
  | run s steps source runs first rest here behind ih =>
      obtain ⟨mid, answered, going⟩ := run_answered here reads
      obtain ⟨last, later, ended⟩ := ih going
      exact ⟨last, answered_append answered later, ended⟩

end Runs

-- The call in place `n` answers line `n`, and with nothing behind the last line, except that no reply
-- ends in a carriage return. So it is the line itself that is answered where that does not.
theorem inputs_answer_lines (octets : List UInt8) (text : List Char) (sink : Sink) (runs : List (Nat × String))
    (valid : Text.decode? octets = some text) (flushes : sink.refusesFlush = false) :
    (∃ replies, (Session.start (.ofOctets octets) sink).Hears runs replies) ∧
    ∀ replies, (Session.start (.ofOctets octets) sink).Hears runs replies →
      (∃ rest, ((Session.start (.ofOctets octets) sink).after runs).machine.source = ⟨rest.map some⟩ ∧
        Text.lines rest = (Text.lines text).drop replies.length) ∧
      ∀ n (made : n < replies.length),
        replies[n] = some (.string (String.ofList (Text.withoutReturns (Text.lineAt text n)))) ∧
        (replies[n] = some (.string (String.ofList (Text.lineAt text n))) ↔
          (Text.lineAt text n).getLast? ≠ some '\r') := by
  have reads : (Session.start (.ofOctets octets) sink).machine.Reads text := ⟨somes_of_map_id _ text valid, flushes⟩
  refine ⟨session_hears runs _, fun replies hears => ?_⟩
  obtain ⟨rest, answered, ended⟩ := hears_answered hears reads
  refine ⟨⟨rest, congrArg Source.mk ended.source, answered.lines⟩, fun n made => ⟨answered.each n made, ?_⟩⟩
  rw [answered.each n made, ← Text.without_returns_same, Option.some_inj, Value.string.injEq, String.ofList_inj]

def Session.returning : Session :=
  .start (.ofOctets [97, 13, 13, 10]) .unlimited

theorem returning_hears : ∃ replies, ∃ _ : 0 < replies.length, Session.returning.Hears [(9, "Input();")] replies := by
  obtain ⟨replies, hears⟩ := session_hears [(9, "Input();")] .returning
  have reads : Session.returning.machine.Reads "a\r\r\n".toList := ⟨by decide +kernel, rfl⟩
  obtain ⟨rest, answered, ended⟩ := hears_answered hears reads
  have spent : (Session.returning.after [(9, "Input();")]).machine.source.rest.isEmpty = true := by decide +kernel
  have none : rest = [] := by simpa [ended.source] using spent
  refine ⟨replies, Nat.pos_of_ne_zero fun length => ?_, hears⟩
  have lines := answered.lines
  rw [none, length] at lines
  cases lines

theorem inputs_answer_lines_returning : ∃ replies, ∃ made : 0 < replies.length,
    Session.returning.Hears [(9, "Input();")] replies ∧ replies[0] = some (.string "a") := by
  obtain ⟨replies, made, hears⟩ := returning_hears
  have answers := (inputs_answer_lines [97, 13, 13, 10] "a\r\r\n".toList .unlimited [(9, "Input();")]
    (by decide +kernel) rfl).2 replies hears
  have trimmed : String.ofList (Text.withoutReturns (Text.lineAt "a\r\r\n".toList 0)) = "a" := by decide +kernel
  exact ⟨replies, made, hears, trimmed ▸ (answers.2 0 made).1⟩

-- The carriage return belongs to the line, of which only the line ending is to be left out.
theorem input_drops_a_return : ∃ replies, ∃ made : 0 < replies.length,
    Session.returning.Hears [(9, "Input();")] replies ∧
    Text.lineAt "a\r\r\n".toList 0 = "a\r".toList ∧ replies[0] ≠ some (.string "a\r") := by
  obtain ⟨replies, made, hears⟩ := returning_hears
  have reads : Session.returning.machine.Reads "a\r\r\n".toList := ⟨by decide +kernel, rfl⟩
  obtain ⟨rest, answered, _⟩ := hears_answered hears reads
  refine ⟨replies, made, hears, by decide +kernel, ?_⟩
  rw [answered.each 0 made, Ne, Option.some_inj, Value.string.injEq]
  decide +kernel

end TreeWalk
