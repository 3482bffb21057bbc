import TreeWalk.Proofs.Drawn
import TreeWalk.Proofs.Longer
import TreeWalk.Proofs.Turns
import TreeWalk.Proofs.Untouched

set_option autoImplicit false

namespace TreeWalk

-- The lines of a text as a stream gives them, each with its line feed.
structure StreamLines (text : List Char) (lines : List String) : Prop where
  whole : lines.flatMap String.toList = text
  some : "" ∉ lines
  plain : ∀ line ∈ lines, '\n' ∉ line.toList.dropLast
  ended : ∀ line ∈ lines.dropLast, line.toList.getLast? = .some '\n'

-- A line that the prompt has read, the lines that its program has read, the octets that it has written, and what
-- was reported of it.
structure Round where
  line : String
  drawn : List String
  wrote : ByteArray
  failure : Option Error

def Round.reads (r : Round) : List String :=
  r.line :: r.drawn

-- What comes out: the prompt once for each line that it reads, the empty one at the end among them.
def Round.shown (prompt : String) : List Round → ByteArray
  | [] => prompt.toUTF8 ++ "\n".toUTF8
  | round :: rounds => prompt.toUTF8 ++ round.wrote ++ shown prompt rounds

namespace Session

def printed (text : String) (s : Session) : Session :=
  let sink := { s.machine.sink with written := s.machine.sink.written ++ text.toUTF8 }
  { s with machine := { s.machine with sink } }

-- The prompt is written, and a line is read of which the source is left.
def asked (prompt : String) (source : Source) (s : Session) : Session :=
  { s.printed prompt with machine := { (s.printed prompt).machine with source } }

-- The prompt is written once more, and the end of the input answered with a line feed.
def closed (prompt : String) (s : Session) : Session :=
  (s.printed prompt).printed "\n"

def outcome (failure : Option Error) (s : Session) : EStateM.Result Halt Session Unit :=
  match failure with
  | none => .ok () s
  | some error => .error (.failed error) s

-- What the program of a text reads.
def Draws (s : Session) (steps : Nat) (text : String) (lines : List String) : Prop :=
  match parse text s with
  | .ok program _ => TreeWalk.Draws (do resolve program; Regime.standard.interpret steps program) s.machine lines
  | .error _ _ => lines = []

-- The text is run to its end, or up to an error.
structure Runs (s : Session) (text : String) (drawn : List String) (wrote : ByteArray) (failure : Option Error)
    (t : Session) : Prop where
  ran : ∃ steps, run steps text s = outcome failure t ∧ s.Draws steps text drawn
  added : t.machine.sink.written = s.machine.sink.written ++ wrote

-- Rounds of the prompt, each in the state that the one before it left. A blank line is not run.
inductive Rounds (prompt : String) : Session → List Round → Session → Prop where
  | none (s : Session) : Rounds prompt s [] s
  | blank (s last : Session) (line : String) (source : Source) (rounds : List Round)
      (read : s.machine.source.readLine = .ok line source) (more : line ≠ "")
      (blank : line.toList.all Text.isBlank = true) (rest : Rounds prompt (s.asked prompt source) rounds last) :
      Rounds prompt s (⟨line, [], .empty, .none⟩ :: rounds) last
  | run (s t last : Session) (line : String) (source : Source) (drawn : List String) (wrote : ByteArray)
      (failure : Option Error) (rounds : List Round) (read : s.machine.source.readLine = .ok line source)
      (written : line.toList.all Text.isBlank = false) (runs : (s.asked prompt source).Runs line drawn wrote failure t)
      (rest : Rounds prompt t rounds last) : Rounds prompt s (⟨line, drawn, wrote, failure⟩ :: rounds) last

-- Every program that the prompt comes to has an end.
def Finishes (prompt : String) (s : Session) : Prop :=
  ∀ rounds t line source, s.Rounds prompt rounds t → t.machine.source.readLine = .ok line source →
    line.toList.all Text.isBlank = false → ∃ steps, ∀ u, run steps line (t.asked prompt source) ≠ .error .exhausted u

-- There is only text to be read, and the output takes everything.
structure Ready (s : Session) : Prop where
  text : s.machine.source.IsText
  limit : s.machine.sink.limit = none
  flushes : s.machine.sink.refusesFlush = false

end Session

section Lines

theorem stream_lines_nil {lines : List String} (formed : StreamLines [] lines) : lines = [] := by
  cases lines with
  | nil => rfl
  | cons line lines =>
      have blank : line = "" := by simpa using (List.append_eq_nil_iff.mp formed.whole).1
      exact (formed.some (blank ▸ List.mem_cons_self)).elim

theorem stream_lines_cons {line rest : List Char} {lines : List String} (here : line ≠ []) (plain : '\n' ∉ line.dropLast)
    (ended : rest ≠ [] → line.getLast? = some '\n') (behind : StreamLines rest lines) :
    StreamLines (line ++ rest) (String.ofList line :: lines) := by
  refine ⟨by simp [behind.whole], ?_, ?_, ?_⟩
  · intro member
    rcases List.mem_cons.mp member with same | later
    · exact here (by simpa using congrArg String.toList same.symm)
    · exact behind.some later
  · intro other member
    rcases List.mem_cons.mp member with rfl | later
    · simpa using plain
    · exact behind.plain other later
  · intro other member
    cases lines with
    | nil => simp at member
    | cons next lines =>
        rcases List.mem_cons.mp (show other ∈ String.ofList line :: (next :: lines).dropLast from member) with rfl | later
        · have more : rest ≠ [] := by
            rintro rfl
            cases stream_lines_nil behind
          simpa using ended more
        · exact behind.ended other later

theorem read_lines {source last : Source} {reads : List String} (read : source.Read reads last) (text : List Char)
    (valid : source.rest = text.map some) (spent : last.rest = []) :
    ∃ lines ends, StreamLines text lines ∧ reads = lines ++ List.replicate ends "" := by
  induction read generalizing text with
  | none source =>
      obtain rfl : text = [] := by simpa [valid] using spent
      exact ⟨[], 0, ⟨rfl, by simp, by simp, by simp⟩, rfl⟩
  | line source next last line lines first rest ih =>
      obtain ⟨taken, behind, whole, run, plain, more, ended⟩ := read_line_text text
      rw [← valid] at run
      cases first.symm.trans run
      obtain ⟨lines, ends, formed, rfl⟩ := ih behind rfl spent
      by_cases empty : text = []
      · subst empty
        obtain ⟨rfl, rfl⟩ := List.append_eq_nil_iff.mp whole.symm
        obtain rfl := stream_lines_nil formed
        exact ⟨[], ends + 1, formed, rfl⟩
      · exact ⟨String.ofList taken :: lines, ends, whole ▸ stream_lines_cons (more empty) plain ended formed, rfl⟩

end Lines

section Turns

variable {steps : Nat} {prompt line : String} {s t : Session} {source : Source}

theorem write_ready (ready : s.Ready) (text : String) : Session.write text s = .ok () (s.printed text) := by
  simp [Session.write, Session.onMachine, Eval.onSink, Sink.write, Sink.room, Sink.append, ready.limit, Session.printed]

theorem printed_ready (ready : s.Ready) (text : String) : (s.printed text).Ready :=
  ⟨ready.text, ready.limit, ready.flushes⟩

theorem asked_ready (ready : s.Ready) (read : s.machine.source.readLine = .ok line source) :
    (s.asked prompt source).Ready :=
  ⟨(line_text ready.text read).1, ready.limit, ready.flushes⟩

theorem flush_ready (ready : s.Ready) : Session.onMachine Eval.flush s = .ok () s := by
  simp [Session.onMachine, Eval.flush, Eval.onSink, Sink.flush, ready.flushes]

theorem ask_ready (ready : s.Ready) (read : s.machine.source.readLine = .ok line source) :
    Session.ask prompt s = .ok line (s.asked prompt source) := by
  unfold Session.ask
  rw [bind_ok _ (write_ready ready prompt), bind_ok _ (flush_ready (printed_ready ready prompt))]
  simp [Session.onMachine, Eval.onSource, Session.asked, Session.printed, read]

theorem read_over (spent : source.rest = []) : source.readLine = .ok "" source := by
  obtain ⟨rest⟩ := source
  cases spent
  rfl

theorem turn_over (ready : s.Ready) (spent : s.machine.source.rest = []) :
    Session.turn steps prompt s = .ok .over (s.closed prompt) := by
  rw [Session.turn_ask, bind_ok _ (ask_ready ready (read_over spent)), Session.respond_over,
    bind_ok _ (write_ready (asked_ready ready (read_over spent)) "\n")]
  rfl

theorem turn_blank (ready : s.Ready) (read : s.machine.source.readLine = .ok line source) (more : line ≠ "")
    (blank : line.toList.all Text.isBlank = true) :
    Session.turn steps prompt s = .ok .done (s.asked prompt source) := by
  rw [Session.turn_ask, bind_ok _ (ask_ready ready read), Session.respond_blank steps more blank]
  rfl

theorem turn_run (ready : s.Ready) (read : s.machine.source.readLine = .ok line source)
    (written : line.toList.all Text.isBlank = false) :
    Session.turn steps prompt s = Session.reporting (Session.run steps line) (s.asked prompt source) := by
  rw [Session.turn_ask, bind_ok _ (ask_ready ready read), Session.respond_run steps written]

end Turns

section Runs

variable {steps : Nat} {prompt line : String} {s t u : Session} {drawn others : List String}
  {wrote octets : ByteArray} {failure other : Option Error}

theorem sourceless_resolve (program : Program) : Sourceless (Session.resolve program) := by
  intro m source
  unfold Session.resolve
  rcases program.resolve m.distances with ⟨_ | _, _⟩ <;> rfl

theorem session_draws (steps : Nat) (line : String) (s : Session) : ∃ lines, s.Draws steps line lines := by
  unfold Session.Draws
  cases Session.parse line s with
  | ok program _ =>
      exact draws.follow _ _ (fun m => ⟨[], .quiet _ m (sourceless_resolve program)⟩)
        (fun _ => throughout_interpret (throughout_standard draws) steps program) s.machine
  | error _ _ => exact ⟨[], rfl⟩

theorem run_reads (valid : s.machine.source.IsText) (draws : s.Draws steps line drawn) :
    s.machine.source.Read drawn (endState (Session.run steps line s)).machine.source := by
  unfold Session.Draws at draws
  rcases run_cases steps line s with ⟨halt, parsed, run⟩ | ⟨program, t, parsed, run⟩
  · rw [parsed] at draws
    rw [run, draws]
    exact .none _
  · rw [parsed] at draws
    rw [run]
    exact draws_read draws valid

theorem resolve_manner (program : Program) : Leaves (fun m => m.sink.manner) (Session.resolve program) := by
  intro m
  unfold Session.resolve
  rcases program.resolve m.distances with ⟨_ | _, _⟩ <;> rfl

theorem run_manner (steps : Nat) (line : String) (s : Session) :
    (endState (Session.run steps line s)).machine.sink.manner = s.machine.sink.manner := by
  rcases run_cases steps line s with ⟨halt, _, run⟩ | ⟨program, _, _, run⟩
  · rw [run]
    rfl
  · rw [run]
    exact leaves_bind _ _ (resolve_manner program) (fun _ => interpret_leaves manner_aside steps program) s.machine

theorem resolve_appends (program : Program) : Appends (Session.resolve program) := by
  refine appends_none fun m => ?_
  unfold Session.resolve
  rcases program.resolve m.distances with ⟨_ | _, _⟩ <;> rfl

theorem run_appends (steps : Nat) (line : String) (s : Session) : ∃ wrote,
    (endState (Session.run steps line s)).machine.sink.written = s.machine.sink.written ++ wrote := by
  rcases run_cases steps line s with ⟨halt, _, run⟩ | ⟨program, _, _, run⟩
  · rw [run]
    exact ⟨.empty, ByteArray.append_empty.symm⟩
  · rw [run]
    exact appends_bind _ _ (resolve_appends program) (fun _ => interpret_appends steps program) s.machine

theorem outcome_state (failure : Option Error) (t : Session) : endState (Session.outcome failure t) = t := by
  cases failure <;> rfl

theorem outcome_back (failure : Option Error) (t u : Session) : Session.outcome failure t ≠ .error .exhausted u := by
  cases failure <;> nofun

theorem outcome_inj {failure other : Option Error} (same : Session.outcome failure t = Session.outcome other u) :
    failure = other ∧ t = u := by
  cases failure <;> cases other <;> cases same <;> exact ⟨rfl, rfl⟩

theorem runs_ready (ready : s.Ready) (runs : s.Runs line drawn wrote failure t) :
    s.machine.source.Read drawn t.machine.source ∧ t.Ready := by
  obtain ⟨steps, run, draws⟩ := runs.ran
  have read := run_reads ready.text draws
  have manner := run_manner steps line s
  rw [run, outcome_state] at read manner
  exact ⟨read, (read_text ready.text read).1, (congrArg Prod.fst manner).trans ready.limit,
    (congrArg Prod.snd manner).trans ready.flushes⟩

theorem runs_unique (one : s.Runs line drawn wrote failure t) (two : s.Runs line others octets other u) :
    failure = other ∧ t = u := by
  obtain ⟨first, run, _⟩ := one.ran
  obtain ⟨second, rerun, _⟩ := two.ran
  have long := run_longer run (outcome_back failure t) (Nat.le_max_left first second)
  have longer := run_longer rerun (outcome_back other u) (Nat.le_max_right first second)
  exact outcome_inj (long.symm.trans longer)

theorem finished_runs (finished : ∃ steps, ∀ t, Session.run steps line s ≠ .error .exhausted t) :
    ∃ drawn wrote failure t, s.Runs line drawn wrote failure t := by
  obtain ⟨steps, back⟩ := finished
  obtain ⟨drawn, draws⟩ := session_draws steps line s
  obtain ⟨wrote, added⟩ := run_appends steps line s
  cases run : Session.run steps line s with
  | ok _ t =>
      rw [run] at added
      exact ⟨drawn, wrote, none, t, ⟨steps, run, draws⟩, added⟩
  | error halt t =>
      rw [run] at added
      cases halt with
      | failed error => exact ⟨drawn, wrote, some error, t, ⟨steps, run, draws⟩, added⟩
      | exhausted => exact (back t run).elim

end Runs

section Loop

variable {prompt : String} {s last : Session} {rounds : List Round}

theorem written_some {line : String} (written : line.toList.all Text.isBlank = false) : line ≠ "" := by
  rintro rfl
  cases written

theorem rounds_read (ready : s.Ready) (chain : s.Rounds prompt rounds last) :
    s.machine.source.Read (rounds.flatMap Round.reads) last.machine.source := by
  induction chain with
  | none s => exact .none _
  | blank s last line source rounds read more blank rest ih =>
      exact .line _ _ _ _ _ read (ih (asked_ready ready read))
  | run s t last line source drawn wrote failure rounds read written runs rest ih =>
      obtain ⟨drew, later⟩ := runs_ready (asked_ready ready read) runs
      exact .line _ _ _ _ _ read (read_append drew (ih later))

theorem rounds_show (chain : s.Rounds prompt rounds last) :
    (last.closed prompt).machine.sink.written = s.machine.sink.written ++ Round.shown prompt rounds := by
  induction chain with
  | none s => exact ByteArray.append_assoc
  | blank s last line source rounds read more blank rest ih =>
      rw [ih, Round.shown, ByteArray.append_empty]
      exact ByteArray.append_assoc
  | run s t last line source drawn wrote failure rounds read written runs rest ih =>
      rw [ih, runs.added, Round.shown]
      simp only [Session.asked, Session.printed, ByteArray.append_assoc]

theorem rounds_turns (ready : s.Ready) (chain : s.Rounds prompt rounds last) (spent : last.machine.source.rest = []) :
    ∃ bound, ∀ steps, bound ≤ steps → ∀ turns reported, s.machine.source.rest.length < turns →
      Session.takeTurns steps prompt reported turns s =
        (⟨reported.reverse ++ rounds.filterMap Round.failure, .ok ()⟩, last.closed prompt) := by
  induction chain with
  | none s =>
      refine ⟨0, fun steps _ turns reported left => ?_⟩
      obtain ⟨turns, rfl⟩ := Nat.exists_eq_succ_of_ne_zero (Nat.ne_zero_of_lt left)
      simp [Session.takeTurns, turn_over ready spent]
  | blank s last line source rounds read more blank rest ih =>
      obtain ⟨bound, taken⟩ := ih (asked_ready ready read) spent
      refine ⟨bound, fun steps enough turns reported left => ?_⟩
      obtain ⟨turns, rfl⟩ := Nat.exists_eq_succ_of_ne_zero (Nat.ne_zero_of_lt left)
      have fewer : source.rest.length < turns :=
        Nat.lt_of_lt_of_le (line_shorter ready.text read more) (Nat.le_of_lt_succ left)
      simp only [Session.takeTurns, turn_blank ready read more blank]
      exact taken steps enough turns reported fewer
  | run s t last line source drawn wrote failure rounds read written runs rest ih =>
      obtain ⟨drew, later⟩ := runs_ready (asked_ready ready read) runs
      obtain ⟨bound, taken⟩ := ih later spent
      obtain ⟨some, run, _⟩ := runs.ran
      refine ⟨max some bound, fun steps enough turns reported left => ?_⟩
      obtain ⟨turns, rfl⟩ := Nat.exists_eq_succ_of_ne_zero (Nat.ne_zero_of_lt left)
      have ran := run_longer run (outcome_back failure t) (Nat.le_trans (Nat.le_max_left _ _) enough)
      have fewer : t.machine.source.rest.length < turns := by
        have shorter := line_shorter ready.text read (written_some written)
        have less : _ ≤ source.rest.length := (read_text (line_text ready.text read).1 drew).2
        omega
      have rests := fun reported => taken steps (Nat.le_trans (Nat.le_max_right _ _) enough) turns reported fewer
      unfold Session.takeTurns
      rw [turn_run ready read written]
      unfold Session.reporting
      rw [ran]
      cases failure with
      | none => exact rests reported
      | some error => exact (rests (error :: reported)).trans (by simp)

theorem rounds_exist (ready : s.Ready) (finishes : s.Finishes prompt) :
    ∃ rounds last, s.Rounds prompt rounds last ∧ last.machine.source.rest = [] := by
  induction long : s.machine.source.rest.length using Nat.strongRecOn generalizing s with
  | ind length ih =>
      by_cases spent : s.machine.source.rest = []
      · exact ⟨[], s, .none s, spent⟩
      obtain ⟨line, source, read, more⟩ := read_some ready.text spent
      have shorter := line_shorter ready.text read more
      have asked : (s.asked prompt source).Ready := asked_ready ready read
      cases blank : line.toList.all Text.isBlank with
      | true =>
          have onward : (s.asked prompt source).Finishes prompt := fun rounds t line' source' chain =>
            finishes _ t line' source' (.blank s t line source rounds read more blank chain)
          obtain ⟨rounds, last, chain, spent⟩ := ih _ (long ▸ shorter) asked onward rfl
          exact ⟨_, last, .blank s last line source rounds read more blank chain, spent⟩
      | false =>
          obtain ⟨drawn, wrote, failure, t, runs⟩ := finished_runs (finishes [] s line source (.none s) read blank)
          obtain ⟨drew, ready⟩ := runs_ready asked runs
          have less : _ ≤ source.rest.length := (read_text asked.text drew).2
          have onward : t.Finishes prompt := fun rounds u line' source' chain =>
            finishes _ u line' source' (.run s t u line source drawn wrote failure rounds read blank runs chain)
          obtain ⟨rounds, last, chain, spent⟩ := ih _ (long ▸ Nat.lt_of_le_of_lt less shorter) ready onward rfl
          exact ⟨_, last, .run s t last line source drawn wrote failure rounds read blank runs chain, spent⟩

theorem rounds_finish (chain : s.Rounds prompt rounds last) (spent : last.machine.source.rest = []) :
    s.Finishes prompt := by
  induction chain with
  | none s =>
      intro others t line' source' chain read written
      cases chain with
      | none _ =>
          cases (read_over spent).symm.trans read
          cases written
      | blank _ _ _ _ _ first more _ _ => exact (more (EStateM.Result.ok.inj (first.symm.trans (read_over spent))).1).elim
      | run _ _ _ _ _ _ _ _ _ first written' _ _ =>
          cases (read_over spent).symm.trans first
          cases written'
  | blank s last line source rounds first more blank rest ih =>
      intro others t line' source' chain read written
      cases chain with
      | none _ =>
          cases first.symm.trans read
          rw [blank] at written
          cases written
      | blank _ _ _ _ _ again _ _ chain =>
          cases first.symm.trans again
          exact ih spent _ t line' source' chain read written
      | run _ _ _ _ _ _ _ _ _ again written' _ _ =>
          cases first.symm.trans again
          rw [blank] at written'
          cases written'
  | run s t last line source drawn wrote failure rounds first written runs rest ih =>
      intro others u line' source' chain read written'
      cases chain with
      | none _ =>
          cases first.symm.trans read
          obtain ⟨steps, run, _⟩ := runs.ran
          exact ⟨steps, fun u out => outcome_back failure t u (run.symm.trans out)⟩
      | blank _ _ _ _ _ again _ blank _ =>
          cases first.symm.trans again
          rw [written] at blank
          cases blank
      | run _ _ _ _ _ _ _ _ _ again _ reruns chain =>
          cases first.symm.trans again
          obtain ⟨rfl, rfl⟩ := runs_unique runs reruns
          exact ih spent _ u line' source' chain read written'

end Loop

-- The steps are those that the longest of the programs needs, and any number above.
theorem prompt_reads_every_line (s : Session) (prompt text : String)
    (valid : s.machine.source.rest = text.toList.map some)
    (limit : s.machine.sink.limit = none) (flushes : s.machine.sink.refusesFlush = false)
    (finishes : s.Finishes prompt) :
    (∃ rounds last, s.Rounds prompt rounds last ∧ last.machine.source.rest = []) ∧
    ∀ rounds last, s.Rounds prompt rounds last → last.machine.source.rest = [] →
      (∃ lines ends, StreamLines text.toList lines ∧
        rounds.flatMap Round.reads = lines ++ List.replicate ends "") ∧
      (last.closed prompt).machine.sink.written = s.machine.sink.written ++ Round.shown prompt rounds ∧
      ∃ bound, ∀ steps, bound ≤ steps →
        Session.repl steps prompt s = (⟨rounds.filterMap Round.failure, .ok ()⟩, last.closed prompt) := by
  have ready : s.Ready := ⟨⟨text.toList, valid⟩, limit, flushes⟩
  refine ⟨rounds_exist ready finishes, fun rounds last chain spent => ⟨?_, rounds_show chain, ?_⟩⟩
  · exact read_lines (rounds_read ready chain) text.toList valid spent
  · obtain ⟨bound, taken⟩ := rounds_turns ready chain spent
    exact ⟨bound, fun steps enough => taken steps enough _ [] (Nat.lt_succ_self _)⟩

def Session.greeting : Session :=
  .start ⟨"Print(Input());\nhello".toList.map some⟩ .unlimited

def Session.drains (steps : Nat) (line : String) (wrote : ByteArray) (s : Session) : Bool :=
  match run steps line s with
  | .ok _ t => t.machine.source.rest.isEmpty && decide (t.machine.sink.written.data = (s.machine.sink.written ++ wrote).data)
  | .error _ _ => false

theorem drains_runs {steps : Nat} {line : String} {wrote : ByteArray} {s : Session}
    (drains : s.drains steps line wrote = true) :
    ∃ drawn last, s.Runs line drawn wrote none last ∧ last.machine.source.rest = [] := by
  obtain ⟨drawn, draws⟩ := session_draws steps line s
  unfold Session.drains at drains
  cases run : Session.run steps line s with
  | ok _ t =>
      rw [run] at drains
      obtain ⟨spent, added⟩ := Bool.and_eq_true_iff.mp drains
      exact ⟨drawn, t, ⟨⟨steps, run, draws⟩, ByteArray.ext (of_decide_eq_true added)⟩, List.isEmpty_iff.mp spent⟩
  | error halt t => rw [run] at drains; cases drains

theorem prompt_reads_every_line_greeting : ∃ (drawn : List String) (last : Session),
    Session.greeting.Finishes "> " ∧
    Session.greeting.Rounds "> " [⟨"Print(Input());\n", drawn, "hello\n".toUTF8, none⟩] last ∧
    (∃ lines ends, StreamLines "Print(Input());\nhello".toList lines ∧
      "Print(Input());\n" :: drawn = lines ++ List.replicate ends "") ∧
    (last.closed "> ").machine.sink.written = "> hello\n> \n".toUTF8 ∧
    ∃ bound, ∀ steps, bound ≤ steps →
      Session.repl steps "> " Session.greeting = (⟨[], .ok ()⟩, last.closed "> ") := by
  have drains : (Session.greeting.asked "> " ⟨"hello".toList.map some⟩).drains 9 "Print(Input());\n" "hello\n".toUTF8 := by
    decide +kernel
  obtain ⟨drawn, last, runs, spent⟩ := drains_runs drains
  have chain : Session.greeting.Rounds "> " [⟨"Print(Input());\n", drawn, "hello\n".toUTF8, none⟩] last :=
    .run _ last last _ ⟨"hello".toList.map some⟩ drawn _ none [] rfl (by decide) runs (.none last)
  have finishes := rounds_finish chain spent
  obtain ⟨⟨lines, ends, formed, reads⟩, shown, taken⟩ :=
    (prompt_reads_every_line Session.greeting "> " "Print(Input());\nhello" rfl rfl rfl finishes).2 _ last chain spent
  have octets : .empty ++ ("> ".toUTF8 ++ "hello\n".toUTF8 ++ ("> ".toUTF8 ++ "\n".toUTF8)) = "> hello\n> \n".toUTF8 := by
    decide +kernel
  exact ⟨drawn, last, finishes, chain, ⟨lines, ends, formed, by simpa [Round.reads] using reads⟩, shown.trans octets, taken⟩

end TreeWalk
