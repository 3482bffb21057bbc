import TreeWalk.Proofs.Environments

set_option autoImplicit false

namespace TreeWalk

open Eval

-- The lines are read from the first source, which leaves the second.
inductive Source.Read : Source → List String → Source → Prop where
  | none (source : Source) : Read source [] source
  | line (source next last : Source) (text : String) (lines : List String)
      (first : source.readLine = .ok text next) (rest : Read next lines last) : Read source (text :: lines) last

def Source.IsText (source : Source) : Prop :=
  ∃ text : List Char, source.rest = text.map some

-- A step that takes no notice of the input.
def Sourceless {α : Type} (p : Eval α) : Prop :=
  ∀ m source, p { m with source } =
    match p m with
    | .ok a n => .ok a { n with source }
    | .error halt n => .error halt { n with source }

-- What a call of the native reads. Where the output cannot be flushed it does not come to it.
def Machine.drawn (m : Machine) : List String :=
  if m.sink.refusesFlush then []
  else
    match m.source.readLine with
    | .ok text _ => [text]
    | .error _ _ => []

-- The lines that are read while a program runs, by the calls of the native, in order.
inductive Draws : {α : Type} → Eval α → Machine → List String → Prop where
  | quiet {α : Type} (p : Eval α) (m : Machine) (sourceless : Sourceless p) : Draws p m []
  | input (arguments : List Value) (line : Nat) (m : Machine) : Draws (Native.input.call arguments line) m m.drawn
  | next {α β : Type} (p : Eval α) (f : α → Eval β) (m n : Machine) (a : α) (first rest : List String)
      (run : p m = .ok a n) (before : Draws p m first) (after : Draws (f a) n rest) : Draws (p >>= f) m (first ++ rest)
  | stopped {α β : Type} (p : Eval α) (f : α → Eval β) (m n : Machine) (halt : Halt) (lines : List String)
      (run : p m = .error halt n) (before : Draws p m lines) : Draws (p >>= f) m lines
  | inside {α : Type} (env : Env) (p : Eval α) (m : Machine) (lines : List String) (inner : Draws p { m with env } lines) :
      Draws (within env p) m lines

section Sources

theorem read_append {source mid last : Source} {first rest : List String} (before : source.Read first mid)
    (after : mid.Read rest last) : source.Read (first ++ rest) last := by
  induction before with
  | none source => exact after
  | line source next mid text lines first rest ih => exact .line _ _ _ _ _ first (ih after)

theorem cut_line_text (text : List Char) : ∃ line rest, text = line ++ rest ∧
    Source.cutLine (text.map some) = (line.map some, rest.map some) ∧
    '\n' ∉ line.dropLast ∧ (text ≠ [] → line ≠ []) ∧ (rest ≠ [] → line.getLast? = some '\n') := by
  induction text with
  | nil => exact ⟨[], [], rfl, rfl, by simp, by simp, by simp⟩
  | cons c text ih =>
      by_cases feed : c = '\n'
      · subst feed
        exact ⟨['\n'], text, rfl, by simp [Source.cutLine], by simp, by simp, by simp⟩
      · obtain ⟨line, rest, rfl, cut, plain, _, ended⟩ := ih
        rw [List.map_append] at cut
        refine ⟨c :: line, rest, rfl, by simp [Source.cutLine, feed, cut], ?_, by simp, fun more => ?_⟩
        · cases line with
          | nil => simp
          | cons d line => simpa [Ne.symm feed] using plain
        · rw [List.getLast?_cons, ended more]
          rfl

theorem map_id_somes {α : Type} (as : List α) : (as.map some).mapM id = some as := by
  induction as with
  | nil => rfl
  | cons a as ih => simp [ih]

theorem read_line_text (text : List Char) : ∃ line rest, text = line ++ rest ∧
    Source.readLine ⟨text.map some⟩ = .ok (String.ofList line) ⟨rest.map some⟩ ∧
    '\n' ∉ line.dropLast ∧ (text ≠ [] → line ≠ []) ∧ (rest ≠ [] → line.getLast? = some '\n') := by
  obtain ⟨line, rest, whole, cut, facts⟩ := cut_line_text text
  refine ⟨line, rest, whole, ?_, facts⟩
  unfold Source.readLine
  simp only [cut, map_id_somes]

variable {source next last : Source} {line : String} {lines : List String}

theorem line_text (valid : source.IsText) (read : source.readLine = .ok line next) :
    next.IsText ∧ source.rest.length = line.toList.length + next.rest.length := by
  obtain ⟨text, valid⟩ := valid
  obtain ⟨taken, behind, rfl, run, _⟩ := read_line_text text
  rw [← valid] at run
  cases read.symm.trans run
  exact ⟨⟨behind, rfl⟩, by simp [valid]⟩

theorem line_shorter (valid : source.IsText) (read : source.readLine = .ok line next) (more : line ≠ "") :
    next.rest.length < source.rest.length := by
  have long : 0 < line.toList.length := List.length_pos_iff.mpr fun none => more (String.toList_eq_nil_iff.mp none)
  have lengths := (line_text valid read).2
  omega

theorem read_some (valid : source.IsText) (more : source.rest ≠ []) :
    ∃ line next, source.readLine = .ok line next ∧ line ≠ "" := by
  obtain ⟨text, valid⟩ := valid
  obtain ⟨taken, behind, _, run, _, some, _⟩ := read_line_text text
  rw [← valid] at run
  refine ⟨String.ofList taken, ⟨behind.map .some⟩, run, fun none => ?_⟩
  exact some (by rintro rfl; exact more valid) (by simpa using congrArg String.toList none)

theorem read_text (valid : source.IsText) (read : source.Read lines last) :
    last.IsText ∧ last.rest.length ≤ source.rest.length := by
  induction read with
  | none source => exact ⟨valid, Nat.le_refl _⟩
  | line source next last line lines first rest ih =>
      obtain ⟨later, lengths⟩ := line_text valid first
      obtain ⟨final, shorter⟩ := ih later
      exact ⟨final, by omega⟩

end Sources

section Steps

variable {α β : Type}

theorem sourceless_source {p : Eval α} (sourceless : Sourceless p) (m : Machine) :
    (endState (p m)).source = m.source := by
  have same := sourceless m m.source
  cases run : p m with
  | ok a n =>
      rw [show { m with source := m.source } = m from rfl, run] at same
      exact congrArg (Machine.source ∘ endState) same
  | error halt n =>
      rw [show { m with source := m.source } = m from rfl, run] at same
      exact congrArg (Machine.source ∘ endState) same

theorem sourceless_sink (report : StreamError → Error) (act : EStateM StreamError Sink α) :
    Sourceless (onSink report act) := by
  intro m source
  unfold onSink
  cases run : act m.sink <;> simp only [run]

theorem sourceless_store (line : Nat) (act : StoreM α) : Sourceless (onStore line act) := by
  intro m source
  unfold onStore
  cases run : act m.store <;> simp only [run]

theorem draws : Throughout fun {α} (p : Eval α) => ∀ m, ∃ lines, Draws p m lines where
  done _ m := ⟨[], .quiet _ m fun _ _ => rfl⟩
  follow p f first rest m := by
    obtain ⟨lines, before⟩ := first m
    cases run : p m with
    | ok a n =>
        obtain ⟨more, after⟩ := rest a n
        exact ⟨lines ++ more, .next p f m n a lines more run before after⟩
    | error halt n => exact ⟨lines, .stopped p f m n halt lines run before⟩
  env m := ⟨[], .quiet _ m fun _ _ => rfl⟩
  distance _ m := ⟨[], .quiet _ m fun _ _ => rfl⟩
  exhausted m := ⟨[], .quiet _ m fun _ _ => rfl⟩
  failed _ _ m := ⟨[], .quiet _ m fun _ _ => rfl⟩
  store _ _ m := ⟨[], .quiet _ m (sourceless_store _ _)⟩
  print _ _ _ m := ⟨[], .quiet _ m (sourceless_sink _ _)⟩
  input arguments line m := ⟨m.drawn, .input arguments line m⟩
  flushed m := ⟨[], .quiet _ m (sourceless_sink _ _)⟩
  inside env p inner m := by
    obtain ⟨lines, draws⟩ := inner { m with env }
    exact ⟨lines, .inside env p m lines draws⟩

theorem input_call (arguments : List Value) (line : Nat) : Native.input.call arguments line = (do
    onSink (Native.input.streamError line) Sink.flush
    return .string (Native.trimLine (← onSource (Native.input.streamError line) Source.readLine))) :=
  rfl

theorem input_reads (arguments : List Value) (line : Nat) (m : Machine) (valid : m.source.IsText) :
    m.source.Read m.drawn (endState (Native.input.call arguments line m)).source := by
  obtain ⟨text, valid⟩ := valid
  obtain ⟨taken, rest, _, read, _⟩ := read_line_text text
  rw [← valid] at read
  rw [input_call]
  unfold Machine.drawn
  cases refuses : m.sink.refusesFlush with
  | true =>
      have stopped : onSink (Native.input.streamError line) Sink.flush m =
          .error (.failed (Native.input.streamError line .flushRefused)) m := by
        simp [onSink, Sink.flush, refuses]
      rw [bind_error _ stopped, if_pos rfl]
      exact .none _
  | false =>
      have flushed : onSink (Native.input.streamError line) Sink.flush m = .ok () m := by
        simp [onSink, Sink.flush, refuses]
      have had : onSource (Native.input.streamError line) Source.readLine m =
          .ok (String.ofList taken) { m with source := ⟨rest.map some⟩ } := by
        unfold onSource
        rw [read]
      rw [bind_ok _ flushed, bind_ok _ had, if_neg Bool.false_ne_true, read]
      exact .line _ _ _ _ _ read (.none _)

theorem draws_read {p : Eval α} {m : Machine} {lines : List String} (draws : Draws p m lines) (valid : m.source.IsText) :
    m.source.Read lines (endState (p m)).source := by
  induction draws with
  | quiet p m sourceless => exact sourceless_source sourceless m ▸ .none _
  | input arguments line m => exact input_reads arguments line m valid
  | next p f m n a first rest run before after one two =>
      have read := one valid
      rw [run] at read
      rw [bind_ok f run]
      exact read_append read (two (read_text valid read).1)
  | stopped p f m n halt lines run before ih =>
      have read := ih valid
      rw [run] at read
      rwa [bind_error f run]
  | inside env p m lines inner ih =>
      have read := ih valid
      unfold within
      cases run : p { m with env } <;> rw [run] at read <;> exact read

end Steps

end TreeWalk
