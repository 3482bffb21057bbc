import TreeWalk.Proofs.Renaming
import TreeWalk.Proofs.Runs
import TreeWalk.Syntax.Parser

set_option autoImplicit false

namespace TreeWalk

def Parser.Stop.rename (r : Renaming) : Parser.Stop → Parser.Stop
  | .refused error => .refused { error with line := r.line error.line }
  | .exhausted => .exhausted

structure Seam where
  change : Renaming
  firstId : Nat
  last : Token
  -- What stands in the second text where the first one ends.
  further : List Token
  -- The second text ends there too, and both readers have the same number of steps.
  closed : Prop
  successive : ∀ id, firstId ≤ id → change.id (id + 1) = change.id id + 1
  finished : last.kind.isFinish = true
  ended : closed → further = [last.rename change]
  apart : (Cursor.peek ⟨further, 0⟩).kind.isKeyword .else = false

namespace Seam

variable (seam : Seam)

structure Ahead (ahead : List Token) (c d : Cursor) : Prop where
  first : c.rest = ahead ++ [seam.last]
  second : d.rest = ahead.map (Token.rename seam.change) ++ seam.further
  id : d.nextId = seam.change.id c.nextId
  later : seam.firstId ≤ c.nextId

def Level (c d : Cursor) : Prop :=
  ∃ ahead, seam.Ahead ahead c d

def Inside (c d : Cursor) : Prop :=
  ∃ ahead, seam.Ahead ahead c d ∧ (seam.closed ∨ ahead ≠ [])

def Spent (c : Cursor) : Prop :=
  c.rest <:+ [seam.last]

def Joined (c d : Cursor) : Prop :=
  seam.Inside c d ∨ ¬ seam.closed ∧ seam.Spent c

variable {seam} {c d : Cursor}

theorem inside_peek (inside : seam.Inside c d) : d.peek = c.peek.rename seam.change := by
  obtain ⟨ahead, ⟨first, second, _, _⟩, closed⟩ := inside
  cases ahead with
  | nil =>
      have ended := seam.ended (by simpa using closed)
      simp [Cursor.peek, first, second, ended]
  | cons token rest => simp [Cursor.peek, first, second]

theorem spent_peek (spent : seam.Spent c) : c.peek.kind.isFinish = true := by
  unfold Spent at spent
  rcases List.suffix_cons_iff.mp spent with same | none
  · simp [Cursor.peek, same, seam.finished]
  · simp [Cursor.peek, List.suffix_nil.mp none, Token.finish, TokenKind.isFinish]

theorem level_cases (level : seam.Level c d) : seam.Joined c d := by
  obtain ⟨ahead, both⟩ := level
  by_cases closed : seam.closed
  · exact .inl ⟨ahead, both, .inl closed⟩
  · by_cases none : ahead = []
    · refine .inr ⟨closed, ?_⟩
      simp [Spent, both.first, none]
    · exact .inl ⟨ahead, both, .inr none⟩

theorem inside_not_spent (inside : seam.Inside c d) (spent : seam.Spent c) : seam.closed := by
  obtain ⟨ahead, ⟨first, _, _, _⟩, closed⟩ := inside
  rcases closed with closed | some_
  · exact closed
  · have length := spent.length_le
    rw [first, List.length_append] at length
    exact (some_ (List.eq_nil_of_length_eq_zero (by simpa using length))).elim

theorem inside_advance (inside : seam.Inside c d) (taken : c.peek.kind.isFinish = false) :
    seam.Level c.advance d.advance ∧ c.advance.rest.length < c.rest.length := by
  have seen := inside_peek inside
  have also : d.peek.kind.isFinish = false := by rw [seen]; exact taken
  obtain ⟨ahead, ⟨first, second, id, later⟩, _⟩ := inside
  cases ahead with
  | nil =>
      have last : c.peek = seam.last := by simp [Cursor.peek, first]
      rw [last, seam.finished] at taken
      cases taken
  | cons token rest =>
      refine ⟨⟨rest, ?_, ?_, ?_, ?_⟩, ?_⟩ <;> simp [Cursor.advance, taken, also, first, second, id, later]

theorem advance_suffix (c : Cursor) : c.advance.rest <:+ c.rest := by
  unfold Cursor.advance
  split
  · exact List.suffix_refl _
  · exact List.tail_suffix c.rest

end Seam

open TreeWalk.Parser Seam

variable {seam : Seam} {c d : Cursor} {α β γ δ : Type}

def Seam.Stops (seam : Seam) (q : Parser β) (d : Cursor) (stop : Stop) (next : Cursor) : Prop :=
  seam.closed → ∃ other, q d = .error (stop.rename seam.change) other ∧ other.peek = next.peek.rename seam.change

def Seam.Outcome (seam : Seam) (closing : Bool) (c d next : Cursor) (reaches : Cursor → Prop) : Prop :=
  next.rest <:+ c.rest ∧
    match closing with
    | true => next.rest.length < c.rest.length ∧ seam.Inside c d ∧ ∃ other, reaches other ∧ seam.Level next other
    | false => (∃ other, reaches other ∧ seam.Inside next other) ∨ ¬ seam.closed ∧ seam.Spent next

def Follows (seam : Seam) (closing : Bool) (c d : Cursor) (rename : α → β) (p : Parser α) (q : Parser β) : Prop :=
  seam.Joined c d →
    Ends p c (fun a next => seam.Outcome closing c d next fun other => q d = .ok (rename a) other) (seam.Stops q d)

theorem stops_bind {q : Parser β} (g : β → Parser δ) {stop : Stop} {next : Cursor} (stops : seam.Stops q d stop next) :
    seam.Stops (q >>= g) d stop next := by
  intro closed
  obtain ⟨other, run, seen⟩ := stops closed
  exact ⟨other, bind_error g run, seen⟩

theorem follows_bind {closing : Bool} {p : Parser α} {q : Parser β} {f : α → Parser γ} {g : β → Parser δ}
    {rename : α → β} {result : γ → δ} (first : Follows seam false c d rename p q)
    (rest : ∀ a next other, Follows seam closing next other result (f a) (g (rename a))) :
    Follows seam closing c d result (p >>= f) (q >>= g) := by
  intro joined
  apply ends_bind p f c
  · exact ends_mono _ _ _ _ _ _ (first joined) (fun _ _ outcome => outcome) fun _ _ stops => stops_bind g stops
  · intro a next outcome
    obtain ⟨suffix, going | ⟨opened, spent⟩⟩ := outcome
    · obtain ⟨other, run, inside⟩ := going
      apply ends_mono _ _ _ _ _ _ (rest a next other (.inl inside))
      · intro b last ⟨further, final⟩
        refine ⟨further.trans suffix, ?_⟩
        cases closing with
        | false =>
            rcases final with ⟨end_, second, there⟩ | spent
            · exact .inl ⟨end_, (bind_ok g run).trans second, there⟩
            · exact .inr spent
        | true =>
            obtain ⟨shorter, _, end_, second, level⟩ := final
            refine ⟨Nat.lt_of_lt_of_le shorter suffix.length_le, ?_, end_, (bind_ok g run).trans second, level⟩
            rcases joined with here | ⟨opened, spent⟩
            · exact here
            · exact (opened (Seam.inside_not_spent inside (suffix.trans spent))).elim
      · intro stop last stops closed
        obtain ⟨end_, second, seen⟩ := stops closed
        exact ⟨end_, (bind_ok g run).trans second, seen⟩
    · apply ends_mono _ _ _ _ _ _ (rest a next d (.inr ⟨opened, spent⟩))
      · intro b last ⟨further, final⟩
        refine ⟨further.trans suffix, ?_⟩
        cases closing with
        | false => exact .inr ⟨opened, further.trans spent⟩
        | true => exact (opened (Seam.inside_not_spent final.2.1 spent)).elim
      · exact fun _ _ _ closed => (opened closed).elim

theorem joined_closed (joined : seam.Joined c d) (closed : seam.closed) : seam.Inside c d := by
  rcases joined with inside | ⟨opened, _⟩
  · exact inside
  · exact (opened closed).elim

theorem follows_throw {closing : Bool} {rename : α → β} {q : Parser β} (stop : Stop)
    (same : seam.closed → q = throw (stop.rename seam.change)) :
    Follows seam closing c d rename (throw stop) q := by
  intro joined closed
  refine ⟨d, ?_, inside_peek (joined_closed joined closed)⟩
  rw [same closed]
  rfl

theorem follows_refuse {closing : Bool} {rename : α → β} (token : Token) (expected : Expectation) :
    Follows seam closing c d rename (refuse token expected) (refuse (token.rename seam.change) expected) :=
  follows_throw _ fun _ => rfl

theorem follows_pure (rename : α → β) (a : α) : Follows seam false c d rename (pure a) (pure (rename a)) := by
  intro joined
  refine ⟨List.suffix_refl _, ?_⟩
  rcases joined with inside | spent
  · exact .inl ⟨d, rfl, inside⟩
  · exact .inr spent

theorem follows_of_closing {rename : α → β} {p : Parser α} {q : Parser β} (closes : Follows seam true c d rename p q) :
    Follows seam false c d rename p q := by
  intro joined
  apply ends_mono _ _ _ _ _ _ (closes joined) _ fun _ _ stops => stops
  intro a next ⟨suffix, _, _, other, run, level⟩
  refine ⟨suffix, ?_⟩
  rcases level_cases level with inside | spent
  · exact .inl ⟨other, run, inside⟩
  · exact .inr spent

theorem follows_congr {closing : Bool} {p p' : Parser α} {q q' : Parser β} {rename : α → β} (left : p c = p' c)
    (right : seam.Inside c d → q d = q' d) (follows : Follows seam closing c d rename p' q') :
    Follows seam closing c d rename p q := by
  intro joined
  have ended := follows joined
  unfold Ends at ended ⊢
  rw [left]
  rcases joined with inside | ⟨opened, spent⟩
  · simpa only [Seam.Stops, right inside] using ended
  · cases run : p' c with
    | ok a next =>
        rw [run] at ended
        refine ⟨ended.1, ?_⟩
        cases closing with
        | false => exact .inr ⟨opened, ended.1.trans spent⟩
        | true => exact (opened (inside_not_spent ended.2.2.1 spent)).elim
    | error stop next => exact fun closed => (opened closed).elim

theorem follows_peek {closing : Bool} {f : Token → Parser α} {g : Token → Parser β} {rename : α → β}
    (rest : Follows seam closing c d rename (f c.peek) (g (c.peek.rename seam.change))) :
    Follows seam closing c d rename (peek >>= f) (peek >>= g) := by
  refine follows_congr rfl (fun inside => ?_) rest
  rw [← inside_peek inside]
  rfl

theorem follows_if {closing : Bool} {rename : α → β} {condition : Prop} [Decidable condition] {p p' : Parser α}
    {q q' : Parser β} (yes : condition → Follows seam closing c d rename p q)
    (no : ¬ condition → Follows seam closing c d rename p' q') :
    Follows seam closing c d rename (if condition then p else p') (if condition then q else q') := by
  by_cases holds : condition
  · simpa only [holds, if_true] using yes holds
  · simpa only [holds, if_false] using no holds

theorem follows_advance (taken : c.peek.kind.isFinish = false) :
    Follows seam false c d (fun u => u) advance advance := by
  intro joined
  refine ⟨advance_suffix c, ?_⟩
  rcases joined with inside | ⟨opened, spent⟩
  · rcases level_cases (inside_advance inside taken).1 with further | spent
    · exact .inl ⟨d.advance, rfl, further⟩
    · exact .inr spent
  · exact .inr ⟨opened, (advance_suffix c).trans spent⟩

theorem closes_advance (taken : c.peek.kind.isFinish = false) :
    Follows seam true c d (fun u => u) advance advance := by
  intro joined
  refine ⟨advance_suffix c, ?_⟩
  rcases joined with inside | ⟨_, spent⟩
  · obtain ⟨level, shorter⟩ := inside_advance inside taken
    exact ⟨shorter, inside, d.advance, rfl, level⟩
  · rw [spent_peek spent] at taken
    cases taken

theorem follows_mark (line : Nat) :
    Follows seam false c d (Mark.rename seam.change) (mark line) (mark (seam.change.line line)) := by
  intro joined
  refine ⟨List.suffix_refl _, ?_⟩
  rcases joined with ⟨ahead, ⟨first, second, id, later⟩, closed⟩ | spent
  · refine .inl ⟨{ d with nextId := d.nextId + 1 }, ?_, ahead, ⟨first, second, ?_, Nat.le_succ_of_le later⟩, closed⟩
    · show EStateM.Result.ok (⟨d.nextId, _⟩ : Mark) _ = _
      rw [id]
      rfl
    · show d.nextId + 1 = _
      rw [id, seam.successive _ later]
  · exact .inr spent

def Trails (seam : Seam) (c d : Cursor) (rename : α → β) (p : Parser α) (q : Parser β) : Prop :=
  seam.Level c d →
    Ends p c (fun a next => next.rest <:+ c.rest ∧ ∃ other, q d = .ok (rename a) other ∧ seam.Level next other)
      (seam.Stops q d)

theorem trails_pure (rename : α → β) (a : α) : Trails seam c d rename (pure a) (pure (rename a)) :=
  fun level => ⟨List.suffix_refl _, d, rfl, level⟩

theorem trails_bind {p : Parser α} {q : Parser β} {f : α → Parser γ} {g : β → Parser δ} {rename : α → β}
    {result : γ → δ} (first : Trails seam c d rename p q)
    (rest : ∀ a next other, Trails seam next other result (f a) (g (rename a))) :
    Trails seam c d result (p >>= f) (q >>= g) := by
  intro level
  apply ends_bind p f c
  · exact ends_mono _ _ _ _ _ _ (first level) (fun _ _ outcome => outcome) fun _ _ stops => stops_bind g stops
  · intro a next ⟨suffix, other, run, further⟩
    apply ends_mono _ _ _ _ _ _ (rest a next other further)
    · intro b last ⟨shorter, end_, second, final⟩
      exact ⟨shorter.trans suffix, end_, (bind_ok g run).trans second, final⟩
    · intro stop last stops closed
      obtain ⟨end_, second, seen⟩ := stops closed
      exact ⟨end_, (bind_ok g run).trans second, seen⟩

theorem trails_of_closing {p : Parser α} {q : Parser β} {rename : α → β} (closes : Follows seam true c d rename p q) :
    Trails seam c d rename p q := by
  intro level
  apply ends_mono _ _ _ _ _ _ (closes (level_cases level)) _ fun _ _ stops => stops
  intro a next ⟨suffix, _, _, second⟩
  exact ⟨suffix, second⟩

theorem closes_then {p : Parser α} {q : Parser β} {f : α → Parser γ} {g : β → Parser δ} {rename : α → β}
    {result : γ → δ} (first : Follows seam true c d rename p q)
    (rest : ∀ a next other, Trails seam next other result (f a) (g (rename a))) :
    Follows seam true c d result (p >>= f) (q >>= g) := by
  intro joined
  apply ends_bind p f c
  · exact ends_mono _ _ _ _ _ _ (first joined) (fun _ _ outcome => outcome) fun _ _ stops => stops_bind g stops
  · intro a next ⟨suffix, shorter, inside, other, run, level⟩
    apply ends_mono _ _ _ _ _ _ (rest a next other level)
    · intro b last ⟨further, end_, second, final⟩
      exact ⟨further.trans suffix, Nat.lt_of_le_of_lt further.length_le shorter, inside, end_,
        (bind_ok g run).trans second, final⟩
    · intro stop last stops closed
      obtain ⟨end_, second, seen⟩ := stops closed
      exact ⟨end_, (bind_ok g run).trans second, seen⟩

theorem not_finish_of_symbol (token : Token) (symbol : Symbol) (is : token.kind.isSymbol symbol = true) :
    token.kind.isFinish = false := by
  cases kind : token.kind with
  | finish => simp [kind, TokenKind.isSymbol] at is
  | _ => rfl

theorem not_finish_of_keyword (token : Token) (keyword : Keyword) (is : token.kind.isKeyword keyword = true) :
    token.kind.isFinish = false := by
  cases kind : token.kind with
  | finish => simp [kind, TokenKind.isKeyword] at is
  | _ => rfl

theorem not_finish_of_level (level : Parser.Level) (kind : TokenKind) (holds : level.holds kind = true) :
    kind.isFinish = false := by
  cases kind with
  | finish => cases level <;> simp [Parser.Level.holds] at holds
  | _ => rfl

theorem follows_accept_symbol (symbol : Symbol) :
    Follows seam false c d (fun accepted => accepted) (acceptSymbol symbol) (acceptSymbol symbol) :=
  follows_peek (follows_if
    (fun is => follows_bind (follows_advance (not_finish_of_symbol _ symbol is)) fun _ _ _ => follows_pure _ true)
    fun _ => follows_pure _ false)

theorem follows_accept_keyword (keyword : Keyword) :
    Follows seam false c d (fun accepted => accepted) (acceptKeyword keyword) (acceptKeyword keyword) :=
  follows_peek (follows_if
    (fun is => follows_bind (follows_advance (not_finish_of_keyword _ keyword is)) fun _ _ _ => follows_pure _ true)
    fun _ => follows_pure _ false)

theorem closes_expect_symbol (symbol : Symbol) (expected : Expectation) :
    Follows seam true c d seam.change.line (expectSymbol symbol expected) (expectSymbol symbol expected) :=
  follows_peek (follows_if
    (fun is => closes_then (closes_advance (not_finish_of_symbol _ symbol is)) fun _ _ _ => trails_pure _ _)
    fun _ => follows_refuse _ expected)

theorem follows_expect_symbol (symbol : Symbol) (expected : Expectation) :
    Follows seam false c d seam.change.line (expectSymbol symbol expected) (expectSymbol symbol expected) :=
  follows_of_closing (closes_expect_symbol symbol expected)

theorem kind_rename (token : Token) : (token.rename seam.change).kind = token.kind :=
  rfl

theorem follows_expect_name (expected : Expectation) :
    Follows seam false c d (Name.rename seam.change) (expectName expected) (expectName expected) := by
  apply follows_peek
  simp only [kind_rename]
  cases kind : c.peek.kind with
  | identifier =>
      have taken : c.peek.kind.isFinish = false := by simp [kind, TokenKind.isFinish]
      exact follows_bind (follows_advance taken) fun _ _ _ => follows_pure _ (⟨c.peek.lexeme, c.peek.line⟩ : Name)
  | _ => exact follows_refuse c.peek expected

end TreeWalk
