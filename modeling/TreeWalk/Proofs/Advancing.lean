import TreeWalk.Proofs.Descent

set_option autoImplicit false

namespace TreeWalk

namespace Parser

def Within (tokens : List Token) (c : Cursor) : Prop :=
  ∃ i, i < tokens.length ∧ c.rest = tokens.drop i ∧ ∀ token ∈ tokens.take i, token.kind.isFinish = false

def Descends (inner outer : Task × Cursor) : Prop :=
  inner.2.rest <:+ outer.2.rest ∧
    (outer.1.rank ≤ inner.1.rank → inner.2.rest.length < outer.2.rest.length)

section Within

variable {tokens : List Token} {c : Cursor}

theorem within_start (some : tokens ≠ []) (id : Nat) : Within tokens ⟨tokens, id⟩ :=
  ⟨0, List.length_pos_iff.mpr some, rfl, by simp⟩

theorem within_advance {last : Token} (ends : tokens.getLast? = some last) (finish : last.kind.isFinish = true)
    (within : Within tokens c) : Within tokens c.advance := by
  obtain ⟨i, inside, same, passed⟩ := within
  have rest : c.rest = tokens[i] :: tokens.drop (i + 1) := by rw [same, List.drop_eq_getElem_cons inside]
  have seen : c.peek = tokens[i] := by rw [Cursor.peek, rest, List.headD_cons]
  unfold Cursor.advance
  split
  · exact ⟨i, inside, same, passed⟩
  · rename_i more
    rw [seen, Bool.not_eq_true] at more
    refine ⟨i + 1, ?_, by simp [rest], ?_⟩
    -- The last token is not stepped over.
    · refine Nat.lt_of_le_of_ne inside fun final => ?_
      rw [List.getLast?_eq_getElem?, ← final, Nat.add_sub_cancel, List.getElem?_eq_getElem inside] at ends
      rw [Option.some.inj ends, finish] at more
      cases more
    · intro token member
      rw [List.take_succ_eq_append_getElem inside] at member
      rcases List.mem_append.mp member with behind | here
      · exact passed token behind
      · rw [List.mem_singleton.mp here]
        exact more

end Within

def Stack.Waits : {task : Task} → Stack task → Cursor → Prop
  | _, .bottom, _ => True
  | task, .frame outer began next below, c =>
      c.rest <:+ began.rest ∧ 16 * c.rest.length + task.rank < 16 * began.rest.length + outer.rank ∧
        (∀ answer last, last.rest.length < c.rest.length + task.spare →
          (next answer).Careful (16 * began.rest.length + outer.rank) (began.rest.length + outer.spare) last) ∧
        below.Waits began

structure Moment.Sound (m : Moment) : Prop where
  careful : m.script.Careful (16 * m.began.rest.length + m.task.rank) (m.began.rest.length + m.task.spare) m.cursor
  waits : m.below.Waits m.began
  onward : m.cursor.rest <:+ m.began.rest

section Steps

theorem start_sound (firstId : Nat) (tokens : List Token) : (Moment.start firstId tokens).Sound :=
  ⟨script_careful .program trivial ⟨tokens, firstId⟩, trivial, List.suffix_refl _⟩

theorem step_cursor {m next : Moment} (step : m.step = some next) :
    next.cursor.rest = m.cursor.rest ∨ next.cursor = m.cursor.advance := by
  obtain ⟨task, began, script, below, c⟩ := m
  cases script with
  | done answer =>
      cases below with
      | bottom => cases step
      | frame outer start rest below =>
          cases step
          exact .inl rfl
  | refused token expected => cases step
  | advances rest =>
      cases step
      exact .inr rfl
  | looks _ | counts _ | marks _ _ | calls _ _ =>
      cases step
      exact .inl rfl

theorem step_suffix {m next : Moment} (step : m.step = some next) : next.cursor.rest <:+ m.cursor.rest := by
  rcases step_cursor step with same | moved
  · exact same ▸ List.suffix_refl _
  · exact moved ▸ Seam.advance_suffix m.cursor

theorem step_within {tokens : List Token} {last : Token} {m next : Moment} (ends : tokens.getLast? = some last)
    (finish : last.kind.isFinish = true) (within : Within tokens m.cursor) (step : m.step = some next) :
    Within tokens next.cursor := by
  rcases step_cursor step with same | moved
  · obtain ⟨i, inside, there, passed⟩ := within
    exact ⟨i, inside, same.trans there, passed⟩
  · exact moved ▸ within_advance ends finish within

theorem step_sound {m next : Moment} (sound : m.Sound) (step : m.step = some next) : next.Sound := by
  obtain ⟨task, began, script, below, c⟩ := m
  obtain ⟨careful, waits, onward⟩ := sound
  cases script with
  | done answer =>
      cases below with
      | bottom => cases step
      | frame outer start rest below =>
          cases step
          obtain ⟨suffix, -, ready, further⟩ := waits
          exact ⟨ready answer c careful, further, onward.trans suffix⟩
  | refused token expected => cases step
  | looks rest =>
      cases step
      exact ⟨careful, waits, onward⟩
  | advances rest =>
      cases step
      exact ⟨careful, waits, (Seam.advance_suffix c).trans onward⟩
  | counts rest =>
      cases step
      exact ⟨careful, waits, onward⟩
  | marks line rest =>
      cases step
      exact ⟨careful, waits, onward⟩
  | calls inner rest =>
      cases step
      obtain ⟨proper, room, ready⟩ := careful
      exact ⟨script_careful inner proper c, ⟨onward, room, ready, waits⟩, List.suffix_refl _⟩

theorem after_holds {holds : Moment → Prop} (step : ∀ m next, holds m → m.step = some next → holds next) (n : Nat)
    {m last : Moment} (first : holds m) (there : m.after n = some last) : holds last := by
  induction n generalizing m with
  | zero =>
      cases there
      exact first
  | succ n ih =>
      obtain ⟨next, stepped, rest⟩ := Option.bind_eq_some_iff.mp there
      exact ih (step m next first stepped) rest

def Below (inner outer : Task × Cursor) : Prop :=
  inner.2.rest <:+ outer.2.rest ∧ 16 * inner.2.rest.length + inner.1.rank < 16 * outer.2.rest.length + outer.1.rank

theorem below_trans {inner mid outer : Task × Cursor} (first : Below inner mid) (second : Below mid outer) :
    Below inner outer :=
  ⟨first.1.trans second.1, Nat.lt_trans first.2 second.2⟩

theorem below_descends {inner outer : Task × Cursor} (below : Below inner outer) : Descends inner outer :=
  ⟨below.1, fun rank => by have := below.2; omega⟩

theorem waits_below {task : Task} (below : Stack task) (c : Cursor) (waits : below.Waits c) :
    ((task, c) :: below.waiting).Pairwise Below := by
  induction below generalizing c with
  | bottom => exact List.pairwise_singleton Below _
  | frame outer began next below ih =>
      obtain ⟨suffix, room, -, further⟩ := waits
      have chain := ih began further
      have here : Below (_, c) (outer, began) := ⟨suffix, room⟩
      refine List.pairwise_cons.mpr ⟨fun call member => ?_, chain⟩
      rcases List.mem_cons.mp member with rfl | later
      · exact here
      · exact below_trans here ((List.pairwise_cons.mp chain).1 call later)

end Steps

structure Advances (firstId : Nat) (tokens : List Token) : Prop where
  ends : ∃ n m, (Moment.start firstId tokens).after n = some m ∧ m.step = none ∧
    m.outcome = some (parse firstId tokens)
  within : ∀ n m, (Moment.start firstId tokens).after n = some m → Within tokens m.cursor
  onward : ∀ n m next, (Moment.start firstId tokens).after n = some m → m.step = some next →
    next.cursor.rest <:+ m.cursor.rest
  descends : ∀ n m, (Moment.start firstId tokens).after n = some m → m.calls.Pairwise Descends
  takes : ∀ n m answer, (Moment.start firstId tokens).after n = some m → m.script = .done answer →
    m.cursor.rest.length < m.began.rest.length + m.task.spare

theorem parse_advances (firstId : Nat) (tokens : List Token) (last : Token) (ends : tokens.getLast? = some last)
    (finish : last.kind.isFinish = true) : Advances firstId tokens := by
  have some : tokens ≠ [] := fun none => by simp [none] at ends
  have sound (n : Nat) (m : Moment) (there : (Moment.start firstId tokens).after n = .some m) : m.Sound :=
    after_holds (fun _ _ => step_sound) n (start_sound firstId tokens) there
  constructor
  case ends =>
    obtain ⟨n, m, there, out⟩ := parse_shows firstId tokens
    exact ⟨n, m, there, Moment.outcome_stops out, out⟩
  case within =>
    intro n m there
    have kept (m next : Moment) (within : Within tokens m.cursor) (step : m.step = .some next) :
        Within tokens next.cursor := step_within ends finish within step
    exact after_holds kept n (within_start some firstId) there
  case onward => exact fun n m next _ step => step_suffix step
  case descends =>
    intro n m there
    exact (waits_below m.below m.began (sound n m there).waits).imp below_descends
  case takes =>
    intro n m answer there done
    have careful := (sound n m there).careful
    rwa [done] at careful

def unclosed : List Token :=
  [⟨.identifier, "f", 1⟩, ⟨.symbol .leftParen, "(", 1⟩, ⟨.identifier, "x", 1⟩, ⟨.symbol .comma, ",", 1⟩, .finish 1]

theorem parse_advances_unclosed : unclosed.getLast? = some (.finish 1) ∧ (Token.finish 1).kind.isFinish = true ∧
    Advances 0 unclosed :=
  ⟨rfl, rfl, parse_advances 0 unclosed (.finish 1) rfl rfl⟩

end Parser

end TreeWalk
