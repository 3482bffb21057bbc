import TreeWalk.Proofs.IdleActions

set_option autoImplicit false

namespace TreeWalk

def Session.Counterpart (s t : Session) : Prop :=
  t.nextId = s.nextId ∧ s.machine.Counterpart s.nextId t.machine

inductive Request.Paced (wide : Bool) : Request → Request → Prop where
  | run {steps steps' : Nat} (text : String) (paced : TreeWalk.Paced wide steps steps') :
      Paced wide (.run steps text) (.run steps' text)
  | parse (text : String) : Paced wide (.parse text) (.parse text)
  | streams (source : Source) (sink : Sink) : Paced wide (.streams source sink) (.streams source sink)

def Request.longer : Request → Request
  | .run steps text => .run (3 * steps) text
  | .parse text => .parse text
  | .streams source sink => .streams source sink

section Requests

variable {s t : Session} {request request' : Request} {wide : Bool} {steps steps' : Nat}

theorem longer_paced (request : Request) : request.Paced true request.longer := by
  cases request with
  | run steps text => exact .run text (Nat.le_refl _)
  | parse text => exact .parse text
  | streams source sink => exact .streams source sink

theorem itself_paced (request : Request) : request.Paced false request := by
  cases request with
  | run steps text => exact .run text (Nat.le_refl _)
  | parse text => exact .parse text
  | streams source sink => exact .streams source sink

theorem counterpart_streams (s t : Session) (counterpart : s.Counterpart t) :
    t.machine.sink = s.machine.sink ∧ t.machine.source = s.machine.source := by
  obtain ⟨_, _, _, _, _, _, _, _, beside⟩ := counterpart
  exact ⟨beside.like.sink, beside.like.source⟩

theorem spent_on_machine {p q : Eval Unit} (spent : Spent (p s.machine) (q t.machine) wide) :
    Spent (Session.onMachine p s) (Session.onMachine q t) wide := by
  unfold Session.onMachine
  cases wide with
  | true =>
      obtain ⟨m, run⟩ := spent
      exact ⟨⟨m, s.nextId⟩, by simp only [run]⟩
  | false =>
      obtain ⟨n, run⟩ := spent
      exact ⟨⟨n, t.nextId⟩, by simp only [run]⟩

theorem counterpart_later {next : Nat} (counterpart : s.Counterpart t) (later : s.nextId ≤ next) :
    s.machine.Counterpart next t.machine := by
  obtain ⟨_, events, events', resting, resting', beside⟩ := counterpart
  exact ⟨events, events', ⟨resting.sound, counted_later _ _ _ resting.counted later, resting.globals⟩,
    ⟨resting'.sound, counted_later _ _ _ resting'.counted later, resting'.globals⟩, beside⟩

theorem text_counterpart (counterpart : s.Counterpart t) (text : String) (paced : Paced wide steps steps') :
    Agree Session.Counterpart Halt.ReportsAs Eq (Session.run steps text s) (Session.run steps' text t) ∨
      Spent (Session.run steps text s) (Session.run steps' text t) wide := by
  have parsed := parse_ends text s
  rcases parse_both text counterpart.1 with ⟨halt, left, right⟩ | ⟨program, last, left, right⟩
  · unfold Session.run Session.runUnder
    rw [bind_error _ left, bind_error _ right]
    exact .inl (.error _ _ _ _ rfl counterpart)
  · obtain ⟨later, _, ids, proper⟩ := ends_ok _ _ _ _ _ _ parsed left
    rw [run_parsed steps text s program last left, run_parsed steps' text t program last right]
    obtain ⟨_, events, events', beside⟩ := counterpart
    refine (program_counterpart beside later ids proper wide paced).imp (fun agree => ?_) fun spent => ?_
    · exact agree_on_machine (s := ⟨s.machine, last⟩) (t := ⟨t.machine, last⟩) agree fun _ _ kept => ⟨rfl, kept⟩
    · exact spent_on_machine (s := ⟨s.machine, last⟩) (t := ⟨t.machine, last⟩) spent

theorem answer_counterpart (counterpart : s.Counterpart t) (paced : request.Paced wide request') :
    Agree Session.Counterpart Halt.ReportsAs Eq (Session.answer request s) (Session.answer request' t) ∨
      Spent (Session.answer request s) (Session.answer request' t) wide := by
  cases paced with
  | run text paced => exact text_counterpart counterpart text paced
  | parse text =>
      have parsed := parse_ends text s
      refine .inl ?_
      rw [Session.answer]
      rcases parse_both text counterpart.1 with ⟨halt, left, right⟩ | ⟨program, last, left, right⟩
      · rw [bind_error _ left, bind_error _ right]
        exact .error _ _ _ _ rfl counterpart
      · obtain ⟨later, _⟩ := ends_ok _ _ _ _ _ _ parsed left
        have kept := counterpart_later counterpart later
        rw [bind_ok _ left, bind_ok _ right]
        exact .ok _ _ _ _ rfl ⟨rfl, kept⟩
  | streams source sink =>
      obtain ⟨next, events, events', resting, resting', k, w, none, beside⟩ := counterpart
      have renewed : ∀ {m : Machine} {events : List Event}, Resting s.nextId ⟨m, events⟩ →
          Resting s.nextId ⟨{ m with source, sink }, events⟩ := fun resting =>
        ⟨sound_machine _ _ resting.sound rfl (Store.grows_refl _), ⟨resting.counted.fresh, resting.counted.visited,
          resting.counted.below, resting.counted.enclosed⟩, resting.globals⟩
      have like := beside.like
      exact .inl (.ok _ _ _ _ rfl ⟨next, events, events', renewed resting, renewed resting', k, w, none,
        ⟨like.store, like.env, like.env', like.here, like.there, rfl, rfl⟩, beside.told⟩)

theorem spent_not_over {α : Type} {p : SessionM α} {s u : Session} (run : p s = .error .exhausted u) :
    (observe (p s)).isOver = false := by
  rw [run]
  rfl

end Requests

theorem observations_counterpart {wide : Bool} {requests requests' : List Request}
    (paced : List.Forall₂ (Request.Paced wide) requests requests') : ∀ {s t : Session}, s.Counterpart t →
    (∀ seen ∈ (if wide then Session.observations requests s else Session.observations requests' t), seen.isOver = true) →
      Session.observations requests' t = Session.observations requests s := by
  induction paced with
  | nil => exact fun _ _ => rfl
  | cons paced _ ih =>
      intro s t counterpart finished
      rcases answer_counterpart counterpart paced with agree | spent
      · obtain ⟨seen, kept⟩ := agree_observe agree counterpart_streams
        have behind := ih kept fun seen member => finished seen (by
          cases wide <;> exact List.mem_cons_of_mem _ member)
        simp only [Session.observations, seen, behind]
      · cases wide with
        | true =>
            obtain ⟨_, run⟩ := spent
            have whole := finished _ List.mem_cons_self
            rw [spent_not_over run] at whole
            cases whole
        | false =>
            obtain ⟨_, run⟩ := spent
            have whole := finished _ List.mem_cons_self
            rw [spent_not_over run] at whole
            cases whole

end TreeWalk
