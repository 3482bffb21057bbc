import TreeWalk.Proofs.Chained
import TreeWalk.Proofs.Chronicle
import TreeWalk.Proofs.Recorded

set_option autoImplicit false

namespace TreeWalk

open Eval

def Role.Told (picked : List Stmt → Bool) (events : List Event) (place : Nat) : Role → Prop
  | lasts _ | bare => True
  | waits _ | runs => events.any (Event.opensLoop picked place) = true
  | round _ loop => events.any (Event.opens place) = true ∧ events.any (Event.opensLoop picked loop) = true
  | gone loop => Event.roundOver place loop events = true ∧ events.any (Event.opensLoop picked loop) = true

def Overlay.Told (picked : List Stmt → Bool) (w : Overlay) (events : List Event) : Prop :=
  ∀ (place : Nat) (role : Role), w.roles[place]? = some role → role.Told picked events place

section Told

variable {picked : List Stmt → Bool} {w next : Overlay} {events older : List Event}

theorem role_told_longer (longer : older <:+ events) {place : Nat} {role : Role} (told : role.Told picked older place) :
    role.Told picked events place := by
  cases role with
  | lasts layer => trivial
  | bare => trivial
  | waits layer => exact Event.any_longer longer _ told
  | runs => exact Event.any_longer longer _ told
  | round layer loop => exact ⟨Event.any_longer longer _ told.1, Event.any_longer longer _ told.2⟩
  | gone loop => exact ⟨Event.round_over_longer longer told.1, Event.any_longer longer _ told.2⟩

theorem told_longer (longer : older <:+ events) (told : w.Told picked older) : w.Told picked events :=
  fun place role known => role_told_longer longer (told place role known)

theorem told_steadily (steadily : w.Steadily next) (told : w.Told picked events) : next.Told picked events := by
  intro place role known
  by_cases old : place < w.roles.length
  · obtain ⟨more, same⟩ := steadily.later.roles
    rw [← same, List.getElem?_append_left old] at known
    exact told place role known
  · obtain ⟨layer, rfl⟩ := steadily.lasts place role (Nat.le_of_not_lt old) known
    trivial

end Told

-- What two runs are given. With `wide`, the second has the steps for whatever the first has the steps for, and
-- otherwise the other way round.
structure Tandem where
  here : Distances
  there : Distances
  picked : List Stmt → Bool
  wide : Bool

def Paced : Bool → Nat → Nat → Prop
  | true, steps, steps' => 3 * steps ≤ steps'
  | false, steps, steps' => steps' ≤ steps

def Spent {α β σ τ : Type} (left : EStateM.Result Halt σ α) (right : EStateM.Result Halt τ β) : Bool → Prop
  | true => ∃ s, left = .error .exhausted s
  | false => ∃ t, right = .error .exhausted t

namespace Tandem

variable (k : Tandem)

def course : Course Overlay :=
  Overlay.course k.here k.there k.picked

abbrev Lead : Spans → Nat → Nat → Prop :=
  k.here.Lead k.there

abbrev Values (w : Overlay) : Value → Value → Prop :=
  k.course.Values w

abbrev AllValues (w : Overlay) : List Value → List Value → Prop :=
  k.course.AllValues w

abbrev Flows (w : Overlay) : Flow → Flow → Prop :=
  k.course.Flows w

structure Beside (w : Overlay) (env env' : Env) (m : Machine) (n : Watched) : Prop where
  like : Machine.Like (k.course.scene w env env') m n.machine
  told : w.Told k.picked n.events

def Pace (base w : Overlay) (env env' : Env) {α β : Type} (good : Overlay → α → β → Prop) (p : Eval α) (q : Watch β) :
    Prop :=
  ∀ m n, k.Beside w env env' m n →
    (∃ next, base.Later next ∧ Agree (k.Beside next env env') Halt.ReportsAs (good next) (p m) (q n)) ∨
      Event.anyLate k.picked (endState (q n)).events = true ∨ Spent (p m) (q n) k.wide

end Tandem

section Steps

open Overlay

variable {k : Tandem} {base w next : Overlay} {spans : Spans} {env env' : Env} {α β γ δ : Type}
  {good : Overlay → α → β → Prop} {result : Overlay → γ → δ → Prop} {p : Eval α} {q : Watch β}

theorem values_grown (later : w.Later next) {value other : Value} (same : k.Values w value other) :
    k.Values next value other :=
  like_within (within_grown (later_grows later)) value other same

theorem all_values_grown (later : w.Later next) {values others : List Value} (same : k.AllValues w values others) :
    k.AllValues next values others :=
  all_like_within (within_grown (later_grows later)) same

theorem object_grown (later : w.Later next) {object other : Instance} (same : object.Like (k.course.likeness w) other) :
    object.Like (k.course.likeness next) other :=
  object_like_within (within_grown (later_grows later)) same

theorem pace_abreast {q' : Eval β} (mirrors : Mirrors q q') (records : q.Records)
    (abreast : k.course.Abreast w w env env' good p q') : k.Pace w w env env' good p q := by
  intro m n beside
  obtain ⟨next, steadily, agree⟩ := abreast m n.machine beside.like
  refine .inl ⟨next, Steadily.later steadily, ?_⟩
  rcases agree_cases _ _ _ _ _ (mirrors n n.machine rfl) with
    ⟨b, _, n', _, here, there, rfl, rfl⟩ | ⟨e, _, n', _, here, there, rfl, rfl⟩
  · have told := told_steadily steadily (told_longer (records_ok records here) beside.told)
    rw [there] at agree
    rw [here]
    rcases agree_cases _ _ _ _ _ agree with ⟨a, _, m', _, left, right, value, state⟩ | ⟨_, _, _, _, _, right, _, _⟩
    · cases right
      rw [left]
      exact .ok a b m' n' value ⟨state, told⟩
    · cases right
  · have told := told_steadily steadily (told_longer (records_error records here) beside.told)
    rw [there] at agree
    rw [here]
    rcases agree_cases _ _ _ _ _ agree with ⟨_, _, _, _, _, right, _, _⟩ | ⟨halt, _, m', _, left, right, failure, state⟩
    · cases right
    · cases right
      rw [left]
      exact .error halt e m' n' failure ⟨state, told⟩

theorem pace_act {q : Eval β} (abreast : k.course.Abreast w w env env' good p q) : k.Pace w w env env' good p (Watch.act q) :=
  pace_abreast (mirrors_act q) (records_act q) abreast

theorem pace_pure {a : α} {b : β} (value : good w a b) : k.Pace w w env env' good (pure a) (pure b) :=
  pace_abreast (mirrors_pure b) (records_pure b) (abreast_pure value)

theorem pace_weaken {outer : Overlay} {wider : Overlay → α → β → Prop} (later : ∀ next, base.Later next → outer.Later next)
    (weaker : ∀ next a b, base.Later next → good next a b → wider next a b) (pace : k.Pace base w env env' good p q) :
    k.Pace outer w env env' wider p q := by
  intro m n beside
  refine (pace m n beside).imp_left ?_
  rintro ⟨next, after, agree⟩
  refine ⟨next, later next after, ?_⟩
  revert agree
  generalize p m = left
  generalize q n = right
  rintro (⟨a, b, s, t, value, state⟩ | ⟨e, f, s, t, failure, state⟩)
  · exact .ok a b s t (weaker next a b after value) state
  · exact .error e f s t failure state

theorem pace_from (later : base.Later w) (pace : k.Pace w w env env' good p q) : k.Pace base w env env' good p q :=
  pace_weaken (fun _ => further_overlay later) (fun _ _ _ _ => id) pace

theorem pace_bind {mid : Overlay} (before : base.Later mid) {f : α → Eval γ} {g : β → Watch δ}
    (first : k.Pace mid w env env' good p q) (records : ∀ b, (g b).Records)
    (rest : ∀ next a b, mid.Later next → good next a b → k.Pace base next env env' result (f a) (g b)) :
    k.Pace base w env env' result (p >>= f) (q >>= g) := by
  intro m n beside
  rcases first m n beside with ⟨next, later, agree⟩ | late | spent
  · rcases agree_cases _ _ _ _ _ agree with
      ⟨a, b, m', n', left, right, value, state⟩ | ⟨e, e', m', n', left, right, failure, state⟩
    · rw [bind_ok f left, bind_ok g right]
      exact rest next a b later value m' n' state
    · rw [bind_error f left, bind_error g right]
      exact .inl ⟨next, further_overlay before later, .error _ _ m' n' failure state⟩
  · refine .inr (.inl ?_)
    cases run : q n with
    | ok b n' =>
        rw [run] at late
        rw [bind_ok g run]
        exact Event.any_late_longer (records b n') late
    | error halt n' =>
        rw [run] at late
        rw [bind_error g run]
        exact late
  · refine .inr (.inr ?_)
    cases kind : k.wide with
    | true =>
        rw [kind] at spent
        obtain ⟨s, run⟩ := spent
        exact ⟨s, bind_error f run⟩
    | false =>
        rw [kind] at spent
        obtain ⟨t, run⟩ := spent
        exact ⟨t, bind_error g run⟩

theorem pace_then {f : α → Eval γ} {g : β → Watch δ} (first : k.Pace w w env env' good p q) (records : ∀ b, (g b).Records)
    (rest : ∀ next a b, w.Later next → good next a b → k.Pace next next env env' result (f a) (g b)) :
    k.Pace w w env env' result (p >>= f) (q >>= g) :=
  pace_bind (still_overlay w) first records fun next a b later value => pace_from later (rest next a b later value)

theorem pace_log (event : Event) (pace : k.Pace base w env env' good p q) :
    k.Pace base w env env' good p (do Watch.log event; q) :=
  fun m n beside => pace m ⟨n.machine, event :: n.events⟩ ⟨beside.like, told_longer (List.suffix_cons _ _) beside.told⟩

theorem pace_get {g : Watched → Watch β} (pace : ∀ n, k.Pace base w env env' good p (g n)) :
    k.Pace base w env env' good p (get >>= g) :=
  fun m n beside => pace n m n beside

theorem within_ok {inner : Env} {m m' : Machine} {a : α} (run : p { m with env := inner } = .ok a m') :
    within inner p m = .ok a { m' with env := m.env } := by
  unfold within
  rw [run]

theorem within_error {inner : Env} {m m' : Machine} {halt : Halt} (run : p { m with env := inner } = .error halt m') :
    within inner p m = .error halt { m' with env := m.env } := by
  unfold within
  rw [run]

theorem watch_within_ok {inner : Env} {n n' : Watched} {b : β}
    (run : q { n with machine := { n.machine with env := inner } } = .ok b n') :
    Watch.within inner q n = .ok b { n' with machine := { n'.machine with env := n.machine.env } } := by
  unfold Watch.within
  simp only [run]

theorem watch_within_error {inner : Env} {n n' : Watched} {halt : Halt}
    (run : q { n with machine := { n.machine with env := inner } } = .error halt n') :
    Watch.within inner q n = .error halt { n' with machine := { n'.machine with env := n.machine.env } } := by
  unfold Watch.within
  simp only [run]

theorem pace_left {inner : Env} (pace : k.Pace base w inner env' good p q) :
    k.Pace base w env env' good (within inner p) q := by
  intro m n beside
  have entered : k.Beside w inner env' { m with env := inner } n :=
    ⟨⟨beside.like.store, rfl, beside.like.env', beside.like.here, beside.like.there, beside.like.source, beside.like.sink⟩,
      beside.told⟩
  refine (pace _ _ entered).imp ?_ (Or.imp_right ?_)
  · rintro ⟨next, later, agree⟩
    refine ⟨next, later, ?_⟩
    rcases agree_cases _ _ _ _ _ agree with
      ⟨a, b, m', n', here, there, value, state⟩ | ⟨e, e', m', n', here, there, failure, state⟩
    · rw [within_ok here, there]
      exact .ok a b _ _ value ⟨⟨state.like.store, beside.like.env, state.like.env', state.like.here, state.like.there,
        state.like.source, state.like.sink⟩, state.told⟩
    · rw [within_error here, there]
      exact .error e e' _ _ failure ⟨⟨state.like.store, beside.like.env, state.like.env', state.like.here,
        state.like.there, state.like.source, state.like.sink⟩, state.told⟩
  · cases k.wide with
    | true =>
        rintro ⟨_, run⟩
        exact ⟨_, within_error run⟩
    | false => exact id

theorem pace_right {inner : Env} (pace : k.Pace base w env inner good p q) :
    k.Pace base w env env' good p (Watch.within inner q) := by
  intro m n beside
  have entered : k.Beside w env inner m { n with machine := { n.machine with env := inner } } :=
    ⟨⟨beside.like.store, beside.like.env, rfl, beside.like.here, beside.like.there, beside.like.source, beside.like.sink⟩,
      beside.told⟩
  refine (pace _ _ entered).imp ?_ (Or.imp ?_ ?_)
  · rintro ⟨next, later, agree⟩
    refine ⟨next, later, ?_⟩
    rcases agree_cases _ _ _ _ _ agree with
      ⟨a, b, m', n', here, there, value, state⟩ | ⟨e, e', m', n', here, there, failure, state⟩
    · rw [here, watch_within_ok there]
      exact .ok a b _ _ value ⟨⟨state.like.store, state.like.env, beside.like.env', state.like.here, state.like.there,
        state.like.source, state.like.sink⟩, state.told⟩
    · rw [here, watch_within_error there]
      exact .error e e' _ _ failure ⟨⟨state.like.store, state.like.env, beside.like.env', state.like.here,
        state.like.there, state.like.source, state.like.sink⟩, state.told⟩
  · intro late
    cases run : q { n with machine := { n.machine with env := inner } } with
    | ok b n' =>
        rw [run] at late
        rw [watch_within_ok run]
        exact late
    | error halt n' =>
        rw [run] at late
        rw [watch_within_error run]
        exact late
  · cases k.wide with
    | true => exact id
    | false =>
        rintro ⟨_, run⟩
        exact ⟨_, watch_within_error run⟩

theorem pace_within {inner inner' : Env} (pace : k.Pace base w inner inner' good p q) :
    k.Pace base w env env' good (within inner p) (Watch.within inner' q) :=
  pace_left (pace_right pace)

theorem pace_left_spent (wide : k.wide = true) : k.Pace base w env env' good (throw .exhausted) q :=
  fun m _ _ => .inr (.inr (by rw [wide]; exact ⟨m, rfl⟩))

theorem pace_right_spent (narrow : k.wide = false) (spent : ∀ n, ∃ t, q n = .error .exhausted t) :
    k.Pace base w env env' good p q :=
  fun _ n _ => .inr (.inr (by rw [narrow]; exact spent n))

theorem act_record {q : Eval β} (n : Watched) : (endState (Watch.act q n)).events = n.events := by
  unfold Watch.act
  cases q n.machine <;> rfl

theorem child_env_run (site : Site) (n : Watched) :
    Watch.childEnv site n = .ok (n.machine.env.child n.machine.store.layers.size)
      ⟨{ n.machine with store := { n.machine.store with layers := n.machine.store.layers.push .empty } },
        .opened site n.machine.store.layers.size :: n.events⟩ :=
  rfl

theorem leads_meet {id id' : Nat} (chained : w.Chained spans env.chain env'.chain) (leads : k.Lead spans id id') :
    Option.Rel (w.links.Meets env env') k.here[id]? k.there[id']? ∨
      ∃ distance partner loop, k.there[id']? = some distance ∧ env'.chain[distance]? = some partner ∧
        env'.chain[distance + 1]? = some loop ∧ w.roles[partner]? = some (.gone loop) := by
  have related : Option.Rel (Spans.Leads spans) k.here[id]? k.there[id']? := leads
  revert related
  generalize k.here[id]? = here
  generalize k.there[id']? = there
  rintro (same | _)
  · rename_i distance distance'
    obtain ⟨layer, partner, left, right, linked | ⟨loop, outer, gone⟩⟩ := chained_leads same chained
    · refine .inl (.some ⟨?_, fun beyond => ?_⟩)
      · rw [left, right]
        exact .some linked
      · rw [left] at beyond
        cases beyond
    · exact .inr ⟨distance', partner, loop, rfl, right, outer, gone⟩
  · exact .inl .none

theorem pace_reach {node : Expr} {name : String} {id id' : Nat} (refers : node.reference? = some ⟨name, id'⟩)
    (chained : w.Chained spans env.chain env'.chain) (leads : k.Lead spans id id') {q : Eval β}
    (abreast : Option.Rel (w.links.Meets env env') k.here[id]? k.there[id']? → k.course.Abreast w w env env' good p q) :
    k.Pace w w env env' good p (Watch.reach node q) := by
  rcases leads_meet chained leads with meets | ⟨distance, partner, loop, led, found, outer, gone⟩
  · exact pace_get fun _ => pace_log _ (pace_act (abreast meets))
  · intro m n beside
    refine .inr (.inl ?_)
    have env : n.machine.env = env' := beside.like.env'
    have distances : n.machine.distances = k.there := beside.like.there
    obtain ⟨ended, made⟩ := beside.told partner _ gone
    have recorded : (endState (Watch.reach node q n)).events = .reached node n.machine :: n.events :=
      act_record ⟨n.machine, .reached node n.machine :: n.events⟩
    rw [recorded]
    simp [Event.anyLate, Event.isLate, refers, env, distances, led, found, outer, ended, made]

theorem pace_child (site : Site) :
    k.Pace w w env env'
      (fun last made made' => last = w.child ∧ made = env.child w.size ∧ made' = env'.child w.roles.length) childEnv
      (Watch.childEnv site) :=
  pace_abreast (mirrors_child_env site) (records_child_env site) (abreast_child (child_steadily w) (child_links w))

theorem pace_opened {body : List Stmt} (chosen : k.picked body = true) :
    k.Pace w w env env'
      (fun last made made' => last = w.opened ∧ made = env.child w.size ∧ made' = env'.child w.roles.length) childEnv
      (Watch.childEnv (.loop body)) := by
  intro m n beside
  have like := beside.like
  have made : n.machine.store.layers.size = w.roles.length := like.store.size'
  refine .inl ⟨w.opened, push_later _ _ _ _, .ok _ _ _ _ ⟨rfl, ?_, ?_⟩ ⟨⟨opened_like like.store, like.env, like.env',
    like.here, like.there, like.source, like.sink⟩, ?_⟩⟩
  · exact congrArg₂ Env.child like.env like.store.size
  · exact congrArg₂ Env.child like.env' like.store.size'
  · intro place role known
    rcases get_push.mp known with ⟨rfl, rfl⟩ | old
    · refine List.any_eq_true.mpr ⟨_, List.mem_cons_self, ?_⟩
      show (n.machine.store.layers.size == w.roles.length && k.picked body) = true
      rw [made, chosen, beq_self_eq_true, Bool.and_self]
    · exact role_told_longer (List.suffix_cons _ _) (beside.told place role old)

theorem pace_aside (site : Site) {g : Env → Watch β}
    (rest : k.Pace base w.aside env env' good p (g (env'.child w.roles.length))) :
    k.Pace base w env env' good p (Watch.childEnv site >>= g) := by
  intro m n beside
  have like := beside.like
  have made : n.machine.store.layers.size = w.roles.length := like.store.size'
  have env : n.machine.env = env' := like.env'
  rw [bind_ok g (child_env_run site n), made, env]
  refine rest m _ ⟨⟨aside_like like.store, like.env, like.env', like.here, like.there, like.source, like.sink⟩, ?_⟩
  intro place role known
  rcases get_push.mp known with ⟨rfl, rfl⟩ | old
  · trivial
  · exact role_told_longer (List.suffix_cons _ _) (beside.told place role old)

theorem pace_begun {layer loop : Nat} (waits : w.roles[loop]? = some (.waits layer)) (site : Site) {g : Env → Watch β}
    (rest : k.Pace base (w.begun layer loop waits) env env' good p (g (env'.child w.roles.length))) :
    k.Pace base w env env' good p (Watch.childEnv site >>= g) := by
  intro m n beside
  have like := beside.like
  have made : n.machine.store.layers.size = w.roles.length := like.store.size'
  have env : n.machine.env = env' := like.env'
  have waiting := beside.told loop _ waits
  rw [bind_ok g (child_env_run site n), made, env]
  refine rest m _ ⟨⟨begun_like waits like.store, like.env, like.env', like.here, like.there, like.source, like.sink⟩, ?_⟩
  have longer : n.events <:+ .opened site w.roles.length :: n.events := List.suffix_cons _ _
  intro place role known
  rcases begun_cases waits known with ⟨rfl, rfl⟩ | ⟨rfl, rfl⟩ | ⟨_, old⟩
  · refine ⟨?_, Event.any_longer longer _ waiting⟩
    simp [Event.opens]
  · exact Event.any_longer longer _ waiting
  · exact role_told_longer longer (beside.told place role old)

theorem pace_ended {layer partner loop : Nat} (round : w.roles[partner]? = some (.round layer loop))
    (runs : w.roles[loop]? = some .runs) {outer outer' : Env} (here : outer.inner = layer) (there : outer'.inner = loop)
    (rest : k.Pace base (w.ended layer partner loop round runs) env env' good p q) :
    k.Pace base w env env' good (do onStore 0 (Store.clear outer); p)
      (do Watch.act (onStore 0 (Store.clear outer')); Watch.log (.emptied outer'.inner); q) := by
  subst here there
  intro m n beside
  have like := beside.like
  obtain ⟨made, opened⟩ := beside.told partner _ round
  have waiting := beside.told outer'.inner _ runs
  refine rest _ ⟨_, .emptied outer'.inner :: n.events⟩ ⟨⟨ended_like round runs like.store, like.env, like.env', like.here,
    like.there, like.source, like.sink⟩, ?_⟩
  have longer : n.events <:+ .emptied outer'.inner :: n.events := List.suffix_cons _ _
  intro place role known
  rcases ended_cases round runs known with ⟨rfl, rfl⟩ | ⟨rfl, rfl⟩ | ⟨_, _, old⟩
  · exact Event.any_longer longer _ waiting
  · refine ⟨?_, Event.any_longer longer _ opened⟩
    simp only [Event.roundOver, Event.empties, made, beq_self_eq_true, Bool.and_self, Bool.true_or]
  · exact role_told_longer longer (beside.told place role old)

theorem pace_emptied {outer outer' : Env} (linked : w.Linked outer.inner outer'.inner)
    (rest : k.Pace base w env env' good p q) :
    k.Pace base w env env' good (do onStore 0 (Store.clear outer); p)
      (do Watch.act (onStore 0 (Store.clear outer')); Watch.log (.emptied outer'.inner); q) := by
  intro m n beside
  have like := beside.like
  refine rest _ ⟨_, .emptied outer'.inner :: n.events⟩ ⟨⟨like_clear like.store linked, like.env, like.env', like.here,
    like.there, like.source, like.sink⟩, told_longer (List.suffix_cons _ _) beside.told⟩

end Steps

end TreeWalk
