import TreeWalk.Proofs.Constructors
import TreeWalk.Proofs.Lookups
import TreeWalk.Proofs.Steadfast

set_option autoImplicit false

namespace TreeWalk

-- The routine at the place is that of the closure, in a call of it: the layer at the place was made
-- for the call, with the environment of the closure behind it.
structure Closure.RunsAt (events : List Event) (closure : Closure) (sites : List Site) (layers : List Nat)
    (place : Nat) : Prop where
  routine : sites[place]? = some (.routine closure.routine)
  layer : ∃ layer, layers[place]? = some layer ∧ closure.CalledIn events layer
  behind : layers.drop (place + 1) = closure.env.chain

-- The innermost class has its scope right behind the place. The closure in whose call the place is
-- was bound to the object as one of the methods of the class; every function further in was made
-- inside that call, since it has the layer of the call in its environment.
structure Received (events : List Event) (sites : List Site) (layers : List Nat) (place : Nat) (method : Closure)
    (object : Instance) : Prop where
  innermost : ∀ i site, i ≤ place → sites[i]? = some site → site.isReceiver = false
  owner : ∃ name methods, sites[place + 1]? = some (.receiver name methods) ∧
    method.MethodFor events name methods object
  call : method.RunsAt events sites layers place
  functions : ∀ i routine, i < place → sites[i]? = some (.routine routine) →
    ∃ function : Closure, function.RunsAt events sites layers i

section Receivers

variable {events : List Event}

theorem runs_inward (closure : Closure) (sites : List Site) (layers : List Nat) (place : Nat) (site : Site) (layer : Nat)
    (runs : closure.RunsAt events sites layers place) :
    closure.RunsAt events (site :: sites) (layer :: layers) (place + 1) :=
  ⟨runs.routine, runs.layer, runs.behind⟩

theorem received_inward (sites : List Site) (layers : List Nat) (place : Nat) (method : Closure) (object : Instance)
    (site : Site) (layer : Nat) (plain : site.isReceiver = false)
    (here : ∀ routine, site = .routine routine →
      ∃ function : Closure, function.RunsAt events (site :: sites) (layer :: layers) 0)
    (received : Received events sites layers place method object) :
    Received events (site :: sites) (layer :: layers) (place + 1) method object := by
  refine ⟨?_, received.owner, runs_inward method sites layers place site layer received.call, ?_⟩
  · intro i other before found
    cases i with
    | zero =>
        obtain rfl : site = other := by simpa using found
        exact plain
    | succ i => exact received.innermost i other (Nat.le_of_succ_le_succ before) (by simpa using found)
  · intro i routine before found
    cases i with
    | zero => exact here routine (by simpa using found)
    | succ i =>
        obtain ⟨function, runs⟩ := received.functions i routine (Nat.lt_of_succ_lt_succ before) (by simpa using found)
        exact ⟨function, runs_inward function sites layers i site layer runs⟩

theorem hosted_received (frames : List Frame) (layers : List Nat) (hosted : Hosted events frames layers)
    (enclosed : ∃ frame ∈ frames, frame.site.isReceiver = true) :
    ∃ place method object, Received events (frames.map Frame.site) layers place method object ∧
      (frames.map Frame.scope).findIdx? (fun scope => scope.contains receiverName) = some (place + 1) := by
  induction hosted with
  | top layers =>
      obtain ⟨_, member, _⟩ := enclosed
      cases member
  | direct frame outer layer layers here plain _ ih =>
      have other : frame.site.isReceiver = false := by
        cases site : frame.site <;> simp_all [Site.isReceiver, Site.isDeferred]
      have unrouted : ∀ routine, frame.site ≠ .routine routine := by
        intro routine same
        rw [same] at here
        cases here
      obtain ⟨receiver, member, found⟩ := enclosed
      rcases List.mem_cons.mp member with rfl | further
      · rw [other] at found
        cases found
      · obtain ⟨place, method, object, received, first⟩ := ih ⟨receiver, further, found⟩
        refine ⟨place + 1, method, object, received_inward _ layers place method object frame.site layer other
          (fun routine same => absurd same (unrouted routine)) received, ?_⟩
        simp [List.findIdx?_cons, plain, first]
  | function closure scope outer layer plain called _ ih =>
      obtain ⟨receiver, member, found⟩ := enclosed
      rcases List.mem_cons.mp member with rfl | further
      · cases found
      · obtain ⟨place, method, object, received, first⟩ := ih ⟨receiver, further, found⟩
        refine ⟨place + 1, method, object, received_inward _ _ place method object _ layer rfl
          (fun _ _ => ⟨closure, rfl, ⟨layer, rfl, called⟩, rfl⟩) received, ?_⟩
        simp [List.findIdx?_cons, plain, first]
  | method closure scope outer layer name methods object plain called bound _ _ =>
      refine ⟨0, closure, object, ⟨?_, ⟨name, methods, rfl, bound⟩, ⟨rfl, ⟨layer, rfl, called⟩, rfl⟩, ?_⟩, ?_⟩
      · intro i site before found
        obtain rfl : i = 0 := Nat.le_zero.mp before
        obtain rfl : Site.routine closure.routine = site := by simpa using found
        rfl
      · exact fun i _ before _ => absurd before (Nat.not_lt_zero i)
      · have held : (Frame.receiver name methods).scope.contains receiverName = true :=
          Bindings.contains_insert_self _ _ _
        simp [List.findIdx?_cons, plain, held]

end Receivers

theorem bound_once (events : List Event) (origins : (events.filterMap Event.makes?).Nodup) (closure : Closure)
    (cause other : Cause) (object sibling : Instance) (one : .bound cause closure object ∈ events)
    (another : .bound other closure sibling ∈ events) : sibling = object := by
  have same := filter_map_unique Event.makes? events origins _ _ closure.env.inner one another rfl rfl
  injection same with _ _ equal
  exact equal.symm

theorem located_receives (older : List Event) (mark : Mark) (name : Name) (machine : Machine) (frames : List Frame)
    (located : Located older (.this mark name) machine frames)
    (enclosed : (Visit.ofFrames (.this mark name) frames).Enclosed) :
    ∃ place method object, Received older (frames.map Frame.site) machine.env.chain place method object ∧
      ∀ steps, Regime.standard.evaluate (steps + 1) (.this mark name) machine = .ok (.object object) machine := by
  have named : name.text = receiverName := located.proper
  obtain ⟨site, member, receiver⟩ := enclosed mark name rfl
  obtain ⟨frame, inside, rfl⟩ := List.mem_map.mp member
  obtain ⟨place, method, object, received, first⟩ :=
    hosted_received frames _ located.hosted ⟨frame, inside, receiver⟩
  refine ⟨place, method, object, received, fun steps => ?_⟩
  have distance : machine.distances[mark.id]? = some (place + 1) := by
    rw [located.distance ⟨name.text, mark.id⟩ rfl]
    simpa only [Visit.found, Visit.ofFrames, Expr.reference?, Option.bind_some, named] using first
  have layer : machine.env.chain[place + 1]? = some method.env.inner := by
    have head : (machine.env.chain.drop (place + 1))[0]? = some method.env.inner := by
      rw [received.call.behind]
      rfl
    simpa using head
  obtain ⟨_, _, _, bound⟩ := received.owner
  obtain ⟨cause, event⟩ := bound.bound
  have held := located.receivers cause method object event
  simp only [Regime.evaluate, Regime.standard, Eval.readName, Eval.distance?, Eval.currentEnv, bind, EStateM.bind,
    get_run, pure, EStateM.pure, distance, Eval.onStore, Store.getAt, layer, named, held]

section Answers

variable {events : List Event}

theorem class_known_proper (c : ClassValue) (known : c.Known events) : c.Every Closure.Proper := by
  obtain ⟨_, _, _, table⟩ := known
  exact fun key closure found => (table key closure found).proper

theorem value_known_proper (value : Value) (known : value.Known events) : value.Every Closure.Proper := by
  cases value with
  | function identity closure => exact known.1.1
  | «class» c => exact class_known_proper c known
  | object o => exact class_known_proper o.ofClass known
  | _ => trivial

theorem admitted_holds (closure : Closure) (machine : Machine) (cause : Cause) (object : Instance)
    (admitted : Admitted events closure machine cause object) :
    machine.store.Holds closure.env.inner (.object object) :=
  ⟨⟨fun layer name value found => value_known_proper value (admitted.values layer name value found),
    fun holder name value found => value_known_proper value (admitted.fields holder name value found)⟩,
    admitted.receiver⟩

theorem constructor_answer (closure : Closure) (flow : Flow) (m : Machine) (receiver : Value)
    (constructor : closure.isConstructor = true)
    (held : (m.store.layer closure.env.inner).find? receiverName = some receiver) :
    Eval.answer closure flow m = .ok receiver m := by
  have here : (m.store.layer closure.env.inner).find? "this" = some receiver := held
  simp only [Eval.answer, constructor, if_true, Eval.onStore, Store.getAt, Env.chain, List.getElem?_cons_zero, here]

theorem constructor_answers (closure : Closure) (machine : Machine) (receiver : Value)
    (constructor : closure.isConstructor = true) (proper : closure.Proper)
    (holds : machine.store.Holds closure.env.inner receiver) (steps : Nat) (arguments : List Value)
    (given : ∀ value ∈ arguments, value.Every Closure.Proper) (flow : Flow) (next : Machine)
    (run : closure.run steps arguments machine = .ok flow next) :
    Eval.answer closure flow next = .ok receiver next := by
  have ended := holding_run (walk_steadfast closure.env.inner receiver steps) closure arguments proper given machine holds
  have kept := (ends_ok _ _ _ _ _ _ ended run).1
  exact constructor_answer closure flow next receiver constructor kept.receiver

theorem constructor_returns (closure : Closure) (machine : Machine) (receiver : Value)
    (constructor : closure.isConstructor = true) (proper : closure.Proper)
    (holds : machine.store.Holds closure.env.inner receiver) (steps : Nat) (arguments : List Value)
    (given : ∀ value ∈ arguments, value.Every Closure.Proper) (value : Value) (next : Machine)
    (entered : Regime.standard.enter steps closure arguments machine = .ok value next) : value = receiver := by
  cases steps with
  | zero => cases entered
  | succ steps =>
      rw [enter_run] at entered
      cases run : closure.run steps arguments machine with
      | error halt mid =>
          rw [bind_error _ run] at entered
          cases entered
      | ok flow mid =>
          rw [bind_ok _ run, constructor_answers closure machine receiver constructor proper holds steps arguments given
            flow mid run] at entered
          cases entered
          rfl

end Answers

-- The closure has this receiver and never another one.
def Chronicle.BoundTo (c : Chronicle) (older : List Event) (closure : Closure) (object : Instance) : Prop :=
  (∃ cause, .bound cause closure object ∈ older) ∧
    ∀ cause sibling, .bound cause closure sibling ∈ c.events → sibling = object

-- Wherever `this` is read, it is the receiver of the call around it; and a constructor with arguments
-- of the code that programs are made of gets its receiver at the end of a call, and answers it.
def Chronicle.ReceiversFound (c : Chronicle) : Prop :=
  (∀ newer older mark name machine, c.events = newer ++ .reached (.this mark name) machine :: older →
    ∃ v place method object, .visited v ∈ older ∧ v.node = .this mark name ∧
      Received older v.sites machine.env.chain place method object ∧ c.BoundTo older method object ∧
      ∀ steps, Regime.standard.evaluate (steps + 1) (.this mark name) machine = .ok (.object object) machine) ∧
  ∀ newer older closure machine, c.events = newer ++ .entered closure machine :: older → closure.isConstructor = true →
    ∃ object, c.BoundTo older closure object ∧ machine.store.Every Closure.Proper ∧
      ∀ steps arguments, (∀ value ∈ arguments, value.Every Closure.Proper) →
        (∀ flow next, closure.run steps arguments machine = .ok flow next →
          Eval.answer closure flow next = .ok (.object object) next) ∧
        ∀ value next, Regime.standard.enter steps closure arguments machine = .ok value next → value = .object object

theorem receivers_found (c : Chronicle) (reachable : c.Reachable) : c.ReceiversFound := by
  have sound := reachable_sound c reachable
  have only : ∀ (older : List Event) (closure : Closure) (object : Instance), older ⊆ c.events →
      (∃ cause, .bound cause closure object ∈ older) → c.BoundTo older closure object := by
    intro older closure object subset bound
    obtain ⟨cause, event⟩ := bound
    exact ⟨⟨cause, event⟩, fun other sibling another =>
      bound_once c.events sound.record.origins closure cause other object sibling (subset event) another⟩
  constructor
  · intro newer older mark name machine split
    obtain ⟨frames, located, subset⟩ := reached_located c sound newer older _ machine split
    have enclosed := sound.counted.enclosed _ (subset located.visited)
    obtain ⟨place, method, object, received, reads⟩ := located_receives older mark name machine frames located enclosed
    obtain ⟨_, _, _, bound⟩ := received.owner
    exact ⟨.ofFrames (.this mark name) frames, place, method, object, located.visited, rfl, received,
      only older method object subset bound.bound, reads⟩
  · intro newer older closure machine split constructor
    have subset : older ⊆ c.events := by
      rw [split]
      exact fun _ member => List.mem_append_right newer (List.mem_cons_of_mem _ member)
    have justified : Justified older (.entered closure machine) := told_split newer older _ (split ▸ sound.record.told)
    obtain ⟨cause, object, admitted⟩ := justified constructor
    have holds := admitted_holds closure machine cause object admitted
    refine ⟨object, only older closure object subset ⟨cause, admitted.bound⟩, holds.code, ?_⟩
    intro steps arguments given
    exact ⟨constructor_answers closure machine _ constructor admitted.known.1 holds steps arguments given,
      constructor_returns closure machine _ constructor admitted.known.1 holds steps arguments given⟩

def Event.isReceiving : Event → Bool
  | reached (.this _ _) _ => true
  | _ => false

def Chronicle.ofLaterCall : Chronicle :=
  .ofText 40 ("class A \x7b constructor(x) \x7b this.x = x; \x7d later() \x7b func f() \x7b return this; \x7d return f; \x7d \x7d" ++
    "A(true).later()();")

theorem receivers_found_later :
    Chronicle.ofLaterCall.Reachable ∧ Chronicle.ofLaterCall.events.any Event.isReceiving = true ∧
      Chronicle.ofLaterCall.events.any Event.isConstruction = true ∧ Chronicle.ofLaterCall.ReceiversFound :=
  ⟨of_text_reachable _ _, by decide +kernel, by decide +kernel, receivers_found _ (of_text_reachable _ _)⟩

end TreeWalk
