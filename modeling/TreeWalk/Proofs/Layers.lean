import TreeWalk.Proofs.Calls
import TreeWalk.Proofs.Watch

set_option autoImplicit false

namespace TreeWalk

theorem opened_for_mono (events more : List Event) (site : Site) (layer : Nat) (wider : events ⊆ more)
    (opened : OpenedFor events site layer) : OpenedFor more site layer := by
  cases site with
  | receiver name methods =>
      obtain ⟨cause, closure, object, bound, inner, declared⟩ := opened
      exact ⟨cause, closure, object, wider bound, inner, wider declared⟩
  | _ => exact wider opened

-- The layers from the innermost outward were made for the scopes, with the globals behind them, and
-- every name that can be read from a scope has been declared in its layer.
def Matches (events : List Event) : List Frame → List Nat → Prop
  | [], layers => layers = [0]
  | _ :: _, [] => False
  | frame :: outer, layer :: rest =>
      OpenedFor events frame.site layer ∧
        (∀ name, frame.scope.find? name = some true → .named layer name ∈ events) ∧ Matches events outer rest

-- What was declared in a scope is still in its layer, as long as the scope has not been left.
def Live (store : Store) : List Frame → List Nat → Prop
  | frame :: outer, layer :: rest =>
      (∀ name, frame.scope.find? name = some true → (store.layer layer).contains name) ∧
        (frame.site.isDeferred = false → Live store outer rest)
  | _, _ => True

theorem matches_mono (events more : List Event) (wider : events ⊆ more) : ∀ (frames : List Frame) (layers : List Nat),
    Matches events frames layers → Matches more frames layers
  | [], _, same => same
  | frame :: outer, layer :: rest, ⟨opened, named, further⟩ =>
      ⟨opened_for_mono events more frame.site layer wider opened, fun name ready => wider (named name ready),
        matches_mono events more wider outer rest further⟩

theorem matches_length (events : List Event) : ∀ (frames : List Frame) (layers : List Nat),
    Matches events frames layers → layers.length = frames.length + 1
  | [], layers, same => by
      have only : layers = [0] := same
      simp [only]
  | _ :: outer, _ :: rest, ⟨_, _, further⟩ => by
      simpa only [List.length_cons, Nat.add_right_cancel_iff] using matches_length events outer rest further

theorem matches_last (events : List Event) : ∀ (frames : List Frame) (layers : List Nat),
    Matches events frames layers → layers.getLast? = some 0
  | [], layers, same => by
      have only : layers = [0] := same
      simp [only]
  | _ :: outer, _ :: next :: rest, ⟨_, _, further⟩ => by
      simpa only [List.getLast?_cons_cons] using matches_last events outer (next :: rest) further
  | _ :: outer, [_], ⟨_, _, further⟩ => by
      have length := matches_length events outer [] further
      simp at length

theorem matches_at (events : List Event) : ∀ (frames : List Frame) (layers : List Nat), Matches events frames layers →
    ∀ (place : Nat) (frame : Frame), frames[place]? = some frame → ∃ layer, layers[place]? = some layer ∧
      OpenedFor events frame.site layer ∧ ∀ name, frame.scope.find? name = some true → .named layer name ∈ events
  | head :: outer, layer :: rest, ⟨opened, named, further⟩, place, frame, found => by
      cases place with
      | zero =>
          obtain rfl : head = frame := by simpa using found
          exact ⟨layer, rfl, opened, named⟩
      | succ place => exact matches_at events outer rest further place frame (by simpa using found)

theorem live_at (store : Store) : ∀ (frames : List Frame) (layers : List Nat), Live store frames layers →
    ∀ (place : Nat) (frame : Frame) (layer : Nat), frames[place]? = some frame → layers[place]? = some layer →
      (∀ (i : Nat) (between : Frame), i < place → frames[i]? = some between → between.site.isDeferred = false) →
      ∀ name, frame.scope.find? name = some true → (store.layer layer).contains name
  | [], _, _, _, _, _, found, _, _ => by simp at found
  | _ :: _, [], _, _, _, _, _, inside, _ => by simp at inside
  | head :: outer, first :: rest, ⟨here, further⟩, place, frame, layer, found, inside, open_ => by
      cases place with
      | zero =>
          obtain rfl : head = frame := by simpa using found
          obtain rfl : first = layer := by simpa using inside
          exact here
      | succ place =>
          have direct := open_ 0 head (Nat.succ_pos place) rfl
          apply live_at store outer rest (further direct) place frame layer (by simpa using found)
            (by simpa using inside)
          intro i between before at_
          exact open_ (i + 1) between (Nat.succ_lt_succ before) (by simpa using at_)

theorem live_mono (store next : Store) : ∀ (frames : List Frame) (layers : List Nat), Live store frames layers →
    (∀ layer ∈ layers, ∀ name, (store.layer layer).contains name → (next.layer layer).contains name) →
    Live next frames layers
  | [], _, _, _ => trivial
  | _ :: _, [], _, _ => trivial
  | _ :: outer, layer :: rest, ⟨here, further⟩, kept =>
      ⟨fun name ready => kept layer List.mem_cons_self name (here name ready),
        fun direct => live_mono store next outer rest (further direct)
          fun other member => kept other (List.mem_cons_of_mem _ member)⟩

def Visit.Known (events : List Event) (v : Visit) : Prop :=
  .visited v ∈ events

-- A closure whose routine was checked under scopes that its environment stands for.
def Closure.Known (events : List Event) (closure : Closure) : Prop :=
  closure.routine.Proper ∧ ∃ frames, Matches events frames closure.env.chain ∧
    closure.routine.Settled (Visit.Known events) frames ∧ closure.Lodged events frames

-- A method of a class: its receiver is still to come between it and its environment.
structure Closure.MethodOf (events : List Event) (name : Name) (methods : List Routine) (key : String)
    (closure : Closure) : Prop where
  proper : closure.routine.Proper
  constructor : closure.isConstructor = (key == Routine.constructorName)
  listed : closure.routine ∈ methods
  settled : ∃ frames, Matches events frames closure.env.chain ∧
    closure.routine.Settled (Visit.Known events) (.receiver name methods :: frames) ∧
    Hosted events frames closure.env.chain

def ClassValue.Known (events : List Event) (c : ClassValue) : Prop :=
  ∃ name methods, .declared name methods c ∈ events ∧ ∀ key closure, c.methods.find? key = some closure →
    closure.MethodOf events name methods key

-- The program gets hold of a constructor only as the property of that name.
def Closure.Bound (events : List Event) (closure : Closure) : Prop :=
  closure.isConstructor = true → ∃ name object, name.text = Routine.constructorName ∧
    .bound (.property name) closure object ∈ events

def Value.Known (events : List Event) : Value → Prop
  | .function _ closure => closure.Known events ∧ closure.Bound events
  | .class c => c.Known events
  | .object o => o.ofClass.Known events
  | .number _ | .string _ | .bool _ | .none | .native _ => True

def Flow.Known (events : List Event) : Flow → Prop
  | .normal => True
  | .returned value => value.Known events

section Mono

variable {events more : List Event}

theorem closure_known_mono (closure : Closure) (wider : events ⊆ more) (known : closure.Known events) :
    closure.Known more := by
  obtain ⟨proper, frames, layers, settled, lodged⟩ := known
  exact ⟨proper, frames, matches_mono events more wider frames _ layers,
    routine_settled_mono (fun _ visited => wider visited) _ frames settled, lodged_mono wider closure frames lodged⟩

theorem method_mono (name : Name) (methods : List Routine) (key : String) (closure : Closure) (wider : events ⊆ more)
    (method : closure.MethodOf events name methods key) : closure.MethodOf more name methods key := by
  obtain ⟨frames, layers, settled, hosted⟩ := method.settled
  exact ⟨method.proper, method.constructor, method.listed, frames, matches_mono events more wider frames _ layers,
    routine_settled_mono (fun _ visited => wider visited) _ _ settled, hosted_mono wider frames _ hosted⟩

theorem class_known_mono (c : ClassValue) (wider : events ⊆ more) (known : c.Known events) : c.Known more := by
  obtain ⟨name, methods, declared, table⟩ := known
  exact ⟨name, methods, wider declared, fun key closure found =>
    method_mono name methods key closure wider (table key closure found)⟩

theorem bound_mono (closure : Closure) (wider : events ⊆ more) (bound : closure.Bound events) : closure.Bound more := by
  intro constructor
  obtain ⟨name, object, named, event⟩ := bound constructor
  exact ⟨name, object, named, wider event⟩

theorem value_known_mono (value : Value) (wider : events ⊆ more) (known : value.Known events) : value.Known more := by
  cases value with
  | function identity closure =>
      exact ⟨closure_known_mono closure wider known.1, bound_mono closure wider known.2⟩
  | «class» c => exact class_known_mono c wider known
  | object o => exact class_known_mono o.ofClass wider known
  | _ => trivial

end Mono

namespace Event

def makes? : Event → Option Nat
  | opened _ layer => some layer
  | bound _ closure _ => some closure.env.inner
  | _ => none

def created? : Event → Option Nat
  | bound .creation _ object => some object.identity
  | _ => none

def visited? : Event → Option Nat
  | visited v => v.node.reference?.map Reference.id
  | _ => none

end Event

structure Located (older : List Event) (node : Expr) (machine : Machine) (frames : List Frame) : Prop where
  visited : .visited (.ofFrames node frames) ∈ older
  distance : ∀ r, node.reference? = some r → machine.distances[r.id]? = (Visit.ofFrames node frames).found
  layers : Matches older frames machine.env.chain
  live : Live machine.store frames machine.env.chain
  ready : (∃ mark name value, node = .assign mark name value) ∨ (Visit.ofFrames node frames).isReady ≠ some false
  named : ∀ layer name, .named layer name ∈ older →
    (machine.store.layer layer).contains name ∨ Lost older layer name
  proper : node.Proper
  hosted : Hosted older frames machine.env.chain
  receivers : ∀ cause closure object, .bound cause closure object ∈ older →
    (machine.store.layer closure.env.inner).find? receiverName = some (.object object)

-- The body of a constructor runs as part of the creation of its instance, and for the first time, or
-- through the property of its name.
def Cause.Allows (older : List Event) (closure : Closure) (object : Instance) : Cause → Prop
  | .creation => older.head? = some (.bound .creation closure object) ∧
      ∀ other before, .entered other before ∈ older → other.env.inner ≠ closure.env.inner
  | .property name => name.text = Routine.constructorName

structure Admitted (older : List Event) (closure : Closure) (machine : Machine) (cause : Cause) (object : Instance) :
    Prop where
  bound : .bound cause closure object ∈ older
  receiver : (machine.store.layer closure.env.inner).find? receiverName = some (.object object)
  allowed : cause.Allows older closure object
  known : closure.Known older
  values : ∀ layer name value, (machine.store.layer layer).find? name = some value → value.Known older
  fields : ∀ object name value, (machine.store.fields object).find? name = some value → value.Known older

def Justified (older : List Event) : Event → Prop
  | .reached node machine => ∃ frames, Located older node machine frames
  | .called callee => ¬ callee.AccessesConstructor
  | .entered closure machine =>
      closure.isConstructor = true → ∃ cause object, Admitted older closure machine cause object
  | _ => True

-- Every event follows from those before it.
def Told : List Event → Prop
  | [] => True
  | event :: older => Justified older event ∧ Told older

theorem told_split (newer older : List Event) (event : Event) (told : Told (newer ++ event :: older)) :
    Justified older event := by
  induction newer with
  | nil => exact told.1
  | cons first rest ih => exact ih told.2

structure Watched.Sound (w : Watched) : Prop where
  values : ∀ layer name value, (w.machine.store.layer layer).find? name = some value → value.Known w.events
  fields : ∀ object name value, (w.machine.store.fields object).find? name = some value → value.Known w.events
  ground : 0 < w.machine.store.layers.size
  origins : (w.events.filterMap Event.makes?).Nodup
  below : ∀ layer ∈ w.events.filterMap Event.makes?, 0 < layer ∧ layer < w.machine.store.layers.size
  named : ∀ layer name, .named layer name ∈ w.events →
    (w.machine.store.layer layer).contains name ∨ Lost w.events layer name
  emptied : ∀ layer, .emptied layer ∈ w.events → ∃ body, .opened (.loop body) layer ∈ w.events
  receivers : ∀ cause closure object, .bound cause closure object ∈ w.events →
    (w.machine.store.layer closure.env.inner).find? receiverName = some (.object object)
  created : (w.events.filterMap Event.created?).Nodup
  creations : ∀ object ∈ w.events.filterMap Event.created?, object < w.machine.store.objects.size
  entered : ∀ closure machine, .entered closure machine ∈ w.events →
    closure.env.inner < w.machine.store.layers.size
  distances : ∀ v r, .visited v ∈ w.events → v.node.reference? = some r → w.machine.distances[r.id]? = v.found
  told : Told w.events

end TreeWalk
