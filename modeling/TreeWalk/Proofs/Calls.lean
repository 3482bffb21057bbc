import TreeWalk.Proofs.Bindings
import TreeWalk.Proofs.ReceiverName
import TreeWalk.Proofs.Settled

set_option autoImplicit false

namespace TreeWalk

def Site.isReceiver : Site → Bool
  | receiver _ _ => true
  | block _ | branch _ | otherwise _ | loop _ | routine _ => false

structure Closure.CalledIn (events : List Event) (closure : Closure) (layer : Nat) : Prop where
  entered : ∃ machine, .entered closure machine ∈ events ∧ machine.store.layers.size = layer
  opened : .opened (.routine closure.routine) layer ∈ events

structure Closure.MethodFor (events : List Event) (closure : Closure) (name : Name) (methods : List Routine)
    (object : Instance) : Prop where
  listed : closure.routine ∈ methods
  bound : ∃ cause, .bound cause closure object ∈ events
  declared : .declared name methods object.ofClass ∈ events

inductive Hosted (events : List Event) : List Frame → List Nat → Prop where
  | top (layers : List Nat) : Hosted events [] layers
  | direct (frame : Frame) (outer : List Frame) (layer : Nat) (layers : List Nat)
      (here : frame.site.isDeferred = false) (plain : frame.scope.contains receiverName = false)
      (around : Hosted events outer layers) : Hosted events (frame :: outer) (layer :: layers)
  | function (closure : Closure) (scope : Scope) (outer : List Frame) (layer : Nat)
      (plain : scope.contains receiverName = false) (called : closure.CalledIn events layer)
      (around : Hosted events outer closure.env.chain) :
      Hosted events (⟨.routine closure.routine, scope⟩ :: outer) (layer :: closure.env.chain)
  | method (closure : Closure) (scope : Scope) (outer : List Frame) (layer : Nat) (name : Name)
      (methods : List Routine) (object : Instance) (plain : scope.contains receiverName = false)
      (called : closure.CalledIn events layer) (bound : closure.MethodFor events name methods object)
      (around : Hosted events outer closure.env.outer) :
      Hosted events (⟨.routine closure.routine, scope⟩ :: .receiver name methods :: outer) (layer :: closure.env.chain)

inductive Closure.Lodged (events : List Event) (closure : Closure) : List Frame → Prop where
  | function (frames : List Frame) (around : Hosted events frames closure.env.chain) : closure.Lodged events frames
  | method (frames : List Frame) (name : Name) (methods : List Routine) (object : Instance)
      (bound : closure.MethodFor events name methods object) (around : Hosted events frames closure.env.outer) :
      closure.Lodged events (.receiver name methods :: frames)

section Mono

variable {events more : List Event} (wider : events ⊆ more)

include wider

theorem called_mono (closure : Closure) (layer : Nat) (called : closure.CalledIn events layer) :
    closure.CalledIn more layer := by
  obtain ⟨machine, entered, size⟩ := called.entered
  exact ⟨⟨machine, wider entered, size⟩, wider called.opened⟩

theorem method_for_mono (closure : Closure) (name : Name) (methods : List Routine) (object : Instance)
    (bound : closure.MethodFor events name methods object) : closure.MethodFor more name methods object := by
  obtain ⟨cause, event⟩ := bound.bound
  exact ⟨bound.listed, ⟨cause, wider event⟩, wider bound.declared⟩

theorem hosted_mono (frames : List Frame) (layers : List Nat) (hosted : Hosted events frames layers) :
    Hosted more frames layers := by
  induction hosted with
  | top layers => exact .top layers
  | direct frame outer layer layers here plain _ ih => exact .direct frame outer layer layers here plain ih
  | function closure scope outer layer plain called _ ih =>
      exact .function closure scope outer layer plain (called_mono wider closure layer called) ih
  | method closure scope outer layer name methods object plain called bound _ ih =>
      exact .method closure scope outer layer name methods object plain (called_mono wider closure layer called)
        (method_for_mono wider closure name methods object bound) ih

theorem lodged_mono (closure : Closure) (frames : List Frame) (lodged : closure.Lodged events frames) :
    closure.Lodged more frames := by
  cases lodged with
  | function frames around => exact .function frames (hosted_mono wider frames _ around)
  | method frames name methods object bound around =>
      exact .method frames name methods object (method_for_mono wider closure name methods object bound)
        (hosted_mono wider frames _ around)

end Mono

section Scopes

variable {events : List Event}

theorem plain_insert (scope : Scope) (name : Name) (ready : Bool) (proper : name.Proper)
    (plain : scope.contains receiverName = false) : (scope.insert name.text ready).contains receiverName = false := by
  unfold Bindings.contains at plain ⊢
  rwa [Bindings.find_insert_other scope name.text receiverName ready (Ne.symm proper)]

theorem plain_parameters (names : List Name) (scope : Scope) (proper : ∀ name ∈ names, name.Proper)
    (plain : scope.contains receiverName = false) :
    (names.foldl (fun scope name => Bindings.insert scope name.text true) scope).contains receiverName = false := by
  induction names generalizing scope with
  | nil => exact plain
  | cons name rest ih =>
      exact ih _ (fun other member => proper other (List.mem_cons_of_mem _ member))
        (plain_insert scope name true (proper name List.mem_cons_self) plain)

theorem hosted_mark (name : Name) (ready : Bool) (frames : List Frame) (layers : List Nat) (proper : name.Proper)
    (hosted : Hosted events frames layers) : Hosted events (name.markIn ready frames) layers := by
  cases hosted with
  | top layers => exact .top layers
  | direct frame outer layer layers here plain around =>
      exact .direct _ outer layer layers here (plain_insert frame.scope name ready proper plain) around
  | function closure scope outer layer plain called around =>
      exact .function closure _ outer layer (plain_insert scope name ready proper plain) called around
  | method closure scope outer layer owner methods object plain called bound around =>
      exact .method closure _ outer layer owner methods object (plain_insert scope name ready proper plain) called bound
        around

theorem hosted_call (closure : Closure) (frames : List Frame) (layer : Nat) (lodged : closure.Lodged events frames)
    (proper : ∀ parameter ∈ closure.routine.parameters, parameter.Proper) (called : closure.CalledIn events layer) :
    Hosted events (closure.routine.frame :: frames) (layer :: closure.env.chain) := by
  have plain := plain_parameters closure.routine.parameters Bindings.empty proper rfl
  cases lodged with
  | function frames around => exact .function closure _ frames layer plain called around
  | method frames name methods object bound around =>
      exact .method closure _ frames layer name methods object plain called bound around

end Scopes

end TreeWalk
