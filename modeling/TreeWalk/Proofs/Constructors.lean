import TreeWalk.Proofs.Reached

set_option autoImplicit false

namespace TreeWalk

structure Creates (older : List Event) (closure : Closure) (object : Instance) : Prop where
  now : older.head? = some (.bound .creation closure object)
  first : ∀ other before sibling, .entered other before ∈ older → .bound .creation other sibling ∈ older →
    sibling.identity ≠ object.identity

def ReadBefore (older : List Event) (closure : Closure) (object : Instance) : Prop :=
  ∃ name, name.text = Routine.constructorName ∧ .bound (.property name) closure object ∈ older

def Chronicle.ConstructorsGuarded (c : Chronicle) : Prop :=
  (∀ callee, .called callee ∈ c.events → ¬ callee.AccessesConstructor) ∧
    ∀ newer older closure machine, c.events = newer ++ .entered closure machine :: older →
      closure.isConstructor = true →
      ∃ object, (machine.store.layer closure.env.inner).find? receiverName = some (.object object) ∧
        (Creates older closure object ∨ ReadBefore older closure object)

theorem created_once (events : List Event) (nodup : (events.filterMap Event.created?).Nodup) (first second : Closure)
    (object sibling : Instance) (one : .bound .creation first object ∈ events)
    (other : .bound .creation second sibling ∈ events) (same : sibling.identity = object.identity) : second = first := by
  have equal := filter_map_unique Event.created? events nodup _ _ sibling.identity other one rfl (congrArg some same.symm)
  injection equal

theorem admitted_guarded (events older : List Event) (closure : Closure) (machine : Machine) (cause : Cause)
    (object : Instance) (nodup : (events.filterMap Event.created?).Nodup) (subset : older ⊆ events)
    (admitted : Admitted older closure machine cause object) :
    Creates older closure object ∨ ReadBefore older closure object := by
  cases cause with
  | creation =>
      obtain ⟨now, fresh⟩ := admitted.allowed
      refine .inl ⟨now, fun other before sibling entered bound same => ?_⟩
      obtain rfl := created_once events nodup closure other object sibling (subset admitted.bound) (subset bound) same
      exact fresh other before entered rfl
  | property name => exact .inr ⟨name, admitted.allowed, admitted.bound⟩

theorem constructors_guarded (c : Chronicle) (reachable : c.Reachable) : c.ConstructorsGuarded := by
  have sound := (reachable_sound c reachable).record
  constructor
  · intro callee member
    obtain ⟨newer, older, split⟩ := List.append_of_mem member
    exact told_split newer older _ (split ▸ sound.told)
  · intro newer older closure machine split constructor
    have justified : Justified older (.entered closure machine) := told_split newer older _ (split ▸ sound.told)
    obtain ⟨cause, object, admitted⟩ := justified constructor
    have subset : older ⊆ c.events := by
      rw [split]
      exact fun _ member => List.mem_append_right newer (List.mem_cons_of_mem _ member)
    exact ⟨object, admitted.receiver,
      admitted_guarded c.events older closure machine cause object sound.created subset admitted⟩

def Event.isConstruction : Event → Bool
  | entered closure _ => closure.isConstructor
  | _ => false

theorem constructors_guarded_creation :
    (Chronicle.ofText 20 "class A \x7b constructor() \x7b\x7d \x7d A();").Reachable ∧
      (Chronicle.ofText 20 "class A \x7b constructor() \x7b\x7d \x7d A();").events.any Event.isConstruction = true ∧
      (Chronicle.ofText 20 "class A \x7b constructor() \x7b\x7d \x7d A();").ConstructorsGuarded :=
  ⟨of_text_reachable _ _, by decide +kernel, constructors_guarded _ (of_text_reachable _ _)⟩

def Chronicle.OnlyCreations (c : Chronicle) : Prop :=
  ∀ newer older closure machine, c.events = newer ++ .entered closure machine :: older → closure.isConstructor = true →
    ∃ object, .bound .creation closure object ∈ older

def Event.bindsIn (layer : Nat) : Event → Bool
  | bound .creation closure _ => closure.env.inner == layer
  | _ => false

def Event.isRepeated (events : List Event) : Event → Bool
  | entered closure _ => closure.isConstructor && !events.any (bindsIn closure.env.inner)
  | _ => false

theorem repeated_not_only (c : Chronicle) (repeated : c.events.any (Event.isRepeated c.events) = true) :
    ¬ c.OnlyCreations := by
  intro only
  obtain ⟨event, member, outside⟩ := List.any_eq_true.mp repeated
  cases event with
  | entered closure machine =>
      obtain ⟨newer, older, split⟩ := List.append_of_mem member
      simp only [Event.isRepeated, Bool.and_eq_true, Bool.not_eq_true', List.any_eq_false] at outside
      obtain ⟨object, bound⟩ := only newer older closure machine split outside.1
      have inside : .bound .creation closure object ∈ c.events := by
        rw [split]
        exact List.mem_append_right newer (List.mem_cons_of_mem _ bound)
      exact outside.2 _ inside (beq_self_eq_true closure.env.inner)
  | _ => cases outside

theorem constructors_not_only_created : ¬ ∀ c : Chronicle, c.Reachable → c.OnlyCreations := by
  intro only
  apply repeated_not_only (.ofText 20 "class A \x7b constructor() \x7b\x7d \x7d var c = A().constructor; c();")
    _ (only _ (of_text_reachable _ _))
  decide +kernel

end TreeWalk
