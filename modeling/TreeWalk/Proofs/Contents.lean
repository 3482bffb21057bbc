import TreeWalk.Proofs.Quiet

set_option autoImplicit false

namespace TreeWalk

def ClassValue.Every (good : Closure → Prop) (c : ClassValue) : Prop :=
  ∀ key closure, c.methods.find? key = some closure → good closure

def Value.Every (good : Closure → Prop) : Value → Prop
  | .function _ closure => good closure
  | .class c => c.Every good
  | .object o => o.ofClass.Every good
  | .number _ | .string _ | .bool _ | .none | .native _ => True

def Flow.Every (good : Closure → Prop) : Flow → Prop
  | .normal => True
  | .returned value => value.Every good

structure Store.Every (good : Closure → Prop) (s : Store) : Prop where
  layers : ∀ layer name value, (s.layer layer).find? name = some value → value.Every good
  fields : ∀ object name value, (s.fields object).find? name = some value → value.Every good

section Values

variable {good : Closure → Prop}

theorem every_inert (value : Value) (inert : value.IsInert) : value.Every good := by
  cases value <;> trivial

theorem every_literal (value : Literal) : value.value.Every good := by
  cases value <;> trivial

theorem receiver_every (object : Instance) (methods : object.ofClass.Every good) (name : String) (value : Value)
    (found : (Bindings.empty.insert receiverName (.object object)).find? name = some value) : value.Every good := by
  rcases Bindings.find_insert_cases _ _ _ _ _ found with ⟨_, rfl⟩ | none
  · exact methods
  · cases none

theorem made_every (identity : Nat) (name : Name) (methods : List Routine) (env : Env)
    (each : ∀ method ∈ methods, good ⟨method, env, method.isConstructor⟩) :
    (ClassValue.made identity name methods env).Every good := by
  intro key closure found
  obtain ⟨method, member, same⟩ := List.mem_map.mp (Bindings.find_of_list _ key closure found)
  cases same
  exact each method member

theorem value_every_mono {weak : Closure → Prop} (weaker : ∀ closure, good closure → weak closure) (value : Value)
    (every : value.Every good) : value.Every weak := by
  cases value with
  | function identity closure => exact weaker closure every
  | «class» c => exact fun key closure found => weaker closure (every key closure found)
  | object object => exact fun key closure found => weaker closure (every key closure found)
  | _ => trivial

end Values

namespace Store

variable {good : Closure → Prop} {s : Store}

theorem every_mono {weak : Closure → Prop} (weaker : ∀ closure, good closure → weak closure) (every : s.Every good) :
    s.Every weak :=
  ⟨fun layer name value found => value_every_mono weaker value (every.layers layer name value found),
    fun object name value found => value_every_mono weaker value (every.fields object name value found)⟩

theorem every_write (id : Nat) (name : String) (value : Value) (every : s.Every good) (new : value.Every good) :
    (s.write id name value).Every good := by
  refine ⟨fun layer known result found => ?_, every.fields⟩
  rcases find_write s id layer name known value result found with before | ⟨same, _⟩
  · exact every.layers layer known result before
  · exact same ▸ new

theorem every_push (bindings : Bindings Value) (every : s.Every good)
    (new : ∀ name value, bindings.find? name = some value → value.Every good) :
    Every good { s with layers := s.layers.push bindings } := by
  refine ⟨fun layer name value found => ?_, every.fields⟩
  rcases layer_push_cases s bindings layer with old | pushed
  · exact every.layers layer name value (old ▸ found)
  · exact new name value (pushed ▸ found)

theorem every_clear (id : Nat) (every : s.Every good) :
    Every good { s with layers := s.layers.modify id fun _ => .empty } := by
  refine ⟨fun layer name value found => ?_, every.fields⟩
  exact every.layers layer name value (find_clear s id layer name value found)

theorem every_identity (every : s.Every good) (next : Nat) : Every good { s with nextIdentity := next } :=
  ⟨every.layers, every.fields⟩

theorem every_instance (every : s.Every good) : Every good { s with objects := s.objects.push .empty } := by
  refine ⟨every.layers, fun object name value found => every.fields object name value ?_⟩
  rwa [fields_push s object] at found

theorem every_field (object : Nat) (name : String) (value : Value) (every : s.Every good) (new : value.Every good) :
    Every good { s with objects := s.objects.modify object fun b => b.insert name value } := by
  refine ⟨every.layers, fun other field result found => ?_⟩
  rcases fields_modify s object other name field value result found with before | same
  · exact every.fields other field result before
  · exact same ▸ new

theorem every_received (object : Instance) (every : s.Every good) (methods : object.ofClass.Every good) :
    (s.received object).Every good :=
  every_push _ (every_identity every (s.nextIdentity + 1)) (receiver_every object methods)

end Store

theorem start_every (good : Closure → Prop) (source : Source) (sink : Sink) :
    (Machine.start source sink).store.Every good := by
  refine ⟨fun layer name value found => ?_, fun object name value found => ?_⟩
  · by_cases ground : layer = 0
    · subst ground
      obtain ⟨native, _, same⟩ := List.mem_map.mp (Bindings.find_of_list _ name value found)
      cases same
      trivial
    · have outside := Store.layer_outside (Machine.start source sink).store layer (Nat.one_le_iff_ne_zero.mpr ground)
      rw [outside] at found
      cases found
  · cases found

end TreeWalk
