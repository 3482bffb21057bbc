import TreeWalk.Proofs.Reached
import TreeWalk.Proofs.Tandems

set_option autoImplicit false

namespace TreeWalk

open Eval Overlay

theorem records_resolve (program : Program) : (Watch.resolve program).Records := by
  intro n
  unfold Watch.resolve
  cases Stmt.surveyAll program ⟨.start n.machine.distances, [], []⟩ with
  | ok a s => exact List.suffix_append _ _
  | error e s => exact List.suffix_refl _

section Distances

variable {w w' v v' : Watched}

theorem distances_lead (sound : w.Sound) (sound' : w'.Sound) :
    Visit.LeadAlike Stretched (Visit.Known w.events) (Visit.Known w'.events) (fun _ _ _ => True)
      (w.machine.distances.Lead w'.machine.distances) where
  toPlacing := placing_stretched
  leads spans frames frames' node node' name id id' stretched seen seen' refers refers' _ := by
    have here : w.machine.distances[id]? = (Visit.ofFrames node frames).found := sound.distances _ ⟨name, id⟩ seen refers
    have there : w'.machine.distances[id']? = (Visit.ofFrames node' frames').found :=
      sound'.distances _ ⟨name, id'⟩ seen' refers'
    unfold Distances.Lead
    rw [here, there]
    simp only [Visit.found, Visit.ofFrames, refers, refers', Option.bind_some]
    exact found_leads stretched name

theorem distances_still_lead (sound : w.Sound) (sound' : w'.Sound) (longer : v.Sound) (longer' : v'.Sound)
    (seen : w.events ⊆ v.events) (seen' : w'.events ⊆ v'.events) :
    Visit.LeadAlike (fun _ _ _ => True) (Visit.Known w.events) (Visit.Known w'.events)
      (w.machine.distances.Lead w'.machine.distances) (v.machine.distances.Lead v'.machine.distances) where
  toPlacing := placing_anywhere
  leads spans frames frames' node node' name id id' _ known known' refers refers' leads := by
    have kept : v.machine.distances[id]? = w.machine.distances[id]? :=
      (longer.distances _ ⟨name, id⟩ (seen known) refers).trans (sound.distances _ ⟨name, id⟩ known refers).symm
    have kept' : v'.machine.distances[id']? = w'.machine.distances[id']? :=
      (longer'.distances _ ⟨name, id'⟩ (seen' known') refers').trans (sound'.distances _ ⟨name, id'⟩ known' refers').symm
    unfold Distances.Lead
    rw [kept, kept']
    exact leads

end Distances

namespace Overlay

theorem get_lasts {size place : Nat} {role : Role} :
    ((List.range size).map Role.lasts)[place]? = some role ↔ place < size ∧ role = .lasts place := by
  by_cases inside : place < size
  · simp [inside, eq_comm]
  · simp [inside]

def start (size : Nat) (ground : 0 < size) : Overlay where
  size
  roles := (List.range size).map .lasts
  ground := get_lasts.mpr ⟨ground, rfl⟩
  inside place role layer known accounted := by
    obtain ⟨inside, rfl⟩ := get_lasts.mp known
    cases accounted
    exact inside
  once place other role role' layer known also accounted again := by
    obtain ⟨_, rfl⟩ := get_lasts.mp known
    obtain ⟨_, rfl⟩ := get_lasts.mp also
    cases accounted
    cases again
    rfl

variable {size : Nat} {ground : 0 < size}

theorem start_role {place : Nat} {role : Role} :
    (start size ground).roles[place]? = some role ↔ place < size ∧ role = .lasts place :=
  get_lasts

theorem start_chained : ∀ (frames : List Frame) (events : List Event) (chain : List Nat), Matches events frames chain →
    (∀ layer ∈ chain, layer < size) → (start size ground).Chained (frames.map fun _ => true) chain chain
  | [], _, chain, same, _ => by
      obtain rfl : chain = [0] := same
      exact .ground
  | _ :: outer, events, layer :: rest, ⟨_, _, further⟩, inside =>
      .lasts (start_role.mpr ⟨inside layer List.mem_cons_self, rfl⟩)
        (start_chained outer events rest further fun other member => inside other (List.mem_cons_of_mem _ member))

theorem start_told (picked : List Stmt → Bool) (events : List Event) : (start size ground).Told picked events := by
  intro place role known
  obtain ⟨_, rfl⟩ := start_role.mp known
  trivial

end Overlay

section Itself

variable {w : Watched} (sound : w.Sound) (picked : List Stmt → Bool)

include sound

theorem routine_over_itself (routine : Routine) (frames : List Frame)
    (settled : routine.Settled (Visit.Known w.events) frames) :
    routine.Aligned (w.machine.distances.Lead w.machine.distances) picked (frames.map fun _ => true) routine :=
  routine_leads (distances_lead sound sound) routine (routine_itself _ routine) (stretched_itself frames) settled settled

theorem closure_over_itself (closure : Closure) (known : closure.Known w.events) :
    ((start _ sound.ground).likeness w.machine.distances w.machine.distances picked).function closure closure := by
  obtain ⟨_, frames, layers, settled, _⟩ := known
  have inside := matches_inside w sound frames _ layers
  refine ⟨frames.map fun _ => true, ⟨routine_over_itself sound picked _ frames settled, rfl,
    start_chained frames _ _ layers inside⟩, fun _ => ?_⟩
  exact start_role.mpr ⟨inside _ List.mem_cons_self, rfl⟩

theorem class_over_itself (c : ClassValue) (known : c.Known w.events) :
    c.Like ((start _ sound.ground).likeness w.machine.distances w.machine.distances picked) c := by
  obtain ⟨name, methods, _, table⟩ := known
  refine ⟨rfl, rfl, fun key => ?_⟩
  cases found : c.methods.find? key with
  | none => exact .none
  | some closure =>
      obtain ⟨frames, layers, settled, _⟩ := (table key closure found).settled
      exact .some ⟨frames.map fun _ => true, routine_over_itself sound picked _ _ settled, rfl,
        start_chained frames _ _ layers (matches_inside w sound frames _ layers)⟩

theorem value_over_itself (value : Value) (known : value.Known w.events) :
    value.Like ((start _ sound.ground).likeness w.machine.distances w.machine.distances picked) value := by
  cases value with
  | function identity closure =>
      exact .function identity closure closure (closure_over_itself sound picked closure known.1)
  | «class» c => exact .class c c (class_over_itself sound picked c known)
  | object target =>
      exact .object target target ⟨rfl, class_over_itself sound picked target.ofClass known⟩
  | _ => exact .plain _ trivial

theorem store_over_itself :
    w.machine.store.Like ((start _ sound.ground).likeness w.machine.distances w.machine.distances picked)
      (start _ sound.ground).links w.machine.store where
  size := rfl
  size' := by simp [links, start]
  layers layer partner := by
    rintro ⟨role, known, held⟩
    obtain ⟨_, rfl⟩ := start_role.mp known
    cases held
    intro name
    cases found : (w.machine.store.layer layer).find? name with
    | none => exact .none
    | some value => exact .some (value_over_itself sound picked value (sound.values layer name value found))
  blank layer := by
    rintro ⟨partner, known⟩
    cases (start_role.mp known).2
  objects := rfl
  fields object name := by
    cases found : (w.machine.store.fields object).find? name with
    | none => exact .none
    | some value => exact .some (value_over_itself sound picked value (sound.fields object name value found))
  identities := rfl

end Itself

section Still

variable {events events' : List Event} {here there here' there' : Distances} {picked : List Stmt → Bool} {w : Overlay}
  (alike : Visit.LeadAlike (fun _ _ _ => True) (Visit.Known events) (Visit.Known events') (here.Lead there)
    (here'.Lead there'))

include alike

theorem over_still {inner outer : Spans} {frames frames' : List Frame} {closure other : Closure}
    (laid : closure.Over here there picked w inner outer other)
    (settled : closure.routine.Settled (Visit.Known events) frames)
    (settled' : other.routine.Settled (Visit.Known events') frames') :
    closure.Over here' there' picked w inner outer other :=
  ⟨routine_leads alike _ laid.routine trivial settled settled', laid.constructor, laid.chain⟩

theorem class_like_still {c other : ClassValue} (known : c.Known events) (known' : other.Known events')
    (like : c.Like (w.likeness here there picked) other) : c.Like (w.likeness here' there' picked) other := by
  obtain ⟨_, _, _, table⟩ := known
  obtain ⟨_, _, _, table'⟩ := known'
  refine ⟨like.identity, like.name, Bindings.paired_found (fun key closure closure' found found' => ?_) like.methods⟩
  rintro ⟨spans, laid⟩
  obtain ⟨_, _, settled, _⟩ := (table key closure found).settled
  obtain ⟨_, _, settled', _⟩ := (table' key closure' found').settled
  exact ⟨spans, over_still alike laid settled settled'⟩

theorem value_like_still {value other : Value} (known : value.Known events) (known' : other.Known events')
    (like : value.Like (w.likeness here there picked) other) : value.Like (w.likeness here' there' picked) other := by
  cases like with
  | plain value plain => exact .plain value plain
  | function identity closure other same =>
      obtain ⟨spans, laid, receiver⟩ := same
      obtain ⟨_, _, _, settled, _⟩ := known.1
      obtain ⟨_, _, _, settled', _⟩ := known'.1
      exact .function identity closure other ⟨spans, over_still alike laid settled settled', receiver⟩
  | «class» c other same => exact .class c other (class_like_still alike known known' same)
  | object object other same =>
      exact .object object other ⟨same.identity, class_like_still alike known known' same.ofClass⟩

theorem paired_like_still {b b' : Bindings Value} (known : ∀ name value, b.find? name = some value → value.Known events)
    (known' : ∀ name value, b'.find? name = some value → value.Known events')
    (paired : b.Paired (Value.Like (w.likeness here there picked)) b') :
    b.Paired (Value.Like (w.likeness here' there' picked)) b' :=
  Bindings.paired_found (fun name value other found found' =>
    value_like_still alike (known name value found) (known' name other found')) paired

end Still

theorem store_like_still {m n : Watched} {here there : Distances} {picked : List Stmt → Bool} {w : Overlay}
    (alike : Visit.LeadAlike (fun _ _ _ => True) (Visit.Known m.events) (Visit.Known n.events)
      (m.machine.distances.Lead n.machine.distances) (here.Lead there)) (sound : m.Sound) (sound' : n.Sound)
    (like : m.machine.store.Like (w.likeness m.machine.distances n.machine.distances picked) w.links n.machine.store) :
    m.machine.store.Like (w.likeness here there picked) w.links n.machine.store where
  size := like.size
  size' := like.size'
  layers layer partner linked :=
    paired_like_still alike (sound.values layer) (sound'.values partner) (like.layers layer partner linked)
  blank := like.blank
  objects := like.objects
  fields object := paired_like_still alike (sound.fields object) (sound'.fields object) (like.fields object)
  identities := like.identities

end TreeWalk
