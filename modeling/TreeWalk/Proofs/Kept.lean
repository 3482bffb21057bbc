import TreeWalk.Proofs.Accesses
import TreeWalk.Proofs.Stores

set_option autoImplicit false

namespace TreeWalk

theorem filter_map_unique {α β : Type} (f : α → Option β) (items : List α) (nodup : (items.filterMap f).Nodup)
    (first second : α) (image : β) (here : first ∈ items) (there : second ∈ items) (maps : f first = some image)
    (also : f second = some image) : first = second := by
  induction items with
  | nil => cases here
  | cons item rest ih =>
      have apart : ∀ other ∈ rest, f item = some image → f other = some image → False := by
        intro other member head tail
        rw [List.filterMap_cons_some head] at nodup
        exact (List.nodup_cons.mp nodup).1 (List.mem_filterMap.mpr ⟨other, member, tail⟩)
      have behind : (rest.filterMap f).Nodup := nodup.sublist ((List.sublist_cons_self item rest).filterMap _)
      rcases List.mem_cons.mp here with rfl | later
      · rcases List.mem_cons.mp there with rfl | other
        · rfl
        · exact (apart second other maps also).elim
      · rcases List.mem_cons.mp there with rfl | other
        · exact (apart first later also maps).elim
        · exact ih behind later other

theorem lost_cons (events : List Event) (event : Event) (layer : Nat) (name : String) (lost : Lost events layer name)
    (other : event ≠ .named layer name) : Lost (event :: events) layer name := by
  obtain ⟨newer, older, same, unnamed⟩ := lost
  refine ⟨event :: newer, older, by rw [same]; rfl, ?_⟩
  simp only [List.mem_cons, not_or]
  exact ⟨Ne.symm other, unnamed⟩

def Cause.Begins (w : Watched) (object : Instance) : Cause → Prop
  | .creation =>
      object.identity < w.machine.store.objects.size ∧ object.identity ∉ w.events.filterMap Event.created?
  | .property _ => True

def Event.Fits (w : Watched) : Event → Prop
  | .opened _ layer =>
      0 < layer ∧ layer < w.machine.store.layers.size ∧ layer ∉ w.events.filterMap Event.makes?
  | .bound cause closure object =>
      (0 < closure.env.inner ∧ closure.env.inner < w.machine.store.layers.size ∧
        closure.env.inner ∉ w.events.filterMap Event.makes?) ∧
      (w.machine.store.layer closure.env.inner).find? receiverName = some (.object object) ∧
      cause.Begins w object
  | .named layer name => (w.machine.store.layer layer).contains name
  | .entered closure _ => closure.env.inner < w.machine.store.layers.size
  | .visited v => ∀ r, v.node.reference? = some r → w.machine.distances[r.id]? = v.found
  | .emptied _ => False
  | .declared .. | .called _ | .reached .. => True

theorem fits_origin (w : Watched) (event : Event) (layer : Nat) (fits : event.Fits w)
    (made : event.makes? = some layer) :
    0 < layer ∧ layer < w.machine.store.layers.size ∧ layer ∉ w.events.filterMap Event.makes? := by
  cases event with
  | opened site other => cases made; exact fits
  | bound cause closure object => cases made; exact fits.1
  | _ => cases made

theorem fits_creation (w : Watched) (event : Event) (object : Nat) (fits : event.Fits w)
    (created : event.created? = some object) :
    object < w.machine.store.objects.size ∧ object ∉ w.events.filterMap Event.created? := by
  cases event with
  | bound cause closure instance_ =>
      cases cause with
      | creation => cases created; exact fits.2.2
      | property name => cases created
  | _ => cases created

theorem sound_log (w : Watched) (event : Event) (sound : w.Sound) (fits : event.Fits w)
    (justified : Justified w.events event) : Watched.Sound { w with events := event :: w.events } := by
  have wider : w.events ⊆ event :: w.events := fun _ => List.mem_cons_of_mem _
  constructor
  case values => exact fun layer name value found => value_known_mono value wider (sound.values layer name value found)
  case fields => exact fun object name value found => value_known_mono value wider (sound.fields object name value found)
  case ground => exact sound.ground
  case origins =>
    cases made : event.makes? with
    | none => simpa only [List.filterMap_cons_none made] using sound.origins
    | some layer =>
        simp only [List.filterMap_cons_some made, List.nodup_cons]
        exact ⟨(fits_origin w event layer fits made).2.2, sound.origins⟩
  case below =>
    intro layer member
    cases made : event.makes? with
    | none => exact sound.below layer (by simpa only [List.filterMap_cons_none made] using member)
    | some other =>
        simp only [List.filterMap_cons_some made, List.mem_cons] at member
        rcases member with rfl | before
        · have new := fits_origin w event layer fits made
          exact ⟨new.1, new.2.1⟩
        · exact sound.below layer before
  case named =>
    intro layer name member
    rcases List.mem_cons.mp member with rfl | before
    · exact .inl fits
    · by_cases same : event = .named layer name
      · subst same
        exact .inl fits
      · rcases sound.named layer name before with kept | lost
        · exact .inl kept
        · exact .inr (lost_cons w.events event layer name lost same)
  case emptied =>
    intro layer member
    rcases List.mem_cons.mp member with rfl | before
    · exact fits.elim
    · obtain ⟨body, opened⟩ := sound.emptied layer before
      exact ⟨body, wider opened⟩
  case receivers =>
    intro cause closure object member
    rcases List.mem_cons.mp member with rfl | before
    · exact fits.2.1
    · exact sound.receivers cause closure object before
  case created =>
    cases created : event.created? with
    | none => simpa only [List.filterMap_cons_none created] using sound.created
    | some object =>
        simp only [List.filterMap_cons_some created, List.nodup_cons]
        exact ⟨(fits_creation w event object fits created).2, sound.created⟩
  case creations =>
    intro object member
    cases created : event.created? with
    | none => exact sound.creations object (by simpa only [List.filterMap_cons_none created] using member)
    | some other =>
        simp only [List.filterMap_cons_some created, List.mem_cons] at member
        rcases member with rfl | before
        · exact (fits_creation w event object fits created).1
        · exact sound.creations object before
  case entered =>
    intro closure machine member
    rcases List.mem_cons.mp member with rfl | before
    · exact fits
    · exact sound.entered closure machine before
  case distances =>
    intro v r member reference
    rcases List.mem_cons.mp member with rfl | before
    · exact fits r reference
    · exact sound.distances v r before reference
  case told => exact ⟨justified, sound.told⟩

theorem sound_machine (w : Watched) (m : Machine) (sound : w.Sound) (distances : m.distances = w.machine.distances)
    (grows : w.machine.store.Grows w.events m.store) : Watched.Sound { w with machine := m } := by
  constructor
  case values =>
    intro layer name value found
    rcases grows.values layer name value found with before | known
    · exact sound.values layer name value before
    · exact known
  case fields =>
    intro object name value found
    rcases grows.fields object name value found with before | known
    · exact sound.fields object name value before
    · exact known
  case ground => exact Nat.lt_of_lt_of_le sound.ground grows.size
  case origins => exact sound.origins
  case below =>
    intro layer member
    have before := sound.below layer member
    exact ⟨before.1, Nat.lt_of_lt_of_le before.2 grows.size⟩
  case named =>
    intro layer name member
    rcases sound.named layer name member with kept | lost
    · exact .inl (grows.names layer name kept)
    · exact .inr lost
  case emptied => exact sound.emptied
  case receivers => exact fun cause closure object member => grows.receivers _ _ (sound.receivers cause closure object member)
  case created => exact sound.created
  case creations => exact fun object member => Nat.lt_of_lt_of_le (sound.creations object member) grows.objects
  case entered => exact fun closure machine member => Nat.lt_of_lt_of_le (sound.entered closure machine member) grows.size
  case distances =>
    intro v r member reference
    exact distances ▸ sound.distances v r member reference
  case told => exact sound.told

def Event.OfNames : Event → Prop
  | .named .. | .emptied _ => True
  | _ => False

theorem sound_slots (w : Watched) (event : Event) (s : Store) (sound : w.Sound) (ofNames : event.OfNames)
    (size : s.layers.size = w.machine.store.layers.size) (objects : s.objects = w.machine.store.objects)
    (values : ∀ layer name value, (s.layer layer).find? name = some value →
      (w.machine.store.layer layer).find? name = some value ∨ value.Known (event :: w.events))
    (named : ∀ layer name, .named layer name ∈ event :: w.events →
      (s.layer layer).contains name ∨ Lost (event :: w.events) layer name)
    (emptied : ∀ layer, event = .emptied layer → ∃ body, .opened (.loop body) layer ∈ w.events)
    (receivers : ∀ cause closure object, .bound cause closure object ∈ w.events →
      (s.layer closure.env.inner).find? receiverName = some (.object object)) :
    Watched.Sound { machine := { w.machine with store := s }, events := event :: w.events } := by
  have wider : w.events ⊆ event :: w.events := fun _ => List.mem_cons_of_mem _
  have older : ∀ other ∈ event :: w.events, ¬ other.OfNames → other ∈ w.events := by
    intro other member plain
    rcases List.mem_cons.mp member with rfl | before
    · exact (plain ofNames).elim
    · exact before
  have unmade : event.makes? = none := by
    cases event with
    | named | emptied => rfl
    | _ => cases ofNames
  have uncreated : event.created? = none := by
    cases event with
    | named | emptied => rfl
    | _ => cases ofNames
  constructor
  case values =>
    intro layer name value found
    rcases values layer name value found with before | known
    · exact value_known_mono value wider (sound.values layer name value before)
    · exact known
  case fields =>
    intro object name value found
    have before : (w.machine.store.fields object).find? name = some value := by
      simpa only [Store.fields, objects] using found
    exact value_known_mono value wider (sound.fields object name value before)
  case ground => exact size ▸ sound.ground
  case origins => simpa only [List.filterMap_cons_none unmade] using sound.origins
  case below =>
    intro layer member
    rw [List.filterMap_cons_none unmade] at member
    exact size ▸ sound.below layer member
  case named => exact named
  case emptied =>
    intro layer member
    rcases List.mem_cons.mp member with same | before
    · obtain ⟨body, opened⟩ := emptied layer same.symm
      exact ⟨body, wider opened⟩
    · obtain ⟨body, opened⟩ := sound.emptied layer before
      exact ⟨body, wider opened⟩
  case receivers => exact fun cause closure object member => receivers cause closure object (older _ member id)
  case created => simpa only [List.filterMap_cons_none uncreated] using sound.created
  case creations =>
    intro object member
    rw [List.filterMap_cons_none uncreated] at member
    exact objects ▸ sound.creations object member
  case entered => exact fun closure machine member => size ▸ sound.entered closure machine (older _ member id)
  case distances => exact fun v r member reference => sound.distances v r (older _ member id) reference
  case told =>
    refine ⟨?_, sound.told⟩
    cases event with
    | named | emptied => trivial
    | _ => cases ofNames

theorem sound_name (w : Watched) (layer : Nat) (name : String) (value : Value) (sound : w.Sound)
    (inside : layer < w.machine.store.layers.size) (proper : name ≠ receiverName)
    (known : value.Known (.named layer name :: w.events)) :
    Watched.Sound
      { machine := { w.machine with store := w.machine.store.write layer name value }
        events := .named layer name :: w.events } := by
  apply sound_slots w (.named layer name) (w.machine.store.write layer name value) sound trivial
  case size => exact Array.size_modify
  case objects => rfl
  case values =>
    intro other key found read
    rcases Store.find_write _ _ _ _ _ _ _ read with before | ⟨same, _⟩
    · exact .inl before
    · exact .inr (same ▸ known)
  case named =>
    intro other key member
    by_cases same : Event.named layer name = .named other key
    · cases same
      rw [Store.layer_write_self _ layer name value inside]
      exact .inl (Bindings.contains_insert_self _ _ _)
    · have before : .named other key ∈ w.events := List.mem_of_ne_of_mem (Ne.symm same) member
      rcases sound.named other key before with kept | lost
      · exact .inl (Store.contains_write _ _ _ _ _ _ kept)
      · exact .inr (lost_cons _ _ _ _ lost same)
  case emptied => exact nofun
  case receivers =>
    intro cause closure object member
    rw [Store.find_write_kept _ _ _ _ _ _ (Ne.symm proper)]
    exact sound.receivers cause closure object member

theorem sound_renew (w : Watched) (body : List Stmt) (layer : Nat) (sound : w.Sound)
    (opened : .opened (.loop body) layer ∈ w.events) :
    Watched.Sound
      { machine := { w.machine with
          store := { w.machine.store with layers := w.machine.store.layers.modify layer fun _ => .empty } }
        events := .emptied layer :: w.events } := by
  apply sound_slots w (.emptied layer)
    { w.machine.store with layers := w.machine.store.layers.modify layer fun _ => .empty } sound trivial
  case size => exact Array.size_modify
  case objects => rfl
  case values => exact fun other name value found => .inl (find_clear _ _ _ _ _ found)
  case named =>
    intro other name member
    have before : .named other name ∈ w.events := by simpa using member
    by_cases same : other = layer
    · subst same
      exact .inr ⟨[], w.events, rfl, List.not_mem_nil⟩
    · rcases sound.named other name before with kept | lost
      · exact .inl (by rwa [layer_clear_other _ layer other same])
      · exact .inr (lost_cons _ _ _ _ lost (by simp))
  case emptied =>
    rintro _ ⟨⟩
    exact ⟨body, opened⟩
  case receivers =>
    intro cause closure object before
    have apart : closure.env.inner ≠ layer := by
      intro same
      have one := filter_map_unique Event.makes? w.events sound.origins _ _ layer before opened (congrArg some same) rfl
      cases one
    rw [layer_clear_other _ layer _ apart]
    exact sound.receivers cause closure object before

structure Watched.Reaches (bound : Nat) (w next : Watched) : Prop where
  env : next.machine.env = w.machine.env
  distances : next.machine.distances = w.machine.distances
  size : w.machine.store.layers.size ≤ next.machine.store.layers.size
  events : ∃ newer, next.events = newer ++ w.events ∧ newer.filterMap Event.visited? = []
  names : ∀ layer, layer < bound → ∀ name, (w.machine.store.layer layer).contains name = true →
    (next.machine.store.layer layer).contains name = true

theorem reaches_refl (bound : Nat) (w : Watched) : w.Reaches bound w :=
  ⟨rfl, rfl, Nat.le_refl _, ⟨[], rfl, rfl⟩, fun _ _ _ => id⟩

theorem reaches_trans {bound : Nat} {w mid next : Watched} (first : w.Reaches bound mid)
    (second : mid.Reaches bound next) : w.Reaches bound next := by
  obtain ⟨early, before, quiet⟩ := first.events
  obtain ⟨later, behind, silent⟩ := second.events
  refine ⟨second.env.trans first.env, second.distances.trans first.distances,
    Nat.le_trans first.size second.size, ⟨later ++ early, ?_, ?_⟩, ?_⟩
  · rw [behind, before, List.append_assoc]
  · rw [List.filterMap_append, quiet, silent, List.append_nil]
  · exact fun layer inside name known => second.names layer inside name (first.names layer inside name known)

theorem reaches_lower {bound higher : Nat} {w next : Watched} (reached : w.Reaches higher next)
    (lower : bound ≤ higher) : w.Reaches bound next :=
  ⟨reached.env, reached.distances, reached.size, reached.events,
    fun layer inside => reached.names layer (Nat.lt_of_lt_of_le inside lower)⟩

theorem reaches_wider {bound : Nat} {w next : Watched} (reached : w.Reaches bound next) : w.events ⊆ next.events := by
  obtain ⟨newer, same, _⟩ := reached.events
  rw [same]
  exact fun _ => List.mem_append_right newer

def Halt.MissesLayer : Halt → Prop
  | .failed (.runtime ⟨_, .noLayer _⟩) => True
  | _ => False

section Keeps

variable {α β : Type}

def Keeps (bound : Nat) (w : Watched) (p : Watch α) (good : α → Watched → Prop) : Prop :=
  w.Sound → Ends p w (fun a next => w.Reaches bound next ∧ next.Sound ∧ good a next)
    fun halt next => w.Reaches bound next ∧ next.Sound ∧ ¬ halt.MissesLayer

variable {bound : Nat} {w : Watched}

theorem keeps_pure (a : α) (good : α → Watched → Prop) (here : w.Sound → good a w) : Keeps bound w (pure a) good :=
  fun sound => ends_pure _ _ _ _ ⟨reaches_refl bound w, sound, here sound⟩

theorem keeps_throw (halt : Halt) (good : α → Watched → Prop) (other : ¬ halt.MissesLayer) :
    Keeps bound w (throw halt) good :=
  fun sound => ⟨reaches_refl bound w, sound, other⟩

theorem keeps_bind {p : Watch α} {f : α → Watch β} {mid : α → Watched → Prop} {good : β → Watched → Prop}
    (first : Keeps bound w p mid)
    (rest : ∀ a next, w.Reaches bound next → next.Sound → mid a next → Keeps bound next (f a) good) :
    Keeps bound w (p >>= f) good := by
  intro sound
  apply ends_bind p f w _ _ _ (first sound)
  intro a next ⟨reached, held, middle⟩
  apply ends_mono _ _ _ _ _ _ (rest a next reached held middle held)
  · exact fun b last ⟨further, kept, final⟩ => ⟨reaches_trans reached further, kept, final⟩
  · exact fun halt last ⟨further, kept, stopped⟩ => ⟨reaches_trans reached further, kept, stopped⟩

theorem keeps_weaken {p : Watch α} {strong weak : α → Watched → Prop} (keeps : Keeps bound w p strong)
    (weaker : ∀ a next, w.Reaches bound next → next.Sound → strong a next → weak a next) : Keeps bound w p weak := by
  intro sound
  apply ends_mono _ _ _ _ _ _ (keeps sound)
  · exact fun a next ⟨reached, held, final⟩ => ⟨reached, held, weaker a next reached held final⟩
  · exact fun _ _ stopped => stopped

theorem keeps_lower {higher : Nat} {p : Watch α} {good : α → Watched → Prop} (keeps : Keeps higher w p good)
    (lower : bound ≤ higher) : Keeps bound w p good := by
  intro sound
  apply ends_mono _ _ _ _ _ _ (keeps sound)
  · exact fun a next ⟨reached, kept⟩ => ⟨reaches_lower reached lower, kept⟩
  · exact fun halt next ⟨reached, kept⟩ => ⟨reaches_lower reached lower, kept⟩

theorem keeps_next {p : Watch α} {f : α → Watch β} {mid : α → Watched → Prop} {good : β → Watched → Prop}
    (inside : bound ≤ w.machine.store.layers.size) (first : Keeps bound w p mid)
    (rest : ∀ a next, w.Reaches bound next → next.Sound → mid a next →
      Keeps next.machine.store.layers.size next (f a) good) : Keeps bound w (p >>= f) good :=
  keeps_bind first fun a next reached sound middle =>
    keeps_lower (rest a next reached sound middle) (Nat.le_trans inside reached.size)

theorem keeps_get {f : Watched → Watch β} {good : β → Watched → Prop} (rest : Keeps bound w (f w) good) :
    Keeps bound w (get >>= f) good :=
  rest

theorem keeps_log (event : Event) (good : Unit → Watched → Prop) (silent : event.visited? = none)
    (fits : w.Sound → event.Fits w)
    (justified : w.Sound → Justified w.events event) (here : good () { w with events := event :: w.events }) :
    Keeps bound w (Watch.log event) good :=
  fun sound => ⟨⟨rfl, rfl, Nat.le_refl _, ⟨[event], rfl, List.filterMap_cons_none silent⟩, fun _ _ _ => id⟩,
    sound_log w event sound (fits sound) (justified sound), here⟩

theorem keeps_within (env : Env) {p : Watch α} (good : α → List Event → Prop)
    (inner : Keeps bound { w with machine := { w.machine with env } } p fun a next => good a next.events) :
    Keeps bound w (Watch.within env p) fun a next => good a next.events := by
  intro sound
  have moved : Watched.Sound { w with machine := { w.machine with env } } :=
    sound_machine w _ sound rfl (Store.grows_refl _)
  have ended := inner moved
  unfold Ends Watch.within at *
  cases run : p { w with machine := { w.machine with env } } with
  | ok a next =>
      rw [run] at ended
      obtain ⟨reached, held, final⟩ := ended
      exact ⟨⟨rfl, reached.distances, reached.size, reached.events, reached.names⟩,
        sound_machine next _ held rfl (Store.grows_refl _), final⟩
  | error halt next =>
      rw [run] at ended
      obtain ⟨reached, held, final⟩ := ended
      exact ⟨⟨rfl, reached.distances, reached.size, reached.events, reached.names⟩,
        sound_machine next _ held rfl (Store.grows_refl _), final⟩

structure Moves (w : Watched) (m : Machine) : Prop where
  env : m.env = w.machine.env
  distances : m.distances = w.machine.distances
  store : w.machine.store.Grows w.events m.store

theorem keeps_act (eval : Eval α) (good : α → Watched → Prop)
    (run : w.Sound → Ends eval w.machine (fun a m => Moves w m ∧ good a { w with machine := m })
      fun halt m => Moves w m ∧ ¬ halt.MissesLayer) : Keeps bound w (Watch.act eval) good := by
  intro sound
  have ended := run sound
  have reached : ∀ m, Moves w m → w.Reaches bound { w with machine := m } := fun m moves =>
    ⟨moves.env, moves.distances, moves.store.size, ⟨[], rfl, rfl⟩, fun layer _ name => moves.store.names layer name⟩
  unfold Ends Watch.act at *
  cases result : eval w.machine with
  | ok a m =>
      rw [result] at ended
      exact ⟨reached m ended.1, sound_machine w m sound ended.1.distances ended.1.store, ended.2⟩
  | error halt m =>
      rw [result] at ended
      exact ⟨reached m ended.1, sound_machine w m sound ended.1.distances ended.1.store, ended.2⟩

theorem keeps_store (line : Nat) (op : StoreM α) (good : α → Watched → Prop)
    (run : w.Sound → Ends op w.machine.store
      (fun a s => w.machine.store.Grows w.events s ∧ good a { w with machine := { w.machine with store := s } })
      fun fault s => w.machine.store.Grows w.events s ∧ ∀ distance, fault ≠ .noLayer distance) :
    Keeps bound w (Watch.act (Eval.onStore line op)) good := by
  apply keeps_act
  intro sound
  apply ends_mono _ _ _ _ _ _ (ends_store line (run sound))
  · rintro a _ ⟨s, rfl, grows, final⟩
    exact ⟨⟨rfl, rfl, grows⟩, final⟩
  · rintro _ _ ⟨fault, s, rfl, rfl, grows, inside⟩
    refine ⟨⟨rfl, rfl, grows⟩, ?_⟩
    intro misses
    cases fault with
    | noLayer distance => exact inside distance rfl
    | _ => exact misses

theorem keeps_fail (line : Nat) (fault : RuntimeFault) (good : α → Watched → Prop)
    (other : ∀ distance, fault ≠ .noLayer distance) : Keeps bound w (Watch.act (Eval.fail line fault)) good := by
  apply keeps_act
  intro _
  refine ⟨⟨rfl, rfl, Store.grows_refl _⟩, ?_⟩
  intro misses
  cases fault with
  | noLayer distance => exact other distance rfl
  | _ => exact misses

end Keeps

end TreeWalk
