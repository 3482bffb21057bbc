import TreeWalk.Proofs.Reached

set_option autoImplicit false

namespace TreeWalk

theorem reached_located (c : Chronicle) (sound : c.Sound) (newer older : List Event) (node : Expr) (machine : Machine)
    (split : c.events = newer ++ .reached node machine :: older) :
    ∃ frames, Located older node machine frames ∧ older ⊆ c.events := by
  have told : Told (newer ++ .reached node machine :: older) := split ▸ sound.record.told
  obtain ⟨frames, located⟩ := told_split newer older _ told
  refine ⟨frames, located, ?_⟩
  rw [split]
  exact fun _ member => List.mem_append_right newer (List.mem_cons_of_mem _ member)

-- The layers in view are those of the scopes that were open at the visit, with the globals behind
-- them, and the distance is that of the scope in which the name was found.
structure InStep (older : List Event) (machine : Machine) (v : Visit) : Prop where
  sites : v.sites.length = v.scopes.length
  depth : machine.env.chain.length = v.scopes.length + 1
  ground : machine.env.chain.getLast? = some 0
  layers : ∀ (place : Nat) (site : Site), v.sites[place]? = some site →
    ∃ layer, machine.env.chain[place]? = some layer ∧ OpenedFor older site layer
  distance : ∀ r, v.reference? = some r → machine.distances[r.id]? = v.found

theorem located_in_step (older : List Event) (node : Expr) (machine : Machine) (frames : List Frame)
    (located : Located older node machine frames) : InStep older machine (.ofFrames node frames) := by
  refine ⟨by simp [Visit.ofFrames], ?_, matches_last older frames _ located.layers, ?_, located.distance⟩
  · simpa [Visit.ofFrames] using matches_length older frames _ located.layers
  · intro place site found
    obtain ⟨frame, here, rfl⟩ : ∃ frame, frames[place]? = some frame ∧ frame.site = site := by
      simpa [Visit.ofFrames] using found
    obtain ⟨layer, inside, opened, _⟩ := matches_at older frames _ located.layers place frame here
    exact ⟨layer, inside, opened⟩

theorem visit_unique (c : Chronicle) (sound : c.Sound) (first second : Visit) (r s : Reference)
    (one : .visited first ∈ c.events) (other : .visited second ∈ c.events) (reference : first.reference? = some r)
    (also : second.reference? = some s) (same : r.id = s.id) : first = second := by
  have image : (Event.visited first).visited? = some r.id := congrArg (Option.map Reference.id) reference
  have equal : (Event.visited second).visited? = some r.id := same ▸ congrArg (Option.map Reference.id) also
  exact Event.visited.inj
    (filter_map_unique Event.visited? c.events sound.counted.visited _ _ r.id one other image equal)

def Chronicle.LookupsInStep (c : Chronicle) : Prop :=
  ∀ newer older node machine, c.events = newer ++ .reached node machine :: older →
    ∃ v, .visited v ∈ older ∧ v.node = node ∧ InStep older machine v ∧
      ∀ other r s, .visited other ∈ c.events → other.reference? = some r → v.reference? = some s → r.id = s.id →
        other = v

theorem lookups_in_step (c : Chronicle) (reachable : c.Reachable) :
    c.LookupsInStep ∧ ∀ steps source halt session,
      Session.run steps source c.session = .error halt session → ¬ halt.MissesLayer := by
  have sound := reachable_sound c reachable
  constructor
  · intro newer older node machine split
    obtain ⟨frames, located, subset⟩ := reached_located c sound newer older node machine split
    refine ⟨.ofFrames node frames, located.visited, rfl, located_in_step older node machine frames located, ?_⟩
    intro other r s member reference also same
    exact visit_unique c sound other _ r s member (subset located.visited) reference also same
  · intro steps source halt session run
    have ended := run_sound steps source c sound
    unfold Ends at ended
    rcases agree_cases _ _ _ _ _ (run_shows steps source c c.session rfl) with
      ⟨_, _, _, _, _, right, _, _⟩ | ⟨halt', _, d, _, left, right, rfl, _⟩
    · rw [run] at right
      cases right
    · rw [run] at right
      cases right
      rw [left] at ended
      exact ended.2

def Event.isLookup : Event → Bool
  | reached node machine => node.reference?.any fun r => machine.distances.contains r.id
  | _ => false

theorem lookups_in_step_block :
    (Chronicle.ofText 20 "{ var x = none; { x; } }").Reachable ∧
      (Chronicle.ofText 20 "{ var x = none; { x; } }").events.any Event.isLookup = true ∧
      (Chronicle.ofText 20 "{ var x = none; { x; } }").LookupsInStep :=
  ⟨of_text_reachable _ _, by decide +kernel, (lookups_in_step _ (of_text_reachable _ _)).1⟩

-- A name that was found in the scope of a loop's body, from inside a function or a class in that
-- body, after the loop has emptied the layer and before the name was declared there again.
structure LeftBehind (older : List Event) (machine : Machine) (v : Visit) (distance : Nat) (name : String) : Prop where
  loop : ∃ body layer, v.sites[distance]? = some (.loop body) ∧ machine.env.chain[distance]? = some layer ∧
    Lost older layer name
  crossed : ∃ (place : Nat) (site : Site), place < distance ∧ v.sites[place]? = some site ∧ site.isDeferred = true

def Visit.AssignsItself (v : Visit) : Prop :=
  (∃ mark name value, v.node = .assign mark name value) ∧ v.isReady = some false

def Machine.BindsAt (machine : Machine) (distance : Nat) (name : String) : Prop :=
  (∃ layer, machine.env.chain[distance]? = some layer ∧ (machine.store.layer layer).contains name = true) ∧
    (∃ value, Store.getAt machine.env distance name machine.store = .ok value machine.store) ∧
    ∀ value, ∃ next, Store.assignAt machine.env distance name value machine.store = .ok () next

theorem binds_at (machine : Machine) (distance layer : Nat) (name : String)
    (inside : machine.env.chain[distance]? = some layer) (known : (machine.store.layer layer).contains name = true) :
    machine.BindsAt distance name := by
  refine ⟨⟨layer, inside, known⟩, ?_, fun value => ?_⟩
  · obtain ⟨value, found⟩ := Option.isSome_iff_exists.mp known
    exact ⟨value, by simp only [Store.getAt, inside, found]⟩
  · exact ⟨_, by simp only [Store.assignAt, inside, known, if_true]; rfl⟩

theorem find_some_at {α β : Type} (f : α → Option β) (items : List α) (place : Nat)
    (found : items.findIdx? (fun a => (f a).isSome) = some place) :
    ∃ a, items[place]? = some a ∧ items.findSome? f = f a ∧ (f a).isSome = true := by
  induction items generalizing place with
  | nil => cases found
  | cons a rest ih =>
      rw [List.findIdx?_cons] at found
      by_cases here : (f a).isSome = true
      · simp only [here, if_true, Option.some.injEq] at found
        subst found
        obtain ⟨b, same⟩ := Option.isSome_iff_exists.mp here
        exact ⟨a, rfl, by simp [same], here⟩
      · simp only [here, Bool.false_eq_true, if_false, Option.map_eq_some_iff] at found
        obtain ⟨before, later, rfl⟩ := found
        obtain ⟨b, inside, first, image⟩ := ih before later
        have nothing : f a = none := by simpa using here
        exact ⟨b, inside, by simp [nothing, first], image⟩

theorem found_frame (node : Expr) (frames : List Frame) (r : Reference) (distance : Nat)
    (reference : node.reference? = some r) (found : (Visit.ofFrames node frames).found = some distance) :
    ∃ frame, frames[distance]? = some frame ∧
      frame.scope.find? r.name = (Visit.ofFrames node frames).isReady ∧ (frame.scope.find? r.name).isSome = true := by
  have place : (frames.map Frame.scope).findIdx? (fun scope => (scope.find? r.name).isSome) = some distance := by
    simpa only [Visit.found, Visit.ofFrames, reference, Option.bind_some, Bindings.contains] using found
  obtain ⟨scope, inside, first, declared⟩ := find_some_at (fun scope : Scope => scope.find? r.name) _ distance place
  obtain ⟨frame, here, rfl⟩ : ∃ frame, frames[distance]? = some frame ∧ frame.scope = scope := by
    simpa using inside
  refine ⟨frame, here, ?_, declared⟩
  rw [← first]
  simp only [Visit.isReady, Visit.ofFrames, reference, Option.bind_some]

def Chronicle.LocalsBound (c : Chronicle) : Prop :=
  ∀ newer older node machine r distance, c.events = newer ++ .reached node machine :: older →
    node.reference? = some r → machine.distances[r.id]? = some distance →
    ∃ v, .visited v ∈ older ∧ v.node = node ∧
      (machine.BindsAt distance r.name ∨ LeftBehind older machine v distance r.name ∨ v.AssignsItself)

theorem lost_in_loop (c : Chronicle) (sound : c.Sound) (older : List Event) (subset : older ⊆ c.events) (site : Site)
    (layer : Nat) (name : String) (opened : OpenedFor older site layer) (lost : Lost older layer name) :
    ∃ body, site = .loop body := by
  obtain ⟨newer, before, same, _⟩ := lost
  have emptied : .emptied layer ∈ c.events := by
    apply subset
    rw [same]
    exact List.mem_append_right _ List.mem_cons_self
  obtain ⟨body, event⟩ := sound.record.emptied layer emptied
  refine ⟨body, ?_⟩
  have unique : ∀ other : Event, other ∈ c.events → other.makes? = some layer → other = .opened (.loop body) layer :=
    fun other member made => filter_map_unique Event.makes? c.events sound.record.origins _ _ layer member event made rfl
  cases site with
  | receiver name methods =>
      obtain ⟨cause, closure, object, bound, inner, _⟩ := opened
      cases unique _ (subset bound) (congrArg some inner)
  | _ => exact (Event.opened.inj (unique _ (subset opened) rfl)).1

theorem locals_bound (c : Chronicle) (reachable : c.Reachable) : c.LocalsBound := by
  intro newer older node machine r distance split reference recorded
  have sound := reachable_sound c reachable
  obtain ⟨frames, located, subset⟩ := reached_located c sound newer older node machine split
  refine ⟨.ofFrames node frames, located.visited, rfl, ?_⟩
  have found := (located.distance r reference).symm.trans recorded
  obtain ⟨frame, here, first, declared⟩ := found_frame node frames r distance reference found
  obtain ⟨layer, inside, opened, named⟩ := matches_at older frames _ located.layers distance frame here
  obtain ⟨ready, marked⟩ := Option.isSome_iff_exists.mp declared
  cases ready with
  | false =>
      have waiting : (Visit.ofFrames node frames).isReady = some false := first.symm.trans marked
      rcases located.ready with assigns | never
      · exact .inr (.inr ⟨assigns, waiting⟩)
      · exact (never waiting).elim
  | true =>
      rcases located.named layer r.name (named r.name marked) with kept | lost
      · exact .inl (binds_at machine distance layer r.name inside kept)
      · -- Only behind the boundary of a function or a class can the name be gone.
        by_cases crossed : ∃ (place : Nat) (between : Frame), place < distance ∧ frames[place]? = some between ∧
            between.site.isDeferred = true
        · obtain ⟨body, loop⟩ := lost_in_loop c sound older subset frame.site layer r.name opened lost
          obtain ⟨place, between, before, met, deferred⟩ := crossed
          refine .inr (.inl ⟨⟨body, layer, ?_, inside, lost⟩, place, between.site, before, ?_, deferred⟩)
          · simp [Visit.ofFrames, here, loop]
          · simp [Visit.ofFrames, met]
        · have kept := live_at _ frames _ located.live distance frame layer here inside (by
            intro place between before met
            cases deferred : between.site.isDeferred with
            | false => rfl
            | true => exact (crossed ⟨place, between, before, met, deferred⟩).elim) r.name marked
          exact .inl (binds_at machine distance layer r.name inside kept)

theorem locals_bound_block :
    (Chronicle.ofText 20 "{ var x = none; { x; } }").Reachable ∧
      (Chronicle.ofText 20 "{ var x = none; { x; } }").events.any Event.isLookup = true ∧
      (Chronicle.ofText 20 "{ var x = none; { x; } }").LocalsBound :=
  ⟨of_text_reachable _ _, by decide +kernel, locals_bound _ (of_text_reachable _ _)⟩

def Chronicle.AlwaysBound (c : Chronicle) : Prop :=
  ∀ newer older node machine r distance, c.events = newer ++ .reached node machine :: older →
    node.reference? = some r → machine.distances[r.id]? = some distance → machine.BindsAt distance r.name

def Event.isUnbound : Event → Bool
  | reached node machine => node.reference?.any fun r => machine.distances[r.id]?.any fun distance =>
      machine.env.chain[distance]?.any fun layer => !(machine.store.layer layer).contains r.name
  | _ => false

theorem unbound_not_bound (c : Chronicle) (unbound : c.events.any Event.isUnbound = true) : ¬ c.AlwaysBound := by
  intro always
  obtain ⟨event, member, missing⟩ := List.any_eq_true.mp unbound
  cases event with
  | reached node machine =>
      obtain ⟨newer, older, split⟩ := List.append_of_mem member
      simp only [Event.isUnbound, Option.any_eq_true] at missing
      obtain ⟨r, reference, distance, recorded, layer, inside, absent⟩ := missing
      obtain ⟨⟨there, same, contained⟩, _⟩ := always newer older node machine r distance split reference recorded
      obtain rfl : layer = there := Option.some.inj (inside.symm.trans same)
      simp only [contained, Bool.not_true, Bool.false_eq_true] at absent
  | _ => cases missing

theorem locals_not_always_bound : ¬ ∀ c : Chronicle, c.Reachable → c.AlwaysBound := by
  intro always
  apply unbound_not_bound (.ofText 40 "var f = none; while (f == none) \x7b var x = none; func g() \x7b x; \x7d f = g; \x7d f();") _
    (always _ (of_text_reachable _ _))
  decide +kernel

end TreeWalk
