import TreeWalk.Proofs.Kept

set_option autoImplicit false

namespace TreeWalk

structure Watched.Stands (w : Watched) (frames : List Frame) : Prop where
  layers : Matches w.events frames w.machine.env.chain
  live : Live w.machine.store frames w.machine.env.chain
  hosted : Hosted w.events frames w.machine.env.chain

theorem opened_for_origin (events : List Event) (site : Site) (layer : Nat) (opened : OpenedFor events site layer) :
    layer ∈ events.filterMap Event.makes? := by
  cases site with
  | receiver name methods =>
      obtain ⟨cause, closure, object, bound, rfl, _⟩ := opened
      exact List.mem_filterMap.mpr ⟨_, bound, rfl⟩
  | _ => exact List.mem_filterMap.mpr ⟨_, opened, rfl⟩

theorem opened_for_opened (events : List Event) (site : Site) (layer : Nat)
    (plain : ∀ name methods, site ≠ .receiver name methods) (opened : .opened site layer ∈ events) :
    OpenedFor events site layer := by
  cases site with
  | receiver name methods => exact (plain name methods rfl).elim
  | _ => exact opened

theorem matches_inside (w : Watched) (sound : w.Sound) : ∀ (frames : List Frame) (layers : List Nat),
    Matches w.events frames layers → ∀ layer ∈ layers, layer < w.machine.store.layers.size
  | [], layers, same, layer, member => by
      have only : layers = [0] := same
      rw [only, List.mem_singleton] at member
      exact member ▸ sound.ground
  | _ :: outer, _ :: rest, ⟨opened, _, further⟩, layer, member => by
      rcases List.mem_cons.mp member with rfl | later
      · exact (sound.below layer (opened_for_origin _ _ _ opened)).2
      · exact matches_inside w sound outer rest further layer later

theorem stands_inside (w : Watched) (frames : List Frame) (sound : w.Sound) (stands : w.Stands frames) :
    w.machine.env.inner < w.machine.store.layers.size :=
  matches_inside w sound frames _ stands.layers _ List.mem_cons_self

theorem stands_below (bound : Nat) (w next : Watched) (frames : List Frame) (reached : w.Reaches bound next)
    (below : ∀ layer ∈ w.machine.env.chain, layer < bound) (stands : w.Stands frames) : next.Stands frames := by
  constructor
  · rw [reached.env]
    exact matches_mono _ _ (reaches_wider reached) _ _ stands.layers
  · rw [reached.env]
    exact live_mono _ _ _ _ stands.live fun layer member => reached.names layer (below layer member)
  · rw [reached.env]
    exact hosted_mono (reaches_wider reached) _ _ stands.hosted

theorem stands_after (w next : Watched) (frames : List Frame) (sound : w.Sound)
    (reached : w.Reaches w.machine.store.layers.size next) (stands : w.Stands frames) : next.Stands frames :=
  stands_below _ w next frames reached (matches_inside w sound frames _ stands.layers) stands

theorem stands_waiting (w : Watched) (name : Name) (frames : List Frame) (stands : w.Stands frames)
    (proper : name.Proper) : w.Stands (name.markIn false frames) := by
  obtain ⟨layers, live, hosted⟩ := stands
  have still := hosted_mark name false frames _ proper hosted
  cases frames with
  | nil => exact ⟨layers, live, still⟩
  | cons frame outer =>
      have earlier : ∀ other, (Bindings.insert frame.scope name.text false).find? other = some true →
          frame.scope.find? other = some true := by
        intro other ready
        rcases Bindings.find_insert_cases _ _ _ _ _ ready with ⟨_, same⟩ | before
        · cases same
        · exact before
      obtain ⟨opened, named, further⟩ := layers
      exact ⟨⟨opened, fun other ready => named other (earlier other ready), further⟩,
        ⟨fun other ready => live.1 other (earlier other ready), live.2⟩, still⟩

theorem matches_marked (events : List Event) (name : Name) (frames : List Frame) (env : Env)
    (layers : Matches events frames env.chain) (event : .named env.inner name.text ∈ events) :
    Matches events (name.markIn true frames) env.chain := by
  cases frames with
  | nil => exact layers
  | cons frame outer =>
      obtain ⟨opened, named, further⟩ := layers
      refine ⟨opened, fun other ready => ?_, further⟩
      rcases Bindings.find_insert_cases _ _ _ _ _ ready with ⟨rfl, _⟩ | before
      · exact event
      · exact named other before

theorem stands_marked (w : Watched) (name : Name) (frames : List Frame) (stands : w.Stands frames)
    (proper : name.Proper) (event : .named w.machine.env.inner name.text ∈ w.events)
    (known : (w.machine.store.layer w.machine.env.inner).contains name.text = true) :
    w.Stands (name.markIn true frames) := by
  refine ⟨matches_marked _ name frames _ stands.layers event, ?_, hosted_mark name true frames _ proper stands.hosted⟩
  cases frames with
  | nil => exact stands.live
  | cons frame outer =>
      refine ⟨fun other ready => ?_, stands.live.2⟩
      rcases Bindings.find_insert_cases _ _ _ _ _ ready with ⟨rfl, _⟩ | before
      · exact known
      · exact stands.live.1 other before

theorem stands_entered (w : Watched) (site : Site) (layer : Nat) (frames : List Frame) (stands : w.Stands frames)
    (direct : site.isDeferred = false) (opened : .opened site layer ∈ w.events) :
    Watched.Stands { w with machine := { w.machine with env := w.machine.env.child layer } } (.fresh site :: frames) := by
  have plain : ∀ name methods, site ≠ .receiver name methods := fun _ _ same => nomatch same ▸ direct
  have unnamed : ∀ name, (Frame.fresh site).scope.find? name ≠ some true := fun _ found => nomatch found
  exact ⟨⟨opened_for_opened _ _ _ plain opened, fun name ready => (unnamed name ready).elim, stands.layers⟩,
    ⟨fun name ready => (unnamed name ready).elim, fun _ => stands.live⟩,
    .direct _ frames layer _ direct rfl stands.hosted⟩

section Operations

variable {bound : Nat} {w : Watched}

theorem keeps_congr {α : Type} {p q : Watch α} {good : α → Watched → Prop} (same : p w = q w)
    (keeps : Keeps bound w q good) : Keeps bound w p good :=
  fun sound => ends_congr same (keeps sound)

theorem keeps_current_env {β : Type} {f : Env → Watch β} {good : β → Watched → Prop}
    (rest : Keeps bound w (f w.machine.env) good) : Keeps bound w (Watch.currentEnv >>= f) good :=
  rest

theorem keeps_named (line : Nat) (env : Env) (name : String) (value : Value)
    (inside : w.Sound → env.inner < w.machine.store.layers.size) (proper : name ≠ receiverName)
    (known : value.Known (.named env.inner name :: w.events)) :
    Keeps bound w (do Watch.act (Eval.onStore line (Store.define env name value)); Watch.log (.named env.inner name))
      fun _ next => .named env.inner name ∈ next.events ∧
        (next.machine.store.layer env.inner).contains name = true := by
  intro sound
  by_cases taken : (w.machine.store.layer env.inner).contains name
  · have run : (do
        Watch.act (Eval.onStore line (Store.define env name value))
        Watch.log (.named env.inner name) : Watch Unit) w =
        .error (.failed (.runtime ⟨line, .redefined name⟩)) w := by
      simp only [bind, EStateM.bind, Watch.act, Eval.onStore, Store.define, taken, if_true]
    unfold Ends
    rw [run]
    exact ⟨reaches_refl bound w, sound, id⟩
  · have run : (do
        Watch.act (Eval.onStore line (Store.define env name value))
        Watch.log (.named env.inner name) : Watch Unit) w = .ok ()
          { machine := { w.machine with store := w.machine.store.write env.inner name value }
            events := .named env.inner name :: w.events } := by
      simp only [bind, EStateM.bind, Watch.act, Eval.onStore, Store.define, taken, Bool.false_eq_true, if_false]
      rfl
    unfold Ends
    rw [run]
    have added := sound_name w env.inner name value sound (inside sound) proper known
    refine ⟨⟨rfl, rfl, by simp [Store.write], ⟨[_], rfl, rfl⟩, ?_⟩, added, List.mem_cons_self, ?_⟩
    · exact fun layer _ other before => Store.contains_write _ _ _ _ _ _ before
    · show ((w.machine.store.write env.inner name value).layer env.inner).contains name = true
      rw [Store.layer_write_self _ _ _ _ (inside sound)]
      exact Bindings.contains_insert_self _ _ _

theorem keeps_define (name : Name) (value : Value) (inside : w.Sound → w.machine.env.inner < w.machine.store.layers.size)
    (proper : name.Proper) (known : value.Known (.named w.machine.env.inner name.text :: w.events)) :
    Keeps bound w (Watch.define name value) fun _ next => .named w.machine.env.inner name.text ∈ next.events ∧
      (next.machine.store.layer w.machine.env.inner).contains name.text = true := by
  apply keeps_congr (q := do
    Watch.act (Eval.onStore name.line (Store.define w.machine.env name.text value))
    Watch.log (.named w.machine.env.inner name.text))
  · simp only [Watch.define, bind, EStateM.bind, Watch.act, Eval.define, Eval.onStore, Watch.currentEnv,
      Eval.currentEnv, get_run, pure, EStateM.pure]
    cases Store.define w.machine.env name.text value w.machine.store <;> rfl
  · exact keeps_named name.line w.machine.env name.text value inside proper known

theorem keeps_define_all (env : Env) : ∀ (names : List Name) (values : List Value) (w : Watched),
    names.length = values.length → env.inner < w.machine.store.layers.size → (∀ name ∈ names, name.Proper) →
    (∀ value ∈ values, value.Known w.events) →
    Keeps w.machine.store.layers.size w (Watch.defineAll env names values) fun _ next =>
      ∀ name ∈ names, .named env.inner name.text ∈ next.events ∧
        (next.machine.store.layer env.inner).contains name.text = true
  | [], values, w, _, _, _, _ => by
      apply keeps_congr (q := pure ()) (by cases values <;> rfl)
      exact keeps_pure _ _ fun _ name member => nomatch member
  | name :: names, value :: values, w, same, inside, proper, known => by
      have first : Keeps w.machine.store.layers.size w _ _ :=
        keeps_named name.line env name.text value (fun _ => inside) (proper name List.mem_cons_self)
          (value_known_mono value (fun _ => List.mem_cons_of_mem _) (known value List.mem_cons_self))
      have behind : Keeps w.machine.store.layers.size w _ _ := keeps_next (Nat.le_refl _) first
        fun _ next reached _ ⟨event, here⟩ => keeps_weaken
          (keeps_define_all env names values next (Nat.succ.inj same) (Nat.lt_of_lt_of_le inside reached.size)
            (fun other member => proper other (List.mem_cons_of_mem _ member))
            fun other member => value_known_mono other (reaches_wider reached) (known other (List.mem_cons_of_mem _ member)))
          fun _ last final _ others => (⟨⟨reaches_wider final event,
            final.names env.inner (Nat.lt_of_lt_of_le inside reached.size) _ here⟩, others⟩ :
            (Event.named env.inner name.text ∈ last.events ∧
              (last.machine.store.layer env.inner).contains name.text = true) ∧ _)
      rw [bind_assoc] at behind
      apply keeps_weaken behind
      intro _ last _ _ ⟨head, others⟩ other member
      rcases List.mem_cons.mp member with rfl | later
      · exact head
      · exact others other later

theorem keeps_child_env (site : Site) :
    Keeps bound w (Watch.childEnv site) fun env next => env = w.machine.env.child w.machine.store.layers.size ∧
      .opened site w.machine.store.layers.size ∈ next.events := by
  have nested : Keeps bound w (Watch.act Eval.childEnv) fun env next =>
      env = w.machine.env.child w.machine.store.layers.size ∧ next.events = w.events ∧
        next.machine.store.layers.size = w.machine.store.layers.size + 1 := by
    apply keeps_act
    intro _
    have grows : w.machine.store.Grows w.events _ :=
      Store.grows_push w.machine.store .empty fun _ _ found => nomatch found
    exact ⟨⟨rfl, rfl, grows⟩, rfl, rfl, Array.size_push _⟩
  intro sound
  apply keeps_bind nested _ sound
  rintro env next _ _ ⟨rfl, events, size⟩
  have fresh : w.machine.store.layers.size ∉ next.events.filterMap Event.makes? := by
    intro member
    rw [events] at member
    exact Nat.lt_irrefl _ (sound.below _ member).2
  have ground := sound.ground
  apply keeps_bind (keeps_log (.opened site w.machine.store.layers.size) (fun _ last =>
    .opened site w.machine.store.layers.size ∈ last.events) rfl (fun _ => ⟨ground, by omega, fresh⟩) (fun _ => trivial)
    List.mem_cons_self)
  exact fun _ last _ _ opened => keeps_pure _ _ fun _ => ⟨rfl, opened⟩

theorem keeps_reads (line : Nat) {act : StoreM Value} {name : String} {faults : RuntimeFault → Prop}
    (reads : Store.Reads act name faults) (inside : ∀ fault, faults fault → ∀ distance, fault ≠ .noLayer distance) :
    Keeps bound w (Watch.act (Eval.onStore line act)) fun value next => value.Known next.events := by
  apply keeps_store
  intro sound
  apply ends_mono _ _ _ _ _ _ (reads w.machine.store)
  · rintro value _ ⟨rfl, layer, found⟩
    exact ⟨Store.grows_refl _, sound.values layer name value found⟩
  · rintro fault _ ⟨rfl, faulty⟩
    exact ⟨Store.grows_refl _, inside fault faulty⟩

theorem keeps_writes (line : Nat) {act : StoreM Unit} {name : String} {value : Value} {faults : RuntimeFault → Prop}
    (writes : Store.Writes act name value faults) (inside : ∀ fault, faults fault → ∀ distance, fault ≠ .noLayer distance)
    (proper : name ≠ receiverName) (known : value.Known w.events) :
    Keeps bound w (Watch.act (Eval.onStore line act)) fun _ _ => True := by
  apply keeps_store
  intro _
  apply ends_mono _ _ _ _ _ _ (writes w.machine.store)
  · rintro _ _ ⟨layer, _, rfl⟩
    exact ⟨Store.grows_write _ layer name value proper known, trivial⟩
  · rintro fault _ ⟨rfl, faulty⟩
    exact ⟨Store.grows_refl _, inside fault faulty⟩

theorem stays_inside (m : Machine) (id : Nat) (fault : RuntimeFault)
    (within : ∀ distance, m.distances[id]? = some distance → distance < m.env.chain.length) : ¬ m.Strays id fault := by
  rintro ⟨distance, recorded, outside, _⟩
  rw [List.getElem?_eq_getElem (within distance recorded)] at outside
  cases outside

theorem keeps_read_name (id : Nat) (name : Name)
    (within : ∀ distance, w.machine.distances[id]? = some distance → distance < w.machine.env.chain.length) :
    Keeps bound w (Watch.act (Eval.readName id name)) fun value next => value.Known next.events := by
  obtain ⟨act, run, reads⟩ := read_name_acts id name w.machine
  apply keeps_congr (q := Watch.act (Eval.onStore name.line act))
  · simp only [Watch.act, run]
  · apply keeps_reads name.line reads
    rintro fault (rfl | strays) distance
    · simp
    · exact absurd strays (stays_inside w.machine id fault within)

theorem keeps_write_name (id : Nat) (name : Name) (value : Value) (proper : name.Proper) (known : value.Known w.events)
    (within : ∀ distance, w.machine.distances[id]? = some distance → distance < w.machine.env.chain.length) :
    Keeps bound w (Watch.act (Eval.writeName id name value)) fun _ _ => True := by
  obtain ⟨act, run, writes⟩ := write_name_acts id name w.machine value
  apply keeps_congr (q := Watch.act (Eval.onStore name.line act))
  · simp only [Watch.act, run]
  · apply keeps_writes name.line writes _ proper known
    rintro fault (rfl | strays) distance
    · simp
    · exact absurd strays (stays_inside w.machine id fault within)

theorem found_within (node : Expr) (frames : List Frame) (distance : Nat)
    (found : (Visit.ofFrames node frames).found = some distance) : distance < frames.length := by
  cases reference : node.reference? with
  | none => simp [Visit.found, Visit.ofFrames, reference] at found
  | some r =>
      have place : (frames.map Frame.scope).findIdx? (fun scope => scope.contains r.name) = some distance := by
        simpa only [Visit.found, Visit.ofFrames, reference, Option.bind_some] using found
      simpa only [List.length_map] using (List.findIdx?_eq_some_iff_findIdx_eq.mp place).1

theorem keeps_reach {α : Type} (node : Expr) (id : Nat) (name : String) (eval : Eval α) (frames : List Frame)
    (good : α → Watched → Prop) (stands : w.Stands frames) (proper : node.Proper)
    (reference : node.reference? = some ⟨name, id⟩) (visited : Visit.Known w.events (.ofFrames node frames))
    (ready : (∃ mark name value, node = .assign mark name value) ∨ (Visit.ofFrames node frames).isReady ≠ some false)
    (looked : ∀ next : Watched, next.machine = w.machine → next.events = .reached node w.machine :: w.events →
      (∀ distance, w.machine.distances[id]? = some distance → distance < w.machine.env.chain.length) →
      Keeps bound next (Watch.act eval) good) : Keeps bound w (Watch.reach node eval) good := by
  intro sound
  have located : Located w.events node w.machine frames :=
    ⟨visited, fun r same => sound.distances _ r visited same, stands.layers, stands.live, ready, sound.named, proper,
      stands.hosted, sound.receivers⟩
  have within : ∀ distance, w.machine.distances[id]? = some distance → distance < w.machine.env.chain.length := by
    intro distance recorded
    rw [located.distance _ reference] at recorded
    have inside := found_within node frames distance recorded
    have length := matches_length _ _ _ stands.layers
    omega
  apply keeps_get _ sound
  apply keeps_bind (keeps_log (.reached node w.machine)
    (fun _ next => next = { w with events := .reached node w.machine :: w.events }) rfl (fun _ => trivial)
    (fun _ => ⟨frames, located⟩) rfl)
  rintro _ next _ _ rfl
  exact looked _ rfl rfl within

theorem keeps_new_identity (line : Nat) :
    Keeps bound w (Watch.act (Eval.onStore line Store.newIdentity)) fun _ next => next.events = w.events := by
  apply keeps_store
  exact fun _ => ⟨Store.grows_new_identity _, rfl⟩

theorem keeps_define_function (routine : Routine) (frames : List Frame) (stands : w.Stands frames)
    (proper : routine.Proper)
    (settled : routine.Settled (Visit.Known w.events) (routine.name.markIn true frames)) :
    Keeps w.machine.store.layers.size w (Watch.defineFunction routine) fun _ next =>
      next.Stands (routine.name.markIn true frames) := by
  intro sound
  apply keeps_bind (keeps_new_identity routine.name.line) _ sound
  intro identity mid reached held same
  have standing := stands_after w mid frames sound reached stands
  have wider : w.events ⊆ .named mid.machine.env.inner routine.name.text :: mid.events := by
    rw [same]
    exact fun _ => List.mem_cons_of_mem _
  have named : routine.name.Proper := by
    cases routine
    exact proper.1
  have known : Value.Known (.named mid.machine.env.inner routine.name.text :: mid.events)
      (.function identity ⟨routine, mid.machine.env, false⟩) := by
    refine ⟨⟨proper, routine.name.markIn true frames, ?_, ?_, .function _ ?_⟩, fun constructor => nomatch constructor⟩
    · apply matches_marked _ routine.name frames mid.machine.env _ List.mem_cons_self
      exact matches_mono _ _ (fun _ => List.mem_cons_of_mem _) _ _ standing.layers
    · exact routine_settled_mono (fun _ visited => wider visited) _ _ settled
    · exact hosted_mark routine.name true frames _ named
        (hosted_mono (fun _ => List.mem_cons_of_mem _) _ _ standing.hosted)
  apply keeps_current_env
  apply keeps_weaken
    (keeps_define routine.name _ (fun sound => stands_inside mid frames sound standing) named known)
  rintro _ next further _ ⟨event, contained⟩
  have below := matches_inside w sound frames _ stands.layers
  have after := stands_below _ mid next frames further (reached.env ▸ below) standing
  exact stands_marked next routine.name frames after named (further.env ▸ event) (further.env ▸ contained)

theorem routine_proper_mem (methods : List Routine) (method : Routine) (proper : Routine.ProperAll methods)
    (member : method ∈ methods) : method.Proper := by
  induction methods with
  | nil => cases member
  | cons first rest ih =>
      rcases List.mem_cons.mp member with rfl | later
      · exact proper.1
      · exact ih proper.2 later

theorem routine_settled_mem (seen : Visit → Prop) (frames : List Frame) (methods : List Routine) (method : Routine)
    (settled : Routine.SettledAll seen frames methods) (member : method ∈ methods) : method.Settled seen frames := by
  induction methods with
  | nil => cases member
  | cons first rest ih =>
      rcases List.mem_cons.mp member with rfl | later
      · exact settled.1
      · exact ih settled.2 later

theorem made_class_known (events : List Event) (name : Name) (methods : List Routine) (frames : List Frame) (env : Env)
    (identity : Nat) (layers : Matches events frames env.chain) (hosted : Hosted events frames env.chain)
    (proper : Routine.ProperAll methods)
    (settled : Routine.SettledAll (Visit.Known events) (.receiver name methods :: frames) methods)
    (declared : .declared name methods (ClassValue.made identity name methods env) ∈ events) :
    ClassValue.Known events (ClassValue.made identity name methods env) := by
  refine ⟨name, methods, declared, fun key closure found => ?_⟩
  obtain ⟨method, member, same⟩ := List.mem_map.mp (Bindings.find_of_list _ key closure found)
  cases same
  exact ⟨routine_proper_mem methods method proper member, rfl, member, frames, layers,
    routine_settled_mem _ _ methods method settled member, hosted⟩

theorem keeps_define_class (name : Name) (methods : List Routine) (frames : List Frame) (stands : w.Stands frames)
    (named : name.Proper) (proper : Routine.ProperAll methods)
    (settled : Routine.SettledAll (Visit.Known w.events) (.receiver name methods :: name.markIn true frames) methods) :
    Keeps w.machine.store.layers.size w (Watch.defineClass name methods) fun _ next =>
      next.Stands (name.markIn true frames) := by
  intro sound
  have below := matches_inside w sound frames _ stands.layers
  apply keeps_bind (keeps_define name .none (fun sound => stands_inside w frames sound stands) named trivial) _ sound
  intro _ mid reached _ ⟨event, contained⟩
  have after := stands_below _ w mid frames reached below stands
  have standing := stands_marked mid name frames after named (reached.env ▸ event) (reached.env ▸ contained)
  have chain : ∀ layer ∈ mid.machine.env.chain, layer < w.machine.store.layers.size := reached.env ▸ below
  apply keeps_current_env
  apply keeps_bind (keeps_new_identity name.line)
  intro identity next further _ same
  let made := ClassValue.made identity name methods mid.machine.env
  apply keeps_bind (keeps_log (.declared name methods made) (fun _ last =>
    last = { next with events := .declared name methods made :: next.events }) rfl (fun _ => trivial)
    (fun _ => trivial) rfl)
  rintro _ last extended _ rfl
  have all := reaches_trans further extended
  have known := made_class_known _ name methods (name.markIn true frames) mid.machine.env identity
    (matches_mono _ _ (reaches_wider all) _ _ standing.layers) (hosted_mono (reaches_wider all) _ _ standing.hosted) proper
    (routines_settled_mono (fun _ visited => reaches_wider (reaches_trans reached all) visited) _ _ settled)
    List.mem_cons_self
  have assigned : Keeps w.machine.store.layers.size { next with events := .declared name methods made :: next.events }
      (Watch.act (Eval.onStore name.line (Store.assign mid.machine.env name.text (.class made)))) fun _ _ => True :=
    keeps_writes name.line (Store.writes_assign _ _ _) (by simp) named known
  apply keeps_weaken assigned
  exact fun _ final ended _ _ => stands_below _ mid final _ (reaches_trans all ended) chain standing

theorem keeps_renew (body : List Stmt) (env : Env) (opened : .opened (.loop body) env.inner ∈ w.events) :
    Keeps env.inner w (do Watch.act (Eval.onStore 0 (Store.clear env)); Watch.log (.emptied env.inner))
      fun _ _ => True := by
  intro sound
  refine ⟨⟨rfl, rfl, ?_, ⟨[_], rfl, rfl⟩, ?_⟩, sound_renew w body env.inner sound opened, trivial⟩
  · exact Nat.le_of_eq (Array.size_modify ..).symm
  · intro layer below name known
    have kept := layer_clear_other w.machine.store env.inner layer (Nat.ne_of_lt below)
    exact kept ▸ known

end Operations

end TreeWalk
