import TreeWalk.Proofs.Standing

set_option autoImplicit false

namespace TreeWalk

section Receivers

variable {bound : Nat} {w : Watched}

structure BoundTo (w next : Watched) (cause : Cause) (method closure : Closure) (object : Instance) : Prop where
  known : closure.Known next.events
  event : .bound cause closure object ∈ next.events
  routine : closure.routine = method.routine
  constructor : closure.isConstructor = method.isConstructor
  fresh : closure.env.inner = w.machine.store.layers.size
  events : next.events = .bound cause closure object :: .named closure.env.inner receiverName :: w.events

theorem keeps_log_bound (cause : Cause) (closure : Closure) (object : Instance)
    (fresh : w.Sound → 0 < closure.env.inner ∧ closure.env.inner < w.machine.store.layers.size ∧
      closure.env.inner ∉ w.events.filterMap Event.makes?)
    (receiver : (w.machine.store.layer closure.env.inner).find? receiverName = some (.object object))
    (begins : w.Sound → cause.Begins w object) :
    Keeps bound w (Watch.logBound cause closure object) fun _ next =>
      next.events = .bound cause closure object :: .named closure.env.inner receiverName :: w.events := by
  intro sound
  have contained : (w.machine.store.layer closure.env.inner).contains receiverName = true := by
    simp [Bindings.contains, receiver]
  have unmade : (Event.named closure.env.inner receiverName).makes? = none := rfl
  have begun : Keeps bound w (Watch.log (.named closure.env.inner receiverName)) fun _ mid =>
      mid = { w with events := .named closure.env.inner receiverName :: w.events } :=
    keeps_log _ _ rfl (fun _ => contained) (fun _ => trivial) rfl
  apply keeps_bind begun _ sound
  rintro _ mid _ _ rfl
  have uncreated : (Event.named closure.env.inner receiverName).created? = none := rfl
  refine keeps_log _ _ (by cases cause <;> rfl) (fun _ => ⟨?_, receiver, ?_⟩) (fun _ => trivial) rfl
  · simpa only [List.filterMap_cons_none unmade] using fresh sound
  · have still := begins sound
    cases cause with
    | creation => simpa only [Cause.Begins, List.filterMap_cons_none uncreated] using still
    | property name => trivial

theorem receiver_known {events newer : List Event} (cause : Cause) (key : String) (method : Closure) (object : Instance)
    (layer : Nat) (known : object.ofClass.Known events) (found : object.ofClass.methods.find? key = some method)
    (logged : newer = .bound cause { method with env := method.env.child layer } object ::
      .named layer receiverName :: events) :
    Closure.Known newer { method with env := method.env.child layer } := by
  have wider : events ⊆ newer := by
    rw [logged]
    exact fun _ member => List.mem_cons_of_mem _ (List.mem_cons_of_mem _ member)
  obtain ⟨name, methods, declared, table⟩ := known
  obtain ⟨proper, _, listed, frames, layers, settled, hosted⟩ := table key method found
  refine ⟨proper, .receiver name methods :: frames, ⟨?_, ?_, ?_⟩,
    routine_settled_mono (fun _ visited => wider visited) _ _ settled,
    .method frames name methods object ⟨listed, ⟨cause, logged ▸ List.mem_cons_self⟩, wider declared⟩
      (hosted_mono wider frames _ hosted)⟩
  · exact ⟨cause, _, object, logged ▸ List.mem_cons_self, rfl, wider declared⟩
  · intro other ready
    rcases Bindings.find_insert_cases _ _ _ _ _ ready with ⟨rfl, _⟩ | before
    · rw [logged]
      exact List.mem_cons_of_mem _ List.mem_cons_self
    · cases before
  · exact matches_mono _ _ wider _ _ layers

theorem keeps_receive (line : Nat) (cause : Cause) (key : String) (method : Closure) (object : Instance)
    (known : object.ofClass.Known w.events) (found : object.ofClass.methods.find? key = some method)
    (begins : w.Sound → cause.Begins w object) :
    Keeps bound w (Watch.receive line cause method object) fun closure next =>
      BoundTo w next cause method closure object := by
  intro sound
  let closure : Closure := { method with env := method.env.child w.machine.store.layers.size }
  let receiver : Bindings Value := Bindings.empty.insert "this" (.object object)
  have nested : Keeps bound w (Watch.act (Eval.onStore line (Store.bind method object))) fun made next =>
      made = closure ∧ next.events = w.events ∧
        next.machine.store = { w.machine.store with layers := w.machine.store.layers.push receiver } := by
    apply keeps_store
    intro _
    have plain : ∀ name value, receiver.find? name = some value → value.Known w.events := by
      intro name value here
      rcases Bindings.find_insert_cases _ _ _ _ _ here with ⟨_, rfl⟩ | before
      · exact known
      · cases before
    exact ⟨Store.grows_push w.machine.store receiver plain, rfl, rfl, rfl⟩
  apply keeps_bind nested _ sound
  rintro _ mid _ held ⟨rfl, same, store⟩
  have here : (mid.machine.store.layer closure.env.inner).find? receiverName = some (.object object) := by
    show (mid.machine.store.layer w.machine.store.layers.size).find? receiverName = _
    rw [store, Store.layer_push_new]
    exact Bindings.find_insert_self _ _ _
  have ground := sound.ground
  have fresh : 0 < closure.env.inner ∧ closure.env.inner < mid.machine.store.layers.size ∧
      closure.env.inner ∉ mid.events.filterMap Event.makes? := by
    refine ⟨ground, by simp [store, closure, Env.child], ?_⟩
    rw [same]
    exact fun member => Nat.lt_irrefl _ (sound.below _ member).2
  have starts : cause.Begins mid object := by
    have still := begins sound
    cases cause with
    | creation => simpa only [Cause.Begins, same, store] using still
    | property name => trivial
  apply keeps_bind (keeps_log_bound cause closure object (fun _ => fresh) here fun _ => starts)
  intro _ next _ _ logged
  apply keeps_pure
  intro _
  rw [same] at logged
  exact ⟨receiver_known cause key method object _ known found logged, logged ▸ List.mem_cons_self, rfl, rfl, rfl, logged⟩

theorem property_field (w : Watched) (name : Name) (object : Instance) (value : Value)
    (found : (w.machine.store.fields object.identity).find? name.text = some value) :
    Watch.property name (.object object) w = .ok value w := by
  have run : Watch.act (Eval.property name (.object object)) w = .ok value w := by
    simp only [Watch.act, Eval.property, Eval.onStore, Store.property, bind, EStateM.bind, get_the_run, found, pure,
      EStateM.pure]
  cases value <;>
    simp only [Watch.property, bind, EStateM.bind, get_run, run, found, Option.isNone_some,
      Bool.false_eq_true, if_false, pure, EStateM.pure]

theorem property_method (w : Watched) (name : Name) (object : Instance) (method : Closure)
    (missing : (w.machine.store.fields object.identity).find? name.text = none)
    (found : object.ofClass.methods.find? name.text = some method) :
    Watch.property name (.object object) w = (do
      let identity ← Watch.act (Eval.onStore name.line Store.newIdentity)
      let closure ← Watch.receive name.line (.property name) method object
      return Value.function identity closure) w := by
  simp only [Watch.property, bind, EStateM.bind, get_run, get_the_run, Watch.act, Eval.property, Eval.onStore,
    Store.property, missing, found, pure, EStateM.pure]
  rfl

theorem property_missing (w : Watched) (name : Name) (object : Instance)
    (missing : (w.machine.store.fields object.identity).find? name.text = none)
    (absent : object.ofClass.methods.find? name.text = none) :
    Watch.property name (.object object) w =
      .error (.failed (.runtime ⟨name.line, .noProperty name.text object.ofClass.name⟩)) w := by
  simp only [Watch.property, bind, EStateM.bind, get_run, get_the_run, Watch.act, Eval.property, Eval.onStore,
    Store.property, missing, absent, throw_run]

theorem keeps_property (name : Name) (value : Value) (known : value.Known w.events) :
    Keeps bound w (Watch.property name value) fun result next => result.Known next.events := by
  cases value with
  | object object =>
      cases field : (w.machine.store.fields object.identity).find? name.text with
      | some result =>
          apply keeps_congr (q := pure result) (property_field w name object result field)
          exact keeps_pure _ _ fun sound => sound.fields object.identity name.text result field
      | none =>
          cases found : object.ofClass.methods.find? name.text with
          | none =>
              intro sound
              unfold Ends
              rw [property_missing w name object field found]
              exact ⟨reaches_refl bound w, sound, id⟩
          | some method =>
              apply keeps_congr (property_method w name object method field found)
              apply keeps_bind (keeps_new_identity name.line)
              intro identity mid reached _ same
              have mine : object.ofClass.Known mid.events := same ▸ known
              apply keeps_bind (keeps_receive name.line (.property name) name.text method object mine found
                fun _ => trivial)
              intro closure next further _ tied
              apply keeps_pure
              intro _
              refine ⟨tied.known, fun constructor => ⟨name, object, ?_, tied.event⟩⟩
              obtain ⟨_, _, _, table⟩ := mine
              have keyed := (table name.text method found).constructor
              rw [tied.constructor, keyed] at constructor
              exact beq_iff_eq.mp constructor
  | _ => exact keeps_fail _ _ _ (by simp)

theorem keeps_new_instance (line : Nat) (c : ClassValue) :
    Keeps bound w (Watch.act (Eval.onStore line (Store.newInstance c))) fun object next =>
      object.ofClass = c ∧ next.events = w.events ∧ object.identity < next.machine.store.objects.size ∧
        object.identity ∉ w.events.filterMap Event.created? := by
  apply keeps_store
  intro sound
  refine ⟨Store.grows_new_instance _, rfl, rfl, ?_, ?_⟩
  · show w.machine.store.objects.size < (w.machine.store.objects.push .empty).size
    rw [Array.size_push]
    exact Nat.lt_succ_self _
  · exact fun member => Nat.lt_irrefl _ (sound.creations _ member)

theorem keeps_set_field (line : Nat) (object : Instance) (name : String) (value : Value)
    (known : value.Known w.events) :
    Keeps bound w (Watch.act (Eval.onStore line (Store.setField object name value))) fun _ _ => True := by
  apply keeps_store
  exact fun _ => ⟨Store.grows_set_field _ _ _ _ known, trivial⟩

theorem keeps_answer (closure : Closure) (flow : Flow) (known : flow.Known w.events) :
    Keeps bound w (Watch.act (Eval.answer closure flow)) fun value next => value.Known next.events := by
  unfold Eval.answer
  split
  · apply keeps_reads _ (Store.reads_get_at closure.env 0 "this")
    rintro fault (rfl | ⟨_, outside⟩) distance
    · simp
    · cases outside
  · cases flow with
    | returned value => exact keeps_pure (w := w) value _ fun _ => known
    | normal => exact keeps_pure (w := w) Value.none _ fun _ => trivial

end Receivers

end TreeWalk
