import TreeWalk.Proofs.Balanced
import TreeWalk.Proofs.Chronicle
import TreeWalk.Proofs.Enclosed

set_option autoImplicit false

namespace TreeWalk

namespace Visit

theorem keep_other (v : Visit) (distances : Distances) (id : Nat)
    (different : ∀ r, v.node.reference? = some r → r.id ≠ id) : (v.keep distances)[id]? = distances[id]? := by
  unfold keep
  split
  · rename_i r distance reference found
    rw [Std.TreeMap.getElem?_insert]
    have apart : compare r.id id ≠ .eq := fun same => different r reference (Nat.compare_eq_eq.mp same)
    simp [apart]
  · rfl

theorem keep_self (v : Visit) (r : Reference) (distances : Distances) (reference : v.node.reference? = some r)
    (fresh : distances[r.id]? = none) : (v.keep distances)[r.id]? = v.found := by
  unfold keep
  rw [reference]
  cases place : v.found with
  | none => exact fresh
  | some distance => simp

theorem keep_fold_other (later : List Visit) (distances : Distances) (id : Nat)
    (outside : ∀ r ∈ later.filterMap Visit.reference?, r.id ≠ id) :
    (later.foldr keep distances)[id]? = distances[id]? := by
  induction later with
  | nil => rfl
  | cons v rest ih =>
      rw [List.foldr_cons, keep_other]
      · exact ih fun r member => outside r (by
          obtain ⟨u, inside, same⟩ := List.mem_filterMap.mp member
          exact List.mem_filterMap.mpr ⟨u, List.mem_cons_of_mem _ inside, same⟩)
      · exact fun r reference => outside r (List.mem_filterMap.mpr ⟨v, List.mem_cons_self, reference⟩)

end Visit

theorem sound_distances (w : Watched) (distances : Distances) (sound : w.Sound)
    (kept : ∀ v r, .visited v ∈ w.events → v.node.reference? = some r →
      distances[r.id]? = w.machine.distances[r.id]?) :
    Watched.Sound { w with machine := { w.machine with distances } } := by
  refine ⟨sound.values, sound.fields, sound.ground, sound.origins, sound.below, sound.named, sound.emptied,
    sound.receivers, sound.created, sound.creations, sound.entered, ?_, sound.told⟩
  intro v r member reference
  exact (kept v r member reference).trans (sound.distances v r member reference)

-- What was checked so far. The identities from `nextId` on are still to be given out.
structure Watched.Counted (nextId : Nat) (w : Watched) : Prop where
  fresh : ∀ id, nextId ≤ id → w.machine.distances[id]? = none
  visited : (w.events.filterMap Event.visited?).Nodup
  below : ∀ id ∈ w.events.filterMap Event.visited?, id < nextId
  enclosed : ∀ v, .visited v ∈ w.events → v.Enclosed

theorem counted_later (nextId next : Nat) (w : Watched) (counted : w.Counted nextId) (later : nextId ≤ next) :
    w.Counted next :=
  ⟨fun id above => counted.fresh id (Nat.le_trans later above), counted.visited,
    fun id member => Nat.lt_of_lt_of_le (counted.below id member) later, counted.enclosed⟩

theorem visited_id (events : List Event) (v : Visit) (r : Reference) (member : .visited v ∈ events)
    (reference : v.node.reference? = some r) : r.id ∈ events.filterMap Event.visited? :=
  List.mem_filterMap.mpr ⟨.visited v, member, by simp [Event.visited?, reference]⟩

theorem visits_ids (visits : List Visit) : (visits.map Event.visited).filterMap Event.visited? =
    (visits.filterMap Visit.reference?).map Reference.id := by
  induction visits with
  | nil => rfl
  | cons v rest ih =>
      cases reference : v.node.reference? with
      | none => simpa [Event.visited?, Visit.reference?, reference] using ih
      | some r => simpa [Event.visited?, Visit.reference?, reference] using ih

theorem sound_visits (w : Watched) (visits : List Visit) (sound : w.Sound)
    (nodup : ((visits.filterMap Visit.reference?).map Reference.id).Nodup)
    (fresh : ∀ r ∈ visits.filterMap Visit.reference?,
      w.machine.distances[r.id]? = none ∧ r.id ∉ w.events.filterMap Event.visited?) :
    Watched.Sound
      { machine := { w.machine with distances := visits.foldr Visit.keep w.machine.distances }
        events := visits.map Event.visited ++ w.events } := by
  induction visits with
  | nil => exact sound
  | cons v rest ih =>
      have head : ∀ r, v.node.reference? = some r →
          r ∈ (v :: rest).filterMap Visit.reference? := fun r reference =>
        List.mem_filterMap.mpr ⟨v, List.mem_cons_self, reference⟩
      have tail : ∀ r ∈ rest.filterMap Visit.reference?,
          r ∈ (v :: rest).filterMap Visit.reference? := by
        intro r member
        obtain ⟨u, inside, same⟩ := List.mem_filterMap.mp member
        exact List.mem_filterMap.mpr ⟨u, List.mem_cons_of_mem _ inside, same⟩
      have apart : ∀ r, v.node.reference? = some r →
          ∀ s ∈ rest.filterMap Visit.reference?, s.id ≠ r.id := by
        intro r reference s member same
        have joined : (v :: rest).filterMap Visit.reference? = r :: rest.filterMap Visit.reference? :=
          List.filterMap_cons_some reference
        rw [joined, List.map_cons, List.nodup_cons] at nodup
        exact nodup.1 (List.mem_map.mpr ⟨s, member, same⟩)
      have behind : ((rest.filterMap Visit.reference?).map Reference.id).Nodup :=
        nodup.sublist (((List.sublist_cons_self v rest).filterMap _).map _)
      have before := ih behind fun r member => fresh r (tail r member)
      have kept : Watched.Sound
          { machine := { w.machine with distances := (v :: rest).foldr Visit.keep w.machine.distances }
            events := rest.map Event.visited ++ w.events } := by
        apply sound_distances _ _ before
        intro u r member reference
        apply Visit.keep_other
        intro s here same
        rcases List.mem_append.mp member with new | old
        · obtain ⟨x, inside, equal⟩ := List.mem_map.mp new
          cases equal
          exact apart s here r (List.mem_filterMap.mpr ⟨u, inside, reference⟩) same.symm
        · exact (fresh s (head s here)).2 (same ▸ visited_id w.events u r old reference)
      apply sound_log _ (.visited v) kept _ trivial
      intro r reference
      apply Visit.keep_self v r _ reference
      rw [Visit.keep_fold_other rest _ r.id (apart r reference)]
      exact (fresh r (head r reference)).1

structure Ready (nextId : Nat) (program : Program) (w : Watched) : Prop where
  sound : w.Sound
  counted : w.Counted nextId
  settled : Stmt.SettledAll (Visit.Known w.events) [] program

theorem counted_visits (w : Watched) (visits : List Visit) (first next : Nat) (counted : w.Counted first)
    (later : first ≤ next)
    (inside : ∀ r ∈ visits.filterMap Visit.reference?, first ≤ r.id ∧ r.id < next)
    (nodup : ((visits.filterMap Visit.reference?).map Reference.id).Nodup) (enclosed : ∀ v ∈ visits, v.Enclosed) :
    Watched.Counted next
      { machine := { w.machine with distances := visits.foldr Visit.keep w.machine.distances }
        events := visits.map Event.visited ++ w.events } := by
  refine ⟨?_, ?_, ?_, ?_⟩
  · intro id above
    show (visits.foldr Visit.keep w.machine.distances)[id]? = none
    rw [Visit.keep_fold_other]
    · exact counted.fresh id (Nat.le_trans later above)
    · intro r member
      have bounds := inside r member
      omega
  · rw [List.filterMap_append, visits_ids]
    apply List.nodup_append.mpr
    refine ⟨nodup, counted.visited, ?_⟩
    intro id new other old same
    obtain ⟨r, member, rfl⟩ := List.mem_map.mp new
    exact Nat.lt_irrefl _ (Nat.lt_of_lt_of_le (counted.below r.id (same ▸ old)) (inside r member).1)
  · intro id member
    rw [List.filterMap_append, visits_ids] at member
    rcases List.mem_append.mp member with new | old
    · obtain ⟨r, here, rfl⟩ := List.mem_map.mp new
      exact (inside r here).2
    · exact Nat.lt_of_lt_of_le (counted.below id old) later
  · intro v member
    rcases List.mem_append.mp member with new | old
    · obtain ⟨u, here, same⟩ := List.mem_map.mp new
      exact Event.visited.inj same ▸ enclosed u here
    · exact counted.enclosed v old

theorem refused_sound (w : Watched) (distances : Distances) (ids : List Nat) (first next : Nat) (sound : w.Sound)
    (counted : w.Counted first) (later : first ≤ next) (spread : Spread first next ids)
    (unchanged : ∀ id, id ∉ ids → distances[id]? = w.machine.distances[id]?) :
    Watched.Sound { w with machine := { w.machine with distances } } ∧
      Watched.Counted next { w with machine := { w.machine with distances } } := by
  refine ⟨?_, ?_, counted.visited, ?_, counted.enclosed⟩
  · apply sound_distances w _ sound
    intro v r member reference
    apply unchanged
    intro inside
    exact Nat.lt_irrefl _ (Nat.lt_of_lt_of_le (counted.below _ (visited_id _ v r member reference))
      (spread.within _ inside).1)
  · intro id above
    show distances[id]? = none
    rw [unchanged id fun inside => Nat.lt_irrefl _ (Nat.lt_of_lt_of_le (spread.within id inside).2 above)]
    exact counted.fresh id (Nat.le_trans later above)
  · exact fun id member => Nat.lt_of_lt_of_le (counted.below id member) later

theorem resolve_ready (w : Watched) (program : Program) (first next : Nat) (sound : w.Sound)
    (counted : w.Counted first) (later : first ≤ next) (ids : Spread first next (Stmt.idsAll program))
    (proper : Stmt.ProperAll program) :
    Ends (Watch.resolve program) w
      (fun _ t => Ready next program t ∧ t.machine.env = w.machine.env)
      fun halt t => (t.Sound ∧ t.Counted next ∧ t.machine.env = w.machine.env) ∧ ¬ halt.MissesLayer := by
  have surveyed := settles_stmts program [] (fun _ member => nomatch member) proper
    ⟨.start w.machine.distances, [], []⟩ ⟨rfl, rfl⟩
  have checked := balances_stmts program ids.nodup (.start w.machine.distances)
    fun id member => counted.fresh id (ids.within id member).1
  have erased := erases_stmts program ⟨.start w.machine.distances, [], []⟩ (.start w.machine.distances) rfl
  have enclosed := encloses_stmts program ⟨.start w.machine.distances, [], []⟩
    ⟨fun inside => absurd inside Bool.false_ne_true, fun _ member => nomatch member⟩
  unfold Ends at *
  unfold Watch.resolve
  rcases agree_cases _ _ _ _ _ erased with ⟨_, _, s, t, left, right, _, same⟩ | ⟨e, _, s, t, left, right, _, same⟩
  · rw [left] at surveyed enclosed
    simp only [left]
    obtain ⟨visits, gathered, found, distances⟩ := surveyed.visits
    have all : s.visits = visits := by simpa using gathered
    subst all
    have inside : ∀ r ∈ s.visits.filterMap Visit.reference?, first ≤ r.id ∧ r.id < next := by
      intro r member
      apply ids.within
      apply (stmts_references_ids program).subset
      exact List.mem_map.mpr ⟨r, found.subset member, rfl⟩
    have nodup : ((s.visits.filterMap Visit.reference?).map Reference.id).Nodup :=
      (found.map Reference.id).nodup_iff.mpr (ids.nodup.sublist (stmts_references_ids program))
    have unseen : ∀ r ∈ s.visits.filterMap Visit.reference?,
        w.machine.distances[r.id]? = none ∧ r.id ∉ w.events.filterMap Event.visited? := fun r member =>
      ⟨counted.fresh r.id (inside r member).1,
        fun old => Nat.lt_irrefl _ (Nat.lt_of_lt_of_le (counted.below r.id old) (inside r member).1)⟩
    have kept : s.scoping.distances = s.visits.foldr Visit.keep w.machine.distances := distances
    rw [kept]
    refine ⟨⟨sound_visits w s.visits sound nodup unseen,
      counted_visits w s.visits first next counted later inside nodup enclosed.visits, ?_⟩, trivial⟩
    apply surveyed.settled
    intro v member
    exact List.mem_append_left _ (List.mem_map.mpr ⟨v, member, rfl⟩)
  · rw [right] at checked
    simp only [left]
    have kept : s.scoping.distances = t.distances := congrArg Scoping.distances same
    rw [kept]
    obtain ⟨held, fresh⟩ := refused_sound w t.distances _ first next sound counted later ids checked.others
    exact ⟨⟨held, fresh, trivial⟩, id⟩

theorem execute_program_keeps (steps : Nat) : ∀ (program : Program) (w : Watched) (frames : List Frame),
    w.Stands frames → Stmt.ProperAll program → Stmt.SettledAll (Visit.Known w.events) frames program →
    Keeps w.machine.store.layers.size w (Watch.executeProgram steps program) fun _ _ => True
  | [], _, _, _, _, _ => keeps_pure _ _ fun _ => trivial
  | s :: rest, w, frames, stands, proper, settled => by
      apply keeps_next (Nat.le_refl _) ((walk_keeps steps).execute w frames s stands proper.1 settled.1)
      rintro flow next reached _ ⟨_, standing⟩
      cases flow with
      | returned value => exact keeps_pure _ _ fun _ => trivial
      | normal =>
          exact execute_program_keeps steps rest next _ standing proper.2
            (stmts_settled_mono (fun _ visited => reaches_wider reached visited) rest _ settled.2)

theorem interpret_keeps (steps : Nat) (program : Program) (w : Watched) (globals : w.machine.env = Machine.globals)
    (proper : Stmt.ProperAll program) (settled : Stmt.SettledAll (Visit.Known w.events) [] program) :
    Keeps w.machine.store.layers.size w (Watch.interpret steps program) fun _ _ => True := by
  have stands : w.Stands [] := ⟨by rw [globals]; rfl, trivial, .top _⟩
  apply keeps_bind (execute_program_keeps steps program w [] stands proper settled)
  exact fun _ next _ _ _ => keeps_weaken (keeps_quiet quiet_flush) fun _ _ _ _ _ => trivial

structure Chronicle.Sound (c : Chronicle) : Prop where
  record : Watched.Sound ⟨c.session.machine, c.events⟩
  counted : Watched.Counted c.session.nextId ⟨c.session.machine, c.events⟩
  globals : c.session.machine.env = Machine.globals

theorem counted_reaches (bound nextId : Nat) (w next : Watched) (counted : w.Counted nextId)
    (reached : w.Reaches bound next) : next.Counted nextId := by
  obtain ⟨newer, same, silent⟩ := reached.events
  have ids : next.events.filterMap Event.visited? = w.events.filterMap Event.visited? := by
    rw [same, List.filterMap_append, silent, List.nil_append]
  refine ⟨reached.distances ▸ counted.fresh, ids ▸ counted.visited, ids ▸ counted.below, ?_⟩
  -- A visit of `this` would show among the references.
  rintro v member mark name this
  rcases List.mem_append.mp (same ▸ member) with new | old
  · have shown : mark.id ∈ newer.filterMap Event.visited? :=
      visited_id newer v ⟨name.text, mark.id⟩ new (by rw [this]; rfl)
    rw [silent] at shown
    cases shown
  · exact counted.enclosed v old mark name this

theorem parse_ends (source : String) (s : Session) : Ends (Session.parse source) s
    (fun program t => s.nextId ≤ t.nextId ∧ t.machine = s.machine ∧
      Spread s.nextId t.nextId (Stmt.idsAll program) ∧ Stmt.ProperAll program)
    fun halt t => t = s ∧ ¬ halt.MissesLayer := by
  unfold Session.parse
  cases read : tokenize source with
  | error e => exact ⟨rfl, id⟩
  | ok tokens =>
      apply ends_get
      cases parsed : TreeWalk.parse s.nextId tokens with
      | error e => exact ⟨rfl, id⟩
      | ok result =>
          have built := parse_built s.nextId result.2 tokens result.1 (tokenize_proper source tokens read) parsed
          exact ⟨built.1, rfl, built.2.1, built.2.2⟩

theorem on_machine_ends {α : Type} (watch : Watch α) (c : Chronicle) (done : α → Watched → Prop)
    (stopped : Halt → Watched → Prop) (ended : Ends watch ⟨c.session.machine, c.events⟩ done stopped) :
    Ends (Chronicle.onMachine watch) c
      (fun a d => done a ⟨d.session.machine, d.events⟩ ∧ d.session.nextId = c.session.nextId)
      fun halt d => stopped halt ⟨d.session.machine, d.events⟩ ∧ d.session.nextId = c.session.nextId := by
  unfold Ends Chronicle.onMachine at *
  cases run : watch ⟨c.session.machine, c.events⟩ with
  | ok a w => rw [run] at ended; exact ⟨ended, rfl⟩
  | error halt w => rw [run] at ended; exact ⟨ended, rfl⟩

theorem on_session_ends {α : Type} (act : SessionM α) (c : Chronicle) (done : α → Session → Prop)
    (stopped : Halt → Session → Prop) (ended : Ends act c.session done stopped) :
    Ends (Chronicle.onSession act) c (fun a d => done a d.session ∧ d.events = c.events)
      fun halt d => stopped halt d.session ∧ d.events = c.events := by
  unfold Ends Chronicle.onSession at *
  cases run : act c.session with
  | ok a s => rw [run] at ended; exact ⟨ended, rfl⟩
  | error halt s => rw [run] at ended; exact ⟨ended, rfl⟩

-- Between two runs nothing is open.
structure Resting (nextId : Nat) (w : Watched) : Prop where
  sound : w.Sound
  counted : w.Counted nextId
  globals : w.machine.env = Machine.globals

theorem checked_run_ends (steps : Nat) (program : Program) (first next : Nat) (w : Watched) (resting : Resting first w)
    (later : first ≤ next) (ids : Spread first next (Stmt.idsAll program)) (proper : Stmt.ProperAll program) :
    Ends (do Watch.resolve program; Watch.interpret steps program) w (fun _ t => Resting next t)
      fun halt t => Resting next t ∧ ¬ halt.MissesLayer := by
  have ready := resolve_ready w program first next resting.sound resting.counted later ids proper
  apply ends_bind _ _ w (fun _ t => Ready next program t ∧ t.machine.env = w.machine.env)
  · apply ends_mono _ _ _ _ _ _ ready (fun _ _ accepted => accepted)
    exact fun halt t ⟨⟨held, counted, env⟩, other⟩ => ⟨⟨held, counted, env.trans resting.globals⟩, other⟩
  · intro _ t ⟨accepted, env⟩
    have here := env.trans resting.globals
    apply ends_mono _ _ _ _ _ _ (interpret_keeps steps program t here proper accepted.settled accepted.sound)
    · exact fun _ u ⟨reached, held, _⟩ =>
        ⟨held, counted_reaches _ _ t u accepted.counted reached, reached.env.trans here⟩
    · exact fun halt u ⟨reached, held, other⟩ =>
        ⟨⟨held, counted_reaches _ _ t u accepted.counted reached, reached.env.trans here⟩, other⟩

theorem run_sound (steps : Nat) (source : String) (c : Chronicle) (sound : c.Sound) :
    Ends (Chronicle.run steps source) c (fun _ d => d.Sound) fun halt d => d.Sound ∧ ¬ halt.MissesLayer := by
  apply ends_bind _ _ c (fun program d => (c.session.nextId ≤ d.session.nextId ∧ d.session.machine = c.session.machine ∧
    Spread c.session.nextId d.session.nextId (Stmt.idsAll program) ∧ Stmt.ProperAll program) ∧ d.events = c.events)
  · apply ends_mono _ _ _ _ _ _ (on_session_ends _ c _ _ (parse_ends source c.session)) (fun _ _ parsed => parsed)
    rintro halt d ⟨⟨session, other⟩, events⟩
    refine ⟨?_, other⟩
    cases d
    cases session
    cases events
    exact sound
  · rintro program d ⟨⟨later, machine, ids, proper⟩, events⟩
    have resting : Resting c.session.nextId ⟨d.session.machine, d.events⟩ := by
      rw [machine, events]
      exact ⟨sound.record, sound.counted, sound.globals⟩
    have ended := on_machine_ends _ d _ _ (checked_run_ends steps program _ _ _ resting later ids proper)
    apply ends_mono _ _ _ _ _ _ ended
    · exact fun _ e ⟨run, same⟩ => ⟨run.sound, same ▸ run.counted, run.globals⟩
    · exact fun halt e ⟨⟨run, other⟩, same⟩ => ⟨⟨run.sound, same ▸ run.counted, run.globals⟩, other⟩

theorem watched_start (source : Source) (sink : Sink) : Watched.Sound ⟨.start source sink, []⟩ := by
  constructor
  case values =>
    intro layer name value found
    have natives : ∀ value, Store.natives.find? name = some value → value.Known [] := by
      intro value here
      obtain ⟨native, _, same⟩ := List.mem_map.mp (Bindings.find_of_list _ name value here)
      cases same
      trivial
    by_cases ground : layer = 0
    · subst ground
      exact natives value found
    · have outside := Store.layer_outside (Machine.start source sink).store layer (Nat.one_le_iff_ne_zero.mpr ground)
      rw [outside] at found
      cases found
  case fields =>
    intro object name value found
    simp [Machine.start, Store.fields, Store.empty, Bindings.find?, Bindings.empty] at found
  case ground => exact Nat.one_pos
  case origins => exact List.nodup_nil
  case below => simp
  case named => simp
  case emptied => simp
  case receivers => simp
  case created => exact List.nodup_nil
  case creations => simp
  case entered => simp
  case distances => simp
  case told => trivial

theorem reachable_sound (c : Chronicle) (reachable : c.Reachable) : c.Sound := by
  induction reachable with
  | start source sink =>
      refine ⟨watched_start source sink, ⟨fun id _ => ?_, List.nodup_nil, by simp, by simp⟩, rfl⟩
      simp [Session.start, Machine.start]
  | run c steps source before ih =>
      have ended := run_sound steps source c ih
      have sound : (endState (Chronicle.run steps source c)).Sound := by
        unfold Ends at ended
        cases run : Chronicle.run steps source c with
        | ok a d => rw [run] at ended; exact ended
        | error halt d => rw [run] at ended; exact ended.1
      rw [← end_shows]
      exact sound
  | parse c source before ih =>
      have ended := parse_ends source c.session
      unfold Ends at ended
      cases parsed : Session.parse source c.session with
      | error halt s =>
          rw [parsed] at ended
          rw [ended.1]
          exact ih
      | ok program s =>
          rw [parsed] at ended
          obtain ⟨later, machine, _, _⟩ := ended
          exact ⟨machine ▸ ih.record, counted_later _ _ _ (machine ▸ ih.counted) later, machine ▸ ih.globals⟩
  | streams c source sink before ih =>
      refine ⟨sound_machine _ _ ih.record rfl (Store.grows_refl _), ?_, ih.globals⟩
      exact ⟨ih.counted.fresh, ih.counted.visited, ih.counted.below, ih.counted.enclosed⟩

end TreeWalk
