import TreeWalk.Proofs.Chronicle
import TreeWalk.Proofs.Hanging

set_option autoImplicit false

namespace TreeWalk

-- What a machine can be asked for. Code may be run that was not checked before, or was refused.
inductive Errand where
  | resolve (program : Program)
  | interpret (steps : Nat) (program : Program)
  | execute (steps : Nat) (s : Stmt)
  | evaluate (steps : Nat) (e : Expr)

def Flow.value? : Flow → Option Value
  | .normal => none
  | .returned value => some value

namespace Errand

-- The answer is for the one who asked.
def run : Errand → Eval (Option Value)
  | resolve program => do
      Session.resolve program
      return none
  | interpret steps program => do
      Regime.standard.interpret steps program
      return none
  | execute steps s => do
      let flow ← Regime.standard.execute steps s
      return flow.value?
  | evaluate steps e => do
      let value ← Regime.standard.evaluate steps e
      return some value

def watch : Errand → Watch (Option Value)
  | resolve program => do
      Watch.act (Session.resolve program)
      return none
  | interpret steps program => do
      Watch.interpret steps program
      return none
  | execute steps s => do
      let flow ← Watch.execute steps s
      return flow.value?
  | evaluate steps e => do
      let value ← Watch.evaluate steps e
      return some value

end Errand

-- A machine, and the values that were had from it before.
structure Snapshot where
  machine : Machine
  held : List Value

namespace Snapshot

def after (s : Snapshot) (errand : Errand) : Snapshot :=
  match errand.run s.machine with
  | .ok answer machine => ⟨machine, answer.toList ++ s.held⟩
  | .error _ machine => ⟨machine, s.held⟩

-- While an errand is done: whenever a name is about to be looked up, and whenever a closure is called.
def during (s : Snapshot) (errand : Errand) : List Snapshot :=
  (endState (errand.watch ⟨s.machine, []⟩)).events.filterMap fun event =>
    event.machine?.map fun machine => ⟨machine, s.held⟩

-- Errands are done one after the other, however each of them ends. Everything before is kept.
inductive Reachable : Snapshot → List Snapshot → Prop where
  | start (source : Source) (sink : Sink) : Reachable ⟨.start source sink, []⟩ []
  | asked (errand : Errand) (now : Snapshot) (past : List Snapshot) (before : Reachable now past) :
      Reachable (now.after errand) (now.during errand ++ now :: past)

end Snapshot

-- What can be come to: a layer with those around it, a closure, a value.
inductive Item where
  | layer (env : Env)
  | closure (closure : Closure)
  | value (value : Value)

inductive Snapshot.Live (s : Snapshot) : Item → Prop where
  | current : Live s (.layer s.machine.env)
  | held (value : Value) (member : value ∈ s.held) : Live s (.value value)
  | outward (env : Env) (outer : Nat) (further : List Nat) (around : env.outer = outer :: further)
      (live : Live s (.layer env)) : Live s (.layer ⟨outer, further⟩)
  | bound (env : Env) (name : String) (value : Value)
      (found : (s.machine.store.layer env.inner).find? name = some value) (live : Live s (.layer env)) : Live s (.value value)
  | field (object : Instance) (name : String) (value : Value)
      (found : (s.machine.store.fields object.identity).find? name = some value)
      (live : Live s (.value (.object object))) : Live s (.value value)
  | function (identity : Nat) (closure : Closure) (live : Live s (.value (.function identity closure))) :
      Live s (.closure closure)
  | method (c : ClassValue) (name : String) (closure : Closure) (found : c.methods.find? name = some closure)
      (live : Live s (.value (.class c))) : Live s (.closure closure)
  | ofClass (object : Instance) (live : Live s (.value (.object object))) : Live s (.value (.class object.ofClass))
  | closed (closure : Closure) (live : Live s (.closure closure)) : Live s (.layer closure.env)

def Item.Hangs (links : Linkage) : Item → Prop
  | .layer around => links.Ties around
  | .closure made => links.Carries made
  | .value known => links.Holds known

structure Snapshot.Hung (links : Linkage) (s : Snapshot) : Prop where
  machine : s.machine.Hung links
  held : ∀ value ∈ s.held, links.Holds value

-- The links of an earlier state are those that its layers have now.
structure Snapshot.Hung.Before (links : Linkage) (s : Snapshot) : Prop where
  made : s.machine.store.layers.size ≤ links.made
  hung : s.Hung ⟨s.machine.store.layers.size, links.enclosing⟩

section Live

variable {links later : Linkage} {s : Snapshot}

theorem live_hangs {item : Item} (hung : s.Hung links) (live : s.Live item) : item.Hangs links := by
  induction live with
  | current => exact hung.machine.env
  | held value member => exact hung.held value member
  | outward env outer further around live ih =>
      obtain ⟨inner, _⟩ := env
      cases around
      have earlier : outer < inner := climb_earlier ih.climb outer (climb_link ih.climb)
      exact ⟨Nat.lt_trans earlier ih.inside, climb_further ih.climb⟩
  | bound env name value found live ih => exact hung.machine.store.held.layers env.inner name value found
  | field object name value found live ih => exact hung.machine.store.held.fields object.identity name value found
  | function identity closure live ih => exact ih
  | method c name closure found live ih => exact ih name closure found
  | ofClass object live ih => exact ih
  | closed closure live ih => exact ih

theorem snapshot_later (grown : links.Extends later) (before : Snapshot.Hung.Before links s) :
    Snapshot.Hung.Before later s := by
  have same : Linkage.Extends ⟨s.machine.store.layers.size, links.enclosing⟩
      ⟨s.machine.store.layers.size, later.enclosing⟩ :=
    ⟨Nat.le_refl _, fun layer inside => grown.kept layer (Nat.lt_of_lt_of_le inside before.made)⟩
  have machine := before_later grown ⟨before.made, before.hung.machine⟩
  exact ⟨machine.made, machine.hung, values_later same before.hung.held⟩

theorem snapshot_before (hung : s.Hung links) : Snapshot.Hung.Before links s := by
  obtain ⟨made, enclosing⟩ := links
  obtain rfl : s.machine.store.layers.size = made := hung.machine.store.made
  exact ⟨Nat.le_refl _, hung⟩

end Live

section Errands

variable {links : Linkage}

theorem mirrors_errand (errand : Errand) : Mirrors errand.watch errand.run := by
  cases errand with
  | resolve program => exact mirrors_bind (mirrors_act _) fun _ => mirrors_pure _
  | interpret steps program => exact mirrors_bind (mirrors_interpret steps program) fun _ => mirrors_pure _
  | execute steps s => exact mirrors_bind ((walk_mirrors steps).execute s) fun _ => mirrors_pure _
  | evaluate steps e => exact mirrors_bind ((walk_mirrors steps).evaluate e) fun _ => mirrors_pure _

theorem hangs_resolve (program : Program) : Hangs Machine.Hung links (Session.resolve program) fun _ _ => True := by
  intro m hung
  unfold Ends Session.resolve
  rcases program.resolve m.distances with ⟨_ | _, distances⟩
  · exact ⟨links, extends_self links, hung.store, hung.env⟩
  · exact ⟨links, extends_self links, ⟨hung.store, hung.env⟩, trivial⟩

theorem hangs_errand (first : Nat) (errand : Errand) : Hangs (Watched.Hung first) links errand.watch
    fun later answer => ∀ value ∈ answer, later.Holds value := by
  cases errand with
  | resolve program => exact hangs_bind (hangs_act (hangs_resolve program)) fun _ _ _ _ => hangs_pure _ nofun
  | interpret steps program => exact hangs_bind (hangs_interpret steps program links) fun _ _ _ _ => hangs_pure _ nofun
  | execute steps s =>
      apply hangs_bind ((walk_hangs first steps).execute links s)
      intro later flow _ known
      cases flow with
      | normal => exact hangs_pure _ nofun
      | returned value =>
          apply hangs_pure
          rintro _ ⟨⟩
          exact known
  | evaluate steps e =>
      apply hangs_bind ((walk_hangs first steps).evaluate links e)
      intro later value _ known
      apply hangs_pure
      rintro _ ⟨⟩
      exact known

theorem asked_hung {now : Snapshot} (hung : now.Hung links) (errand : Errand) :
    ∃ later, links.Extends later ∧ (now.after errand).Hung later ∧
      ∀ s ∈ now.during errand, Snapshot.Hung.Before later s := by
  have ended := hangs_errand links.made errand ⟨now.machine, []⟩ ⟨hung.machine, Nat.le_refl _, nofun⟩
  have remembered : ∀ {later : Linkage} {w : Watched}, links.Extends later → w.Hung links.made later →
      ∀ s ∈ w.events.filterMap (fun event => event.machine?.map fun machine => Snapshot.mk machine now.held),
        Snapshot.Hung.Before later s := by
    intro later w grown state s member
    obtain ⟨event, kept, found⟩ := List.mem_filterMap.mp member
    obtain ⟨machine, of, rfl⟩ := Option.map_eq_some_iff.mp found
    obtain ⟨since, before⟩ := state.before event kept machine of
    have fewer : links.Extends ⟨machine.store.layers.size, later.enclosing⟩ := ⟨since, grown.kept⟩
    exact ⟨before.made, before.hung, values_later fewer hung.held⟩
  unfold Ends at ended
  unfold Snapshot.after Snapshot.during
  rcases agree_cases _ _ _ _ _ (mirrors_errand errand ⟨now.machine, []⟩ now.machine rfl) with
    ⟨answer, _, w, m, left, right, rfl, same⟩ | ⟨halt, _, w, m, left, right, rfl, same⟩
  · rw [left] at ended ⊢
    obtain ⟨later, grown, state, known⟩ := ended
    subst same
    rw [right]
    refine ⟨later, grown, ⟨state.now, fun value member => ?_⟩, remembered grown state⟩
    rcases List.mem_append.mp member with answered | before
    · exact known value (by simpa using answered)
    · exact value_later grown (hung.held value before)
  · rw [left] at ended ⊢
    obtain ⟨later, grown, state⟩ := ended
    subst same
    rw [right]
    exact ⟨later, grown, ⟨state.now, values_later grown hung.held⟩, remembered grown state⟩

end Errands

section Reachable

theorem start_hung (source : Source) (sink : Sink) :
    Snapshot.Hung ⟨1, fun _ => none⟩ ⟨.start source sink, []⟩ := by
  have globals : Linkage.Ties ⟨1, fun _ => none⟩ Machine.globals := ⟨Nat.one_pos, .globals rfl⟩
  exact ⟨⟨⟨rfl, start_every _ source sink⟩, globals⟩, nofun⟩

theorem reachable_hung {now : Snapshot} {past : List Snapshot} (reachable : now.Reachable past) :
    ∃ links, now.Hung links ∧ ∀ s ∈ past, Snapshot.Hung.Before links s := by
  induction reachable with
  | start source sink => exact ⟨_, start_hung source sink, nofun⟩
  | asked errand now past before ih =>
      obtain ⟨links, hung, earlier⟩ := ih
      obtain ⟨later, grown, after, during⟩ := asked_hung hung errand
      refine ⟨later, after, fun s member => ?_⟩
      rcases List.mem_append.mp member with meanwhile | older
      · exact during s meanwhile
      · rcases List.mem_cons.mp older with rfl | oldest
        · exact snapshot_later grown (snapshot_before hung)
        · exact snapshot_later grown (earlier s oldest)

end Reachable

-- The links are the same in every state, so that no layer is ever moved. What the walk does on names
-- goes along them.
theorem layers_hang_off_globals (now : Snapshot) (past : List Snapshot) (reachable : now.Reachable past) :
    ∃ enclosing : Nat → Option Nat, ∀ s ∈ now :: past, ∀ env, s.Live (.layer env) →
      env.inner < s.machine.store.layers.size ∧
      enclosing env.inner = env.outer.head? ∧
      (∀ outer, enclosing env.inner = some outer → outer < env.inner) ∧
      (enclosing env.inner = none ↔ env = Machine.globals) ∧
      Climb enclosing env.inner env.chain ∧
      s.machine.store.Follows enclosing env := by
  obtain ⟨links, hung, earlier⟩ := reachable_hung reachable
  refine ⟨links.enclosing, fun s member env live => ?_⟩
  have before : Snapshot.Hung.Before links s := by
    rcases List.mem_cons.mp member with rfl | older
    · exact snapshot_before hung
    · exact earlier s older
  obtain ⟨inside, climb⟩ := live_hangs before.hung live
  refine ⟨inside, climb_link climb, climb_earlier climb, (climb_top climb).trans ⟨fun ground => ?_, ?_⟩, climb,
    Store.climb_follows climb⟩
  · obtain ⟨inner, outer⟩ := env
    cases ground
    cases climb with
    | globals _ => rfl
    | outward _ outer _ _ earlier _ => exact (Nat.not_lt_zero outer earlier).elim
  · rintro rfl
    rfl

-- A name that is looked up inside a block, and found nowhere.
def Errand.looking : Errand :=
  .execute 5 (.block [.expression (.ident ⟨0, 1⟩ ⟨"absent", 1⟩)])

theorem layers_hang_off_globals_looking : ∃ (now s : Snapshot) (past : List Snapshot) (enclosing : Nat → Option Nat),
    now.Reachable past ∧ s ∈ past ∧ s.machine.env = ⟨1, [0]⟩ ∧ s.Live (.layer ⟨1, [0]⟩) ∧
    1 < s.machine.store.layers.size ∧ enclosing 1 = some 0 ∧ Climb enclosing 1 [1, 0] ∧
    s.machine.store.Follows enclosing ⟨1, [0]⟩ := by
  let first : Snapshot := ⟨.start ⟨[]⟩ .unlimited, []⟩
  have reachable := Snapshot.Reachable.asked .looking first [] (.start ⟨[]⟩ .unlimited)
  have looked : (first.during .looking).map (fun s => s.machine.env) = [⟨1, [0]⟩] := by decide +kernel
  obtain ⟨s, member, inside⟩ : ∃ s ∈ first.during .looking, s.machine.env = ⟨1, [0]⟩ :=
    List.mem_map.mp (looked ▸ List.mem_singleton_self _)
  have live : s.Live (.layer ⟨1, [0]⟩) := inside ▸ .current
  obtain ⟨enclosing, hangs⟩ := layers_hang_off_globals _ _ reachable
  obtain ⟨made, link, _, _, climb, follows⟩ :=
    hangs s (List.mem_cons_of_mem _ (List.mem_append_left _ member)) ⟨1, [0]⟩ live
  exact ⟨_, s, _, enclosing, reachable, List.mem_append_left _ member, inside, live, made, link, climb, follows⟩

end TreeWalk
