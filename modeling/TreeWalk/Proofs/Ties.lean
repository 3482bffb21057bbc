import TreeWalk.Proofs.Ascents
import TreeWalk.Proofs.Contents

set_option autoImplicit false

namespace TreeWalk

open Watch

-- The layers made so far, which are numbered in order, and what each was made inside.
structure Linkage where
  made : Nat
  enclosing : Nat → Option Nat

namespace Linkage

def Ties (links : Linkage) (env : Env) : Prop :=
  env.HangsOff links.enclosing links.made

def Carries (links : Linkage) (closure : Closure) : Prop :=
  links.Ties closure.env

abbrev Holds (links : Linkage) (value : Value) : Prop :=
  value.Every links.Carries

abbrev Returns (links : Linkage) (flow : Flow) : Prop :=
  flow.Every links.Carries

structure Extends (links later : Linkage) : Prop where
  made : links.made ≤ later.made
  kept : ∀ layer < links.made, later.enclosing layer = links.enclosing layer

def push (links : Linkage) (outer : Nat) : Linkage :=
  ⟨links.made + 1, fun layer => if layer = links.made then some outer else links.enclosing layer⟩

end Linkage

structure Store.Hung (links : Linkage) (s : Store) : Prop where
  made : s.layers.size = links.made
  held : s.Every links.Carries

structure Machine.Hung (links : Linkage) (m : Machine) : Prop where
  store : m.store.Hung links
  env : links.Ties m.env

def Event.machine? : Event → Option Machine
  | entered _ machine | reached _ machine => some machine
  | _ => none

structure Machine.Hung.Before (links : Linkage) (m : Machine) : Prop where
  made : m.store.layers.size ≤ links.made
  hung : m.Hung ⟨m.store.layers.size, links.enclosing⟩

structure Watched.Hung (first : Nat) (links : Linkage) (w : Watched) : Prop where
  now : w.machine.Hung links
  since : first ≤ links.made
  before : ∀ event ∈ w.events, ∀ m, event.machine? = some m →
    first ≤ m.store.layers.size ∧ Machine.Hung.Before links m

def Hangs {ε σ α : Type} (hung : Linkage → σ → Prop) (links : Linkage) (p : EStateM ε σ α)
    (good : Linkage → α → Prop) : Prop :=
  ∀ s, hung links s →
    Ends p s (fun a t => ∃ later, links.Extends later ∧ hung later t ∧ good later a)
      fun _ t => ∃ later, links.Extends later ∧ hung later t

section Links

variable {links later last : Linkage} {env : Env}

theorem extends_self (links : Linkage) : links.Extends links :=
  ⟨Nat.le_refl _, fun _ _ => rfl⟩

theorem extends_trans (one : links.Extends later) (two : later.Extends last) : links.Extends last :=
  ⟨Nat.le_trans one.made two.made,
    fun layer inside => (two.kept layer (Nat.lt_of_lt_of_le inside one.made)).trans (one.kept layer inside)⟩

theorem extends_push (links : Linkage) (outer : Nat) : links.Extends (links.push outer) :=
  ⟨Nat.le_succ _, fun _ inside => if_neg (Nat.ne_of_lt inside)⟩

theorem ties_later (grown : links.Extends later) (tied : links.Ties env) : later.Ties env := by
  refine ⟨Nat.lt_of_lt_of_le tied.inside grown.made, climb_later (fun other below => ?_) tied.climb⟩
  exact grown.kept other (Nat.lt_of_le_of_lt below tied.inside)

theorem carries_later (grown : links.Extends later) (closure : Closure) (carried : links.Carries closure) :
    later.Carries closure :=
  ties_later grown carried

theorem value_later (grown : links.Extends later) {value : Value} (known : links.Holds value) :
    later.Holds value :=
  value_every_mono (carries_later grown) value known

theorem values_later (grown : links.Extends later) {values : List Value}
    (given : ∀ value ∈ values, links.Holds value) : ∀ value ∈ values, later.Holds value :=
  fun value member => value_later grown (given value member)

theorem ties_child (tied : links.Ties env) : (links.push env.inner).Ties (env.child links.made) := by
  refine ⟨Nat.lt_succ_self _, .outward _ env.inner _ (if_pos rfl) tied.inside ?_⟩
  exact (ties_later (extends_push links env.inner) tied).climb

theorem before_later {m : Machine} (grown : links.Extends later) (before : Machine.Hung.Before links m) :
    Machine.Hung.Before later m := by
  have same : Linkage.Extends ⟨m.store.layers.size, links.enclosing⟩ ⟨m.store.layers.size, later.enclosing⟩ :=
    ⟨Nat.le_refl _, fun layer inside => grown.kept layer (Nat.lt_of_lt_of_le inside before.made)⟩
  exact ⟨Nat.le_trans before.made grown.made, ⟨rfl, Store.every_mono (carries_later same) before.hung.store.held⟩,
    ties_later same before.hung.env⟩

theorem hung_before {m : Machine} (hung : m.Hung links) : Machine.Hung.Before links m := by
  obtain ⟨made, enclosing⟩ := links
  obtain rfl : m.store.layers.size = made := hung.store.made
  exact ⟨Nat.le_refl _, hung⟩

end Links

section Sequences

variable {ε σ α β : Type} {hung : Linkage → σ → Prop} {links : Linkage} {good : Linkage → α → Prop}
  {final : Linkage → β → Prop}

theorem hangs_pure (a : α) (here : good links a) : Hangs (ε := ε) hung links (pure a) good :=
  fun _ state => ⟨links, extends_self links, state, here⟩

theorem hangs_stop (e : ε) : Hangs hung links (throw e : EStateM ε σ α) good :=
  fun _ state => ⟨links, extends_self links, state⟩

theorem hangs_bind {p : EStateM ε σ α} {f : α → EStateM ε σ β} (first : Hangs hung links p good)
    (rest : ∀ later a, links.Extends later → good later a → Hangs hung later (f a) final) :
    Hangs hung links (p >>= f) final := by
  intro s state
  apply ends_bind p f s _ _ _ (first s state)
  rintro a t ⟨later, grown, state, here⟩
  apply ends_mono _ _ _ _ _ _ (rest later a grown here t state)
  · rintro b _ ⟨last, further, state, there⟩
    exact ⟨last, extends_trans grown further, state, there⟩
  · rintro _ _ ⟨last, further, state⟩
    exact ⟨last, extends_trans grown further, state⟩

theorem hangs_mono {p : EStateM ε σ α} {weak : Linkage → α → Prop} (hangs : Hangs hung links p good)
    (weaker : ∀ later a, links.Extends later → good later a → weak later a) : Hangs hung links p weak := by
  intro s state
  apply ends_mono _ _ _ _ _ _ (hangs s state) _ fun _ _ => id
  rintro a t ⟨later, grown, state, here⟩
  exact ⟨later, grown, state, weaker later a grown here⟩

end Sequences

section Stores

variable {links : Linkage} {s : Store}

theorem hung_write (id : Nat) (name : String) (value : Value) (hung : s.Hung links) (new : links.Holds value) :
    (s.write id name value).Hung links :=
  ⟨(Array.size_modify).trans hung.made, Store.every_write id name value hung.held new⟩

theorem hung_push (outer : Nat) (bindings : Bindings Value) (hung : s.Hung links)
    (new : ∀ name value, bindings.find? name = some value → links.Holds value) :
    Store.Hung (links.push outer) { s with layers := s.layers.push bindings } := by
  have every := Store.every_mono (carries_later (extends_push links outer)) (Store.every_push bindings hung.held new)
  exact ⟨(Array.size_push _).trans (congrArg Nat.succ hung.made), every⟩

theorem hangs_reads {act : StoreM Value} {name : String} {faults : RuntimeFault → Prop}
    (reads : Store.Reads act name faults) : Hangs Store.Hung links act Linkage.Holds := by
  intro s hung
  apply ends_mono _ _ _ _ _ _ (reads s)
  · rintro value _ ⟨rfl, layer, found⟩
    exact ⟨links, extends_self links, hung, hung.held.layers layer name value found⟩
  · rintro _ _ ⟨rfl, _⟩
    exact ⟨links, extends_self links, hung⟩

theorem hangs_writes {act : StoreM Unit} {name : String} {value : Value} {faults : RuntimeFault → Prop}
    (writes : Store.Writes act name value faults) (new : links.Holds value) :
    Hangs Store.Hung links act fun _ _ => True := by
  intro s hung
  apply ends_mono _ _ _ _ _ _ (writes s)
  · rintro _ _ ⟨layer, _, rfl⟩
    exact ⟨links, extends_self links, hung_write layer name value hung new, trivial⟩
  · rintro _ _ ⟨rfl, _⟩
    exact ⟨links, extends_self links, hung⟩

theorem hangs_bound (env : Env) (name : String) (value : Value) (new : links.Holds value) :
    Hangs Store.Hung links (Store.define env name value) fun _ _ => True := by
  intro s hung
  apply ends_mono _ _ _ _ _ _ (Store.define_ends env name value s)
  · rintro _ _ ⟨_, rfl⟩
    exact ⟨links, extends_self links, hung_write env.inner name value hung new, trivial⟩
  · rintro _ _ ⟨rfl, _⟩
    exact ⟨links, extends_self links, hung⟩

theorem hangs_nest (env : Env) (tied : links.Ties env) (bindings : Bindings Value)
    (new : ∀ name value, bindings.find? name = some value → links.Holds value) :
    Hangs Store.Hung links (Store.nest env bindings) Linkage.Ties := by
  intro s hung
  have child := ties_child tied
  rw [← hung.made] at child
  exact ⟨links.push env.inner, extends_push links env.inner, hung_push env.inner bindings hung new, child⟩

theorem hangs_identity : Hangs Store.Hung links Store.newIdentity fun _ _ => True :=
  fun _ hung => ⟨links, extends_self links, ⟨hung.made, Store.every_identity hung.held _⟩, trivial⟩

theorem hangs_instance (c : ClassValue) (known : c.Every links.Carries) :
    Hangs Store.Hung links (Store.newInstance c) fun later object => object.ofClass.Every later.Carries :=
  fun _ hung => ⟨links, extends_self links, ⟨hung.made, Store.every_instance hung.held⟩, known⟩

theorem hangs_field (object : Instance) (name : String) (value : Value) (new : links.Holds value) :
    Hangs Store.Hung links (Store.setField object name value) fun _ _ => True :=
  fun _ hung =>
    ⟨links, extends_self links, ⟨hung.made, Store.every_field object.identity name value hung.held new⟩, trivial⟩

theorem hangs_clear (env : Env) : Hangs Store.Hung links (Store.clear env) fun _ _ => True :=
  fun _ hung =>
    ⟨links, extends_self links, ⟨(Array.size_modify).trans hung.made, Store.every_clear env.inner hung.held⟩, trivial⟩

theorem hangs_receiver (method : Closure) (object : Instance) (known : links.Carries method)
    (methods : object.ofClass.Every links.Carries) :
    Hangs Store.Hung links (Store.bind method object) Linkage.Carries :=
  hangs_bind (hangs_nest method.env known _ (receiver_every object methods)) fun _ _ _ tied => hangs_pure _ tied

theorem hangs_property (object : Instance) (name : String) (methods : object.ofClass.Every links.Carries) :
    Hangs Store.Hung links (Store.property object name) Linkage.Holds := by
  intro s hung
  apply ends_mono _ _ _ _ _ _ (store_property_ends object name s)
  · rintro value _ (⟨rfl, found⟩ | ⟨method, found, rfl, rfl⟩)
    · exact ⟨links, extends_self links, hung, hung.held.fields _ _ value found⟩
    · have child := ties_child (methods name method found)
      rw [← hung.made] at child
      have named : Store.Hung links { s with nextIdentity := s.nextIdentity + 1 } :=
        ⟨hung.made, Store.every_identity hung.held _⟩
      have pushed : (s.received object).Hung (links.push method.env.inner) :=
        hung_push method.env.inner _ named (receiver_every object methods)
      exact ⟨links.push method.env.inner, extends_push links method.env.inner, pushed, child⟩
  · rintro _ _ ⟨rfl, _⟩
    exact ⟨links, extends_self links, hung⟩

end Stores

section Machines

variable {links : Linkage} {α : Type} {good : Linkage → α → Prop}

theorem hangs_store (line : Nat) {act : StoreM α} (hangs : Hangs Store.Hung links act good) :
    Hangs Machine.Hung links (Eval.onStore line act) good := by
  intro m hung
  apply ends_mono _ _ _ _ _ _ (ends_store line (hangs m.store hung.store))
  · rintro a _ ⟨s, rfl, later, grown, state, here⟩
    exact ⟨later, grown, ⟨state, ties_later grown hung.env⟩, here⟩
  · rintro _ _ ⟨fault, s, rfl, rfl, later, grown, state⟩
    exact ⟨later, grown, ⟨state, ties_later grown hung.env⟩⟩

theorem hangs_inert {p : Eval α} {result : α → Prop} (inert : Inert p result) :
    Hangs Machine.Hung links p fun _ a => result a := by
  have same : ∀ {m t : Machine}, m.Hung links → SameButStreams m t → t.Hung links :=
    fun hung same => ⟨same.store ▸ hung.store, same.env ▸ hung.env⟩
  intro m hung
  apply ends_mono _ _ _ _ _ _ (inert m)
  · exact fun a t ⟨streams, here⟩ => ⟨links, extends_self links, same hung streams, here⟩
  · exact fun halt t ⟨streams, _⟩ => ⟨links, extends_self links, same hung streams⟩

theorem hangs_fail (line : Nat) (fault : RuntimeFault) :
    Hangs Machine.Hung links (Eval.fail line fault : Eval α) good :=
  hangs_stop _

theorem hangs_define (name : Name) (value : Value) (new : links.Holds value) :
    Hangs Machine.Hung links (Eval.define name value) fun _ _ => True :=
  fun m => hangs_store name.line (hangs_bound m.env name.text value new) m

theorem hangs_child : Hangs Machine.Hung links Eval.childEnv Linkage.Ties :=
  fun m hung => hangs_store 0 (hangs_nest m.env hung.env .empty fun _ _ none => nomatch none) m hung

theorem hangs_read (id : Nat) (name : Name) :
    Hangs Machine.Hung links (Eval.readName id name) Linkage.Holds := by
  intro m hung
  obtain ⟨act, run, reads⟩ := read_name_acts id name m
  exact ends_congr run (hangs_store name.line (hangs_reads reads) m hung)

theorem hangs_write (id : Nat) (name : Name) (value : Value) (new : links.Holds value) :
    Hangs Machine.Hung links (Eval.writeName id name value) fun _ _ => True := by
  intro m hung
  obtain ⟨act, run, writes⟩ := write_name_acts id name m value
  exact ends_congr run (hangs_store name.line (hangs_writes writes new) m hung)

theorem hangs_answer (closure : Closure) (flow : Flow) (known : links.Returns flow) :
    Hangs Machine.Hung links (Eval.answer closure flow) Linkage.Holds := by
  unfold Eval.answer
  split
  · exact hangs_store _ (hangs_reads (Store.reads_get_at closure.env 0 "this"))
  · cases flow with
    | normal => exact hangs_pure _ trivial
    | returned value => exact hangs_pure _ known

theorem hangs_get (name : Name) (value : Value) (known : links.Holds value) :
    Hangs Machine.Hung links (Eval.property name value) Linkage.Holds := by
  cases value with
  | object object => exact hangs_store name.line (hangs_property object name.text known)
  | _ => exact hangs_fail _ _

theorem hangs_operated {p : Eval Value} (inert : Inert p Value.IsInert) :
    Hangs Machine.Hung links p Linkage.Holds :=
  hangs_mono (hangs_inert inert) fun _ value _ plain => every_inert value plain

end Machines

end TreeWalk
