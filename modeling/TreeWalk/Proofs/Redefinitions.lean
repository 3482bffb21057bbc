import TreeWalk.Proofs.Contents
import TreeWalk.Proofs.Distinct
import TreeWalk.Proofs.Growth

set_option autoImplicit false

namespace TreeWalk

open Eval

def Closure.Distinct (closure : Closure) : Prop :=
  closure.routine.Distinct

-- The layer binds no other names.
def Store.Within (s : Store) (layer : Nat) (names : List String) : Prop :=
  ∀ name, (s.layer layer).contains name = true → name ∈ names

-- The statement, run in this state, comes to bind the name that it declares, in a layer that binds
-- the name already.
def Stmt.Collides (steps : Nat) (m : Machine) (name : Name) : Stmt → Prop
  | .var own none => own = name ∧ (m.store.layer m.env.inner).contains name.text = true
  | .var own (some e) => own = name ∧ ∃ value next, Regime.standard.evaluate steps e m = .ok value next ∧
      (next.store.layer m.env.inner).contains name.text = true
  | .function routine => routine.name = name ∧ (m.store.layer m.env.inner).contains name.text = true
  | .class own _ => own = name ∧ (m.store.layer m.env.inner).contains name.text = true
  | _ => False

theorem collides_own (steps : Nat) (m : Machine) (name : Name) (s : Stmt) (inside : m.env.inner < m.store.layers.size)
    (collides : s.Collides steps m name) :
    name.text ∈ s.own ∧ (m.store.layer m.env.inner).contains name.text = true := by
  cases s with
  | var own value =>
      cases value with
      | none =>
          obtain ⟨rfl, bound⟩ := collides
          exact ⟨List.mem_cons_self, bound⟩
      | some e =>
          obtain ⟨rfl, value, next, evaluated, bound⟩ := collides
          have gains := ((walk_widens steps).evaluate e m).2
          rw [evaluated] at gains
          rcases gains.gained m.env.inner own.text inside bound with before | ⟨_, none⟩
          · exact ⟨List.mem_cons_self, before⟩
          · cases none
  | function routine =>
      obtain ⟨rfl, bound⟩ := collides
      exact ⟨List.mem_cons_self, bound⟩
  | «class» own methods =>
      obtain ⟨rfl, bound⟩ := collides
      exact ⟨List.mem_cons_self, bound⟩
  | _ => exact collides.elim

def redefinition (name : Name) : Halt :=
  .failed (.runtime ⟨name.line, .redefined name.text⟩)

theorem define_bound (name : Name) (value : Value) (m : Machine)
    (bound : (m.store.layer m.env.inner).contains name.text = true) :
    define name value m = .error (redefinition name) m := by
  show onStore name.line (Store.define m.env name.text value) m = _
  simp only [onStore, Store.define, bound, if_true, redefinition]

theorem collides_stops (steps : Nat) (m : Machine) (name : Name) (s : Stmt) (collides : s.Collides steps m name) :
    ∃ n, Regime.standard.execute (steps + 1) s m = .error (redefinition name) n := by
  cases s with
  | var own value =>
      cases value with
      | none =>
          obtain ⟨rfl, bound⟩ := collides
          exact ⟨m, bind_error _ (define_bound own .none m bound)⟩
      | some e =>
          obtain ⟨rfl, value, next, evaluated, bound⟩ := collides
          have env := ((walk_widens steps).evaluate e m).1
          rw [evaluated] at env
          have back : next.env = m.env := env
          rw [← back] at bound
          exact ⟨next, (bind_ok _ evaluated).trans (bind_error _ (define_bound own value next bound))⟩
  | function routine =>
      obtain ⟨rfl, bound⟩ := collides
      let numbered : Machine := { m with store := { m.store with nextIdentity := m.store.nextIdentity + 1 } }
      have defined : defineFunction routine m = .error (redefinition routine.name) numbered :=
        define_bound routine.name (.function m.store.nextIdentity ⟨routine, m.env, false⟩) numbered bound
      exact ⟨numbered, bind_error _ defined⟩
  | «class» own methods =>
      obtain ⟨rfl, bound⟩ := collides
      have defined : defineClass own methods m = .error (redefinition own) m :=
        bind_error _ (define_bound own .none m bound)
      exact ⟨m, bind_error _ defined⟩
  | _ => exact collides.elim

section Steps

variable {α β : Type}

-- From here, where all that can be called is distinct, a name is bound twice only if it is to blame.
def Guarded (m : Machine) (p : Eval α) (good : α → Machine → Prop) (blame : Name → Prop) : Prop :=
  m.store.Every Closure.Distinct → Ends p m (fun a t => t.store.Every Closure.Distinct ∧ good a t)
    fun halt t => t.store.Every Closure.Distinct ∧ ∀ name, halt = redefinition name → blame name

abbrev Nobody : Name → Prop :=
  fun _ => False

variable {m : Machine} {blame : Name → Prop}

theorem guarded_pure (a : α) (good : α → Machine → Prop) (here : good a m) : Guarded m (pure a) good blame :=
  fun every => ends_pure _ _ _ _ ⟨every, here⟩

theorem guarded_exhausted (good : α → Machine → Prop) : Guarded m (throw .exhausted : Eval α) good blame :=
  fun every => ⟨every, fun _ same => nomatch same⟩

theorem guarded_fail (line : Nat) (fault : RuntimeFault) (good : α → Machine → Prop) (other : fault.isOfNames = false) :
    Guarded m (fail line fault : Eval α) good blame := by
  refine fun every => ⟨every, fun name same => ?_⟩
  cases same
  cases other

theorem guarded_bind {p : Eval α} {f : α → Eval β} {mid : α → Machine → Prop} {good : β → Machine → Prop}
    (first : Guarded m p mid blame) (rest : ∀ a t, p m = .ok a t → mid a t → Guarded t (f a) good blame) :
    Guarded m (p >>= f) good blame := by
  intro every
  have begun := first every
  unfold Ends at begun ⊢
  cases run : p m with
  | ok a t =>
      rw [run] at begun
      rw [bind_ok f run]
      exact rest a t run begun.2 begun.1
  | error halt t =>
      rw [run] at begun
      rw [bind_error f run]
      exact begun

theorem guarded_weaken {p : Eval α} {strong weak : α → Machine → Prop} {fewer more : Name → Prop}
    (guarded : Guarded m p strong fewer) (weaker : ∀ a t, strong a t → weak a t) (wider : ∀ name, fewer name → more name) :
    Guarded m p weak more :=
  fun every => ends_mono _ _ _ _ _ _ (guarded every) (fun a t ⟨kept, final⟩ => ⟨kept, weaker a t final⟩)
    fun _ _ ⟨kept, blamed⟩ => ⟨kept, fun name same => wider name (blamed name same)⟩

theorem guarded_inert {p : Eval α} {good : α → Prop} (inert : Inert p good) :
    Guarded m p (fun a t => SameButStreams m t ∧ good a) blame := by
  intro every
  apply ends_mono _ _ _ _ _ _ (inert m)
  · exact fun a t ⟨same, final⟩ => ⟨same.store ▸ every, same, final⟩
  · rintro halt t ⟨same, nameless⟩
    refine ⟨same.store ▸ every, ?_⟩
    rintro name rfl
    cases nameless

theorem guarded_within (env : Env) {p : Eval α} {good : α → Prop}
    (inner : Guarded { m with env } p (fun a _ => good a) blame) :
    Guarded m (within env p) (fun a _ => good a) blame :=
  fun every => ends_within env (inner every)

theorem guarded_store (line : Nat) {act : StoreM α} {good : α → Prop}
    (done : m.store.Every Closure.Distinct → Ends act m.store (fun a s => s.Every Closure.Distinct ∧ good a)
      fun fault s => s.Every Closure.Distinct ∧ ∀ name, fault ≠ .redefined name) :
    Guarded m (onStore line act) (fun a _ => good a) blame := by
  intro every
  apply ends_mono _ _ _ _ _ _ (ends_store line (done every))
  · rintro a _ ⟨s, rfl, ended⟩
    exact ended
  · rintro _ _ ⟨fault, s, rfl, rfl, kept, other⟩
    refine ⟨kept, fun name same => ?_⟩
    cases same
    exact absurd rfl (other name.text)

theorem guarded_reads (line : Nat) {act : StoreM Value} {name : String} {faults : RuntimeFault → Prop}
    (reads : Store.Reads act name faults) (other : ∀ fault, faults fault → ∀ name, fault ≠ .redefined name) :
    Guarded m (onStore line act) (fun value _ => value.Every Closure.Distinct) blame := by
  apply guarded_store
  intro every
  apply ends_mono _ _ _ _ _ _ (reads m.store)
  · rintro value _ ⟨rfl, layer, found⟩
    exact ⟨every, every.layers layer name value found⟩
  · rintro fault _ ⟨rfl, faulty⟩
    exact ⟨every, other fault faulty⟩

theorem guarded_writes (line : Nat) {act : StoreM Unit} {name : String} {value : Value} {faults : RuntimeFault → Prop}
    (writes : Store.Writes act name value faults) (other : ∀ fault, faults fault → ∀ name, fault ≠ .redefined name)
    (new : value.Every Closure.Distinct) : Guarded m (onStore line act) (fun _ _ => True) blame := by
  apply guarded_store
  intro every
  apply ends_mono _ _ _ _ _ _ (writes m.store)
  · rintro _ _ ⟨layer, _, rfl⟩
    exact ⟨Store.every_write layer name value every new, trivial⟩
  · rintro fault _ ⟨rfl, faulty⟩
    exact ⟨every, other fault faulty⟩

theorem guarded_bound (env : Env) (name : Name) (value : Value) (new : value.Every Closure.Distinct) :
    Guarded m (onStore name.line (Store.define env name.text value))
      (fun _ t => ∀ names, m.store.Within env.inner names → t.store.Within env.inner (name.text :: names))
      fun other => name = other ∧ (m.store.layer env.inner).contains other.text = true := by
  intro every
  apply ends_mono _ _ _ _ _ _ (ends_store name.line (Store.define_ends env name.text value m.store))
  · rintro _ _ ⟨_, rfl, _, rfl⟩
    refine ⟨Store.every_write env.inner name.text value every new, fun names inside other found => ?_⟩
    by_cases same : other = name.text
    · exact same ▸ List.mem_cons_self
    · unfold Bindings.contains at found
      rw [Store.find_write_kept m.store env.inner env.inner name.text other value same] at found
      exact List.mem_cons_of_mem _ (inside other found)
  · rintro _ _ ⟨_, _, rfl, rfl, rfl, rfl, known⟩
    refine ⟨every, fun other same => ?_⟩
    obtain ⟨line, text⟩ : name.line = other.line ∧ name.text = other.text := by
      simpa [redefinition] using same
    have here : name = other := by
      cases name
      cases other
      cases line
      cases text
      rfl
    exact ⟨here, here ▸ known⟩

theorem guarded_define (name : Name) (value : Value) (new : value.Every Closure.Distinct) :
    Guarded m (define name value) (fun _ _ => True)
      fun other => name = other ∧ (m.store.layer m.env.inner).contains other.text = true :=
  guarded_weaken (guarded_bound m.env name value new) (fun _ _ _ => trivial) fun _ => id

theorem guarded_parameters (env : Env) : ∀ (names : List Name) (values : List Value) (m : Machine) (taken : List String),
    (names.map Name.text).Nodup → (∀ name ∈ names, name.text ∉ taken) → m.store.Within env.inner taken →
    (∀ value ∈ values, value.Every Closure.Distinct) →
    Guarded m (defineAll env names values) (fun _ t => t.store.Within env.inner (names.map Name.text ++ taken)) Nobody
  | [], _, m, taken, _, _, within, _ => guarded_pure _ _ within
  | _ :: _, [], m, taken, _, _, within, _ =>
      guarded_pure _ _ fun name bound => List.mem_append_right _ (within name bound)
  | name :: names, value :: values, m, taken, nodup, free, within, given => by
      obtain ⟨apart, distinct⟩ := List.nodup_cons.mp nodup
      have bound := guarded_bound (m := m) env name value (given value List.mem_cons_self)
      refine guarded_bind (guarded_weaken bound (fun _ _ => id) fun other ⟨same, taken⟩ =>
        free name List.mem_cons_self (within name.text (same ▸ taken))) ?_
      intro _ t _ held
      have later := guarded_parameters env names values t (name.text :: taken) distinct ?_ (held taken within)
        fun value member => given value (List.mem_cons_of_mem _ member)
      · apply guarded_weaken later _ fun _ => id
        intro _ u inside other found
        rcases List.mem_append.mp (inside other found) with here | there
        · exact List.mem_append_left _ (List.mem_cons_of_mem _ here)
        · rcases List.mem_cons.mp there with rfl | before
          · exact List.mem_append_left _ List.mem_cons_self
          · exact List.mem_append_right _ before
      · intro other member same
        rcases List.mem_cons.mp same with here | before
        · exact apart (List.mem_map.mpr ⟨other, member, here⟩)
        · exact free other (List.mem_cons_of_mem _ member) before

-- A machine with an empty layer more.
def Machine.nested (m : Machine) : Machine :=
  { m with store := { m.store with layers := m.store.layers.push .empty } }

theorem nested_size (m : Machine) : m.store.layers.size < m.nested.store.layers.size := by
  simp [Machine.nested]

theorem nested_within (m : Machine) : m.nested.store.Within m.store.layers.size [] := by
  intro name bound
  have empty : m.nested.store.layer m.store.layers.size = .empty := Store.layer_push_new m.store .empty
  rw [empty] at bound
  cases bound

theorem guarded_nested (outer : Env) {f : Env → Eval β} {good : β → Machine → Prop}
    (inside : Guarded m.nested (f (outer.child m.store.layers.size)) good blame) :
    Guarded m (onStore 0 (Store.nest outer .empty) >>= f) good blame :=
  fun every => inside (Store.every_push .empty every fun _ _ none => nomatch none)

theorem guarded_child {f : Env → Eval β} {good : β → Machine → Prop}
    (inside : Guarded m.nested (f (m.env.child m.store.layers.size)) good blame) :
    Guarded m (childEnv >>= f) good blame :=
  fun every => guarded_nested m.env inside every

theorem guarded_env {f : Env → Eval β} {good : β → Machine → Prop} (rest : Guarded m (f m.env) good blame) :
    Guarded m (currentEnv >>= f) good blame :=
  rest

theorem guarded_read (id : Nat) (name : Name) :
    Guarded m (readName id name) (fun value _ => value.Every Closure.Distinct) blame := by
  obtain ⟨act, run, reads⟩ := read_name_acts id name m
  have guarded : Guarded m (onStore name.line act) (fun value _ => value.Every Closure.Distinct) blame := by
    apply guarded_reads name.line reads
    rintro fault (rfl | ⟨_, _, _, rfl⟩) other same <;> cases same
  exact fun every => ends_congr run (guarded every)

theorem guarded_write (id : Nat) (name : Name) (value : Value) (new : value.Every Closure.Distinct) :
    Guarded m (writeName id name value) (fun _ _ => True) blame := by
  obtain ⟨act, run, writes⟩ := write_name_acts id name m value
  have guarded : Guarded m (onStore name.line act) (fun _ _ => True) blame := by
    apply guarded_writes name.line writes _ new
    rintro fault (rfl | ⟨_, _, _, rfl⟩) other same <;> cases same
  exact fun every => ends_congr run (guarded every)

theorem guarded_receiver (line : Nat) (closure : Closure) (object : Instance) (distinct : closure.Distinct)
    (methods : object.ofClass.Every Closure.Distinct) :
    Guarded m (onStore line (Store.bind closure object)) (fun bound _ => bound.Distinct) blame := by
  apply guarded_store
  exact fun every => ⟨Store.every_push _ every (receiver_every object methods), distinct⟩

theorem guarded_property (name : Name) (value : Value) (known : value.Every Closure.Distinct) :
    Guarded m (property name value) (fun result _ => result.Every Closure.Distinct) blame := by
  cases value with
  | object object =>
      apply guarded_store
      intro every
      apply ends_mono _ _ _ _ _ _ (store_property_ends object name.text m.store)
      · rintro value _ (⟨rfl, found⟩ | ⟨method, found, rfl, rfl⟩)
        · exact ⟨every, every.fields _ _ value found⟩
        · exact ⟨Store.every_received object every known, known name.text method found⟩
      · rintro _ _ ⟨rfl, rfl⟩
        exact ⟨every, fun _ same => nomatch same⟩
  | _ => exact guarded_fail _ _ _ rfl

theorem guarded_answer (closure : Closure) (flow : Flow) (known : flow.Every Closure.Distinct) :
    Guarded m (answer closure flow) (fun value _ => value.Every Closure.Distinct) blame := by
  unfold answer
  split
  · apply guarded_reads _ (Store.reads_get_at closure.env 0 "this")
    rintro fault (rfl | ⟨rfl, _⟩) other same <;> cases same
  · cases flow with
    | normal => exact guarded_pure _ _ trivial
    | returned value => exact guarded_pure _ _ known

theorem guarded_function (routine : Routine) (distinct : routine.Distinct) :
    Guarded m (defineFunction routine) (fun _ _ => True)
      fun other => routine.name = other ∧ (m.store.layer m.env.inner).contains other.text = true := by
  intro every
  exact guarded_define (m := { m with store := { m.store with nextIdentity := m.store.nextIdentity + 1 } })
    routine.name (.function m.store.nextIdentity ⟨routine, m.env, false⟩) distinct (Store.every_identity every _)

theorem guarded_class (name : Name) (methods : List Routine) (distinct : Routine.DistinctAll methods) :
    Guarded m (defineClass name methods) (fun _ _ => True)
      fun other => name = other ∧ (m.store.layer m.env.inner).contains other.text = true := by
  apply guarded_bind (guarded_define name .none trivial)
  intro _ t _ _
  apply guarded_env
  intro every
  have made : (ClassValue.made t.store.nextIdentity name methods t.env).Every Closure.Distinct :=
    made_every _ name methods t.env fun method member => routine_distinct_mem methods method member distinct
  exact guarded_writes (m := { t with store := { t.store with nextIdentity := t.store.nextIdentity + 1 } }) name.line
    (Store.writes_assign t.env name.text _) (fun _ missing _ same => nomatch missing ▸ same) made
    (Store.every_identity every _)

end Steps

section Walk

-- Nothing but a statement that declares a name can be to blame, and a statement of a body is not,
-- as long as its layer has only names that were declared before it.
structure Guards (steps : Nat) : Prop where
  evaluate : ∀ m e, Guarded m (Regime.standard.evaluate steps e) (fun value _ => value.Every Closure.Distinct) Nobody
  arguments : ∀ m es, Guarded m (Regime.standard.evaluateAll steps es)
    (fun values _ => ∀ value ∈ values, value.Every Closure.Distinct) Nobody
  call : ∀ m callee arguments line, callee.Every Closure.Distinct →
    (∀ value ∈ arguments, value.Every Closure.Distinct) →
    Guarded m (Regime.standard.call steps callee arguments line) (fun value _ => value.Every Closure.Distinct) Nobody
  enter : ∀ m closure arguments, closure.Distinct → (∀ value ∈ arguments, value.Every Closure.Distinct) →
    Guarded m (Regime.standard.enter steps closure arguments) (fun value _ => value.Every Closure.Distinct) Nobody
  execute : ∀ m (s : Stmt), s.Distinct →
    Guarded m (Regime.standard.execute steps s) (fun flow _ => flow.Every Closure.Distinct)
      fun name => ∃ before, steps = before + 1 ∧ s.Collides before m name
  body : ∀ m body taken, Stmt.DistinctIn taken body → m.env.inner < m.store.layers.size →
    m.store.Within m.env.inner taken →
    Guarded m (Regime.standard.executeAll steps body) (fun flow _ => flow.Every Closure.Distinct) Nobody
  choose : ∀ m condition body (alternative : Alternative), Stmt.DistinctIn [] body → alternative.Distinct →
    Guarded m (Regime.standard.choose steps condition body alternative) (fun flow _ => flow.Every Closure.Distinct) Nobody
  loop : ∀ m condition body env, Stmt.DistinctIn [] body → env.inner < m.store.layers.size →
    m.store.Within env.inner [] →
    Guarded m (Regime.standard.repeatWhile steps condition body env) (fun flow _ => flow.Every Closure.Distinct) Nobody

variable {steps : Nat} (ih : Guards steps) {m : Machine}
include ih

theorem guarded_evaluate (e : Expr) :
    Guarded m (Regime.standard.evaluate (steps + 1) e) (fun value _ => value.Every Closure.Distinct) Nobody := by
  cases e with
  | literal mark value => exact guarded_pure _ _ (every_literal value)
  | grouping mark inner => exact ih.evaluate m inner
  | unary mark operator right =>
      apply guarded_bind (ih.evaluate m right)
      intro value t _ _
      exact guarded_weaken (guarded_inert (inert_unary operator value)) (fun v _ done => every_inert v done.2) fun _ => id
  | binary mark left operator right =>
      apply guarded_bind (ih.evaluate m left)
      intro first t _ _
      apply guarded_bind (ih.evaluate t right)
      intro second u _ _
      exact guarded_weaken (guarded_inert (inert_binary operator first second)) (fun v _ done => every_inert v done.2)
        fun _ => id
  | logical mark left operator right =>
      apply guarded_bind (ih.evaluate m left)
      intro value t _ _
      cases value with
      | bool truth =>
          dsimp only
          split
          · exact guarded_pure _ _ trivial
          · exact ih.evaluate t right
      | _ => exact guarded_fail _ _ _ rfl
  | ident mark name | this mark name => exact guarded_read _ _
  | assign mark name value =>
      apply guarded_bind (ih.evaluate m value)
      intro result t _ known
      apply guarded_bind (guarded_write mark.id name result known)
      exact fun _ u _ _ => guarded_pure _ _ known
  | call mark callee arguments line =>
      apply guarded_bind (ih.evaluate m callee)
      intro function t _ known
      apply guarded_bind (ih.arguments t arguments)
      intro values u _ given
      apply guarded_bind (guarded_inert (inert_arity function values line))
      exact fun _ v _ _ => ih.call v function values line known given
  | get mark object name =>
      apply guarded_bind (ih.evaluate m object)
      exact fun value t _ known => guarded_property name value known
  | set mark object name value =>
      apply guarded_bind (ih.evaluate m object)
      intro target t _ _
      cases target with
      | object object =>
          apply guarded_bind (ih.evaluate t value)
          intro result u _ known
          have written : Guarded u (onStore name.line (Store.setField object name.text result)) (fun _ _ => True) Nobody :=
            fun every => ⟨Store.every_field object.identity name.text result every known, trivial⟩
          apply guarded_bind written
          exact fun _ v _ _ => guarded_pure _ _ known
      | _ => exact guarded_fail _ _ _ rfl

theorem guarded_call (callee : Value) (arguments : List Value) (line : Nat) (known : callee.Every Closure.Distinct)
    (given : ∀ value ∈ arguments, value.Every Closure.Distinct) :
    Guarded m (Regime.standard.call (steps + 1) callee arguments line)
      (fun value _ => value.Every Closure.Distinct) Nobody := by
  cases callee with
  | native native =>
      exact guarded_weaken (guarded_inert (inert_native native arguments line)) (fun v _ done => every_inert v done.2)
        fun _ => id
  | function identity closure => exact ih.enter m closure arguments known given
  | «class» c =>
      have made : Guarded m (onStore line (Store.newInstance c))
          (fun object _ => object.ofClass.Every Closure.Distinct) Nobody :=
        fun every => ⟨Store.every_instance every, known⟩
      apply guarded_bind made
      intro object t _ methods
      cases found : c.constructor? with
      | none => exact guarded_pure _ _ methods
      | some method =>
          apply guarded_bind (guarded_receiver line method object (known _ method found) methods)
          intro bound u _ distinct
          apply guarded_bind (ih.enter u bound arguments distinct given)
          exact fun _ v _ _ => guarded_pure _ _ methods
  | _ => exact guarded_fail _ _ _ rfl

theorem guarded_enter (closure : Closure) (arguments : List Value) (distinct : closure.Distinct)
    (given : ∀ value ∈ arguments, value.Every Closure.Distinct) :
    Guarded m (Regime.standard.enter (steps + 1) closure arguments) (fun value _ => value.Every Closure.Distinct)
      Nobody := by
  obtain ⟨⟨name, parameters, body⟩, outer, isConstructor⟩ := closure
  obtain ⟨nodup, statements⟩ := distinct
  apply guarded_nested
  -- The layer of the call, and what it has in front of the body.
  let env := outer.child m.store.layers.size
  apply guarded_bind (guarded_parameters env parameters arguments m.nested [] nodup (fun _ _ none => nomatch none)
    (nested_within m) given)
  intro _ t run within
  have spares := (confined_parameters env parameters arguments m.nested).2
  have inside : env.inner < t.store.layers.size := by
    rw [run] at spares
    exact Nat.lt_of_lt_of_le (nested_size m) spares.size
  rw [List.append_nil] at within
  apply guarded_bind (guarded_within env (ih.body { t with env } body _ statements inside within))
  exact fun flow u _ known => guarded_answer _ flow known

theorem guarded_scope (body : List Stmt) (distinct : Stmt.DistinctIn [] body) :
    Guarded m (childEnv >>= fun env => within env (Regime.standard.executeAll steps body))
      (fun flow _ => flow.Every Closure.Distinct) Nobody := by
  apply guarded_child
  exact guarded_within _ (ih.body _ body [] distinct (nested_size m) (nested_within m))

theorem guarded_execute (s : Stmt) (distinct : s.Distinct) :
    Guarded m (Regime.standard.execute (steps + 1) s) (fun flow _ => flow.Every Closure.Distinct)
      fun name => ∃ before, steps + 1 = before + 1 ∧ s.Collides before m name := by
  have innocent : ∀ {p : Eval Flow}, Guarded m p (fun flow _ => flow.Every Closure.Distinct) Nobody →
      Guarded m p (fun flow _ => flow.Every Closure.Distinct)
        fun name => ∃ before, steps + 1 = before + 1 ∧ s.Collides before m name :=
    fun guarded => guarded_weaken guarded (fun _ _ => id) fun _ none => none.elim
  cases s with
  | expression e =>
      apply innocent
      apply guarded_bind (ih.evaluate m e)
      exact fun _ t _ _ => guarded_pure _ _ trivial
  | var name value =>
      cases value with
      | none =>
          refine guarded_bind (guarded_weaken (guarded_define name .none trivial) (fun _ _ => id) fun _ collides =>
            ⟨steps, rfl, collides⟩) ?_
          exact fun _ t _ _ => guarded_pure _ _ trivial
      | some e =>
          refine guarded_bind (guarded_weaken (ih.evaluate m e) (fun _ _ => id) fun _ none => none.elim) ?_
          intro value t run known
          have env := ((walk_widens steps).evaluate e m).1
          rw [run] at env
          have here : t.env = m.env := env
          refine guarded_bind (guarded_weaken (guarded_define name value known) (fun _ _ => id) ?_) ?_
          · rintro other ⟨same, bound⟩
            rw [here] at bound
            exact ⟨steps, rfl, same, value, t, run, bound⟩
          · exact fun _ u _ _ => guarded_pure _ _ trivial
  | block body => exact innocent (guarded_scope ih body distinct)
  | branch condition body alternative => exact innocent (ih.choose m condition body alternative distinct.1 distinct.2)
  | «while» condition body =>
      apply innocent
      apply guarded_child
      exact ih.loop _ condition body _ distinct (nested_size m) (nested_within m)
  | function routine =>
      refine guarded_bind (guarded_weaken (guarded_function routine distinct) (fun _ _ => id) fun _ collides =>
        ⟨steps, rfl, collides⟩) ?_
      exact fun _ t _ _ => guarded_pure _ _ trivial
  | «return» line value =>
      apply innocent
      cases value with
      | none => exact guarded_pure _ _ trivial
      | some e =>
          apply guarded_bind (ih.evaluate m e)
          exact fun _ t _ known => guarded_pure _ _ known
  | «class» name methods =>
      refine guarded_bind (guarded_weaken (guarded_class name methods distinct) (fun _ _ => id) fun _ collides =>
        ⟨steps, rfl, collides⟩) ?_
      exact fun _ t _ _ => guarded_pure _ _ trivial

theorem guarded_body (body : List Stmt) (taken : List String) (distinct : Stmt.DistinctIn taken body)
    (inside : m.env.inner < m.store.layers.size) (within : m.store.Within m.env.inner taken) :
    Guarded m (Regime.standard.executeAll (steps + 1) body) (fun flow _ => flow.Every Closure.Distinct) Nobody := by
  cases body with
  | nil => exact guarded_pure _ _ trivial
  | cons s rest =>
      obtain ⟨⟨here, free⟩, later⟩ := distinct
      refine guarded_bind (guarded_weaken (ih.execute m s here) (fun _ _ => id) ?_) ?_
      · rintro name ⟨before, _, collides⟩
        obtain ⟨own, bound⟩ := collides_own before m name s inside collides
        exact free name.text own (within name.text bound)
      · intro flow t run known
        cases flow with
        | returned value => exact guarded_pure _ _ known
        | normal =>
            obtain ⟨env, gains⟩ := (walk_widens steps).execute s m
            rw [run] at env gains
            have back : t.env = m.env := env
            apply ih.body t rest _ later
            · rw [back]
              exact Nat.lt_of_lt_of_le inside gains.size
            · rw [back]
              intro name bound
              rcases gains.gained m.env.inner name inside bound with before | ⟨_, declared⟩
              · exact List.mem_append_right _ (within name before)
              · exact List.mem_append_left _ declared

theorem guarded_choose (condition : Expr) (body : List Stmt) (alternative : Alternative)
    (distinct : Stmt.DistinctIn [] body) (others : alternative.Distinct) :
    Guarded m (Regime.standard.choose (steps + 1) condition body alternative)
      (fun flow _ => flow.Every Closure.Distinct) Nobody := by
  apply guarded_bind (ih.evaluate m condition)
  intro value t _ _
  apply guarded_bind (guarded_inert (inert_condition _ _ value))
  intro truth u _ _
  cases truth with
  | true => exact guarded_scope ih body distinct
  | false =>
      cases alternative with
      | none => exact guarded_pure _ _ trivial
      | elseIf condition body alternative => exact ih.choose u condition body alternative others.1 others.2
      | block body => exact guarded_scope ih body others

theorem guarded_loop (condition : Expr) (body : List Stmt) (env : Env) (distinct : Stmt.DistinctIn [] body)
    (inside : env.inner < m.store.layers.size) (empty : m.store.Within env.inner []) :
    Guarded m (Regime.standard.repeatWhile (steps + 1) condition body env)
      (fun flow _ => flow.Every Closure.Distinct) Nobody := by
  apply guarded_bind (ih.evaluate m condition)
  intro value t run _
  have gains := ((walk_widens steps).evaluate condition m).2
  rw [run] at gains
  have still : t.store.Within env.inner [] := by
    intro name bound
    rcases gains.gained env.inner name inside bound with before | ⟨_, none⟩
    · exact empty name before
    · exact none
  apply guarded_bind (guarded_inert (inert_condition _ _ value))
  rintro truth u _ ⟨same, _⟩
  have there : env.inner < u.store.layers.size := same.store ▸ Nat.lt_of_lt_of_le inside gains.size
  cases truth with
  | false => exact guarded_pure _ _ trivial
  | true =>
      apply guarded_bind (guarded_within env (ih.body { u with env } body [] distinct there (same.store ▸ still)))
      intro flow v round known
      cases flow with
      | returned value => exact guarded_pure _ _ known
      | normal =>
          have spares := (confined_within env ((walk_widens steps).body body) u).2
          rw [round] at spares
          let cleared : Machine :=
            { v with store := { v.store with layers := v.store.layers.modify env.inner fun _ => .empty } }
          have size : env.inner < cleared.store.layers.size := by
            simpa [cleared, endState] using Nat.lt_of_lt_of_le there spares.size
          have emptied : cleared.store.Within env.inner [] := by
            intro name bound
            rw [layer_clear_self v.store env.inner] at bound
            cases bound
          exact fun every => ih.loop cleared condition body env distinct size emptied (Store.every_clear env.inner every)

omit ih

theorem walk_guarded : ∀ steps, Guards steps
  | 0 => by constructor <;> intros <;> exact guarded_exhausted _
  | steps + 1 =>
      have ih := walk_guarded steps
      { evaluate := fun m e => guarded_evaluate ih e
        arguments := fun m es => by
          cases es with
          | nil => exact guarded_pure _ _ fun _ none => nomatch none
          | cons e rest =>
              apply guarded_bind (ih.evaluate m e)
              intro value t _ known
              apply guarded_bind (ih.arguments t rest)
              intro values u _ given
              apply guarded_pure
              intro result member
              rcases List.mem_cons.mp member with rfl | later
              · exact known
              · exact given result later
        call := fun m => guarded_call ih
        enter := fun m => guarded_enter ih
        execute := fun m => guarded_execute ih
        body := fun m => guarded_body ih
        choose := fun m => guarded_choose ih
        loop := fun m => guarded_loop ih }

end Walk

section Sessions

-- The program runs as far as one of its declarations, which stands at the top level, and stops as that
-- is about to bind its name again.
def Program.Redeclares (program : Program) (steps : Nat) (m : Machine) (name : Name) : Prop :=
  ∃ before declaration after here, program = before ++ declaration :: after ∧
    Regime.standard.executeProgram (steps + 1) before m = .ok () here ∧ here.env = m.env ∧
      declaration.Collides steps here name ∧
        ∃ there, Regime.standard.execute (steps + 1) declaration here = .error (redefinition name) there

theorem execute_program_guarded (steps : Nat) (program : Program) (distinct : ∀ s ∈ program, s.Distinct) (m : Machine) :
    Guarded m (Regime.standard.executeProgram steps program) (fun _ _ => True)
      fun name => ∃ before, steps = before + 1 ∧ Program.Redeclares program before m name := by
  induction program generalizing m with
  | nil => exact guarded_pure _ _ trivial
  | cons s rest ih =>
      have first := (walk_guarded steps).execute m s (distinct s List.mem_cons_self)
      refine guarded_bind (guarded_weaken first (fun _ _ => id) ?_) ?_
      · rintro name ⟨before, rfl, collides⟩
        exact ⟨before, rfl, [], s, rest, m, rfl, rfl, rfl, collides, collides_stops before m name s collides⟩
      · intro flow t run _
        cases flow with
        | returned value => exact guarded_pure _ _ trivial
        | normal =>
            have env := ((walk_widens steps).execute s m).1
            rw [run] at env
            refine guarded_weaken (ih (fun s member => distinct s (List.mem_cons_of_mem _ member)) t) (fun _ _ => id) ?_
            rintro name ⟨fewer, rfl, before, declaration, after, here, rfl, ended, back, stops⟩
            refine ⟨fewer, rfl, s :: before, declaration, after, here, rfl, ?_, back.trans env, stops⟩
            rw [Regime.executeProgram, bind_ok _ run]
            exact ended

theorem interpret_guarded (steps : Nat) (program : Program) (distinct : ∀ s ∈ program, s.Distinct) (m : Machine) :
    Guarded m (Regime.standard.interpret steps program) (fun _ _ => True)
      fun name => ∃ before, steps = before + 1 ∧ Program.Redeclares program before m name := by
  apply guarded_bind (execute_program_guarded steps program distinct m)
  exact fun _ t _ _ => guarded_weaken (guarded_inert inert_flush) (fun _ _ _ => trivial) fun _ => id

theorem parse_not_redefined (source : String) (s t : Session) (halt : Halt)
    (stopped : Session.parse source s = .error halt t) (name : Name) : halt ≠ redefinition name := by
  unfold Session.parse at stopped
  cases read : tokenize source with
  | error e =>
      rw [read] at stopped
      cases stopped
      exact fun same => nomatch same
  | ok tokens =>
      rw [read] at stopped
      dsimp only at stopped
      rw [bind_ok _ (get_run s)] at stopped
      cases parsed : TreeWalk.parse s.nextId tokens with
      | error e =>
          rw [parsed] at stopped
          cases stopped
          exact fun same => nomatch same
      | ok result =>
          rw [parsed] at stopped
          cases stopped

theorem resolve_refuses (program : Program) (m n : Machine) (halt : Halt)
    (refused : Session.resolve program m = .error halt n) : n.store = m.store ∧ ∃ e, halt = .failed (.scoping e) := by
  unfold Session.resolve at refused
  split at refused
  · cases refused
  · cases refused
    exact ⟨rfl, _, rfl⟩

theorem run_guarded (steps : Nat) (source : String) (s : Session) (every : s.machine.store.Every Closure.Distinct) :
    Ends (Session.run steps source) s (fun _ t => t.machine.store.Every Closure.Distinct)
      fun halt t => t.machine.store.Every Closure.Distinct ∧ ∀ name, halt = redefinition name →
        ∃ program u m before, Session.parse source s = .ok program u ∧ Session.resolve program u.machine = .ok () m ∧
          steps = before + 1 ∧ Program.Redeclares program before m name := by
  have machine := parse_machine source s
  have parsed := parse_ends source s
  unfold Ends Session.run Session.runUnder
  cases read : Session.parse source s with
  | error halt u =>
      rw [read] at machine
      rw [bind_error _ read]
      refine ⟨?_, fun name same => absurd same (parse_not_redefined source s u halt read name)⟩
      exact (show u.machine = s.machine from machine) ▸ every
  | ok program u =>
      rw [read] at machine
      rw [bind_ok _ read]
      have held : u.machine.store.Every Closure.Distinct := (show u.machine = s.machine from machine) ▸ every
      unfold Session.onMachine
      cases checked : Session.resolve program u.machine with
      | error halt m =>
          rw [bind_error _ checked]
          obtain ⟨store, e, rfl⟩ := resolve_refuses program u.machine m halt checked
          exact ⟨store ▸ held, fun name same => nomatch same⟩
      | ok accepted m =>
          rw [bind_ok _ checked]
          obtain ⟨distinct, same⟩ := accepted_distinct program (ends_ok _ _ _ _ _ _ parsed read).2.2.2 u.machine m checked
          have kept : m.store.Every Closure.Distinct := by
            rw [same]
            exact held
          have run := interpret_guarded steps program distinct m kept
          unfold Ends at run
          cases ended : Regime.standard.interpret steps program m with
          | ok a t => rw [ended] at run; exact run.1
          | error halt t =>
              rw [ended] at run
              refine ⟨run.1, fun name same => ?_⟩
              obtain ⟨before, fuel, redeclares⟩ := run.2 name same
              exact ⟨program, u, m, before, rfl, checked, fuel, redeclares⟩

theorem reachable_distinct (c : Chronicle) (reachable : c.Reachable) :
    c.session.machine.store.Every Closure.Distinct := by
  induction reachable with
  | start source sink => exact start_every _ source sink
  | run c steps source before ih =>
      have ended := run_guarded steps source c.session ih
      unfold Ends at ended
      cases run : Session.run steps source c.session with
      | ok a t => rw [run] at ended; exact ended
      | error halt t => rw [run] at ended; exact ended.1
  | parse c source before ih =>
      show (endState (Session.parse source c.session)).machine.store.Every Closure.Distinct
      rw [parse_machine source c.session]
      exact ih
  | streams c source sink before ih => exact ih

-- The text is a program that is accepted, and stops at a declaration at its top level.
def Session.Redeclares (s : Session) (steps : Nat) (source : String) (name : Name) : Prop :=
  ∃ program u m before, Session.parse source s = .ok program u ∧ Session.resolve program u.machine = .ok () m ∧
    m.env = Machine.globals ∧ steps = before + 1 ∧ Program.Redeclares program before m name

-- A run that stops as a name is bound twice does so at the top level: every statement in front of the
-- declaration has been executed, its value is there, and the globals bind the name. A name that
-- is bound anywhere else is new in its layer, or the run would have stopped there.
theorem redefined_at_top_level (c : Chronicle) (reachable : c.Reachable) (steps : Nat) (source : String) (name : Name)
    (t : Session) (stopped : Session.run steps source c.session = .error (redefinition name) t) :
    c.session.Redeclares steps source name := by
  have ended := ends_error _ _ _ _ _ _ (run_guarded steps source c.session (reachable_distinct c reachable)) stopped
  obtain ⟨program, u, m, before, parsed, accepted, fuel, redeclares⟩ := ended.2 name rfl
  refine ⟨program, u, m, before, parsed, accepted, ?_, fuel, redeclares⟩
  have env := resolve_returns program u.machine
  have machine := parse_machine source c.session
  rw [accepted] at env
  rw [parsed] at machine
  have back : m.env = u.machine.env := env
  have same : u.machine = c.session.machine := machine
  rw [back, same]
  exact (reachable_sound c reachable).globals

def Halt.isRedefinition (name : Name) : Halt → Bool
  | .failed (.runtime ⟨line, .redefined text⟩) => line == name.line && text == name.text
  | _ => false

theorem redefinition_of_is (name : Name) (halt : Halt) (redefines : halt.isRedefinition name = true) :
    halt = redefinition name := by
  unfold Halt.isRedefinition at redefines
  split at redefines
  · obtain ⟨line, text⟩ := (Bool.and_eq_true _ _).mp redefines
    rw [redefinition, beq_iff_eq.mp line, beq_iff_eq.mp text]
  · cases redefines

theorem redefined_at_top_level_twice :
    ∃ c : Chronicle, c.Reachable ∧ ∃ t,
      Session.run 40 "var z = f(f);\nvar y = z;" c.session = .error (redefinition ⟨"y", 2⟩) t ∧
        c.session.Redeclares 40 "var z = f(f);\nvar y = z;" ⟨"y", 2⟩ := by
  let c := Chronicle.ofText 40
    "func f(g) \x7b var a = true; while (a) \x7b var b = g; a = b != none; g = none; \x7d return g; \x7d var y = f(f);"
  have reachable : c.Reachable := of_text_reachable _ _
  have redefines : (match Session.run 40 "var z = f(f);\nvar y = z;" c.session with
    | .error halt _ => halt.isRedefinition ⟨"y", 2⟩
    | .ok _ _ => false) = true := by decide +kernel
  cases run : Session.run 40 "var z = f(f);\nvar y = z;" c.session with
  | ok a t => rw [run] at redefines; cases redefines
  | error halt t =>
      rw [run] at redefines
      obtain rfl := redefinition_of_is _ halt redefines
      exact ⟨c, reachable, t, run, redefined_at_top_level c reachable 40 _ ⟨"y", 2⟩ t run⟩

end Sessions

end TreeWalk
