import TreeWalk.Proofs.Likeness

set_option autoImplicit false

namespace TreeWalk

open Eval

structure Course (World : Type) where
  likeness : World → Likeness
  links : World → Links
  Later : World → World → Prop
  still : ∀ w, Later w w
  further : ∀ w mid next, Later w mid → Later mid next → Later w next
  within : ∀ w next, Later w next → (likeness w).Within (likeness next)
  -- A layer on either side that holds the same for good.
  child : World → World
  child_later : ∀ w, Later w (child w)
  child_links : ∀ w, (links w).push.Covers (links (child w))
  bound : ∀ (w : World) (method other : Closure), (likeness w).method method other →
    (likeness (child w)).function { method with env := method.env.child (links w).size }
      { other with env := other.env.child (links w).size' }
  here : Distances
  there : Distances

namespace Course

variable {World : Type} (k : Course World)

def scene (w : World) (env env' : Env) : Scene :=
  ⟨k.likeness w, k.links w, k.here, k.there, env, env'⟩

abbrev Values (w : World) : Value → Value → Prop :=
  Value.Like (k.likeness w)

abbrev AllValues (w : World) : List Value → List Value → Prop :=
  List.Forall₂ (k.Values w)

abbrev Flows (w : World) : Flow → Flow → Prop :=
  Flow.Like (k.likeness w)

def Abreast (base w : World) (env env' : Env) {α β : Type} (good : World → α → β → Prop) (p : Eval α) (q : Eval β) : Prop :=
  ∀ m n, Machine.Like (k.scene w env env') m n → ∃ next, k.Later base next ∧
    Agree (Machine.Like (k.scene next env env')) Halt.ReportsAs (good next) (p m) (q n)

end Course

section Steps

variable {World : Type} {k : Course World} {base w next : World} {env env' : Env} {α β γ δ : Type}
  {good : World → α → β → Prop} {result : World → γ → δ → Prop} {p : Eval α} {q : Eval β}

theorem object_later (later : k.Later w next) {object other : Instance} (same : object.Like (k.likeness w) other) :
    object.Like (k.likeness next) other :=
  object_like_within (k.within w next later) same

theorem abreast_goes (goes : (k.scene w env env').Goes (good w) p q) : k.Abreast w w env env' good p q :=
  fun m n like => ⟨w, k.still w, goes m n like⟩

theorem abreast_same {q : Eval α} (goes : (k.scene w env env').Goes Eq p q) : k.Abreast w w env env' (fun _ => Eq) p q :=
  abreast_goes goes

theorem abreast_pure {a : α} {b : β} (value : good w a b) : k.Abreast w w env env' good (pure a) (pure b) :=
  abreast_goes (matched_pure _ _ _ _ _ value)

theorem abreast_from (later : k.Later base w) (abreast : k.Abreast w w env env' good p q) :
    k.Abreast base w env env' good p q := by
  intro m n like
  obtain ⟨next, after, agree⟩ := abreast m n like
  exact ⟨next, k.further _ _ _ later after, agree⟩

theorem abreast_bind {mid : World} (before : k.Later base mid) {f : α → Eval γ} {g : β → Eval δ}
    (first : k.Abreast mid w env env' good p q)
    (rest : ∀ next a b, k.Later mid next → good next a b → k.Abreast base next env env' result (f a) (g b)) :
    k.Abreast base w env env' result (p >>= f) (q >>= g) := by
  intro m n like
  obtain ⟨next, later, agree⟩ := first m n like
  rcases agree_cases _ _ _ _ _ agree with ⟨a, b, m', n', left, right, value, state⟩ | ⟨e, e', m', n', left, right, failure, state⟩
  · rw [bind_ok f left, bind_ok g right]
    exact rest next a b later value m' n' state
  · rw [bind_error f left, bind_error g right]
    exact ⟨next, k.further _ _ _ before later, .error _ _ m' n' failure state⟩

theorem abreast_then {f : α → Eval γ} {g : β → Eval δ} (first : k.Abreast w w env env' good p q)
    (rest : ∀ next a b, k.Later w next → good next a b → k.Abreast next next env env' result (f a) (g b)) :
    k.Abreast w w env env' result (p >>= f) (q >>= g) :=
  abreast_bind (k.still w) first fun next a b later value => abreast_from later (rest next a b later value)

theorem abreast_within {inner inner' : Env} (abreast : k.Abreast base w inner inner' good p q) :
    k.Abreast base w env env' good (within inner p) (within inner' q) := by
  intro m n like
  obtain ⟨next, later, agree⟩ := abreast { m with env := inner } { n with env := inner' }
    ⟨like.store, rfl, rfl, like.here, like.there, like.source, like.sink⟩
  refine ⟨next, later, ?_⟩
  unfold within
  rcases agree_cases _ _ _ _ _ agree with ⟨a, b, m', n', left, right, value, state⟩ | ⟨e, e', m', n', left, right, failure, state⟩
  · simp only [left, right]
    exact .ok a b _ _ value ⟨state.store, like.env, like.env', state.here, state.there, state.source, state.sink⟩
  · simp only [left, right]
    exact .error e e' _ _ failure ⟨state.store, like.env, like.env', state.here, state.there, state.source, state.sink⟩

theorem abreast_env {f : Env → Eval α} {g : Env → Eval β} (rest : k.Abreast base w env env' good (f env) (g env')) :
    k.Abreast base w env env' good (currentEnv >>= f) (currentEnv >>= g) := by
  intro m n like
  have here : m.env = env := like.env
  have there : n.env = env' := like.env'
  have first : (currentEnv >>= f) m = f env m := by rw [← here]; rfl
  have second : (currentEnv >>= g) n = g env' n := by rw [← there]; rfl
  rw [first, second]
  exact rest m n like

theorem abreast_distance (id id' : Nat) {f : Option Nat → Eval α} {g : Option Nat → Eval β}
    (rest : k.Abreast base w env env' good (f k.here[id]?) (g k.there[id']?)) :
    k.Abreast base w env env' good (distance? id >>= f) (distance? id' >>= g) := by
  intro m n like
  have here : m.distances = k.here := like.here
  have there : n.distances = k.there := like.there
  have first : (distance? id >>= f) m = f k.here[id]? m := by rw [← here]; rfl
  have second : (distance? id' >>= g) n = g k.there[id']? n := by rw [← there]; rfl
  rw [first, second]
  exact rest m n like

theorem abreast_store (line : Nat) {p : StoreM α} {q : StoreM β} (goes : Store.Goes (k.likeness w) (k.links w) (good w) p q) :
    k.Abreast w w env env' good (onStore line p) (onStore line q) :=
  abreast_goes (goes_store line goes)

theorem abreast_read (ground : (k.links w).linked 0 0) (id id' : Nat)
    (meets : Option.Rel ((k.links w).Meets env env') k.here[id]? k.there[id']?) (name : Name) :
    k.Abreast w w env env' k.Values (readName id name) (readName id' name) := by
  apply abreast_distance
  revert meets
  generalize k.here[id]? = distance
  generalize k.there[id']? = distance'
  rintro (meets | _)
  · exact abreast_env (abreast_store name.line (goes_read_at meets name.text))
  · exact abreast_store name.line (goes_get_global ground name.text)

theorem abreast_write (ground : (k.links w).linked 0 0) (id id' : Nat)
    (meets : Option.Rel ((k.links w).Meets env env') k.here[id]? k.there[id']?) (name : Name) {value other : Value}
    (same : k.Values w value other) :
    k.Abreast w w env env' (fun _ => Eq) (writeName id name value) (writeName id' name other) := by
  apply abreast_distance
  revert meets
  generalize k.here[id]? = distance
  generalize k.there[id']? = distance'
  rintro (meets | _)
  · exact abreast_env (abreast_store name.line (goes_write_at meets name.text same))
  · exact abreast_store name.line (goes_assign_global ground name.text same)

theorem abreast_nest (line : Nat) (inner inner' : Env) (later : k.Later w next)
    (covers : (k.links w).push.Covers (k.links next)) {b b' : Bindings Value} (same : b.Paired (k.Values w) b') :
    k.Abreast w w env env'
      (fun last made made' => last = next ∧ made = inner.child (k.links w).size ∧ made' = inner'.child (k.links w).size')
      (onStore line (Store.nest inner b)) (onStore line (Store.nest inner' b')) := by
  intro m n like
  refine ⟨next, later, ?_⟩
  refine .ok _ _ _ _ ⟨rfl, congrArg inner.child like.store.size, congrArg inner'.child like.store.size'⟩
    ⟨?_, like.env, like.env', like.here, like.there, like.source, like.sink⟩
  exact store_like_within (k.within w next later) covers (like_push like.store same)

theorem abreast_child (later : k.Later w next) (covers : (k.links w).push.Covers (k.links next)) :
    k.Abreast w w env env'
      (fun last made made' => last = next ∧ made = env.child (k.links w).size ∧ made' = env'.child (k.links w).size')
      childEnv childEnv :=
  abreast_env (abreast_nest 0 env env' later covers Bindings.paired_empty)

theorem abreast_condition (construct : Construct) (line : Nat) {value other : Value} (same : k.Values w value other) :
    k.Abreast w w env env' (fun _ => Eq) (asCondition construct line value) (asCondition construct line other) :=
  abreast_goes (goes_condition construct line same)

theorem abreast_arity (line : Nat) {value other : Value} (same : k.Values w value other) {arguments arguments' : List Value}
    (all : k.AllValues w arguments arguments') :
    k.Abreast w w env env' (fun _ => Eq) (checkArity value arguments line) (checkArity other arguments' line) :=
  abreast_goes (goes_arity line same all.length_eq.symm)

theorem abreast_parameters {inner inner' : Env} (link : (k.links w).linked inner.inner inner'.inner) (names : List Name)
    {values others : List Value} (all : k.AllValues w values others) :
    k.Abreast w w env env' (fun _ => Eq) (defineAll inner names values) (defineAll inner' names others) :=
  abreast_goes (goes_parameters link names all)

theorem abreast_identity (line : Nat) :
    k.Abreast w w env env' (fun _ => Eq) (onStore line Store.newIdentity) (onStore line Store.newIdentity) :=
  abreast_store line goes_new_identity

theorem abreast_instance (line : Nat) {c other : ClassValue} (same : c.Like (k.likeness w) other) :
    k.Abreast w w env env' (fun next => Instance.Like (k.likeness next)) (onStore line (Store.newInstance c))
      (onStore line (Store.newInstance other)) :=
  abreast_store line (goes_new_instance same)

theorem abreast_field (line : Nat) {object object' : Instance} (one : object.Like (k.likeness w) object') (name : String)
    {value other : Value} (same : k.Values w value other) :
    k.Abreast w w env env' (fun _ => Eq) (onStore line (Store.setField object name value))
      (onStore line (Store.setField object' name other)) :=
  abreast_store line (goes_set_field one name same)

theorem abreast_receive (line : Nat) {method other : Closure} {object object' : Instance}
    (kept : (k.likeness w).method method other) (same : object.Like (k.likeness w) object') :
    k.Abreast w w env env' (fun next => (k.likeness next).function) (onStore line (Store.bind method object))
      (onStore line (Store.bind other object')) := by
  have receiver : (Bindings.empty.insert "this" (Value.object object)).Paired (k.Values w)
      (Bindings.empty.insert "this" (.object object')) :=
    Bindings.paired_insert Bindings.paired_empty _ _ _ (.object object object' same)
  intro m n like
  have bound := k.bound w method other kept
  refine ⟨k.child w, k.child_later w, ?_⟩
  have size : m.store.layers.size = (k.links w).size := like.store.size
  have size' : n.store.layers.size = (k.links w).size' := like.store.size'
  rw [← size, ← size'] at bound
  refine .ok _ _ _ _ bound ⟨?_, like.env, like.env', like.here, like.there, like.source, like.sink⟩
  exact store_like_within (k.within _ _ (k.child_later w)) (k.child_links w) (like_push like.store receiver)

theorem property_run (line : Nat) (object : Instance) (name : String) (m : Machine) :
    onStore line (Store.property object name) m =
      (match (m.store.fields object.identity).find? name with
      | some value => pure value
      | none =>
          match object.ofClass.methods.find? name with
          | some method => do
              let identity ← onStore line Store.newIdentity
              return Value.function identity (← onStore line (Store.bind method object))
          | none => fail line (.noProperty name object.ofClass.name)) m := by
  have opened : ∀ act : StoreM Value, Store.property object name m.store = act m.store →
      onStore line (Store.property object name) m = onStore line act m := by
    intro act same
    simp only [onStore, same]
  cases field : (m.store.fields object.identity).find? name with
  | some value =>
      apply opened (pure value)
      unfold Store.property
      rw [bind_ok _ (get_the_run m.store), field]
  | none =>
      cases found : object.ofClass.methods.find? name with
      | some method =>
          apply opened (do
            let identity ← Store.newIdentity
            return Value.function identity (← Store.bind method object))
          unfold Store.property
          rw [bind_ok _ (get_the_run m.store), field, found]
      | none =>
          apply opened (throw (.noProperty name object.ofClass.name))
          unfold Store.property
          rw [bind_ok _ (get_the_run m.store), field, found]

theorem abreast_property (name : Name) {value other : Value} (same : k.Values w value other) :
    k.Abreast w w env env' k.Values (property name value) (property name other) := by
  cases same with
  | object object other same =>
      intro m n like
      have fields := like.store.fields object.identity name.text
      have methods := same.ofClass.methods name.text
      show ∃ next, _ ∧ Agree _ _ _ (onStore name.line (Store.property object name.text) m)
        (onStore name.line (Store.property other name.text) n)
      rw [property_run, property_run, same.identity, same.ofClass.name]
      revert fields methods
      generalize (m.store.fields object.identity).find? name.text = field
      generalize (n.store.fields object.identity).find? name.text = field'
      generalize object.ofClass.methods.find? name.text = method
      generalize other.ofClass.methods.find? name.text = method'
      rintro (found | _) methods
      · exact ⟨w, k.still w, .ok _ _ m n found like⟩
      · cases methods with
        | none => exact abreast_goes (goes_fail name.line rfl) m n like
        | some kept =>
            refine abreast_then (abreast_identity name.line) ?_ m n like
            rintro next identity _ later rfl
            apply abreast_then (abreast_receive name.line ((k.within _ _ later).method _ _ kept) (object_later later same))
            exact fun last bound bound' _ entered => abreast_pure (.function identity bound bound' entered)
  | plain _ plain =>
      cases value with
      | object object => exact plain.elim
      | _ => exact abreast_goes (goes_fail name.line rfl)
  | function identity closure other same =>
      exact abreast_goes (goes_fail_on name.line _ no_properties_by_text (.function identity closure other same))
  | «class» c other same =>
      exact abreast_goes (goes_fail_on name.line _ no_properties_by_text (.class c other same))

end Steps

end TreeWalk
