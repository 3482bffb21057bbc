import Mathlib.Data.List.Forall2
import TreeWalk.Proofs.Alike
import TreeWalk.Proofs.Alongside

set_option autoImplicit false

namespace TreeWalk

open Eval

structure Closure.SameHead (closure other : Closure) : Prop where
  name : other.routine.name = closure.routine.name
  parameters : other.routine.parameters = closure.routine.parameters
  constructor : other.isConstructor = closure.isConstructor

-- Which closures of the second run stand for those of the first: those that can be called, and the methods
-- of a class, which are not bound yet.
structure Likeness where
  function : Closure → Closure → Prop
  method : Closure → Closure → Prop
  function_head : ∀ closure other, function closure other → closure.SameHead other
  method_head : ∀ closure other, method closure other → closure.SameHead other

structure Likeness.Within (k wide : Likeness) : Prop where
  function : ∀ closure other, k.function closure other → wide.function closure other
  method : ∀ closure other, k.method closure other → wide.method closure other

structure ClassValue.Like (k : Likeness) (c other : ClassValue) : Prop where
  identity : other.identity = c.identity
  name : other.name = c.name
  methods : c.methods.Paired k.method other.methods

structure Instance.Like (k : Likeness) (object other : Instance) : Prop where
  identity : other.identity = object.identity
  ofClass : object.ofClass.Like k other.ofClass

inductive Value.Like (k : Likeness) : Value → Value → Prop where
  | plain (value : Value) (plain : value.IsPlain) : Like k value value
  | function (identity : Nat) (closure other : Closure) (same : k.function closure other) :
      Like k (.function identity closure) (.function identity other)
  | class (c other : ClassValue) (same : c.Like k other) : Like k (.class c) (.class other)
  | object (object other : Instance) (same : object.Like k other) : Like k (.object object) (.object other)

inductive Flow.Like (k : Likeness) : Flow → Flow → Prop where
  | normal : Like k .normal .normal
  | returned (value other : Value) (same : value.Like k other) : Like k (.returned value) (.returned other)

section Values

variable {k wide : Likeness} {value other : Value}

theorem class_like_within (within : k.Within wide) {c other : ClassValue} (like : c.Like k other) : c.Like wide other :=
  ⟨like.identity, like.name, Bindings.paired_mono within.method like.methods⟩

theorem object_like_within (within : k.Within wide) {object other : Instance} (like : object.Like k other) :
    object.Like wide other :=
  ⟨like.identity, class_like_within within like.ofClass⟩

theorem like_within (within : k.Within wide) (value other : Value) (like : value.Like k other) : value.Like wide other := by
  cases like with
  | plain value plain => exact .plain value plain
  | function identity closure other same => exact .function identity closure other (within.function closure other same)
  | «class» c other same => exact .class c other (class_like_within within same)
  | object object other same => exact .object object other (object_like_within within same)

theorem all_like_within (within : k.Within wide) {values others : List Value} (like : List.Forall₂ (Value.Like k) values others) :
    List.Forall₂ (Value.Like wide) values others :=
  like.imp (like_within within)

theorem like_text (like : value.Like k other) : other.text = value.text := by
  cases like with
  | plain value plain => rfl
  | function identity closure other same => simp only [Value.text, (k.function_head closure other same).name]
  | «class» c other same => simp only [Value.text, same.name]
  | object object other same => simp only [Value.text, same.ofClass.name]

theorem like_type_name (like : value.Like k other) : other.typeName? = value.typeName? := by
  cases like <;> rfl

theorem like_constructor {c other : ClassValue} (like : c.Like k other) :
    Option.Rel k.method c.constructor? other.constructor? :=
  like.methods Routine.constructorName

theorem like_arity (like : value.Like k other) : other.arity? = value.arity? := by
  cases like with
  | plain value plain => rfl
  | function identity closure other same =>
      simp only [Value.arity?, Closure.arity, (k.function_head closure other same).parameters]
  | «class» c other same =>
      have constructors := like_constructor same
      simp only [Value.arity?, ClassValue.arity]
      revert constructors
      generalize c.constructor? = here
      generalize other.constructor? = there
      rintro (method | _)
      · exact congrArg (some ∘ List.length) (k.method_head _ _ method).parameters
      · rfl
  | object object other same => rfl

theorem like_equal {left right left' right' : Value} (first : left.Like k left') (second : right.Like k right') :
    left'.isEqual right' = left.isEqual right := by
  cases first with
  | plain _ plain =>
      cases second with
      | plain _ _ => rfl
      | _ => cases left <;> first | rfl | exact plain.elim
  | function identity closure other same =>
      cases second with
      | plain _ _ => cases right <;> rfl
      | _ => rfl
  | «class» c other same =>
      cases second with
      | plain _ plain => cases right <;> first | rfl | exact plain.elim
      | «class» d other also => simp only [Value.isEqual, same.identity, also.identity]
      | _ => rfl
  | object c other same =>
      cases second with
      | plain _ plain => cases right <;> first | rfl | exact plain.elim
      | object d other also => simp only [Value.isEqual, same.identity, also.identity]
      | _ => rfl

theorem like_unary (operator : Token) (like : value.Like k other) : other.applyUnary operator = value.applyUnary operator := by
  cases like with
  | plain value plain => rfl
  | _ => rfl

theorem like_add {left right left' right' : Value} (first : left.Like k left') (second : right.Like k right') :
    left'.add right' = left.add right := by
  cases first with
  | plain _ _ =>
      cases second with
      | plain _ _ => rfl
      | _ => cases left <;> rfl
  | _ => cases second <;> rfl

theorem like_binary (operator : Token) {left right left' right' : Value} (first : left.Like k left')
    (second : right.Like k right') : left'.applyBinary operator right' = left.applyBinary operator right := by
  unfold Value.applyBinary
  rw [like_add first second, like_equal first second]
  cases first with
  | plain _ _ =>
      cases second with
      | plain _ _ => rfl
      | _ => cases left <;> rfl
  | _ => cases second <;> rfl

end Values

-- Layers of the first run, each linked with the layer of the second run that holds the same. A blank layer of
-- the first run holds nothing.
structure Links where
  linked : Nat → Nat → Prop
  blank : Nat → Prop
  size : Nat
  size' : Nat
  inside : ∀ layer partner, linked layer partner → layer < size ∧ partner < size'
  apart : ∀ layer partner other partner', linked layer partner → linked other partner' →
    (layer = other ↔ partner = partner')
  blank_inside : ∀ layer, blank layer → layer < size
  blank_apart : ∀ layer partner, blank layer → ¬ linked layer partner

-- A new layer on either side, and the two are linked.
def Links.push (links : Links) : Links where
  linked layer partner := links.linked layer partner ∨ layer = links.size ∧ partner = links.size'
  blank := links.blank
  size := links.size + 1
  size' := links.size' + 1
  inside layer partner known := by
    rcases known with old | ⟨rfl, rfl⟩
    · have inside := links.inside layer partner old
      omega
    · omega
  apart layer partner other partner' known also := by
    rcases known with old | ⟨rfl, rfl⟩ <;> rcases also with old' | ⟨rfl, rfl⟩
    · exact links.apart layer partner other partner' old old'
    · have inside := links.inside layer partner old
      omega
    · have inside := links.inside other partner' old'
      omega
    · exact ⟨fun _ => rfl, fun _ => rfl⟩
  blank_inside layer blank := Nat.lt_succ_of_lt (links.blank_inside layer blank)
  blank_apart layer partner blank known := by
    rcases known with old | ⟨rfl, rfl⟩
    · exact links.blank_apart layer partner blank old
    · exact Nat.lt_irrefl _ (links.blank_inside _ blank)

-- The same layers, of which no others are linked and no others are blank.
structure Links.Covers (links fewer : Links) : Prop where
  size : fewer.size = links.size
  size' : fewer.size' = links.size'
  linked : ∀ layer partner, fewer.linked layer partner → links.linked layer partner
  blank : ∀ layer, fewer.blank layer → links.blank layer

-- The linked layers hold the same, and so do all instances.
structure Store.Like (k : Likeness) (links : Links) (s t : Store) : Prop where
  size : s.layers.size = links.size
  size' : t.layers.size = links.size'
  layers : ∀ layer partner, links.linked layer partner → (s.layer layer).Paired (Value.Like k) (t.layer partner)
  blank : ∀ layer, links.blank layer → s.layer layer = .empty
  objects : t.objects.size = s.objects.size
  fields : ∀ object, (s.fields object).Paired (Value.Like k) (t.fields object)
  identities : t.nextIdentity = s.nextIdentity

section Stores

variable {k wide : Likeness} {links fewer : Links} {s t : Store}

theorem store_like_within (within : k.Within wide) (covers : links.Covers fewer) (like : s.Like k links t) :
    s.Like wide fewer t where
  size := like.size.trans covers.size.symm
  size' := like.size'.trans covers.size'.symm
  layers layer partner link :=
    Bindings.paired_mono (like_within within) (like.layers layer partner (covers.linked layer partner link))
  blank layer blank := like.blank layer (covers.blank layer blank)
  objects := like.objects
  fields object := Bindings.paired_mono (like_within within) (like.fields object)
  identities := like.identities

theorem link_inside (like : s.Like k links t) {layer partner : Nat} (link : links.linked layer partner) :
    layer < s.layers.size ∧ partner < t.layers.size := by
  rw [like.size, like.size']
  exact links.inside layer partner link

theorem like_write (like : s.Like k links t) {layer partner : Nat} (link : links.linked layer partner) (name : String)
    {value other : Value} (same : value.Like k other) : (s.write layer name value).Like k links (t.write partner name other) where
  size := (Array.size_modify ..).trans like.size
  size' := (Array.size_modify ..).trans like.size'
  layers l p known := by
    have inside := link_inside like link
    by_cases here : l = layer
    · have there := (links.apart _ _ _ _ known link).mp here
      subst here there
      rw [Store.layer_write_self s _ name value inside.1, Store.layer_write_self t _ name other inside.2]
      exact Bindings.paired_insert (like.layers _ _ known) name value other same
    · have there : p ≠ partner := fun equal => here ((links.apart _ _ _ _ known link).mpr equal)
      rw [Store.layer_write_other s layer l name value here, Store.layer_write_other t partner p name other there]
      exact like.layers l p known
  blank l blank := by
    have here : l ≠ layer := fun same => links.blank_apart l partner blank (same ▸ link)
    rw [Store.layer_write_other s layer l name value here]
    exact like.blank l blank
  objects := like.objects
  fields := like.fields
  identities := like.identities

theorem like_push (like : s.Like k links t) {b b' : Bindings Value} (same : b.Paired (Value.Like k) b') :
    Store.Like k links.push { s with layers := s.layers.push b } { t with layers := t.layers.push b' } where
  size := by simp [Links.push, like.size]
  size' := by simp [Links.push, like.size']
  layers l p known := by
    rcases known with old | ⟨rfl, rfl⟩
    · have inside := link_inside like old
      rw [Store.layer_push s b l inside.1, Store.layer_push t b' p inside.2]
      exact like.layers l p old
    · rw [← like.size, ← like.size', Store.layer_push_new s b, Store.layer_push_new t b']
      exact same
  blank l blank := by
    rw [Store.layer_push s b l (like.size ▸ links.blank_inside l blank)]
    exact like.blank l blank
  objects := like.objects
  fields := like.fields
  identities := like.identities

theorem like_identity (like : s.Like k links t) :
    Store.Like k links { s with nextIdentity := s.nextIdentity + 1 } { t with nextIdentity := t.nextIdentity + 1 } :=
  ⟨like.size, like.size', like.layers, like.blank, like.objects, like.fields, congrArg (· + 1) like.identities⟩

theorem like_object (like : s.Like k links t) :
    Store.Like k links { s with objects := s.objects.push .empty } { t with objects := t.objects.push .empty } where
  size := like.size
  size' := like.size'
  layers := like.layers
  blank := like.blank
  objects := by simp [like.objects]
  fields object := by
    rw [fields_push s, fields_push t]
    exact like.fields object
  identities := like.identities

theorem like_field (like : s.Like k links t) (object : Nat) (name : String) {value other : Value}
    (same : value.Like k other) :
    Store.Like k links { s with objects := s.objects.modify object fun b => b.insert name value }
      { t with objects := t.objects.modify object fun b => b.insert name other } where
  size := like.size
  size' := like.size'
  layers := like.layers
  blank := like.blank
  objects := by simpa using like.objects
  fields other := by
    rw [fields_insert s, fields_insert t, like.objects]
    split
    · exact Bindings.paired_insert (like.fields _) name _ _ same
    · exact like.fields other
  identities := like.identities

theorem natives_like : Store.natives.Paired (Value.Like k) Store.natives := by
  intro name
  cases found : Store.natives.find? name with
  | none => exact .none
  | some value =>
      obtain ⟨native, _, same⟩ := List.mem_map.mp (Bindings.find_of_list _ name value found)
      cases same
      exact .some (.plain (.native native) trivial)

abbrev Store.Goes (k : Likeness) (links : Links) {α β : Type} (good : α → β → Prop) (p : StoreM α)
    (q : StoreM β) : Prop :=
  Matched (Store.Like k links) (fun fault other => other.text = fault.text) good p q

theorem paired_contains {α β : Type} {related : α → β → Prop} {b : Bindings α} {other : Bindings β}
    (paired : b.Paired related other) (name : String) : other.contains name = b.contains name := by
  have found := paired name
  unfold Bindings.contains
  revert found
  generalize b.find? name = here
  generalize other.find? name = there
  rintro (_ | _) <;> rfl

theorem goes_define {env env' : Env} (link : links.linked env.inner env'.inner) (name : String) {value other : Value}
    (same : value.Like k other) :
    Store.Goes k links Eq (Store.define env name value) (Store.define env' name other) := by
  intro s t like
  unfold Store.define
  rw [paired_contains (like.layers _ _ link) name]
  cases (s.layer env.inner).contains name with
  | true => exact .error _ _ s t rfl like
  | false => exact .ok _ _ _ _ rfl (like_write like link name same)

theorem goes_get_at {env env' : Env} {distance distance' layer partner : Nat} (here : env.chain[distance]? = some layer)
    (there : env'.chain[distance']? = some partner) (link : links.linked layer partner) (name : String) :
    Store.Goes k links (Value.Like k) (Store.getAt env distance name) (Store.getAt env' distance' name) := by
  intro s t like
  have found := like.layers _ _ link name
  unfold Store.getAt
  simp only [here, there]
  revert found
  generalize (s.layer layer).find? name = known
  generalize (t.layer partner).find? name = also
  rintro (same | _)
  · exact .ok _ _ s t same like
  · exact .error _ _ s t rfl like

theorem goes_assign_at {env env' : Env} {distance distance' layer partner : Nat} (here : env.chain[distance]? = some layer)
    (there : env'.chain[distance']? = some partner) (link : links.linked layer partner) (name : String) {value other : Value}
    (same : value.Like k other) :
    Store.Goes k links Eq (Store.assignAt env distance name value) (Store.assignAt env' distance' name other) := by
  intro s t like
  unfold Store.assignAt
  simp only [here, there]
  rw [paired_contains (like.layers _ _ link) name]
  cases (s.layer layer).contains name with
  | true => exact .ok _ _ _ _ rfl (like_write like link name same)
  | false => exact .error _ _ s t rfl like

structure Links.Meets (links : Links) (env env' : Env) (distance distance' : Nat) : Prop where
  layers : Option.Rel links.linked env.chain[distance]? env'.chain[distance']?
  beyond : env.chain[distance]? = none → distance' = distance

theorem goes_read_at {env env' : Env} {distance distance' : Nat} (meets : links.Meets env env' distance distance')
    (name : String) :
    Store.Goes k links (Value.Like k) (Store.getAt env distance name) (Store.getAt env' distance' name) := by
  obtain ⟨layers, beyond⟩ := meets
  generalize here : env.chain[distance]? = layer, there : env'.chain[distance']? = partner at layers beyond
  cases layers with
  | some linked => exact goes_get_at here there linked name
  | none =>
      obtain rfl := beyond rfl
      intro s t like
      unfold Store.getAt
      simp only [here, there]
      exact .error _ _ s t rfl like

theorem goes_write_at {env env' : Env} {distance distance' : Nat} (meets : links.Meets env env' distance distance')
    (name : String) {value other : Value} (same : value.Like k other) :
    Store.Goes k links Eq (Store.assignAt env distance name value) (Store.assignAt env' distance' name other) := by
  obtain ⟨layers, beyond⟩ := meets
  generalize here : env.chain[distance]? = layer, there : env'.chain[distance']? = partner at layers beyond
  cases layers with
  | some linked => exact goes_assign_at here there linked name same
  | none =>
      obtain rfl := beyond rfl
      intro s t like
      unfold Store.assignAt
      simp only [here, there]
      exact .error _ _ s t rfl like

theorem globals_found (s : Store) (name : String) : s.find? Machine.globals.chain name = (s.layer 0).find? name := by
  unfold Store.find? Env.chain Machine.globals
  cases found : (s.layer 0).find? name <;> simp [found]

theorem globals_owner (s : Store) (name : String) :
    s.owner? Machine.globals.chain name = if (s.layer 0).contains name then some 0 else none := by
  unfold Store.owner? Env.chain Machine.globals
  cases known : (s.layer 0).contains name <;> simp [known]

theorem goes_get_global (link : links.linked 0 0) (name : String) :
    Store.Goes k links (Value.Like k) (Store.get Machine.globals name) (Store.get Machine.globals name) := by
  intro s t like
  have found := like.layers _ _ link name
  unfold Store.get
  simp only [globals_found]
  revert found
  generalize (s.layer 0).find? name = known
  generalize (t.layer 0).find? name = also
  rintro (same | _)
  · exact .ok _ _ s t same like
  · exact .error _ _ s t rfl like

theorem goes_assign_global (link : links.linked 0 0) (name : String) {value other : Value} (same : value.Like k other) :
    Store.Goes k links Eq (Store.assign Machine.globals name value) (Store.assign Machine.globals name other) := by
  intro s t like
  unfold Store.assign
  rw [globals_owner, globals_owner, paired_contains (like.layers _ _ link) name]
  cases (s.layer 0).contains name with
  | true => exact .ok _ _ _ _ rfl (like_write like link name same)
  | false => exact .error _ _ s t rfl like

theorem goes_new_identity : Store.Goes k links Eq Store.newIdentity Store.newIdentity :=
  fun _ _ like => .ok _ _ _ _ like.identities.symm (like_identity like)

theorem goes_new_instance {c other : ClassValue} (same : c.Like k other) :
    Store.Goes k links (Instance.Like k) (Store.newInstance c) (Store.newInstance other) :=
  fun _ _ like => .ok _ _ _ _ ⟨like.objects, same⟩ (like_object like)

theorem goes_set_field {object object' : Instance} (one : object.Like k object') (name : String) {value other : Value}
    (same : value.Like k other) :
    Store.Goes k links Eq (Store.setField object name value) (Store.setField object' name other) := by
  intro s t like
  refine .ok _ _ _ _ rfl ?_
  rw [one.identity]
  exact like_field like object.identity name same

end Stores

structure Scene where
  like : Likeness
  links : Links
  here : Distances
  there : Distances
  env : Env
  env' : Env

structure Machine.Like (scene : Scene) (m n : Machine) : Prop where
  store : m.store.Like scene.like scene.links n.store
  env : m.env = scene.env
  env' : n.env = scene.env'
  here : m.distances = scene.here
  there : n.distances = scene.there
  source : n.source = m.source
  sink : n.sink = m.sink

abbrev Scene.Goes (scene : Scene) {α β : Type} (good : α → β → Prop) (p : Eval α) (q : Eval β) : Prop :=
  Matched (Machine.Like scene) Halt.ReportsAs good p q

section Steps

variable {scene : Scene} {α β : Type} {good : α → β → Prop}

theorem goes_store (line : Nat) {p : StoreM α} {q : StoreM β} (goes : Store.Goes scene.like scene.links good p q) :
    scene.Goes good (onStore line p) (onStore line q) := by
  intro m n like
  unfold onStore
  rcases agree_cases _ _ _ _ _ (goes m.store n.store like.store) with
    ⟨a, b, s, t, left, right, value, store⟩ | ⟨fault, other, s, t, left, right, same, store⟩
  · simp only [left, right]
    exact .ok _ _ _ _ value ⟨store, like.env, like.env', like.here, like.there, like.source, like.sink⟩
  · simp only [left, right]
    exact .error _ _ _ _ (congrArg (fun text => some (Diagnostic.runtime line text)) same)
      ⟨store, like.env, like.env', like.here, like.there, like.source, like.sink⟩

theorem goes_sink (report : StreamError → Error) (act : EStateM StreamError Sink α) :
    scene.Goes Eq (onSink report act) (onSink report act) := by
  intro m n like
  unfold onSink
  rw [like.sink]
  cases run : act m.sink with
  | ok a sink =>
      simp only [run]
      exact .ok _ _ _ _ rfl ⟨like.store, like.env, like.env', like.here, like.there, like.source, rfl⟩
  | error e sink =>
      simp only [run]
      exact .error _ _ _ _ rfl ⟨like.store, like.env, like.env', like.here, like.there, like.source, rfl⟩

theorem goes_source (report : StreamError → Error) (act : EStateM StreamError Source α) :
    scene.Goes Eq (onSource report act) (onSource report act) := by
  intro m n like
  unfold onSource
  rw [like.source]
  cases act m.source with
  | ok a source => exact .ok _ _ _ _ rfl ⟨like.store, like.env, like.env', like.here, like.there, rfl, like.sink⟩
  | error e source => exact .error _ _ _ _ rfl ⟨like.store, like.env, like.env', like.here, like.there, rfl, like.sink⟩

theorem goes_fail (line : Nat) {fault other : RuntimeFault} (same : other.text = fault.text) :
    scene.Goes good (fail line fault) (fail line other) :=
  matched_throw _ _ _ _ _ (congrArg (fun text => some (Diagnostic.runtime line text)) same)

theorem goes_fail_on (line : Nat) (fault : Value → RuntimeFault) {value other : Value} (named : NamesByText fault)
    (same : value.Like scene.like other) : scene.Goes good (fail line (fault value)) (fail line (fault other)) :=
  goes_fail line (named _ _ (like_text same))

theorem goes_exhausted : scene.Goes good (throw .exhausted) (throw .exhausted) :=
  matched_throw _ _ _ _ _ rfl

theorem goes_env : scene.Goes (fun env env' => env = scene.env ∧ env' = scene.env') currentEnv currentEnv :=
  fun m n like => .ok _ _ m n ⟨like.env, like.env'⟩ like

theorem goes_at_env {f : Env → Eval α} {g : Env → Eval β} (rest : scene.Goes good (f scene.env) (g scene.env')) :
    scene.Goes good (currentEnv >>= f) (currentEnv >>= g) := by
  apply matched_bind _ _ _ _ _ _ _ _ goes_env
  rintro _ _ ⟨rfl, rfl⟩
  exact rest

theorem goes_define_name (link : scene.links.linked scene.env.inner scene.env'.inner) (name : Name) {value other : Value}
    (same : value.Like scene.like other) : scene.Goes Eq (define name value) (define name other) :=
  goes_at_env (goes_store _ (goes_define link name.text same))

theorem goes_except (line : Nat) (result : Except RuntimeFault Value)
    (plain : ∀ value, result = .ok value → value.IsPlain) :
    scene.Goes (Value.Like scene.like) (ofExcept line result) (ofExcept line result) := by
  cases result with
  | ok value => exact matched_pure _ _ _ _ _ (.plain value (plain value rfl))
  | error fault => exact goes_fail line rfl

theorem goes_unary (operator : Token) {value other : Value} (same : value.Like scene.like other) :
    scene.Goes (Value.Like scene.like) (ofExcept operator.line (value.applyUnary operator))
      (ofExcept operator.line (other.applyUnary operator)) := by
  rw [like_unary operator same]
  exact goes_except _ _ fun result run => (unary_operand operator value result run).2

theorem goes_binary (operator : Token) {left left' right right' : Value} (first : left.Like scene.like left')
    (second : right.Like scene.like right') :
    scene.Goes (Value.Like scene.like) (ofExcept operator.line (left.applyBinary operator right))
      (ofExcept operator.line (left'.applyBinary operator right')) := by
  rw [like_binary operator first second]
  exact goes_except _ _ fun result run => (binary_operands operator left right result run).2

theorem goes_condition (construct : Construct) (line : Nat) {value other : Value} (same : value.Like scene.like other) :
    scene.Goes Eq (asCondition construct line value) (asCondition construct line other) := by
  cases same with
  | plain _ plain =>
      cases value with
      | bool truth => exact matched_pure _ _ _ _ _ rfl
      | _ => exact goes_fail line rfl
  | function identity closure other same =>
      exact goes_fail_on line _ (not_condition_by_text construct) (.function identity closure other same)
  | «class» c other same => exact goes_fail_on line _ (not_condition_by_text construct) (.class c other same)
  | object object other same => exact goes_fail_on line _ (not_condition_by_text construct) (.object object other same)

theorem goes_arity (line : Nat) {value other : Value} (same : value.Like scene.like other)
    {arguments arguments' : List Value} (count : arguments'.length = arguments.length) :
    scene.Goes Eq (checkArity value arguments line) (checkArity other arguments' line) := by
  unfold checkArity
  rw [like_arity same, count]
  cases value.arity? with
  | none => exact goes_fail_on line _ not_callable_by_text same
  | some arity =>
      by_cases fits : arguments.length = arity
      · simp only [fits, if_true]
        exact matched_pure _ _ _ _ _ rfl
      · simp only [fits, if_false]
        exact goes_fail line rfl

theorem goes_parameters {env env' : Env} (link : scene.links.linked env.inner env'.inner) :
    ∀ (names : List Name) {values others : List Value}, List.Forall₂ (Value.Like scene.like) values others →
      scene.Goes Eq (defineAll env names values) (defineAll env' names others)
  | [], _, _, _ => matched_pure _ _ _ _ _ rfl
  | _ :: _, [], _, .nil => matched_pure _ _ _ _ _ rfl
  | name :: names, _ :: _, _ :: _, .cons first rest =>
      matched_bind _ _ _ _ _ _ _ _ (goes_store name.line (goes_define link name.text first)) fun _ _ _ =>
        goes_parameters link names rest

theorem goes_answer {closure other : Closure} (head : closure.SameHead other)
    (link : closure.isConstructor = true → scene.links.linked closure.env.inner other.env.inner) {flow flow' : Flow}
    (same : flow.Like scene.like flow') :
    scene.Goes (Value.Like scene.like) (answer closure flow) (answer other flow') := by
  unfold answer
  rw [head.constructor, head.name]
  cases kind : closure.isConstructor with
  | true => exact goes_store _ (goes_get_at rfl rfl (link kind) "this")
  | false =>
      cases same with
      | normal => exact matched_pure _ _ _ _ _ (.plain .none trivial)
      | returned value other same => exact matched_pure _ _ _ _ _ same

theorem goes_parity (native : Native) (line : Nat) {value other : Value} (same : value.Like scene.like other) :
    scene.Goes Eq (native.parity line value) (native.parity line other) := by
  cases same with
  | plain _ plain =>
      cases value with
      | number n => exact matched_pure _ _ _ _ _ rfl
      | _ => exact goes_fail line rfl
  | function identity closure other same =>
      exact goes_fail_on line _ (no_parity_by_text native) (.function identity closure other same)
  | «class» c other same => exact goes_fail_on line _ (no_parity_by_text native) (.class c other same)
  | object object other same => exact goes_fail_on line _ (no_parity_by_text native) (.object object other same)

theorem goes_native (native : Native) {arguments arguments' : List Value}
    (same : List.Forall₂ (Value.Like scene.like) arguments arguments') (line : Nat) :
    scene.Goes (Value.Like scene.like) (native.call arguments line) (native.call arguments' line) := by
  have first : (arguments.headD .none).Like scene.like (arguments'.headD .none) := by
    cases same with
    | nil => exact .plain .none trivial
    | cons first rest => exact first
  unfold Native.call
  dsimp only
  revert first
  generalize arguments.headD .none = value
  generalize arguments'.headD .none = value'
  intro first
  cases native with
  | print =>
      dsimp only
      rw [like_text first]
      exact matched_bind _ _ _ _ _ _ _ _ (goes_sink _ _) fun _ _ _ => matched_pure _ _ _ _ _ (.plain .none trivial)
  | input =>
      apply matched_bind _ _ _ _ _ _ _ _ (goes_sink _ _)
      intro _ _ _
      apply matched_bind _ _ _ _ _ _ _ _ (goes_source _ _)
      rintro read _ rfl
      exact matched_pure _ _ _ _ _ (.plain (.string _) trivial)
  | isOdd =>
      apply matched_bind _ _ _ _ _ _ _ _ (goes_parity .isOdd line first)
      rintro even _ rfl
      exact matched_pure _ _ _ _ _ (.plain (.bool _) trivial)
  | isEven =>
      apply matched_bind _ _ _ _ _ _ _ _ (goes_parity .isEven line first)
      rintro even _ rfl
      exact matched_pure _ _ _ _ _ (.plain (.bool _) trivial)
  | typeOf =>
      dsimp only
      rw [like_type_name first]
      cases value.typeName? with
      | none => exact goes_fail_on line _ no_type_by_text first
      | some name =>
          exact matched_bind _ _ _ _ _ _ _ _ (goes_sink _ _) fun _ _ _ => matched_pure _ _ _ _ _ (.plain .none trivial)

theorem goes_function (link : scene.links.linked scene.env.inner scene.env'.inner) {routine other : Routine}
    (name : other.name = routine.name) (same : scene.like.function ⟨routine, scene.env, false⟩ ⟨other, scene.env', false⟩) :
    scene.Goes Eq (defineFunction routine) (defineFunction other) := by
  unfold defineFunction
  rw [name]
  apply matched_bind _ _ _ _ _ _ _ _ (goes_store _ goes_new_identity)
  rintro identity _ rfl
  exact goes_at_env (goes_define_name link routine.name (.function identity _ _ same))

def methodsIn (env : Env) (methods : List Routine) : Bindings Closure :=
  Bindings.ofList (methods.map fun r => (r.name.text, ⟨r, env, r.isConstructor⟩))

theorem paired_methods {related : Closure → Closure → Prop} {env env' : Env} : ∀ {methods others : List Routine}
    {b b' : Bindings Closure}, b.Paired related b' →
    List.Forall₂ (fun r r' => r'.name = r.name ∧ related ⟨r, env, r.isConstructor⟩ ⟨r', env', r'.isConstructor⟩) methods others →
    ((methods.map fun r => (r.name.text, Closure.mk r env r.isConstructor)).foldl
      (fun b entry => b.insert entry.1 entry.2) b).Paired related
      ((others.map fun r => (r.name.text, Closure.mk r env' r.isConstructor)).foldl
        (fun b entry => b.insert entry.1 entry.2) b')
  | [], _, _, _, before, .nil => before
  | method :: rest, _, b, b', before, .cons ⟨name, same⟩ others => by
      simp only [List.map_cons, List.foldl_cons, name]
      exact paired_methods (Bindings.paired_insert before _ _ _ same) others

theorem goes_class (link : scene.links.linked scene.env.inner scene.env'.inner) (name : Name) {methods others : List Routine}
    (same : (methodsIn scene.env methods).Paired scene.like.method (methodsIn scene.env' others)) :
    scene.Goes Eq (defineClass name methods) (defineClass name others) := by
  intro m n like
  have none : Value.none.Like scene.like .none := .plain .none trivial
  rcases agree_cases _ _ _ _ _ (goes_define_name link name none m n like) with
    ⟨_, _, m', n', left, right, _⟩ | ⟨halt, other, m', n', left, right, failure, state⟩
  · have inside := link_inside like.store link
    have here := define_class_ok name methods m (define_absent name .none m m' _ left) (like.env ▸ inside.1)
    have there := define_class_ok name others n (define_absent name .none n n' _ right) (like.env' ▸ inside.2)
    rw [here, there]
    refine .ok _ _ _ _ rfl ⟨?_, like.env, like.env', like.here, like.there, like.source, like.sink⟩
    rw [like.env, like.env']
    exact like_write (like_identity (like_write like.store link name.text none)) link name.text
      (.class _ _ ⟨like.store.identities, rfl, same⟩)
  · unfold defineClass
    rw [bind_error _ left, bind_error _ right]
    exact .error _ _ _ _ failure state

end Steps

end TreeWalk
