import TreeWalk.Proofs.Echoes
import TreeWalk.Proofs.Kept

set_option autoImplicit false

namespace TreeWalk

section Leads

variable {Mark ε ζ σ τ α β γ δ : Type} {related : List Mark → σ → τ → Prop} {world : List Mark}

def Leads (related : List Mark → σ → τ → Prop) (world : List Mark) (p : EStateM ε σ α) (q : EStateM ζ τ β)
    (good : List Mark → α → β → Prop) : Prop :=
  ∀ s t, related world s t → ∀ a s', p s = .ok a s' →
    ∃ wider b t', world <+: wider ∧ q t = .ok b t' ∧ related wider s' t' ∧ good wider a b

variable {p : EStateM ε σ α} {q : EStateM ζ τ β} {good : List Mark → α → β → Prop}

theorem leads_pure (a : α) (b : β) (here : good world a b) :
    Leads related world (pure a : EStateM ε σ α) (pure b : EStateM ζ τ β) good := by
  intro s t state _ _ run
  cases run
  exact ⟨world, b, t, List.prefix_refl _, rfl, state, here⟩

theorem leads_throw (e : ε) (q : EStateM ζ τ β) : Leads related world (throw e : EStateM ε σ α) q good :=
  fun _ _ _ _ _ run => nomatch run

theorem leads_bind {f : α → EStateM ε σ γ} {g : β → EStateM ζ τ δ} {last : List Mark → γ → δ → Prop}
    (first : Leads related world p q good)
    (rest : ∀ wider a b, world <+: wider → good wider a b → Leads related wider (f a) (g b) last) :
    Leads related world (p >>= f) (q >>= g) last := by
  intro s t state c s'' run
  cases begun : p s with
  | error e s' => rw [bind_error f begun] at run; cases run
  | ok a s' =>
      rw [bind_ok f begun] at run
      obtain ⟨wider, b, t', grown, there, next, middle⟩ := first s t state a s' begun
      obtain ⟨widest, d, t'', further, ended, final, result⟩ := rest wider a b grown middle s' t' next c s'' run
      exact ⟨widest, d, t'', grown.trans further, (bind_ok g there).trans ended, final, result⟩

theorem leads_weaken {weak : List Mark → α → β → Prop} (leads : Leads related world p q good)
    (weaker : ∀ wider a b, world <+: wider → good wider a b → weak wider a b) : Leads related world p q weak := by
  intro s t state a s' run
  obtain ⟨wider, b, t', grown, there, next, middle⟩ := leads s t state a s' run
  exact ⟨wider, b, t', grown, there, next, weaker wider a b grown middle⟩

end Leads

-- Stores with the same layers and instances, where the marks of the layers say how each is spelled.
structure Store.Echoed (S : Scheme) (seen : Visit → Prop) (world : List S.Mark) (s t : Store) : Prop where
  size : world.length = s.layers.size
  sizes : t.layers.size = s.layers.size
  ground : world[0]? = some S.ground
  layers : ∀ layer mark, world[layer]? = some mark →
    (s.layer layer).Spelled (S.spell mark) (S.Allows mark) (Value.Echoed S seen world) (t.layer layer)
  objects : t.objects.size = s.objects.size
  fields : ∀ object, (s.fields object).Paired (Value.Echoed S seen world) (t.fields object)
  identities : t.nextIdentity = s.nextIdentity

section Stores

variable {S : Scheme} {seen : Visit → Prop} {world : List S.Mark} {s t : Store}

theorem mark_inside (echoed : s.Echoed S seen world t) {layer : Nat} {mark : S.Mark}
    (marked : world[layer]? = some mark) : layer < s.layers.size := by
  rw [← echoed.size]
  exact (List.getElem?_eq_some_iff.mp marked).1

theorem views_inner (echoed : s.Echoed S seen world t) (scopes : List (Frame × S.Mark)) (env : Env)
    (views : Views world scopes env.chain) : world[env.inner]? = some (S.innermost scopes) := by
  cases scopes with
  | nil =>
      have ground : env.inner = 0 := (List.cons.inj views).1
      rw [ground]
      exact echoed.ground
  | cons scope outer => exact views.1

theorem store_echoed_mono {more : Visit → Prop} (shown : ∀ v, seen v → more v) (echoed : s.Echoed S seen world t) :
    s.Echoed S more world t where
  size := echoed.size
  sizes := echoed.sizes
  ground := echoed.ground
  layers layer mark marked :=
    Bindings.spelled_mono (value_echoed_mono shown (List.prefix_refl _)) (echoed.layers layer mark marked)
  objects := echoed.objects
  fields object := Bindings.paired_mono (value_echoed_mono shown (List.prefix_refl _)) (echoed.fields object)
  identities := echoed.identities

theorem echoed_write (echoed : s.Echoed S seen world t) {layer : Nat} {mark : S.Mark} (marked : world[layer]? = some mark)
    {name : String} {value value' : Value} (allowed : S.Allows mark name) (pair : value.Echoed S seen world value') :
    (s.write layer name value).Echoed S seen world (t.write layer (S.spell mark name) value') where
  size := echoed.size.trans (Array.size_modify ..).symm
  sizes := by simpa [Store.write] using echoed.sizes
  ground := echoed.ground
  layers other kind known := by
    have inside := mark_inside echoed marked
    by_cases same : other = layer
    · subst same
      obtain rfl : mark = kind := Option.some.inj (marked.symm.trans known)
      rw [Store.layer_write_self s other name value inside,
        Store.layer_write_self t other _ value' (echoed.sizes.symm ▸ inside)]
      exact Bindings.spelled_insert (S.distinct mark) (echoed.layers other mark marked) name value value' allowed pair
    · rw [Store.layer_write_other s layer other name value same, Store.layer_write_other t layer other _ value' same]
      exact echoed.layers other kind known
  objects := echoed.objects
  fields := echoed.fields
  identities := echoed.identities

theorem echoed_push (echoed : s.Echoed S seen world t) (mark : S.Mark) {b b' : Bindings Value}
    (spelled : b.Spelled (S.spell mark) (S.Allows mark) (Value.Echoed S seen world) b') :
    Store.Echoed S seen (world ++ [mark]) { s with layers := s.layers.push b } { t with layers := t.layers.push b' } := by
  have grown : world <+: world ++ [mark] := List.prefix_append _ _
  constructor
  case size => simp [echoed.size]
  case sizes => simp [echoed.sizes]
  case ground => exact get_longer grown 0 _ echoed.ground
  case layers =>
    intro layer kind known
    by_cases old : layer < world.length
    · rw [List.getElem?_append_left old] at known
      rw [Store.layer_push s b layer (echoed.size ▸ old), Store.layer_push t b' layer (echoed.sizes ▸ echoed.size ▸ old)]
      exact Bindings.spelled_mono (value_echoed_mono (fun _ => id) grown) (echoed.layers layer kind known)
    · have new : layer = world.length := by
        have inside := (List.getElem?_eq_some_iff.mp known).1
        simp only [List.length_append, List.length_singleton] at inside
        omega
      subst new
      obtain rfl : mark = kind := by simpa using known
      rw [echoed.size, Store.layer_push_new s b, ← echoed.sizes, Store.layer_push_new t b']
      exact Bindings.spelled_mono (value_echoed_mono (fun _ => id) grown) spelled
  case objects => exact echoed.objects
  case fields => exact fun object => Bindings.paired_mono (value_echoed_mono (fun _ => id) grown) (echoed.fields object)
  case identities => exact echoed.identities

theorem echoed_clear (echoed : s.Echoed S seen world t) (layer : Nat) :
    Store.Echoed S seen world { s with layers := s.layers.modify layer fun _ => .empty }
      { t with layers := t.layers.modify layer fun _ => .empty } where
  size := echoed.size.trans (Array.size_modify ..).symm
  sizes := by simpa using echoed.sizes
  ground := echoed.ground
  layers other kind known := by
    by_cases same : other = layer
    · subst same
      rw [layer_clear_self, layer_clear_self]
      exact Bindings.spelled_empty
    · rw [layer_clear_other s layer other same, layer_clear_other t layer other same]
      exact echoed.layers other kind known
  objects := echoed.objects
  fields := echoed.fields
  identities := echoed.identities

theorem echoed_identity (echoed : s.Echoed S seen world t) :
    Store.Echoed S seen world { s with nextIdentity := s.nextIdentity + 1 } { t with nextIdentity := t.nextIdentity + 1 } :=
  ⟨echoed.size, echoed.sizes, echoed.ground, echoed.layers, echoed.objects, echoed.fields,
    congrArg (· + 1) echoed.identities⟩

theorem echoed_object (echoed : s.Echoed S seen world t) :
    Store.Echoed S seen world { s with objects := s.objects.push .empty } { t with objects := t.objects.push .empty } where
  size := echoed.size
  sizes := echoed.sizes
  ground := echoed.ground
  layers := echoed.layers
  objects := by simp [echoed.objects]
  fields object := by
    rw [fields_push s, fields_push t]
    exact echoed.fields object
  identities := echoed.identities

theorem fields_insert (s : Store) (object other : Nat) (name : String) (value : Value) :
    ({ s with objects := s.objects.modify object fun b => b.insert name value } : Store).fields other =
      if other = object ∧ object < s.objects.size then (s.fields other).insert name value else s.fields other := by
  by_cases same : other = object
  · subst same
    by_cases inside : other < s.objects.size
    · simp [Store.fields, Array.getD_eq_getD_getElem?, Array.getElem_modify, inside]
    · simp [Store.fields, Array.getD_eq_getD_getElem?, inside]
  · simp [Store.fields, Array.getD_eq_getD_getElem?, Array.getElem?_modify, same, Ne.symm same]

theorem echoed_field (echoed : s.Echoed S seen world t) (object : Nat) (name : String) {value value' : Value}
    (pair : value.Echoed S seen world value') :
    Store.Echoed S seen world { s with objects := s.objects.modify object fun b => b.insert name value }
      { t with objects := t.objects.modify object fun b => b.insert name value' } where
  size := echoed.size
  sizes := echoed.sizes
  ground := echoed.ground
  layers := echoed.layers
  objects := by simpa using echoed.objects
  fields other := by
    rw [fields_insert s, fields_insert t, echoed.objects]
    split
    · exact Bindings.paired_insert (echoed.fields other) name value value' pair
    · exact echoed.fields other
  identities := echoed.identities

end Stores

section Operations

variable {S : Scheme} {seen : Visit → Prop} {world : List S.Mark} {α β : Type}

def Nested (mark : S.Mark) (env : Env) (wider : List S.Mark) (inside echo : Env) : Prop :=
  echo = inside ∧ inside.outer = env.chain ∧ wider[inside.inner]? = some mark

theorem nested_views {mark : S.Mark} {env inside echo : Env} {wider : List S.Mark} {scopes : List (Frame × S.Mark)}
    (nested : Nested mark env wider inside echo) (grown : world <+: wider) (views : Views world scopes env.chain)
    (frame : Frame) : Views wider ((frame, mark) :: scopes) inside.chain := by
  obtain ⟨_, outer, marked⟩ := nested
  refine ⟨marked, ?_⟩
  rw [outer]
  exact views_mono grown scopes _ views

theorem leads_nest (mark : S.Mark) (env : Env) {b b' : Bindings Value}
    (spelled : b.Spelled (S.spell mark) (S.Allows mark) (Value.Echoed S seen world) b') :
    Leads (Store.Echoed S seen) world (Store.nest env b) (Store.nest env b') (Nested mark env) := by
  intro s t echoed a s' run
  cases run
  refine ⟨world ++ [mark], env.child s.layers.size, _, List.prefix_append _ _, ?_,
    echoed_push echoed mark spelled, rfl, rfl, ?_⟩
  · rw [← echoed.sizes]
    rfl
  · show (world ++ [mark])[s.layers.size]? = some mark
    rw [← echoed.size]
    simp

theorem leads_define (env : Env) {mark : S.Mark} (marked : world[env.inner]? = some mark) {name : String}
    (allowed : S.Allows mark name) {value value' : Value} (pair : value.Echoed S seen world value') :
    Leads (Store.Echoed S seen) world (Store.define env name value) (Store.define env (S.spell mark name) value')
      fun _ _ _ => True := by
  intro s t echoed a s' run
  unfold Store.define at run
  cases known : (s.layer env.inner).contains name with
  | true => simp [known] at run
  | false =>
      have absent := Bindings.spelled_absent (S.distinct mark) (echoed.layers _ mark marked) name allowed known
      simp only [known, Bool.false_eq_true, if_false] at run
      cases run
      refine ⟨world, (), _, List.prefix_refl _, ?_, echoed_write echoed marked allowed pair, trivial⟩
      simp only [Store.define, absent, Bool.false_eq_true, if_false]

theorem leads_clear (env : Env) :
    Leads (Store.Echoed S seen) world (Store.clear env) (Store.clear env) fun _ _ _ => True := by
  intro s t echoed a s' run
  cases run
  exact ⟨world, (), _, List.prefix_refl _, rfl, echoed_clear echoed env.inner, trivial⟩

theorem leads_new_identity :
    Leads (Store.Echoed S seen) world Store.newIdentity Store.newIdentity fun _ identity echo => identity = echo := by
  intro s t echoed a s' run
  cases run
  exact ⟨world, t.nextIdentity, _, List.prefix_refl _, rfl, echoed_identity echoed, echoed.identities.symm⟩

theorem leads_new_instance {c c' : ClassValue} (pair : c.Echoed S seen world c') :
    Leads (Store.Echoed S seen) world (Store.newInstance c) (Store.newInstance c')
      fun wider object echo => object.Echoed S seen wider echo := by
  intro s t echoed a s' run
  cases run
  exact ⟨world, ⟨t.objects.size, c'⟩, _, List.prefix_refl _, rfl, echoed_object echoed, echoed.objects, pair⟩

theorem leads_set_field {object object' : Instance} (same : object.Echoed S seen world object') (name : String)
    {value value' : Value} (pair : value.Echoed S seen world value') :
    Leads (Store.Echoed S seen) world (Store.setField object name value) (Store.setField object' name value')
      fun _ _ _ => True := by
  intro s t echoed a s' run
  cases run
  refine ⟨world, (), _, List.prefix_refl _, rfl, ?_, trivial⟩
  rw [same.identity]
  exact echoed_field echoed object.identity name pair

theorem leads_method {name : Name} {methods : List Routine} {closure closure' : Closure} {object object' : Instance}
    (method : closure.Echoed S seen world [(.receiver name methods, S.receiver)] closure')
    (pair : object.Echoed S seen world object') :
    Leads (Store.Echoed S seen) world (Store.bind closure object) (Store.bind closure' object')
      fun wider bound echo => bound.Echoed S seen wider [] echo := by
  obtain ⟨scopes, views, fits, settled, paired⟩ := method.routine
  have receiver : (Bindings.empty.insert "this" (Value.object object)).Spelled (S.spell S.receiver)
      (S.Allows S.receiver) (Value.Echoed S seen world) (Bindings.empty.insert "this" (Value.object object')) := by
    have same : (Value.object object).Echoed S seen world (.object object') := ⟨object', rfl, pair⟩
    have spelled := Bindings.spelled_insert (S.distinct S.receiver) Bindings.spelled_empty receiverName _ _
      S.allows_receiver same
    rwa [S.spell_receiver] at spelled
  unfold Store.bind
  rw [method.env]
  apply leads_bind (leads_nest S.receiver closure.env receiver)
  rintro wider env echo grown nested
  have inside := nested_views nested grown views (.receiver name methods)
  obtain ⟨rfl, _⟩ := nested
  exact leads_pure _ _ ⟨rfl, method.constructor, _, inside, fits, settled, paired⟩

theorem leads_property {object object' : Instance} (pair : object.Echoed S seen world object') (name : String) :
    Leads (Store.Echoed S seen) world (Store.property object name) (Store.property object' name)
      fun wider => Value.Echoed S seen wider := by
  obtain ⟨className, methods, table⟩ := pair.ofClass.methods
  intro s t echoed
  unfold Store.property
  have field := echoed.fields object.identity name
  have method := table name
  rw [bind_ok _ (get_the_run s), bind_ok _ (get_the_run t), pair.identity]
  revert field method
  generalize (s.fields object.identity).find? name = here
  generalize (t.fields object.identity).find? name = there
  generalize object.ofClass.methods.find? name = known
  generalize object'.ofClass.methods.find? name = known'
  intro field method
  refine (?_ : Leads (Store.Echoed S seen) world _ _ fun wider => Value.Echoed S seen wider) s t echoed
  cases field with
  | some same => exact leads_pure _ _ same
  | none =>
      cases method with
      | none => exact leads_throw _ _
      | some method =>
          apply leads_bind leads_new_identity
          rintro wider identity _ grown rfl
          apply leads_bind (leads_method (closure_echoed_mono (fun _ => id) grown _ _ method)
            (object_echoed_mono (fun _ => id) grown _ _ pair))
          intro wider bound echo _ same
          exact leads_pure (Value.function identity bound) (Value.function identity echo) ⟨echo, rfl, same⟩

end Operations

end TreeWalk
