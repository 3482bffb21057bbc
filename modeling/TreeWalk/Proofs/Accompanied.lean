import TreeWalk.Proofs.Companions

set_option autoImplicit false

namespace TreeWalk

structure Duet where
  scheme : Scheme
  seen : Visit → Prop
  distances : Distances
  located : ∀ v r, seen v → v.node.reference? = some r → distances[r.id]? = v.found

structure Machine.Echoed (k : Duet) (env : Env) (world : List k.scheme.Mark) (m n : Machine) : Prop where
  store : m.store.Echoed k.scheme k.seen world n.store
  here : m.env = env
  there : n.env = env
  distances : m.distances = k.distances
  echoed : n.distances = k.distances
  source : n.source = m.source
  sink : n.sink = m.sink

structure Scheme.Stands (S : Scheme) (world : List S.Mark) (scopes : List (Frame × S.Mark)) (env : Env) : Prop where
  views : Views world scopes env.chain
  fits : S.Fits scopes

def Value.EchoedAll (S : Scheme) (seen : Visit → Prop) (world : List S.Mark) : List Value → List Value → Prop
  | [], echoes => echoes = []
  | value :: rest, echoes =>
      ∃ value' rest', echoes = value' :: rest' ∧ value.Echoed S seen world value' ∧ EchoedAll S seen world rest rest'

namespace Duet

variable (k : Duet)

abbrev Echoes (world : List k.scheme.Mark) : Value → Value → Prop :=
  Value.Echoed k.scheme k.seen world

abbrev EchoesAll (world : List k.scheme.Mark) : List Value → List Value → Prop :=
  Value.EchoedAll k.scheme k.seen world

abbrev Flows (world : List k.scheme.Mark) : Flow → Flow → Prop :=
  Flow.Echoed k.scheme k.seen world

abbrev Leads {α β : Type} (env : Env) (world : List k.scheme.Mark) (p : Eval α) (q : Eval β)
    (good : List k.scheme.Mark → α → β → Prop) : Prop :=
  TreeWalk.Leads (Machine.Echoed k env) world p q good

structure Follows (regime : Regime) : Prop where
  renew : regime.renew = Regime.standard.renew
  read : ∀ (world : List k.scheme.Mark) (env : Env) (scopes : List (Frame × k.scheme.Mark)) (node : Expr) (id : Nat)
    (name : Name), node.reference? = some ⟨name.text, id⟩ → k.seen (.ofFrames node (scopes.map Prod.fst)) →
    k.scheme.Stands world scopes env →
    k.Leads env world (Regime.standard.read id name) (regime.read id (name.respell (k.scheme.reading scopes))) k.Echoes
  write : ∀ (world : List k.scheme.Mark) (env : Env) (scopes : List (Frame × k.scheme.Mark)) (node : Expr) (id : Nat)
    (name : Name) (value value' : Value), node.reference? = some ⟨name.text, id⟩ →
    k.seen (.ofFrames node (scopes.map Prod.fst)) → k.scheme.Stands world scopes env → k.Echoes world value value' →
    k.Leads env world (Regime.standard.write id name value)
      (regime.write id (name.respell (k.scheme.reading scopes)) value') fun _ _ _ => True

end Duet

section Steps

open Eval

variable {k : Duet} {env : Env} {world wider : List k.scheme.Mark} {α β : Type}

theorem stands_mono {scopes : List (Frame × k.scheme.Mark)} (grown : world <+: wider)
    (stands : k.scheme.Stands world scopes env) : k.scheme.Stands wider scopes env :=
  ⟨views_mono grown scopes _ stands.views, stands.fits⟩

theorem stands_declare {scopes : List (Frame × k.scheme.Mark)} (name : Name) (ready : Bool)
    (stands : k.scheme.Stands world scopes env) : k.scheme.Stands world (declareIn name ready scopes) env :=
  ⟨views_declare name ready scopes _ stands.views, k.scheme.fits_declare_in name ready scopes stands.fits⟩

theorem stands_behind {scopes : List (Frame × k.scheme.Mark)} (s : Stmt)
    (stands : k.scheme.Stands world scopes env) : k.scheme.Stands world (s.behind scopes) env :=
  ⟨views_behind s scopes _ stands.views, k.scheme.fits_behind scopes s stands.fits⟩

theorem value_mono (grown : world <+: wider) {value value' : Value} (pair : k.Echoes world value value') :
    k.Echoes wider value value' :=
  value_echoed_mono (fun _ => id) grown value value' pair

theorem values_mono (grown : world <+: wider) : ∀ {values values' : List Value}, k.EchoesAll world values values' →
    k.EchoesAll wider values values'
  | [], _, same => same
  | _ :: _, _, ⟨value', rest', same, first, rest⟩ => ⟨value', rest', same, value_mono grown first, values_mono grown rest⟩

theorem values_length : ∀ {values values' : List Value}, k.EchoesAll world values values' → values'.length = values.length
  | [], _, same => by cases same; rfl
  | _ :: _, _, ⟨_, _, same, _, rest⟩ => by
      cases same
      exact congrArg (· + 1) (values_length rest)

theorem leads_store {act : StoreM α} {echo : StoreM β} {good : List k.scheme.Mark → α → β → Prop} (line other : Nat)
    (leads : TreeWalk.Leads (Store.Echoed k.scheme k.seen) world act echo good) :
    k.Leads env world (onStore line act) (onStore other echo) good := by
  intro m n echoed a m' run
  unfold onStore at run ⊢
  cases first : act m.store with
  | error fault s => simp [first] at run
  | ok a' s =>
      simp only [first] at run
      cases run
      obtain ⟨wider, b, t, grown, second, store, result⟩ := leads m.store n.store echoed.store a s first
      simp only [second]
      exact ⟨wider, b, _, grown, rfl, ⟨store, echoed.here, echoed.there, echoed.distances, echoed.echoed,
        echoed.source, echoed.sink⟩, result⟩

theorem leads_sink (error : StreamError → Error) (act : EStateM StreamError Sink α) :
    k.Leads env world (onSink error act) (onSink error act) fun _ a b => b = a := by
  intro m n echoed a m' run
  unfold onSink at run ⊢
  rw [echoed.sink]
  cases first : act m.sink with
  | error e sink => simp [first] at run
  | ok a' sink =>
      simp only [first] at run ⊢
      cases run
      exact ⟨world, a, _, List.prefix_refl _, rfl, ⟨echoed.store, echoed.here, echoed.there, echoed.distances,
        echoed.echoed, echoed.source, rfl⟩, rfl⟩

theorem leads_source (error : StreamError → Error) (act : EStateM StreamError Source α) :
    k.Leads env world (onSource error act) (onSource error act) fun _ a b => b = a := by
  intro m n echoed a m' run
  unfold onSource at run ⊢
  rw [echoed.source]
  cases first : act m.source with
  | error e source => simp [first] at run
  | ok a' source =>
      simp only [first] at run ⊢
      cases run
      exact ⟨world, a, _, List.prefix_refl _, rfl, ⟨echoed.store, echoed.here, echoed.there, echoed.distances,
        echoed.echoed, rfl, echoed.sink⟩, rfl⟩

theorem leads_env {β γ : Type} {f : Env → Eval β} {g : Env → Eval γ} {good : List k.scheme.Mark → β → γ → Prop}
    (rest : k.Leads env world (f env) (g env) good) : k.Leads env world (currentEnv >>= f) (currentEnv >>= g) good := by
  intro m n echoed
  have first : (currentEnv >>= f) m = f env m := by rw [← echoed.here]; rfl
  have second : (currentEnv >>= g) n = g env n := by rw [← echoed.there]; rfl
  rw [first, second]
  exact rest m n echoed

theorem leads_within {inner : Env} {p : Eval α} {q : Eval β} {good : List k.scheme.Mark → α → β → Prop}
    (leads : k.Leads inner world p q good) : k.Leads env world (within inner p) (within inner q) good := by
  intro m n echoed a m' run
  unfold within at run ⊢
  cases first : p { m with env := inner } with
  | error halt last => simp [first] at run
  | ok a' last =>
      simp only [first] at run
      cases run
      obtain ⟨wider, b, t, grown, second, behind, result⟩ := leads { m with env := inner } { n with env := inner }
        ⟨echoed.store, rfl, rfl, echoed.distances, echoed.echoed, echoed.source, echoed.sink⟩ a last first
      simp only [second]
      exact ⟨wider, b, _, grown, rfl, ⟨behind.store, echoed.here, echoed.there, behind.distances, behind.echoed,
        behind.source, behind.sink⟩, result⟩

theorem leads_fail (line : Nat) (fault : RuntimeFault) {q : Eval β} {good : List k.scheme.Mark → α → β → Prop} :
    k.Leads env world (fail line fault) q good :=
  leads_throw _ q

theorem leads_except {good : List k.scheme.Mark → α → β → Prop} (line other : Nat) {result : Except RuntimeFault α}
    {echo : Except RuntimeFault β} (same : ∀ a, result = .ok a → ∃ b, echo = .ok b ∧ good world a b) :
    k.Leads env world (ofExcept line result) (ofExcept other echo) good := by
  cases result with
  | error fault => exact leads_fail line fault
  | ok a =>
      obtain ⟨b, rfl, pair⟩ := same a rfl
      exact leads_pure a b pair

theorem leads_child (mark : k.scheme.Mark) : k.Leads env world childEnv childEnv (Nested mark env) :=
  leads_env (leads_store 0 0 (leads_nest mark env Bindings.spelled_empty))

theorem leads_define_name {scopes : List (Frame × k.scheme.Mark)} (stands : k.scheme.Stands world scopes env)
    (name : Name) (allowed : k.scheme.Allows (k.scheme.innermost scopes) name.text) {value value' : Value}
    (pair : k.Echoes world value value') :
    k.Leads env world (define name value) (define (name.respell (k.scheme.declaring scopes)) value')
      fun _ _ _ => True := by
  intro m n echoed
  have marked := views_inner echoed.store scopes env stands.views
  exact leads_env (leads_store _ _ (leads_define env marked allowed pair)) m n echoed

theorem unary_operand (operator : Token) (value result : Value) (run : value.applyUnary operator = .ok result) :
    value.IsPlain ∧ result.IsPlain := by
  unfold Value.applyUnary at run
  split at run <;> cases value <;> cases run <;> exact ⟨trivial, trivial⟩

theorem leads_unary (operator : Token) {value value' : Value} (pair : k.Echoes world value value') :
    k.Leads env world (ofExcept operator.line (value.applyUnary operator))
      (ofExcept operator.line (value'.applyUnary operator)) k.Echoes := by
  apply leads_except
  intro result run
  obtain ⟨plain, computed⟩ := unary_operand operator value result run
  obtain rfl := (echoed_plain plain).mp pair
  exact ⟨result, run, (echoed_plain computed).mpr rfl⟩

theorem calculate_result (operator : Token) (a b : Float) (result : Value) (run : Value.calculate operator a b = .ok result) :
    result.IsPlain := by
  unfold Value.calculate at run
  split at run
  case h_3 =>
    split at run <;> cases run
    trivial
  all_goals cases run <;> trivial

theorem binary_operands (operator : Token) (left right result : Value) (run : left.applyBinary operator right = .ok result) :
    (left.IsPlain ∧ right.IsPlain ∨ operator.kind = .symbol .equalEqual ∨ operator.kind = .symbol .bangEqual) ∧
      result.IsPlain := by
  unfold Value.applyBinary at run
  split at run
  · cases left <;> cases right <;> cases run <;> exact ⟨.inl ⟨trivial, trivial⟩, trivial⟩
  · cases run; exact ⟨.inr (.inl ‹_›), trivial⟩
  · cases run; exact ⟨.inr (.inr ‹_›), trivial⟩
  · cases left <;> cases right <;> first | cases run | skip
    exact ⟨.inl ⟨trivial, trivial⟩, calculate_result operator _ _ result run⟩

theorem leads_binary (operator : Token) {left left' right right' : Value} (first : k.Echoes world left left')
    (second : k.Echoes world right right') :
    k.Leads env world (ofExcept operator.line (left.applyBinary operator right))
      (ofExcept operator.line (left'.applyBinary operator right')) k.Echoes := by
  apply leads_except
  intro result run
  obtain ⟨operands, computed⟩ := binary_operands operator left right result run
  refine ⟨result, ?_, (echoed_plain computed).mpr rfl⟩
  rw [← run]
  rcases operands with ⟨plain, also⟩ | same | same
  · rw [(echoed_plain plain).mp first, (echoed_plain also).mp second]
  · simp only [Value.applyBinary, same, echoed_equal first second]
  · simp only [Value.applyBinary, same, echoed_equal first second]

theorem leads_condition (construct : Construct) (line other : Nat) {value value' : Value}
    (pair : k.Echoes world value value') :
    k.Leads env world (asCondition construct line value) (asCondition construct other value') fun _ a b => b = a := by
  cases value with
  | bool truth => cases pair; exact leads_pure _ _ rfl
  | _ => exact leads_fail _ _

theorem leads_arity (line other : Nat) {value value' : Value} (pair : k.Echoes world value value')
    {arguments arguments' : List Value} (pairs : k.EchoesAll world arguments arguments') :
    k.Leads env world (checkArity value arguments line) (checkArity value' arguments' other) fun _ _ _ => True := by
  unfold checkArity
  rw [echoed_arity pair]
  cases value.arity? with
  | none => exact leads_fail _ _
  | some arity =>
      dsimp only
      rw [values_length pairs]
      by_cases fits : arguments.length = arity
      · simp only [fits, if_true]
        exact leads_pure _ _ trivial
      · simp only [fits, if_false]
        exact leads_fail _ _

theorem leads_parameters {mark : k.scheme.Mark} (inside : Env) : ∀ (world : List k.scheme.Mark) (names : List Name)
    (values values' : List Value), world[inside.inner]? = some mark →
    (∀ name ∈ names, k.scheme.Allows mark name.text) → k.EchoesAll world values values' →
    k.Leads env world (defineAll inside names values)
      (defineAll inside (names.map (Name.respell (k.scheme.spell mark))) values') fun _ _ _ => True
  | _, [], _, _, _, _, _ => leads_pure _ _ trivial
  | _, _ :: _, [], _, _, _, same => by
      cases same
      exact leads_pure _ _ trivial
  | _, name :: names, value :: values, _, marked, allowed, ⟨value', rest', same, first, rest⟩ => by
      cases same
      apply leads_bind (leads_store _ _ (leads_define inside marked (allowed name List.mem_cons_self) first))
      intro wider _ _ grown _
      exact leads_parameters inside wider names values rest' (get_longer grown _ _ marked)
        (fun other member => allowed other (List.mem_cons_of_mem _ member)) (values_mono grown rest)

theorem leads_get_property (name : Name) {value value' : Value} (pair : k.Echoes world value value') :
    k.Leads env world (property name value) (property name value') k.Echoes := by
  cases value with
  | object target =>
      obtain ⟨target', rfl, same⟩ := pair
      exact leads_store _ _ (leads_property same name.text)
  | _ => exact leads_fail _ _

theorem leads_receiver {closure closure' : Closure} (pair : closure.Echoed k.scheme k.seen world [] closure') :
    TreeWalk.Leads (Store.Echoed k.scheme k.seen) world (Store.getAt closure.env 0 "this")
      (Store.getAt closure'.env 0 "this") k.Echoes := by
  obtain ⟨scopes, views, _⟩ := pair.routine
  intro s t echoed value s' run
  have marked := views_inner echoed scopes closure.env views
  rw [pair.env]
  unfold Store.getAt at run ⊢
  simp only [Env.chain, List.getElem?_cons_zero] at run ⊢
  cases found : (s.layer closure.env.inner).find? "this" with
  | none => simp [found] at run
  | some receiver =>
      simp only [found] at run
      cases run
      obtain ⟨value', there, same⟩ := (echoed.layers _ _ marked).found "this" value found
      rw [show k.scheme.spell _ "this" = "this" from k.scheme.spell_receiver _] at there
      simp only [there]
      exact ⟨world, value', t, List.prefix_refl _, rfl, echoed, same⟩

theorem leads_answer {closure closure' : Closure} (pair : closure.Echoed k.scheme k.seen world [] closure')
    {flow flow' : Flow} (same : k.Flows world flow flow') :
    k.Leads env world (answer closure flow) (answer closure' flow') k.Echoes := by
  unfold answer
  rw [pair.constructor]
  cases closure.isConstructor with
  | true => exact leads_store _ _ (leads_receiver pair)
  | false =>
      cases flow with
      | normal => cases same; exact leads_pure Value.none Value.none rfl
      | returned value =>
          obtain ⟨value', rfl, result⟩ := same
          exact leads_pure _ _ result

theorem leads_parity (native : Native) (line other : Nat) {value value' : Value} (pair : k.Echoes world value value') :
    k.Leads env world (native.parity line value) (native.parity other value') fun _ a b => b = a := by
  cases value with
  | number n => cases pair; exact leads_pure _ _ rfl
  | _ => exact leads_fail _ _

theorem leads_native (native : Native) {arguments arguments' : List Value}
    (pairs : k.EchoesAll world arguments arguments') (line : Nat) :
    k.Leads env world (native.call arguments line) (native.call arguments' line) k.Echoes := by
  have first : k.Echoes world (arguments.headD .none) (arguments'.headD .none) := by
    cases arguments with
    | nil => cases pairs; exact none_echoed
    | cons value rest => obtain ⟨value', rest', rfl, pair, _⟩ := pairs; exact pair
  unfold Native.call
  dsimp only
  revert first
  generalize arguments.headD .none = value
  generalize arguments'.headD .none = value'
  intro first
  cases native with
  | print =>
      dsimp only
      rw [echoed_text first]
      exact leads_bind (leads_sink _ _) fun _ _ _ _ _ => leads_pure Value.none Value.none rfl
  | input =>
      apply leads_bind (leads_sink _ _)
      intro _ _ _ _ _
      apply leads_bind (leads_source _ _)
      rintro _ read _ _ rfl
      exact leads_pure (Value.string _) (Value.string _) rfl
  | isOdd =>
      apply leads_bind (leads_parity .isOdd line line first)
      rintro _ even _ _ rfl
      exact leads_pure (Value.bool _) (Value.bool _) rfl
  | isEven =>
      apply leads_bind (leads_parity .isEven line line first)
      rintro _ even _ _ rfl
      exact leads_pure (Value.bool _) (Value.bool _) rfl
  | typeOf =>
      dsimp only
      rw [echoed_type_name first]
      cases value.typeName? with
      | none => exact leads_fail _ _
      | some name => exact leads_bind (leads_sink _ _) fun _ _ _ _ _ => leads_pure Value.none Value.none rfl

end Steps

end TreeWalk
