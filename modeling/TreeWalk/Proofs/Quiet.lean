import TreeWalk.Proofs.Kept

set_option autoImplicit false

namespace TreeWalk

structure SameButStreams (m next : Machine) : Prop where
  store : next.store = m.store
  env : next.env = m.env
  distances : next.distances = m.distances

def Value.IsInert : Value → Prop
  | .function _ _ | .class _ | .object _ => False
  | .number _ | .string _ | .bool _ | .none | .native _ => True

def RuntimeFault.isOfNames : RuntimeFault → Bool
  | .redefined _ | .undefined _ | .unassignable _ | .noLayer _ => true
  | _ => false

def Halt.Nameless : Halt → Prop
  | .failed (.runtime ⟨_, fault⟩) => fault.isOfNames = false
  | _ => True

theorem nameless_layers (halt : Halt) (nameless : halt.Nameless) : ¬ halt.MissesLayer := by
  intro misses
  unfold Halt.MissesLayer at misses
  split at misses
  · exact Bool.noConfusion (nameless : true = false)
  · exact misses

def Inert {α : Type} (eval : Eval α) (good : α → Prop) : Prop :=
  ∀ m, Ends eval m (fun a next => SameButStreams m next ∧ good a)
    fun halt next => SameButStreams m next ∧ halt.Nameless

section Inert

variable {α β : Type}

theorem inert_pure (a : α) (good : α → Prop) (here : good a) : Inert (pure a) good :=
  fun _ => ends_pure _ _ _ _ ⟨⟨rfl, rfl, rfl⟩, here⟩

theorem inert_fail (line : Nat) (fault : RuntimeFault) (good : α → Prop) (other : fault.isOfNames = false) :
    Inert (Eval.fail line fault) good :=
  fun _ => ⟨⟨rfl, rfl, rfl⟩, other⟩

theorem inert_bind {p : Eval α} {f : α → Eval β} {mid : α → Prop} {good : β → Prop} (first : Inert p mid)
    (rest : ∀ a, mid a → Inert (f a) good) : Inert (p >>= f) good := by
  intro m
  have trans : ∀ {m' m'' : Machine}, SameButStreams m m' → SameButStreams m' m'' → SameButStreams m m'' :=
    fun one two => ⟨two.store.trans one.store, two.env.trans one.env, two.distances.trans one.distances⟩
  apply ends_bind p f m _ _ _ (first m)
  intro a next ⟨same, middle⟩
  apply ends_mono _ _ _ _ _ _ (rest a middle next)
  · exact fun b last ⟨further, final⟩ => ⟨trans same further, final⟩
  · exact fun halt last ⟨further, stopped⟩ => ⟨trans same further, stopped⟩

theorem inert_sink (error : StreamError → Error) (act : EStateM StreamError Sink α) (good : α → Prop)
    (always : ∀ a, good a) (other : ∀ e, (Halt.failed (error e)).Nameless) :
    Inert (Eval.onSink error act) good := by
  intro m
  unfold Ends Eval.onSink
  cases run : act m.sink with
  | ok a sink => simp only [run]; exact ⟨⟨rfl, rfl, rfl⟩, always a⟩
  | error e sink => simp only [run]; exact ⟨⟨rfl, rfl, rfl⟩, other e⟩

theorem inert_source (error : StreamError → Error) (act : EStateM StreamError Source α) (good : α → Prop)
    (always : ∀ a, good a) (other : ∀ e, (Halt.failed (error e)).Nameless) :
    Inert (Eval.onSource error act) good := by
  intro m
  unfold Ends Eval.onSource
  cases run : act m.source with
  | ok a source => exact ⟨⟨rfl, rfl, rfl⟩, always a⟩
  | error e source => exact ⟨⟨rfl, rfl, rfl⟩, other e⟩

theorem inert_except (line : Nat) (result : Except RuntimeFault α) (good : α → Prop)
    (done : ∀ a, result = .ok a → good a) (other : ∀ fault, result = .error fault → fault.isOfNames = false) :
    Inert (Eval.ofExcept line result) good := by
  cases result with
  | ok a => exact inert_pure a good (done a rfl)
  | error fault => exact inert_fail line fault good (other fault rfl)

theorem inert_native (native : Native) (arguments : List Value) (line : Nat) :
    Inert (native.call arguments line) Value.IsInert := by
  have parity : ∀ (n : Native) (value : Value), Inert (n.parity line value) fun _ => True := by
    intro n value
    cases value with
    | number x => exact inert_pure _ _ trivial
    | _ => exact inert_fail _ _ _ rfl
  cases native with
  | print => exact inert_bind (inert_sink _ _ (fun _ => True) (fun _ => trivial) fun _ => rfl) fun _ _ =>
      inert_pure _ _ trivial
  | input =>
      exact inert_bind (inert_sink _ _ (fun _ => True) (fun _ => trivial) fun _ => rfl) fun _ _ =>
        inert_bind (inert_source _ _ (fun _ => True) (fun _ => trivial) fun _ => rfl) fun _ _ =>
          inert_pure _ _ trivial
  | isOdd => exact inert_bind (parity _ _) fun _ _ => inert_pure _ _ trivial
  | isEven => exact inert_bind (parity _ _) fun _ _ => inert_pure _ _ trivial
  | typeOf =>
      unfold Native.call
      dsimp only
      split
      · exact inert_bind (inert_sink _ _ (fun _ => True) (fun _ => trivial) fun _ => rfl) fun _ _ =>
          inert_pure _ _ trivial
      · exact inert_fail _ _ _ rfl

theorem unary_inert (operator : Token) (right : Value) :
    (∀ value, right.applyUnary operator = .ok value → value.IsInert) ∧
      ∀ fault, right.applyUnary operator = .error fault → fault.isOfNames = false := by
  unfold Value.applyUnary
  constructor
  · intro value applied
    split at applied <;> (try split at applied) <;> cases applied <;> trivial
  · intro fault applied
    split at applied <;> (try split at applied) <;> cases applied <;> rfl

theorem calculated_inert (operator : Token) (a b : Float) :
    (∀ value, Value.calculate operator a b = .ok value → value.IsInert) ∧
      ∀ fault, Value.calculate operator a b = .error fault → fault.isOfNames = false := by
  unfold Value.calculate
  constructor
  · intro value applied
    split at applied <;> (try split at applied) <;> cases applied <;> trivial
  · intro fault applied
    split at applied <;> (try split at applied) <;> cases applied <;> rfl

theorem binary_inert (operator : Token) (left right : Value) :
    (∀ value, left.applyBinary operator right = .ok value → value.IsInert) ∧
      ∀ fault, left.applyBinary operator right = .error fault → fault.isOfNames = false := by
  unfold Value.applyBinary Value.add
  constructor
  · intro value applied
    split at applied <;> (try split at applied) <;>
      first | exact (calculated_inert operator _ _).1 value applied | (cases applied <;> trivial)
  · intro fault applied
    split at applied <;> (try split at applied) <;>
      first | exact (calculated_inert operator _ _).2 fault applied | (cases applied <;> rfl)

theorem inert_unary (operator : Token) (right : Value) :
    Inert (Eval.ofExcept operator.line (right.applyUnary operator)) Value.IsInert :=
  inert_except _ _ _ (unary_inert operator right).1 (unary_inert operator right).2

theorem inert_binary (operator : Token) (left right : Value) :
    Inert (Eval.ofExcept operator.line (left.applyBinary operator right)) Value.IsInert :=
  inert_except _ _ _ (binary_inert operator left right).1 (binary_inert operator left right).2

theorem inert_condition (construct : Construct) (line : Nat) (value : Value) :
    Inert (Eval.asCondition construct line value) fun _ => True := by
  cases value with
  | bool b => exact inert_pure b _ trivial
  | _ => exact inert_fail _ _ _ rfl

theorem inert_arity (value : Value) (arguments : List Value) (line : Nat) :
    Inert (Eval.checkArity value arguments line) fun _ => value.arity? = some arguments.length := by
  unfold Eval.checkArity
  split
  · exact inert_fail _ _ _ rfl
  · rename_i arity callable
    split
    · rename_i same
      exact inert_pure _ _ (same ▸ callable)
    · exact inert_fail _ _ _ rfl

theorem inert_flush : Inert Eval.flush fun _ => True :=
  inert_sink _ _ _ (fun _ => trivial) fun _ => trivial

end Inert

def Quiet {α : Type} (eval : Eval α) (good : α → Prop) : Prop :=
  ∀ m, Ends eval m (fun a next => SameButStreams m next ∧ good a)
    fun halt next => SameButStreams m next ∧ ¬ halt.MissesLayer

def Value.Plain (value : Value) : Prop :=
  ∀ events, value.Known events

section Quiet

variable {α β : Type}

theorem inert_plain (value : Value) (inert : value.IsInert) : value.Plain := by
  intro events
  cases value <;> trivial

theorem quiet_of_inert {eval : Eval α} {strong weak : α → Prop} (inert : Inert eval strong)
    (weaker : ∀ a, strong a → weak a) : Quiet eval weak := by
  intro m
  apply ends_mono _ _ _ _ _ _ (inert m)
  · exact fun a next ⟨same, final⟩ => ⟨same, weaker a final⟩
  · exact fun halt next ⟨same, stopped⟩ => ⟨same, nameless_layers halt stopped⟩

theorem quiet_native (native : Native) (arguments : List Value) (line : Nat) :
    Quiet (native.call arguments line) Value.Plain :=
  quiet_of_inert (inert_native native arguments line) inert_plain

theorem quiet_unary (operator : Token) (right : Value) :
    Quiet (Eval.ofExcept operator.line (right.applyUnary operator)) Value.Plain :=
  quiet_of_inert (inert_unary operator right) inert_plain

theorem quiet_binary (operator : Token) (left right : Value) :
    Quiet (Eval.ofExcept operator.line (left.applyBinary operator right)) Value.Plain :=
  quiet_of_inert (inert_binary operator left right) inert_plain

theorem quiet_condition (construct : Construct) (line : Nat) (value : Value) :
    Quiet (Eval.asCondition construct line value) fun _ => True :=
  quiet_of_inert (inert_condition construct line value) fun _ => id

theorem quiet_arity (value : Value) (arguments : List Value) (line : Nat) :
    Quiet (Eval.checkArity value arguments line) fun _ => value.arity? = some arguments.length :=
  quiet_of_inert (inert_arity value arguments line) fun _ => id

theorem quiet_flush : Quiet Eval.flush fun _ => True :=
  quiet_of_inert inert_flush fun _ => id

theorem keeps_quiet {bound : Nat} {w : Watched} {eval : Eval α} {good : α → Prop} (quiet : Quiet eval good) :
    Keeps bound w (Watch.act eval) fun a next => good a ∧ next.events = w.events := by
  apply keeps_act
  intro _
  apply ends_mono _ _ _ _ _ _ (quiet w.machine)
  · exact fun a m ⟨same, final⟩ => ⟨⟨same.env, same.distances, same.store ▸ Store.grows_refl _⟩, final, rfl⟩
  · exact fun halt m ⟨same, stopped⟩ => ⟨⟨same.env, same.distances, same.store ▸ Store.grows_refl _⟩, stopped⟩

end Quiet

end TreeWalk
