import TreeWalk.Proofs.Environments

set_option autoImplicit false

namespace TreeWalk

open Eval

inductive Activity where
  | evaluate (e : Expr)
  | arguments (es : List Expr)
  | call (callee : Value) (arguments : List Value) (line : Nat)
  | enter (closure : Closure) (arguments : List Value)
  | execute (s : Stmt)
  | body (body : List Stmt)
  | choose (condition : Expr) (body : List Stmt) (alternative : Alternative)
  | loop (condition : Expr) (body : List Stmt) (env : Env)

-- A call of a native, with the state that it begins in.
structure NativeCall where
  native : Native
  arguments : List Value
  line : Nat
  machine : Machine

namespace NativeCall

def after (call : NativeCall) : Machine :=
  endState (call.native.call call.arguments call.line call.machine)

-- What is written by then fits, and with what the call writes it does not.
def Crosses (call : NativeCall) (limit : Nat) : Prop :=
  call.machine.sink.written.size ≤ limit ∧ limit < call.after.sink.written.size

end NativeCall

open Regime in
-- Walking, within a number of steps and from a state, comes to the call.
inductive Arrives (call : NativeCall) : Nat → Activity → Machine → Prop where
  | native (steps : Nat) : Arrives call (steps + 1) (.call (.native call.native) call.arguments call.line) call.machine
  | grouping {steps : Nat} {mark : Mark} {inner : Expr} {m : Machine} (arrives : Arrives call steps (.evaluate inner) m) :
      Arrives call (steps + 1) (.evaluate (.grouping mark inner)) m
  | unary {steps : Nat} {mark : Mark} {operator : Token} {right : Expr} {m : Machine}
      (arrives : Arrives call steps (.evaluate right) m) : Arrives call (steps + 1) (.evaluate (.unary mark operator right)) m
  | left {steps : Nat} {mark : Mark} {left : Expr} {operator : Token} {right : Expr} {m : Machine}
      (arrives : Arrives call steps (.evaluate left) m) :
      Arrives call (steps + 1) (.evaluate (.binary mark left operator right)) m
  | right {steps : Nat} {mark : Mark} {left : Expr} {operator : Token} {right : Expr} {m n : Machine} {value : Value}
      (before : standard.evaluate steps left m = .ok value n) (arrives : Arrives call steps (.evaluate right) n) :
      Arrives call (steps + 1) (.evaluate (.binary mark left operator right)) m
  | decided {steps : Nat} {mark : Mark} {left : Expr} {operator : Token} {right : Expr} {m : Machine}
      (arrives : Arrives call steps (.evaluate left) m) :
      Arrives call (steps + 1) (.evaluate (.logical mark left operator right)) m
  | undecided {steps : Nat} {mark : Mark} {left : Expr} {operator : Token} {right : Expr} {m n : Machine} {truth : Bool}
      (before : standard.evaluate steps left m = .ok (.bool truth) n) (more : Value.settles operator truth = false)
      (arrives : Arrives call steps (.evaluate right) n) :
      Arrives call (steps + 1) (.evaluate (.logical mark left operator right)) m
  | assigned {steps : Nat} {mark : Mark} {name : Name} {value : Expr} {m : Machine}
      (arrives : Arrives call steps (.evaluate value) m) : Arrives call (steps + 1) (.evaluate (.assign mark name value)) m
  | callee {steps : Nat} {mark : Mark} {callee : Expr} {arguments : List Expr} {line : Nat} {m : Machine}
      (arrives : Arrives call steps (.evaluate callee) m) :
      Arrives call (steps + 1) (.evaluate (.call mark callee arguments line)) m
  | arguments {steps : Nat} {mark : Mark} {callee : Expr} {arguments : List Expr} {line : Nat} {m n : Machine}
      {value : Value} (before : standard.evaluate steps callee m = .ok value n)
      (arrives : Arrives call steps (.arguments arguments) n) :
      Arrives call (steps + 1) (.evaluate (.call mark callee arguments line)) m
  | called {steps : Nat} {mark : Mark} {callee : Expr} {arguments : List Expr} {line : Nat} {m n k : Machine}
      {value : Value} {values : List Value} (before : standard.evaluate steps callee m = .ok value n)
      (rest : standard.evaluateAll steps arguments n = .ok values k) (fits : value.arity? = some values.length)
      (arrives : Arrives call steps (.call value values line) k) :
      Arrives call (steps + 1) (.evaluate (.call mark callee arguments line)) m
  | get {steps : Nat} {mark : Mark} {object : Expr} {name : Name} {m : Machine}
      (arrives : Arrives call steps (.evaluate object) m) : Arrives call (steps + 1) (.evaluate (.get mark object name)) m
  | target {steps : Nat} {mark : Mark} {object : Expr} {name : Name} {value : Expr} {m : Machine}
      (arrives : Arrives call steps (.evaluate object) m) :
      Arrives call (steps + 1) (.evaluate (.set mark object name value)) m
  | set {steps : Nat} {mark : Mark} {object : Expr} {name : Name} {value : Expr} {m n : Machine} {target : Instance}
      (before : standard.evaluate steps object m = .ok (.object target) n) (arrives : Arrives call steps (.evaluate value) n) :
      Arrives call (steps + 1) (.evaluate (.set mark object name value)) m
  | first {steps : Nat} {e : Expr} {rest : List Expr} {m : Machine} (arrives : Arrives call steps (.evaluate e) m) :
      Arrives call (steps + 1) (.arguments (e :: rest)) m
  | others {steps : Nat} {e : Expr} {rest : List Expr} {m n : Machine} {value : Value}
      (before : standard.evaluate steps e m = .ok value n) (arrives : Arrives call steps (.arguments rest) n) :
      Arrives call (steps + 1) (.arguments (e :: rest)) m
  | function {steps identity : Nat} {closure : Closure} {values : List Value} {line : Nat} {m : Machine}
      (arrives : Arrives call steps (.enter closure values) m) :
      Arrives call (steps + 1) (.call (.function identity closure) values line) m
  | creation {steps : Nat} {c : ClassValue} {method bound : Closure} {object : Instance} {values : List Value} {line : Nat}
      {m n k : Machine} (made : onStore line (Store.newInstance c) m = .ok object n) (found : c.constructor? = some method)
      (received : onStore line (Store.bind method object) n = .ok bound k)
      (arrives : Arrives call steps (.enter bound values) k) : Arrives call (steps + 1) (.call (.class c) values line) m
  | entered {steps : Nat} {closure : Closure} {values : List Value} {env : Env} {m n k : Machine}
      (nested : onStore 0 (Store.nest closure.env .empty) m = .ok env n)
      (defined : defineAll env closure.routine.parameters values n = .ok () k)
      (arrives : Arrives call steps (.body closure.routine.body) { k with env }) :
      Arrives call (steps + 1) (.enter closure values) m
  | expression {steps : Nat} {e : Expr} {m : Machine} (arrives : Arrives call steps (.evaluate e) m) :
      Arrives call (steps + 1) (.execute (.expression e)) m
  | initial {steps : Nat} {name : Name} {e : Expr} {m : Machine} (arrives : Arrives call steps (.evaluate e) m) :
      Arrives call (steps + 1) (.execute (.var name (some e))) m
  | block {steps : Nat} {body : List Stmt} {env : Env} {m n : Machine} (nested : childEnv m = .ok env n)
      (arrives : Arrives call steps (.body body) { n with env }) : Arrives call (steps + 1) (.execute (.block body)) m
  | branch {steps : Nat} {condition : Expr} {body : List Stmt} {alternative : Alternative} {m : Machine}
      (arrives : Arrives call steps (.choose condition body alternative) m) :
      Arrives call (steps + 1) (.execute (.branch condition body alternative)) m
  | while {steps : Nat} {condition : Expr} {body : List Stmt} {env : Env} {m n : Machine} (nested : childEnv m = .ok env n)
      (arrives : Arrives call steps (.loop condition body env) n) :
      Arrives call (steps + 1) (.execute (.while condition body)) m
  | return {steps line : Nat} {e : Expr} {m : Machine} (arrives : Arrives call steps (.evaluate e) m) :
      Arrives call (steps + 1) (.execute (.return line (some e))) m
  | begun {steps : Nat} {s : Stmt} {rest : List Stmt} {m : Machine} (arrives : Arrives call steps (.execute s) m) :
      Arrives call (steps + 1) (.body (s :: rest)) m
  | continued {steps : Nat} {s : Stmt} {rest : List Stmt} {m n : Machine}
      (before : standard.execute steps s m = .ok .normal n) (arrives : Arrives call steps (.body rest) n) :
      Arrives call (steps + 1) (.body (s :: rest)) m
  | condition {steps : Nat} {condition : Expr} {body : List Stmt} {alternative : Alternative} {m : Machine}
      (arrives : Arrives call steps (.evaluate condition) m) :
      Arrives call (steps + 1) (.choose condition body alternative) m
  | chosen {steps : Nat} {condition : Expr} {body : List Stmt} {alternative : Alternative} {env : Env} {m n k : Machine}
      (before : standard.evaluate steps condition m = .ok (.bool true) n) (nested : childEnv n = .ok env k)
      (arrives : Arrives call steps (.body body) { k with env }) :
      Arrives call (steps + 1) (.choose condition body alternative) m
  | elseIf {steps : Nat} {condition other : Expr} {body rest : List Stmt} {alternative : Alternative} {m n : Machine}
      (before : standard.evaluate steps condition m = .ok (.bool false) n)
      (arrives : Arrives call steps (.choose other rest alternative) n) :
      Arrives call (steps + 1) (.choose condition body (.elseIf other rest alternative)) m
  | otherwise {steps : Nat} {condition : Expr} {body other : List Stmt} {env : Env} {m n k : Machine}
      (before : standard.evaluate steps condition m = .ok (.bool false) n) (nested : childEnv n = .ok env k)
      (arrives : Arrives call steps (.body other) { k with env }) :
      Arrives call (steps + 1) (.choose condition body (.block other)) m
  | tested {steps : Nat} {condition : Expr} {body : List Stmt} {env : Env} {m : Machine}
      (arrives : Arrives call steps (.evaluate condition) m) : Arrives call (steps + 1) (.loop condition body env) m
  | round {steps : Nat} {condition : Expr} {body : List Stmt} {env : Env} {m n : Machine}
      (before : standard.evaluate steps condition m = .ok (.bool true) n)
      (arrives : Arrives call steps (.body body) { n with env }) : Arrives call (steps + 1) (.loop condition body env) m
  | again {steps : Nat} {condition : Expr} {body : List Stmt} {env next : Env} {m n k l : Machine}
      (before : standard.evaluate steps condition m = .ok (.bool true) n)
      (done : within env (standard.executeAll steps body) n = .ok .normal k)
      (renewed : standard.renew env k = .ok next l) (arrives : Arrives call steps (.loop condition body next) l) :
      Arrives call (steps + 1) (.loop condition body env) m

def Sink.cut (sink : Sink) (limit : Nat) : Sink :=
  { sink with written := sink.written.extract 0 limit, limit := some limit }

def Machine.limited (m : Machine) (limit : Nat) : Machine :=
  { m with sink := { m.sink with limit := some limit } }

-- The same ending in another state.
def endWith {ε σ τ α : Type} (change : σ → τ) : EStateM.Result ε σ α → EStateM.Result ε τ α
  | .ok a s => .ok a (change s)
  | .error e s => .error e (change s)

-- A step that writes nothing, and goes the same way whatever end the output has.
structure Writeless {α : Type} (p : Eval α) : Prop where
  env : ∀ m, (endState (p m)).env = m.env
  sink : ∀ m, (endState (p m)).sink = m.sink
  limited : ∀ m limit, p (m.limited limit) = endWith (·.limited limit) (p m)

-- With an end of the output at `limit` the run is the same if what it writes fits. If not, it comes to a call
-- that crosses the limit, and fails in the state that this call began in.
structure Truncates (limit : Nat) (arrives : NativeCall → Prop) {α : Type} (p : Eval α) (m : Machine) : Prop where
  env : (endState (p m)).env = m.env
  sink : ∃ more, (endState (p m)).sink = m.sink.append more
  fits : (endState (p m)).sink.written.size ≤ limit → p (m.limited limit) = endWith (·.limited limit) (p m)
  crosses : m.sink.written.size ≤ limit → limit < (endState (p m)).sink.written.size →
    ∃ call, arrives call ∧ call.Crosses limit ∧
      p (m.limited limit) = .error (.failed (call.native.streamError call.line .full))
        { call.machine with env := m.env, sink := (endState (p m)).sink.cut limit }

section Sinks

variable (sink : Sink) (octets more : ByteArray) (limit : Nat)

theorem append_append : (sink.append octets).append more = sink.append (octets ++ more) := by
  simp [Sink.append, ByteArray.append_assoc]

theorem append_nothing : sink.append .empty = sink := by
  simp [Sink.append]

theorem size_append : (sink.append octets).written.size = sink.written.size + octets.size :=
  ByteArray.size_append

theorem cut_append (full : limit ≤ sink.written.size) : (sink.append octets).cut limit = sink.cut limit := by
  simp [Sink.cut, Sink.append, ByteArray.extract_append, Nat.sub_eq_zero_of_le full]

theorem extract_whole (octets : ByteArray) (limit : Nat) (inside : octets.size ≤ limit) : octets.extract 0 limit = octets := by
  apply ByteArray.ext
  rw [ByteArray.data_extract]
  exact Array.extract_eq_self_of_le inside

theorem cut_behind (inside : sink.written.size ≤ limit) :
    (sink.append octets).cut limit = { sink.append (octets.extract 0 (limit - sink.written.size)) with limit := some limit } := by
  have whole := extract_whole sink.written limit inside
  have behind : (sink.written ++ octets).extract 0 limit = sink.written ++ octets.extract 0 (limit - sink.written.size) := by
    rw [ByteArray.extract_append, whole, Nat.zero_sub]
  unfold Sink.cut Sink.append
  rw [behind]

variable (native : Native) (line : Nat) (text : String) (m : Machine)

theorem write_line_free (free : m.sink.limit = none) :
    native.writeLine line text m = .ok () { m with sink := m.sink.append (text ++ "\n").toUTF8 } := by
  simp [Native.writeLine, onSink, Sink.write, Sink.room, free]

theorem write_line_fits (fits : (m.sink.append (text ++ "\n").toUTF8).written.size ≤ limit) :
    native.writeLine line text (m.limited limit) =
      .ok () (Machine.limited { m with sink := m.sink.append (text ++ "\n").toUTF8 } limit) := by
  rw [size_append] at fits
  have room : (m.limited limit).sink.room (text ++ "\n").toUTF8.size = (text ++ "\n").toUTF8.size :=
    Nat.min_eq_left (by show _ ≤ limit - m.sink.written.size; omega)
  unfold Native.writeLine onSink Sink.write
  simp only [room, if_true]
  rfl

theorem write_line_full (inside : m.sink.written.size ≤ limit)
    (full : limit < (m.sink.append (text ++ "\n").toUTF8).written.size) :
    native.writeLine line text (m.limited limit) = .error (.failed (native.streamError line .full))
      { m with sink := (m.sink.append (text ++ "\n").toUTF8).cut limit } := by
  rw [size_append] at full
  have room : (m.limited limit).sink.room (text ++ "\n").toUTF8.size = limit - m.sink.written.size :=
    Nat.min_eq_right (by show limit - m.sink.written.size ≤ _; omega)
  have less : limit - m.sink.written.size ≠ (text ++ "\n").toUTF8.size := by omega
  unfold Native.writeLine onSink Sink.write
  simp only [room, if_neg less]
  rw [cut_behind _ _ _ inside]
  rfl

end Sinks

section Steps

variable {α β : Type}

theorem writeless_sink {act : EStateM StreamError Sink α} (report : StreamError → Error)
    (quiet : ∀ sink, endState (act sink) = sink)
    (limited : ∀ sink limit, act { sink with limit := some limit } = endWith (fun s => { s with limit := some limit }) (act sink)) :
    Writeless (onSink report act) where
  env := returns_sink report act
  sink m := by
    have same := quiet m.sink
    unfold onSink
    cases run : act m.sink <;> rw [run] at same <;> simpa only [run, endState] using same
  limited m limit := by
    have same := limited m.sink limit
    unfold onSink Machine.limited
    cases run : act m.sink <;> rw [run] at same <;> simp only [same, run, endWith]

theorem writeless_flush (report : StreamError → Error) : Writeless (onSink report Sink.flush) := by
  refine writeless_sink report (fun sink => ?_) fun sink limit => ?_
  · unfold Sink.flush
    split <;> rfl
  · obtain ⟨written, old, refuses⟩ := sink
    cases refuses <;> rfl

theorem writeless_source (report : StreamError → Error) (act : EStateM StreamError Source α) :
    Writeless (onSource report act) where
  env := returns_source report act
  sink m := by
    unfold onSource
    cases act m.source <;> rfl
  limited m limit := by
    unfold onSource Machine.limited
    cases act m.source <;> rfl

theorem writeless_bind (p : Eval α) (f : α → Eval β) (first : Writeless p) (rest : ∀ a, Writeless (f a)) :
    Writeless (p >>= f) where
  env := returns_bind p f first.env fun a => (rest a).env
  sink m := by
    have here := first.sink m
    cases run : p m with
    | error halt n => rw [run] at here; rw [bind_error f run]; exact here
    | ok a n => rw [run] at here; rw [bind_ok f run]; exact ((rest a).sink n).trans here
  limited m limit := by
    have here := first.limited m limit
    cases run : p m with
    | error halt n => rw [run] at here; rw [bind_error f run, bind_error f here]; rfl
    | ok a n => rw [run] at here; rw [bind_ok f run, bind_ok f here]; exact (rest a).limited n limit

theorem writeless : Composed Writeless where
  done _ := ⟨fun _ => rfl, fun _ => rfl, fun _ _ => rfl⟩
  follow := writeless_bind
  env := ⟨fun _ => rfl, fun _ => rfl, fun _ _ => rfl⟩
  distance _ := ⟨fun _ => rfl, fun _ => rfl, fun _ _ => rfl⟩
  exhausted := ⟨fun _ => rfl, fun _ => rfl, fun _ _ => rfl⟩
  failed _ _ := ⟨fun _ => rfl, fun _ => rfl, fun _ _ => rfl⟩
  store line act :=
    { env := returns_store line act
      sink := fun m => by
        unfold onStore
        cases run : act m.store <;> simp only [run, endState]
      limited := fun m limit => by
        unfold onStore Machine.limited
        cases run : act m.store <;> simp only [run, endWith] }

theorem native_cases (native : Native) (arguments : List Value) (line : Nat) :
    Writeless (native.call arguments line) ∨ (native = .print ∨ native = .typeOf) ∧
      ∃ text, native.call arguments line = (native.writeLine line text >>= fun _ => pure .none) := by
  have parity : ∀ (n : Native) (value : Value), Writeless (n.parity line value) := by
    intro n value
    cases value with
    | number x => exact writeless.done _
    | _ => exact writeless.failed _ _
  cases native with
  | print => exact .inr ⟨.inl rfl, _, rfl⟩
  | input =>
      exact .inl (writeless_bind _ _ (writeless_flush _) fun _ =>
        writeless_bind _ _ (writeless_source _ _) fun _ => writeless.done _)
  | isOdd => exact .inl (writeless_bind _ _ (parity .isOdd _) fun _ => writeless.done _)
  | isEven => exact .inl (writeless_bind _ _ (parity .isEven _) fun _ => writeless.done _)
  | typeOf =>
      unfold Native.call
      dsimp only
      cases (arguments.headD .none).typeName? with
      | some name => exact .inr ⟨.inr rfl, name, rfl⟩
      | none => exact .inl (writeless.failed _ _)

theorem arity_checked {value : Value} {arguments : List Value} {line : Nat} {m n : Machine}
    (checked : checkArity value arguments line m = .ok () n) : m = n ∧ value.arity? = some arguments.length := by
  unfold checkArity at checked
  cases arity : value.arity? with
  | none =>
      rw [arity] at checked
      cases checked
  | some count =>
      rw [arity] at checked
      by_cases fits : arguments.length = count
      · simp only [fits, if_true] at checked
        cases checked
        exact ⟨rfl, congrArg some fits.symm⟩
      · simp only [fits, if_false] at checked
        cases checked

theorem condition_tested {construct : Construct} {line : Nat} {value : Value} {truth : Bool} {m n : Machine}
    (tested : asCondition construct line value m = .ok truth n) : value = .bool truth ∧ m = n := by
  cases value with
  | bool b =>
      cases tested
      exact ⟨rfl, rfl⟩
  | _ => cases tested

variable {limit : Nat} {arrives wide : NativeCall → Prop} {p : Eval α} {f : α → Eval β} {m : Machine}

theorem truncates_quiet (quiet : Writeless p) (m : Machine) : Truncates limit arrives p m where
  env := quiet.env m
  sink := ⟨.empty, (quiet.sink m).trans (append_nothing _).symm⟩
  fits _ := quiet.limited m limit
  crosses inside full := absurd full (by rw [quiet.sink m]; omega)

theorem truncates_mono (truncates : Truncates limit arrives p m) (wider : ∀ call, arrives call → wide call) :
    Truncates limit wide p m where
  env := truncates.env
  sink := truncates.sink
  fits := truncates.fits
  crosses inside full :=
    have ⟨call, here, stopped⟩ := truncates.crosses inside full
    ⟨call, wider call here, stopped⟩

theorem truncates_bind (free : m.sink.limit = none) (first : Truncates limit arrives p m)
    (rest : ∀ a n, p m = .ok a n → n.sink.limit = none → Truncates limit arrives (f a) n) :
    Truncates limit arrives (p >>= f) m := by
  cases run : p m with
  | error halt n =>
      have same : (p >>= f) m = .error halt n := bind_error f run
      obtain ⟨env, sink, fits, crosses⟩ := first
      rw [run] at env sink fits crosses
      refine ⟨by rw [same]; exact env, by rw [same]; exact sink, fun small => ?_, fun inside full => ?_⟩
      · rw [same] at small ⊢
        exact bind_error f (fits small)
      · rw [same] at full ⊢
        obtain ⟨call, arrives, beyond, stopped⟩ := crosses inside full
        exact ⟨call, arrives, beyond, bind_error f stopped⟩
  | ok a n =>
      have same : (p >>= f) m = f a n := bind_ok f run
      have env := first.env
      have wrote := first.sink
      rw [run] at env wrote
      obtain ⟨octets, wrote : n.sink = m.sink.append octets⟩ := wrote
      have later := rest a n run (by rw [wrote]; exact free)
      obtain ⟨more, wrote'⟩ := later.sink
      have longer : n.sink.written.size ≤ (endState (f a n)).sink.written.size := by
        rw [wrote', size_append]; omega
      refine ⟨?_, ?_, fun fits => ?_, fun inside full => ?_⟩
      · rw [same]; exact later.env.trans env
      · exact ⟨octets ++ more, by rw [same, wrote', wrote, append_append]⟩
      · rw [same] at fits ⊢
        have here := first.fits (by rw [run]; exact Nat.le_trans longer fits)
        rw [run] at here
        rw [bind_ok f here]
        exact later.fits fits
      · rw [same] at full ⊢
        by_cases fits : n.sink.written.size ≤ limit
        · have here := first.fits (by rw [run]; exact fits)
          rw [run] at here
          rw [bind_ok f here]
          have back : n.env = m.env := env
          exact back ▸ later.crosses fits full
        · have beyond : limit < (endState (p m)).sink.written.size := by rw [run]; exact Nat.lt_of_not_le fits
          obtain ⟨call, arrives, crosses, stopped⟩ := first.crosses inside beyond
          refine ⟨call, arrives, crosses, ?_⟩
          rw [bind_error f stopped, wrote', cut_append _ _ _ (Nat.le_of_not_le fits), run]
          rfl

theorem truncates_within (env : Env) (inner : Truncates limit arrives p { m with env }) :
    Truncates limit arrives (within env p) m := by
  have limited : (Machine.limited { m with env } limit) = { m.limited limit with env } := rfl
  have fits := inner.fits
  have crosses := inner.crosses
  have sink : (endState (within env p m)).sink = (endState (p { m with env })).sink := by
    unfold within
    cases p { m with env } <;> rfl
  refine ⟨returns_within env p m, sink ▸ inner.sink, fun small => ?_, fun inside full => ?_⟩
  · rw [sink] at small
    have here := fits small
    unfold within
    rw [limited] at here
    rw [here]
    cases p { m with env } <;> rfl
  · rw [sink] at full ⊢
    obtain ⟨call, arrives, beyond, stopped⟩ := crosses inside full
    refine ⟨call, arrives, beyond, ?_⟩
    unfold within
    rw [limited] at stopped
    rw [stopped]
    rfl

theorem truncates_write {native : Native} {arguments : List Value} {line : Nat} {text : String}
    (writes : native.call arguments line = (native.writeLine line text >>= fun _ => pure .none))
    (free : m.sink.limit = none) (here : arrives ⟨native, arguments, line, m⟩) :
    Truncates limit arrives (native.call arguments line) m := by
  have run : native.call arguments line m = .ok .none { m with sink := m.sink.append (text ++ "\n").toUTF8 } := by
    rw [writes, bind_ok _ (write_line_free native line text m free)]
    rfl
  refine ⟨by rw [run]; rfl, ⟨_, by rw [run]; rfl⟩, fun fits => ?_, fun inside full => ⟨_, here, ⟨inside, full⟩, ?_⟩⟩
  · rw [run] at fits ⊢
    rw [writes, bind_ok _ (write_line_fits limit native line text m fits)]
    rfl
  · rw [run] at full ⊢
    rw [writes, bind_error _ (write_line_full limit native line text m inside full)]
    rfl

theorem truncates_native {native : Native} {arguments : List Value} {line : Nat} (free : m.sink.limit = none)
    (here : arrives ⟨native, arguments, line, m⟩) : Truncates limit arrives (native.call arguments line) m := by
  rcases native_cases native arguments line with quiet | ⟨_, text, writes⟩
  · exact truncates_quiet quiet m
  · exact truncates_write writes free here

end Steps

-- The induction hypothesis on the number of steps.
structure WalkTruncates (limit steps : Nat) : Prop where
  evaluate : ∀ e m, m.sink.limit = none →
    Truncates limit (Arrives · steps (.evaluate e) m) (Regime.standard.evaluate steps e) m
  arguments : ∀ es m, m.sink.limit = none →
    Truncates limit (Arrives · steps (.arguments es) m) (Regime.standard.evaluateAll steps es) m
  call : ∀ callee arguments line m, m.sink.limit = none →
    Truncates limit (Arrives · steps (.call callee arguments line) m) (Regime.standard.call steps callee arguments line) m
  enter : ∀ closure arguments m, m.sink.limit = none →
    Truncates limit (Arrives · steps (.enter closure arguments) m) (Regime.standard.enter steps closure arguments) m
  execute : ∀ s m, m.sink.limit = none →
    Truncates limit (Arrives · steps (.execute s) m) (Regime.standard.execute steps s) m
  body : ∀ body m, m.sink.limit = none →
    Truncates limit (Arrives · steps (.body body) m) (Regime.standard.executeAll steps body) m
  choose : ∀ condition body alternative m, m.sink.limit = none →
    Truncates limit (Arrives · steps (.choose condition body alternative) m)
      (Regime.standard.choose steps condition body alternative) m
  loop : ∀ condition body env m, m.sink.limit = none →
    Truncates limit (Arrives · steps (.loop condition body env) m)
      (Regime.standard.repeatWhile steps condition body env) m

section Walk

variable {limit steps : Nat} (ih : WalkTruncates limit steps) (m : Machine) (free : m.sink.limit = none)
include ih free

theorem truncates_evaluate (e : Expr) :
    Truncates limit (Arrives · (steps + 1) (.evaluate e) m) (Regime.standard.evaluate (steps + 1) e) m := by
  cases e with
  | literal mark value => exact truncates_quiet (writeless.done _) m
  | grouping mark inner => exact truncates_mono (ih.evaluate inner m free) fun _ => .grouping
  | unary mark operator right =>
      exact truncates_bind free (truncates_mono (ih.evaluate right m free) fun _ => .unary) fun _ n _ _ =>
        truncates_quiet (throughout_except writeless _ _) n
  | binary mark left operator right =>
      exact truncates_bind free (truncates_mono (ih.evaluate left m free) fun _ => .left) fun _ n before free =>
        truncates_bind free (truncates_mono (ih.evaluate right n free) fun _ => .right before) fun _ k _ _ =>
          truncates_quiet (throughout_except writeless _ _) k
  | logical mark left operator right =>
      refine truncates_bind free (truncates_mono (ih.evaluate left m free) fun _ => .decided) fun value n before free => ?_
      cases value with
      | bool truth =>
          cases more : Value.settles operator truth with
          | true =>
              simp only [more, if_true]
              exact truncates_quiet (writeless.done _) n
          | false =>
              simp only [more, Bool.false_eq_true, if_false]
              exact truncates_mono (ih.evaluate right n free) fun _ => .undecided before more
      | _ => exact truncates_quiet (writeless.failed _ _) n
  | ident mark name | this mark name => exact truncates_quiet (throughout_read writeless _ _) m
  | assign mark name value =>
      exact truncates_bind free (truncates_mono (ih.evaluate value m free) fun _ => .assigned) fun _ n _ _ =>
        truncates_quiet (writeless_bind _ _ (throughout_write writeless _ _ _) fun _ => writeless.done _) n
  | call mark callee arguments line =>
      refine truncates_bind free (truncates_mono (ih.evaluate callee m free) fun _ => .callee) fun value n first free => ?_
      refine truncates_bind free (truncates_mono (ih.arguments arguments n free) fun _ => .arguments first)
        fun values k second free => ?_
      refine truncates_bind free (truncates_quiet (throughout_arity writeless _ _ _) k) fun _ l checked free => ?_
      obtain ⟨rfl, fits⟩ := arity_checked checked
      exact truncates_mono (ih.call value values line k free) fun _ => .called first second fits
  | get mark object name =>
      exact truncates_bind free (truncates_mono (ih.evaluate object m free) fun _ => .get) fun _ n _ _ =>
        truncates_quiet (throughout_property writeless _ _) n
  | set mark object name value =>
      refine truncates_bind free (truncates_mono (ih.evaluate object m free) fun _ => .target) fun target n before free => ?_
      cases target with
      | object target =>
          exact truncates_bind free (truncates_mono (ih.evaluate value n free) fun _ => .set before) fun _ k _ _ =>
            truncates_quiet (writeless_bind _ _ (writeless.store _ _) fun _ => writeless.done _) k
      | _ => exact truncates_quiet (writeless.failed _ _) n

theorem truncates_arguments (es : List Expr) :
    Truncates limit (Arrives · (steps + 1) (.arguments es) m) (Regime.standard.evaluateAll (steps + 1) es) m := by
  cases es with
  | nil => exact truncates_quiet (writeless.done _) m
  | cons e rest =>
      exact truncates_bind free (truncates_mono (ih.evaluate e m free) fun _ => .first) fun _ n before free =>
        truncates_bind free (truncates_mono (ih.arguments rest n free) fun _ => .others before) fun _ k _ _ =>
          truncates_quiet (writeless.done _) k

theorem truncates_call (callee : Value) (arguments : List Value) (line : Nat) :
    Truncates limit (Arrives · (steps + 1) (.call callee arguments line) m)
      (Regime.standard.call (steps + 1) callee arguments line) m := by
  cases callee with
  | native native => exact truncates_native free (.native steps)
  | function identity closure => exact truncates_mono (ih.enter closure arguments m free) fun _ => .function
  | «class» c =>
      refine truncates_bind free (truncates_quiet (writeless.store _ _) m) fun object n made free => ?_
      cases found : c.constructor? with
      | none => exact truncates_quiet (writeless.done _) n
      | some method =>
          refine truncates_bind free (truncates_quiet (writeless.store _ _) n) fun bound k received free => ?_
          exact truncates_bind free
            (truncates_mono (ih.enter bound arguments k free) fun _ => .creation made found received) fun _ l _ _ =>
              truncates_quiet (writeless.done _) l
  | _ => exact truncates_quiet (writeless.failed _ _) m

theorem truncates_enter (closure : Closure) (arguments : List Value) :
    Truncates limit (Arrives · (steps + 1) (.enter closure arguments) m)
      (Regime.standard.enter (steps + 1) closure arguments) m := by
  refine truncates_bind free (truncates_quiet (writeless.store _ _) m) fun env n nested free => ?_
  refine truncates_bind free (truncates_quiet (throughout_parameters writeless env _ _) n) fun _ k defined free => ?_
  exact truncates_bind free (truncates_within env (truncates_mono (ih.body _ _ free) fun _ => .entered nested defined))
    fun _ l _ _ => truncates_quiet (throughout_answer writeless _ _) l

theorem truncates_scope {arrives : NativeCall → Prop} (body : List Stmt)
    (enters : ∀ call env n, childEnv m = .ok env n → Arrives call steps (.body body) { n with env } → arrives call) :
    Truncates limit arrives (childEnv >>= fun env => within env (Regime.standard.executeAll steps body)) m :=
  truncates_bind free (truncates_quiet (throughout_child writeless) m) fun env _ nested free =>
    truncates_within env (truncates_mono (ih.body body _ free) fun call => enters call env _ nested)

theorem truncates_execute (s : Stmt) :
    Truncates limit (Arrives · (steps + 1) (.execute s) m) (Regime.standard.execute (steps + 1) s) m := by
  cases s with
  | expression e =>
      exact truncates_bind free (truncates_mono (ih.evaluate e m free) fun _ => .expression) fun _ n _ _ =>
        truncates_quiet (writeless.done _) n
  | var name value =>
      have defines : ∀ value, Writeless (define name value >>= fun _ => pure Flow.normal) := fun _ =>
        writeless_bind _ _ (throughout_define writeless _ _) fun _ => writeless.done _
      cases value with
      | none => exact truncates_quiet (defines _) m
      | some e =>
          exact truncates_bind free (truncates_mono (ih.evaluate e m free) fun _ => .initial) fun _ n _ _ =>
            truncates_quiet (defines _) n
  | block body => exact truncates_scope ih m free body fun _ _ _ => .block
  | branch condition body alternative =>
      exact truncates_mono (ih.choose condition body alternative m free) fun _ => .branch
  | «while» condition body =>
      exact truncates_bind free (truncates_quiet (throughout_child writeless) m) fun env n nested free =>
        truncates_mono (ih.loop condition body env n free) fun _ => .while nested
  | function routine =>
      exact truncates_quiet (writeless_bind _ _ (throughout_function writeless _) fun _ => writeless.done _) m
  | «return» line value =>
      cases value with
      | none => exact truncates_quiet (writeless.done _) m
      | some e =>
          exact truncates_bind free (truncates_mono (ih.evaluate e m free) fun _ => .return) fun _ n _ _ =>
            truncates_quiet (writeless.done _) n
  | «class» name methods =>
      exact truncates_quiet (writeless_bind _ _ (throughout_class writeless _ _) fun _ => writeless.done _) m

theorem truncates_body (body : List Stmt) :
    Truncates limit (Arrives · (steps + 1) (.body body) m) (Regime.standard.executeAll (steps + 1) body) m := by
  cases body with
  | nil => exact truncates_quiet (writeless.done _) m
  | cons s rest =>
      refine truncates_bind free (truncates_mono (ih.execute s m free) fun _ => .begun) fun flow n before free => ?_
      cases flow with
      | normal => exact truncates_mono (ih.body rest n free) fun _ => .continued before
      | returned value => exact truncates_quiet (writeless.done _) n

theorem truncates_choose (condition : Expr) (body : List Stmt) (alternative : Alternative) :
    Truncates limit (Arrives · (steps + 1) (.choose condition body alternative) m)
      (Regime.standard.choose (steps + 1) condition body alternative) m := by
  refine truncates_bind free (truncates_mono (ih.evaluate condition m free) fun _ => .condition) fun value n before free => ?_
  refine truncates_bind free (truncates_quiet (throughout_condition writeless _ _ _) n) fun truth k tested free => ?_
  obtain ⟨rfl, rfl⟩ := condition_tested tested
  cases truth with
  | true => exact truncates_scope ih n free body fun _ _ _ => .chosen before
  | false =>
      cases alternative with
      | none => exact truncates_quiet (writeless.done _) n
      | elseIf other rest alternative => exact truncates_mono (ih.choose other rest alternative n free) fun _ => .elseIf before
      | block other => exact truncates_scope ih n free other fun _ _ _ => .otherwise before

theorem truncates_loop (condition : Expr) (body : List Stmt) (env : Env) :
    Truncates limit (Arrives · (steps + 1) (.loop condition body env) m)
      (Regime.standard.repeatWhile (steps + 1) condition body env) m := by
  refine truncates_bind free (truncates_mono (ih.evaluate condition m free) fun _ => .tested) fun value n before free => ?_
  refine truncates_bind free (truncates_quiet (throughout_condition writeless _ _ _) n) fun truth k tested free => ?_
  obtain ⟨rfl, rfl⟩ := condition_tested tested
  cases truth with
  | true =>
      refine truncates_bind free (truncates_within env (truncates_mono (ih.body body _ free) fun _ => .round before))
        fun flow l done free => ?_
      cases flow with
      | normal =>
          have renews : Writeless (Regime.standard.renew env) :=
            writeless_bind _ _ (writeless.store _ _) fun _ => writeless.done _
          exact truncates_bind free (truncates_quiet renews l) fun next i renewed free =>
            truncates_mono (ih.loop condition body next i free) fun _ => .again before done renewed
      | returned value => exact truncates_quiet (writeless.done _) l
  | false => exact truncates_quiet (writeless.done _) n

end Walk

theorem walk_truncates (limit : Nat) : ∀ steps, WalkTruncates limit steps
  | 0 => by constructor <;> intros <;> exact truncates_quiet writeless.exhausted _
  | steps + 1 =>
      have ih := walk_truncates limit steps
      { evaluate := fun e m free => truncates_evaluate ih m free e
        arguments := fun es m free => truncates_arguments ih m free es
        call := fun callee arguments line m free => truncates_call ih m free callee arguments line
        enter := fun closure arguments m free => truncates_enter ih m free closure arguments
        execute := fun s m free => truncates_execute ih m free s
        body := fun body m free => truncates_body ih m free body
        choose := fun condition body alternative m free => truncates_choose ih m free condition body alternative
        loop := fun condition body env m free => truncates_loop ih m free condition body env }

-- A statement of the program comes to the call, behind others that ended normally.
def Program.Arrives (call : NativeCall) (steps : Nat) : Program → Machine → Prop
  | [], _ => False
  | s :: rest, m => TreeWalk.Arrives call steps (.execute s) m ∨
      ∃ n, Regime.standard.execute steps s m = .ok .normal n ∧ Program.Arrives call steps rest n

def Session.Arrives (s : Session) (call : NativeCall) (steps : Nat) (text : String) : Prop :=
  ∃ program t m, Session.parse text s = .ok program t ∧ Session.resolve program t.machine = .ok () m ∧
    program.Arrives call steps m

def Session.withLimit (s : Session) (limit : Option Nat) : Session :=
  { s with machine := { s.machine with sink := { s.machine.sink with limit } } }

section Sessions

variable {limit steps : Nat}

theorem truncates_program : ∀ (program : Program) (m : Machine), m.sink.limit = none →
    Truncates limit (program.Arrives · steps m) (Regime.standard.executeProgram steps program) m
  | [], m, _ => truncates_quiet (writeless.done _) m
  | s :: rest, m, free => by
      refine truncates_bind free (truncates_mono ((walk_truncates limit steps).execute s m free) fun _ => .inl)
        fun flow n before free => ?_
      cases flow with
      | normal => exact truncates_mono (truncates_program rest n free) fun _ arrives => .inr ⟨n, before, arrives⟩
      | returned value => exact truncates_quiet (writeless.done _) n

theorem writeless_resolve (program : Program) : Writeless (Session.resolve program) where
  env := resolve_returns program
  sink m := by
    unfold Session.resolve
    rcases program.resolve m.distances with ⟨_ | _, _⟩ <;> rfl
  limited m limit := by
    unfold Session.resolve Machine.limited
    rcases program.resolve m.distances with ⟨_ | _, _⟩ <;> rfl

theorem truncates_run (steps : Nat) (program : Program) (m : Machine) (free : m.sink.limit = none) :
    Truncates limit (fun call => ∃ n, Session.resolve program m = .ok () n ∧ program.Arrives call steps n)
      (do Session.resolve program; Regime.standard.interpret steps program) m :=
  truncates_bind free (truncates_quiet (writeless_resolve program) m) fun _ n resolved free =>
    truncates_bind free (truncates_mono (truncates_program program n free) fun _ arrives => ⟨n, resolved, arrives⟩)
      fun _ k _ _ => truncates_quiet (writeless_flush _) k

theorem parse_elsewhere (text : String) (s : Session) (machine : Machine) :
    Session.parse text { s with machine } = endWith (fun t => { t with machine }) (Session.parse text s) := by
  unfold Session.parse
  cases tokenize text with
  | error e => rfl
  | ok tokens =>
      simp only [bind, EStateM.bind, get_run]
      cases TreeWalk.parse s.nextId tokens <;> rfl

theorem crosses_writes {call : NativeCall} (crosses : call.Crosses limit) : call.native = .print ∨ call.native = .typeOf := by
  rcases native_cases call.native call.arguments call.line with quiet | ⟨writes, _⟩
  · have same : call.after.sink = call.machine.sink := quiet.sink call.machine
    have beyond := crosses.2
    rw [same] at beyond
    exact absurd crosses.1 (Nat.not_le_of_lt beyond)
  · exact writes

structure Session.Cut (limit : Nat) (arrives : NativeCall → Prop) (env : Env)
    (free bounded : EStateM.Result Halt Session Unit) : Prop where
  written : (endState bounded).machine.sink.written = (endState free).machine.sink.written.extract 0 limit
  fits : (endState free).machine.sink.written.size ≤ limit → bounded = endWith (·.withLimit (some limit)) free
  crosses : limit < (endState free).machine.sink.written.size → ∃ call error, arrives call ∧ call.Crosses limit ∧
    bounded = .error (.failed error)
      ⟨{ call.machine with env, sink := (endState free).machine.sink.cut limit }, (endState free).nextId⟩ ∧
    (call.native = .print ∧ error.diagnostic = .runtime call.line "Print failed: output full" ∨
      call.native = .typeOf ∧ error.diagnostic = .runtime call.line "TypeOf failed: output full")

theorem run_cut {act : Eval Unit} {arrives : NativeCall → Prop} {s : Session}
    (truncates : Truncates limit arrives act s.machine) (inside : s.machine.sink.written.size ≤ limit) :
    Session.Cut limit arrives s.machine.env (Session.onMachine act s)
      (Session.onMachine act { s with machine := s.machine.limited limit }) := by
  have sink : (endState (Session.onMachine act s)).machine.sink = (endState (act s.machine)).sink := by
    rw [on_machine_state]
  by_cases fits : (endState (act s.machine)).sink.written.size ≤ limit
  · have same : Session.onMachine act { s with machine := s.machine.limited limit } =
        endWith (·.withLimit (some limit)) (Session.onMachine act s) := by
      have here := truncates.fits fits
      unfold Session.onMachine
      simp only [here]
      cases act s.machine <;> rfl
    refine ⟨?_, fun _ => same, fun full => absurd fits (by rw [← sink]; omega)⟩
    rw [same, extract_whole _ _ (sink ▸ fits)]
    cases Session.onMachine act s <;> rfl
  · obtain ⟨call, arrives, crosses, stopped⟩ := truncates.crosses inside (Nat.lt_of_not_le fits)
    have run : Session.onMachine act { s with machine := s.machine.limited limit } =
        .error (.failed (call.native.streamError call.line .full))
          ⟨{ call.machine with env := s.machine.env, sink := (endState (Session.onMachine act s)).machine.sink.cut limit },
            (endState (Session.onMachine act s)).nextId⟩ := by
      rw [sink]
      unfold Session.onMachine
      simp only [stopped]
      cases act s.machine <;> rfl
    refine ⟨by rw [run]; rfl, fun small => absurd (sink ▸ small) fits, fun _ => ⟨call, _, arrives, crosses, run, ?_⟩⟩
    rcases crosses_writes crosses with print | typeOf
    · exact .inl ⟨print, by rw [print]; rfl⟩
    · exact .inr ⟨typeOf, by rw [typeOf]; rfl⟩

-- The limit leaves room for `N` octets behind what is written already. Nothing is assumed of the session or of
-- the text, which may as well be refused, fail or run out of steps.
theorem full_output_truncates (steps N : Nat) (text : String) (s : Session) :
    let limit := s.machine.sink.written.size + N
    Session.Cut limit ((s.withLimit none).Arrives · steps text) s.machine.env
      (Session.run steps text (s.withLimit none)) (Session.run steps text (s.withLimit (some limit))) := by
  intro limit
  have elsewhere : Session.parse text (s.withLimit (some limit)) = endWith
      (fun t => { t with machine := (s.withLimit (some limit)).machine }) (Session.parse text (s.withLimit none)) :=
    parse_elsewhere text (s.withLimit none) (s.withLimit (some limit)).machine
  have parsed := parse_ends text (s.withLimit none)
  unfold Ends at parsed
  unfold Session.run Session.runUnder
  cases read : Session.parse text (s.withLimit none) with
  | error halt t =>
      rw [read] at parsed elsewhere
      obtain ⟨rfl, _⟩ := parsed
      rw [bind_error _ read, bind_error _ elsewhere]
      have small : s.machine.sink.written.size ≤ limit := Nat.le_add_right _ _
      exact ⟨(extract_whole _ _ small).symm, fun _ => rfl, fun full => absurd small (Nat.not_le_of_lt full)⟩
  | ok program t =>
      rw [read] at parsed elsewhere
      rw [bind_ok _ read, bind_ok _ elsewhere]
      have machine : t.machine = (s.withLimit none).machine := parsed.2.1
      have ran : Truncates limit (fun call => (s.withLimit none).Arrives call steps text) _ t.machine :=
        truncates_mono (truncates_run steps program t.machine (by rw [machine]; rfl)) fun call ⟨n, resolved, arrives⟩ =>
          ⟨program, t, n, read, resolved, arrives⟩
      have cut := run_cut ran (by rw [machine]; exact Nat.le_add_right _ _)
      rw [machine] at cut
      exact cut

theorem full_output_truncates_call :
    let s := Session.start ⟨[]⟩ .unlimited
    let text := "func f(a) { Print(a); return f; } class C { constructor(x) { TypeOf(f(x)); } }\nC(true); Print(none);"
    (endState (Session.run 30 text (s.withLimit (some 7)))).machine.sink.text = "true\nfu" ∧
      ∃ call error last, (s.withLimit none).Arrives call 30 text ∧ call.Crosses 7 ∧
        Session.run 30 text (s.withLimit (some 7)) = .error (.failed error) last ∧
        (call.native = .print ∧ error.diagnostic = .runtime call.line "Print failed: output full" ∨
          call.native = .typeOf ∧ error.diagnostic = .runtime call.line "TypeOf failed: output full") := by
  intro s text
  refine ⟨by decide +kernel, ?_⟩
  obtain ⟨call, error, arrives, crosses, run, reported⟩ := (full_output_truncates 30 7 text s).crosses (by decide +kernel)
  exact ⟨call, error, _, arrives, crosses, run, reported⟩

end Sessions

end TreeWalk
