import TreeWalk.Proofs.Growth

set_option autoImplicit false

namespace TreeWalk

open Eval

def Declares {α : Type} (names : List String) (p : Eval α) : Prop :=
  ∀ m, Ends p m
    (fun _ n => n.env = m.env ∧ m.store.Gains m.env.inner names n.store ∧
      (m.env.inner < m.store.layers.size → ∀ name ∈ names, (n.store.layer m.env.inner).contains name = true))
    fun _ n => n.env = m.env ∧ m.store.Gains m.env.inner [] n.store

section Steps

variable {α β : Type} {names : List String}

theorem declares_adds {p : Eval α} (adds : Adds [] p) : Declares [] p := by
  intro m
  have ended := adds m
  unfold Ends
  cases run : p m with
  | ok a n => rw [run] at ended; exact ⟨ended.1, ended.2, fun _ _ member => absurd member List.not_mem_nil⟩
  | error halt n => rw [run] at ended; exact ended

theorem declares_behind {p : Eval α} {f : α → Eval β} (first : Adds [] p) (rest : ∀ a, Declares names (f a)) :
    Declares names (p >>= f) := by
  intro m
  refine ends_bind _ _ m _ _ _ (declares_adds first m) fun a next ⟨env, gains, _⟩ => ?_
  apply ends_mono _ _ _ _ _ _ (rest a next)
  · rintro b n ⟨back, more, bound⟩
    rw [env] at back more bound
    exact ⟨back, Store.gains_trans gains more, fun inside => bound (Nat.lt_of_lt_of_le inside gains.size)⟩
  · rintro halt n ⟨back, more⟩
    rw [env] at back more
    exact ⟨back, Store.gains_trans gains more⟩

theorem declares_first {p : Eval α} {f : α → Eval β} (first : Declares names p) (rest : ∀ a, Adds [] (f a))
    (ends : ∀ a n, n.env.inner < n.store.layers.size → (∀ name ∈ names, (n.store.layer n.env.inner).contains name = true) →
      ∃ b last, f a n = .ok b last) : Declares names (p >>= f) := by
  intro m
  refine ends_bind _ _ m _ _ _ (first m) fun a next ⟨env, gains, bound⟩ => ?_
  have kept := rest a next
  have done := ends a next
  unfold Ends
  cases run : f a next with
  | ok b n =>
      rw [run, env] at kept
      refine ⟨kept.1, ?_, fun inside name member => kept.2.kept _ name (bound inside name member)⟩
      exact Store.gains_wider (Store.gains_trans gains kept.2) fun name => by simp
  | error halt n =>
      rw [run, env] at kept
      rw [run, env] at done
      refine ⟨kept.1, ?_⟩
      have whole := Store.gains_trans gains kept.2
      refine ⟨whole.size, whole.kept, fun layer name inside found => ?_⟩
      rcases whole.gained layer name inside found with before | ⟨rfl, _⟩
      · exact .inl before
      · obtain ⟨b, last, same⟩ := done (Nat.lt_of_lt_of_le inside gains.size) (bound inside)
        cases same

theorem declares_done {p : Eval α} (first : Declares names p) (b : β) : Declares names (p >>= fun _ => pure b) :=
  declares_first first (fun _ => adds_pure [] b) fun _ n _ _ => ⟨b, n, rfl⟩

theorem declares_define (name : Name) (value : Value) : Declares [name.text] (define name value) := by
  intro m
  have run : define name value m = onStore name.line (Store.define m.env name.text value) m := rfl
  refine ends_congr run ?_
  apply ends_mono _ _ _ _ _ _ (ends_store name.line (Store.define_ends m.env name.text value m.store))
  · rintro _ _ ⟨s, rfl, _, rfl⟩
    refine ⟨rfl, Store.gains_write _ _ _ _, fun inside other member => ?_⟩
    obtain rfl := List.mem_singleton.mp member
    show ((m.store.write m.env.inner name.text value).layer m.env.inner).contains name.text = true
    rw [Store.layer_write_self _ _ _ _ inside]
    exact Bindings.contains_insert_self _ _ _
  · rintro _ _ ⟨_, s, _, rfl, rfl, _⟩
    exact ⟨rfl, Store.gains_refl _ _ _⟩

theorem declares_function (routine : Routine) : Declares [routine.name.text] (defineFunction routine) :=
  declares_behind (adds_store _ _ fun s => Store.gains_layers 0 [] s _ rfl) fun _ =>
    declares_behind adds_env fun _ => declares_define _ _

theorem declares_class (name : Name) (methods : List Routine) : Declares [name.text] (defineClass name methods) := by
  refine declares_first (declares_define name .none) (fun _ => ?_) fun _ n inside bound => ?_
  · exact adds_next adds_env fun _ => adds_next (adds_store _ _ fun s => Store.gains_layers 0 [] s _ rfl) fun _ =>
      adds_store _ _ (gains_writes (Store.writes_assign _ _ _))
  · have owner : Store.owner? { n.store with nextIdentity := n.store.nextIdentity + 1 } n.env.chain name.text =
        some n.env.inner := List.find?_cons_of_pos (bound name.text List.mem_cons_self)
    have identity : ∀ s : Store, Store.newIdentity s = .ok s.nextIdentity { s with nextIdentity := s.nextIdentity + 1 } :=
      fun _ => rfl
    simp only [currentEnv, bind, EStateM.bind, get_run, pure, EStateM.pure, onStore, identity, Store.assign, owner]
    exact ⟨_, _, rfl⟩

theorem declares_execute (steps : Nat) (s : Stmt) : Declares s.own (Regime.standard.execute steps s) := by
  cases steps with
  | zero => exact fun m => ⟨rfl, Store.gains_refl _ _ _⟩
  | succ steps =>
      cases s with
      | var name value =>
          cases value with
          | none => exact declares_done (declares_define name _) _
          | some e =>
              exact declares_behind ((walk_widens steps).evaluate e) fun _ => declares_done (declares_define name _) _
      | function routine => exact declares_done (declares_function routine) _
      | «class» name methods => exact declares_done (declares_class name methods) _
      | _ => exact declares_adds ((walk_widens (steps + 1)).execute _)

end Steps

section Programs

def Program.Completes (steps : Nat) (name : String) : Program → Machine → Prop
  | [], _ => False
  | s :: rest, m => ∃ flow n, Regime.standard.execute steps s m = .ok flow n ∧
      (name ∈ s.own ∨ flow = .normal ∧ Program.Completes steps name rest n)

variable {steps : Nat} {m : Machine}

theorem execute_names (steps : Nat) (s : Stmt) (layer : Nat) (name : String) (inside : layer < m.store.layers.size) :
    ((endState (Regime.standard.execute steps s m)).store.layer layer).contains name = true ↔
      (m.store.layer layer).contains name = true ∨
        ((∃ flow n, Regime.standard.execute steps s m = .ok flow n) ∧ layer = m.env.inner ∧ name ∈ s.own) := by
  have ended := declares_execute steps s m
  unfold Ends at ended
  cases run : Regime.standard.execute steps s m with
  | ok flow n =>
      rw [run] at ended
      obtain ⟨_, gains, bound⟩ := ended
      constructor
      · intro found
        rcases gains.gained layer name inside found with before | ⟨here, own⟩
        · exact .inl before
        · exact .inr ⟨⟨flow, n, rfl⟩, here, own⟩
      · rintro (before | ⟨_, rfl, own⟩)
        · exact gains.kept layer name before
        · exact bound inside name own
  | error halt n =>
      rw [run] at ended
      obtain ⟨_, gains⟩ := ended
      constructor
      · intro found
        rcases gains.gained layer name inside found with before | ⟨_, none⟩
        · exact .inl before
        · cases none
      · rintro (before | ⟨⟨_, _, other⟩, _⟩)
        · exact gains.kept layer name before
        · cases other

theorem execute_size (steps : Nat) (m : Machine) (s : Stmt) : m.store.layers.size ≤ (endState (Regime.standard.execute steps s m)).store.layers.size :=
  ((walk_widens steps).execute s m).2.size

theorem completes_ok {s : Stmt} {flow : Flow} {n : Machine} (name : String) (rest : Program)
    (run : Regime.standard.execute steps s m = .ok flow n) :
    Program.Completes steps name (s :: rest) m ↔ name ∈ s.own ∨ flow = .normal ∧ Program.Completes steps name rest n := by
  constructor
  · rintro ⟨other, last, same, completes⟩
    obtain ⟨rfl, rfl⟩ := EStateM.Result.ok.inj (run.symm.trans same)
    exact completes
  · exact fun completes => ⟨flow, n, run, completes⟩

theorem completes_error {s : Stmt} {halt : Halt} {n : Machine} (name : String) (rest : Program)
    (run : Regime.standard.execute steps s m = .error halt n) : ¬ Program.Completes steps name (s :: rest) m := by
  rintro ⟨_, _, same, _⟩
  cases run.symm.trans same

theorem program_names (steps : Nat) (name : String) : ∀ (program : Program) (m : Machine), m.env.inner < m.store.layers.size →
    (((endState (Regime.standard.executeProgram steps program m)).store.layer m.env.inner).contains name = true ↔
      (m.store.layer m.env.inner).contains name = true ∨ program.Completes steps name m) ∧
    m.store.layers.size ≤ (endState (Regime.standard.executeProgram steps program m)).store.layers.size
  | [], m, _ => ⟨(or_iff_left id).symm, Nat.le_refl _⟩
  | s :: rest, m, inside => by
      have first := execute_names steps s m.env.inner name inside
      have size := execute_size steps m s
      have env := ((walk_widens steps).execute s m).1
      unfold Regime.executeProgram
      cases run : Regime.standard.execute steps s m with
      | error halt n =>
          rw [run] at first size
          rw [bind_error _ run, or_iff_left (completes_error name rest run)]
          refine ⟨first.trans (or_iff_left ?_), size⟩
          rintro ⟨⟨_, _, other⟩, _⟩
          cases other
      | ok flow n =>
          rw [run] at first size env
          rw [bind_ok _ run, completes_ok name rest run]
          have here : (n.store.layer m.env.inner).contains name = true ↔
              (m.store.layer m.env.inner).contains name = true ∨ name ∈ s.own :=
            first.trans (or_congr_right ⟨fun gained => gained.2.2, fun own => ⟨⟨flow, n, rfl⟩, rfl, own⟩⟩)
          cases flow with
          | returned value => exact ⟨here.trans (or_congr_right (by simp)), size⟩
          | normal =>
              have same : n.env = m.env := env
              obtain ⟨later, more⟩ := program_names steps name rest n (same ▸ Nat.lt_of_lt_of_le inside size)
              rw [same] at later
              exact ⟨(later.trans (or_congr_left here)).trans (by simp [or_assoc]), Nat.le_trans size more⟩

end Programs

section Sessions

variable {steps : Nat} {s : Session}

def Session.Completes (s : Session) (steps : Nat) (text name : String) : Prop :=
  ∃ program t m, Session.parse text s = .ok program t ∧ Session.resolve program t.machine = .ok () m ∧
    program.Completes steps name m

theorem interpret_names (steps : Nat) (name : String) (program : Program) (m : Machine) (inside : m.env.inner < m.store.layers.size) :
    (((endState (Regime.standard.interpret steps program m)).store.layer m.env.inner).contains name = true ↔
      (m.store.layer m.env.inner).contains name = true ∨ program.Completes steps name m) ∧
    m.store.layers.size ≤ (endState (Regime.standard.interpret steps program m)).store.layers.size := by
  have walked := program_names steps name program m inside
  unfold Regime.interpret
  cases run : Regime.standard.executeProgram steps program m with
  | error halt n => rwa [bind_error _ run, ← run]
  | ok a n =>
      have flushed : (endState (flush n)).store = n.store :=
        ends_state (inert_flush n) (fun _ _ ended => ended.1.store) fun _ _ ended => ended.1.store
      rw [run] at walked
      rwa [bind_ok _ run, flushed]

theorem resolve_keeps (program : Program) (m : Machine) :
    ∃ distances, endState (Session.resolve program m) = { m with distances } := by
  unfold Session.resolve
  rcases program.resolve m.distances with ⟨_ | _, distances⟩ <;> exact ⟨distances, rfl⟩

theorem run_names (steps : Nat) (text name : String) (globals : s.machine.env = Machine.globals)
    (inside : 0 < s.machine.store.layers.size) :
    (((endState (Session.run steps text s)).machine.store.layer 0).contains name = true ↔
      (s.machine.store.layer 0).contains name = true ∨ s.Completes steps text name) ∧
    s.machine.store.layers.size ≤ (endState (Session.run steps text s)).machine.store.layers.size := by
  rcases run_cases steps text s with ⟨halt, refused, run⟩ | ⟨program, t, read, run⟩
  · rw [run]
    refine ⟨(or_iff_left ?_).symm, Nat.le_refl _⟩
    rintro ⟨_, _, _, read, _⟩
    cases refused.symm.trans read
  · have machine : t.machine = s.machine := by
      have same := parse_machine text s
      rwa [read] at same
    obtain ⟨distances, kept⟩ := resolve_keeps program s.machine
    rw [run]
    cases checked : Session.resolve program s.machine with
    | error halt m =>
        rw [checked] at kept
        obtain rfl : m = { s.machine with distances } := kept
        rw [bind_error _ checked]
        refine ⟨(or_iff_left ?_).symm, Nat.le_refl _⟩
        rintro ⟨other, u, v, again, accepted, _⟩
        cases read.symm.trans again
        rw [machine] at accepted
        cases checked.symm.trans accepted
    | ok _ m =>
        rw [checked] at kept
        obtain rfl : m = { s.machine with distances } := kept
        rw [bind_ok _ checked]
        have zero : s.machine.env.inner = 0 := congrArg Env.inner globals
        have walked := interpret_names steps name program { s.machine with distances } (zero ▸ inside)
        rw [show ({ s.machine with distances } : Machine).env.inner = 0 from zero] at walked
        refine ⟨walked.1.trans (or_congr_right ?_), walked.2⟩
        constructor
        · exact fun completes => ⟨program, t, _, read, machine ▸ checked, completes⟩
        · rintro ⟨other, u, v, again, accepted, completes⟩
          cases read.symm.trans again
          rw [machine] at accepted
          cases checked.symm.trans accepted
          exact completes

theorem after_inside : ∀ (runs : List (Nat × String)) (s : Session), s.machine.env = Machine.globals →
    0 < s.machine.store.layers.size → 0 < (s.after runs).machine.store.layers.size
  | [], _, _, inside => inside
  | run :: rest, s, globals, inside => by
      have more := (run_names run.1 run.2 "" globals inside).2
      exact after_inside rest _ ((run_returns run.1 run.2 s).trans globals) (Nat.lt_of_lt_of_le inside more)

theorem own_iff (s : Stmt) (name : String) : name ∈ s.own ↔ s.own = [name] := by
  cases s <;> simp [Stmt.own, eq_comm]

theorem define_after_failure (m n : Machine) (s : Stmt) (halt : Halt) (name : Name) (value : Value)
    (inside : m.env.inner < m.store.layers.size) (failed : Regime.standard.execute steps s m = .error halt n)
    (free : (m.store.layer m.env.inner).contains name.text = false) : ∃ last, define name value n = .ok () last := by
  have names := execute_names steps s m.env.inner name.text inside
  have env := ((walk_widens steps).execute s m).1
  rw [failed] at names env
  have still : (n.store.layer n.env.inner).contains name.text = false := by
    rw [show n.env = m.env from env, ← Bool.not_eq_true]
    intro bound
    rcases names.mp bound with before | ⟨⟨_, _, other⟩, _⟩
    · rw [free] at before
      cases before
    · cases other
  have defined := Store.define_ends n.env name.text value n.store
  unfold Ends at defined
  show ∃ last, onStore name.line (Store.define n.env name.text value) n = .ok () last
  unfold onStore
  cases run : Store.define n.env name.text value n.store with
  | ok a t => simp only [run]; exact ⟨_, rfl⟩
  | error fault t =>
      rw [run] at defined
      rw [still] at defined
      cases defined.2.2

theorem names_only_grow :
    (∀ (steps : Nat) (m : Machine) (layer : Nat) (name : String), layer < m.store.layers.size →
      (∀ e : Expr, ((endState (Regime.standard.evaluate steps e m)).store.layer layer).contains name =
        (m.store.layer layer).contains name) ∧
      ∀ s : Stmt, (((endState (Regime.standard.execute steps s m)).store.layer layer).contains name = true ↔
        (m.store.layer layer).contains name = true ∨
          ((∃ flow n, Regime.standard.execute steps s m = .ok flow n) ∧ layer = m.env.inner ∧ s.own = [name]))) ∧
    (∀ (steps : Nat) (m n : Machine) (s : Stmt) (halt : Halt) (name : Name), m.env.inner < m.store.layers.size →
      Regime.standard.execute steps s m = .error halt n → (m.store.layer m.env.inner).contains name.text = false →
      ∀ value, ∃ last, define name value n = .ok () last) ∧
    ∀ (source : Source) (sink : Sink) (runs : List (Nat × String)) (steps : Nat) (text name : String),
      let s := (Session.start source sink).after runs
      ((endState (Session.run steps text s)).machine.store.layer 0).contains name = true ↔
        (s.machine.store.layer 0).contains name = true ∨ s.Completes steps text name := by
  refine ⟨fun steps m layer name inside => ⟨fun e => ?_, fun s => ?_⟩,
    fun steps m n s halt name inside failed free value => define_after_failure m n s halt name value inside failed free,
    fun source sink runs steps text name => ?_⟩
  · have gains := Store.gains_nothing ((walk_widens steps).evaluate e m).2 m.store.layers.size
    exact (Store.spares_gains gains).names layer inside (Nat.ne_of_lt inside) name
  · rw [← own_iff]
    exact execute_names steps s layer name inside
  · have globals : ((Session.start source sink).after runs).machine.env = Machine.globals :=
      after_returns runs (.start source sink)
    exact (run_names steps text name globals (after_inside runs (.start source sink) rfl (Nat.zero_lt_succ 0))).1

def failingText : String :=
  "func f(a) { var b = a; return b + none; } var x = f(1); var y = 2;"

theorem names_only_grow_failing :
    let s := (Session.start ⟨[]⟩ .unlimited).after [(30, failingText)]
    let names := fun t : Session => ["f", "x", "y", "b"].map (t.machine.store.layer 0).contains
    names s = [true, false, false, false] ∧ names (endState (Session.run 30 "var x = 1;" s)) = [true, true, false, false] ∧
      (((endState (Session.run 30 "var x = 1;" s)).machine.store.layer 0).contains "x" = true ↔
        (s.machine.store.layer 0).contains "x" = true ∨ s.Completes 30 "var x = 1;" "x") := by
  exact ⟨by decide +kernel, by decide +kernel, names_only_grow.2.2 _ _ [(30, failingText)] 30 "var x = 1;" "x"⟩

end Sessions

end TreeWalk
