import TreeWalk.Proofs.Globals
import TreeWalk.Proofs.LocalNames
import TreeWalk.Proofs.Overlaid

set_option autoImplicit false

namespace TreeWalk

open Eval Overlay

section Verdicts

def Renaming.apart (first next : Nat) : Renaming :=
  .ofIds fun id => if first ≤ id ∧ id < next then id else id + next

variable {first next : Nat} {program : Program}

theorem apart_injective : Function.Injective (Renaming.apart first next).id := by
  intro a b same
  simp only [Renaming.apart, Renaming.ofIds] at same
  split at same <;> split at same <;> omega

theorem apart_above (later : first ≤ next) (id : Nat) : first ≤ (Renaming.apart first next).id id := by
  simp only [Renaming.apart, Renaming.ofIds]
  split <;> omega

theorem apart_program (ids : Spread first next (Stmt.idsAll program)) :
    Stmt.renameAll (Renaming.apart first next) program = program :=
  stmts_rename_fixed program fun id member => if_pos (ids.within id member)

theorem verdict_alone {distances : Distances} (later : first ≤ next) (ids : Spread first next (Stmt.idsAll program))
    (fresh : ∀ id, first ≤ id → distances[id]? = none) :
    (program.resolve distances).1 = (program.resolve ∅).1 := by
  have none : ∀ id, (∅ : Distances)[id]? = none := fun id => Std.TreeMap.getElem?_emptyc
  have found : ∀ id, distances[(Renaming.apart first next).id id]? = (∅ : Distances)[id]? := fun id =>
    (fresh _ (apart_above later id)).trans (none id).symm
  have balanced := balances_stmts program ids.nodup (.start ∅) fun id _ => none id
  unfold Program.resolve EStateM.run
  rcases agree_cases _ _ _ _ _ (rechecks_stmts apart_injective program (.start ∅) (.start distances)
      ⟨rfl, rfl, rfl, found⟩) with ⟨_, _, s, t, left, right, _, _⟩ | ⟨e, f, s, t, left, right, same, _⟩
  · rw [apart_program ids] at right
    simp only [left, right]
  · have refused := ends_error _ _ _ _ _ _ balanced left
    obtain rfl := same refused.opened refused.fresh
    rw [apart_program ids] at right
    simp only [left, right]
    rfl

end Verdicts

section Ends

variable {ε σ α β : Type} {values : α → β → Prop} {left : EStateM.Result ε σ α}

theorem mirrored_end {p : Watch α} {q : Eval α} (mirrors : Mirrors p q) (w : Watched) :
    endState (q w.machine) = (endState (p w)).machine := by
  rcases agree_cases _ _ _ _ _ (mirrors w w.machine rfl) with
    ⟨_, _, _, _, here, there, _, rfl⟩ | ⟨_, _, _, _, here, there, _, rfl⟩ <;> rw [here, there] <;> rfl

theorem agree_shown {states : σ → Watched → Prop} {errors : ε → Halt → Prop} {p : Watch β} {q : Eval β}
    (mirrors : Mirrors p q) (w : Watched) (agree : Agree states errors values left (p w)) :
    Agree (fun s t => ∃ events, states s ⟨t, events⟩) errors values left (q w.machine) := by
  rcases agree_cases _ _ _ _ _ (mirrors w w.machine rfl) with
    ⟨_, b, t, _, here, there, rfl, rfl⟩ | ⟨_, halt, t, _, here, there, rfl, rfl⟩
  · rw [here] at agree
    rw [there]
    cases agree with
    | ok a _ s _ value state => exact .ok a _ s _ value ⟨t.events, state⟩
  · rw [here] at agree
    rw [there]
    cases agree with
    | error e _ s _ failure state => exact .error e _ s _ failure ⟨t.events, state⟩

theorem spent_shown {p : Watch β} {q : Eval β} (mirrors : Mirrors p q) (w : Watched) {wide : Bool}
    {left : EStateM.Result Halt σ α} (spent : Spent left (p w) wide) : Spent left (q w.machine) wide := by
  cases wide with
  | true => exact spent
  | false =>
      obtain ⟨_, run⟩ := spent
      rcases agree_cases _ _ _ _ _ (mirrors w w.machine rfl) with ⟨_, _, _, _, here, _⟩ | ⟨_, _, _, n, here, there, rfl, _⟩
      · rw [run] at here
        cases here
      · rw [run] at here
        cases here
        exact ⟨n, there⟩

end Ends

section Checked

theorem accepted_resolves {program : Program} {m : Machine} (accepted : program.Accepted m.distances) :
    ∃ n, Session.resolve program m = .ok () n := by
  obtain ⟨a, result⟩ := Program.accepted_ok accepted
  unfold Session.resolve
  cases outcome : program.resolve m.distances with
  | mk checked distances =>
      rw [outcome] at result
      cases result
      exact ⟨_, rfl⟩

structure Watched.Checked (next : Nat) (older w : Watched) : Prop where
  resting : Resting next w
  longer : older.events <:+ w.events
  machine : w.machine = { older.machine with distances := w.machine.distances }

variable {older older' w w' : Watched} {record : List Event} {first next next' : Nat} {program program' : Program}
  {k : Tandem} {v : Overlay}

theorem resolve_checked (resting : Resting first older) (later : first ≤ next)
    (ids : Spread first next (Stmt.idsAll program)) (proper : Stmt.ProperAll program) :
    older.Checked next (endState (Watch.resolve program older)) where
  resting := by
    have ready := resolve_ready older program first next resting.sound resting.counted later ids proper
    refine ends_state ready ?_ ?_
    · exact fun _ _ ⟨accepted, env⟩ => ⟨accepted.sound, accepted.counted, env.trans resting.globals⟩
    · exact fun _ _ ⟨⟨sound, counted, env⟩, _⟩ => ⟨sound, counted, env.trans resting.globals⟩
  longer := records_resolve program older
  machine := by
    obtain ⟨distances, kept⟩ := resolve_keeps program older.machine
    rw [← mirrored_end (mirrors_resolve program) older, kept]

theorem accepted_ready (resting : Resting first older) (later : first ≤ next)
    (ids : Spread first next (Stmt.idsAll program)) (proper : Stmt.ProperAll program)
    (accepted : program.Accepted older.machine.distances) :
    ∃ w, Watch.resolve program older = .ok () w ∧ Session.resolve program older.machine = .ok () w.machine ∧
      older.Checked next w ∧ Ready next program w := by
  have ready := resolve_ready older program first next resting.sound resting.counted later ids proper
  have checked := resolve_checked resting later ids proper
  obtain ⟨n, resolved⟩ := accepted_resolves accepted
  rcases agree_cases _ _ _ _ _ (mirrors_resolve program older older.machine rfl) with
    ⟨_, _, w, m, watched, run, _, rfl⟩ | ⟨_, _, _, _, _, run, _, _⟩
  · rw [watched] at checked
    exact ⟨w, watched, run, checked, (ends_ok _ _ _ _ _ _ ready watched).1⟩
  · rw [resolved] at run
    cases run

theorem checks_beside (resting : Resting first older) (resting' : Resting first older')
    (beside : k.Beside v Machine.globals Machine.globals older.machine ⟨older'.machine, record⟩)
    (checked : older.Checked next w) (checked' : older'.Checked next' w') {longer : List Event} (more : record <:+ longer)
    (wide : Bool) :
    Tandem.Beside ⟨w.machine.distances, w'.machine.distances, k.picked, wide⟩ v Machine.globals Machine.globals w.machine
      ⟨w'.machine, longer⟩ := by
  obtain ⟨here, there, picked, paced⟩ := k
  obtain rfl : older.machine.distances = here := beside.like.here
  obtain rfl : older'.machine.distances = there := beside.like.there
  have alike := distances_still_lead resting.sound resting'.sound checked.resting.sound checked'.resting.sound
    checked.longer.subset checked'.longer.subset
  have store := store_like_still alike resting.sound resting'.sound beside.like.store
  refine ⟨⟨?_, checked.resting.globals, checked'.resting.globals, rfl, rfl, ?_, ?_⟩, told_longer more beside.told⟩
  · rw [checked.machine, checked'.machine]
    exact store
  · rw [checked.machine, checked'.machine]
    exact beside.like.source
  · rw [checked.machine, checked'.machine]
    exact beside.like.sink

theorem beside_itself (resting : Resting first older) (picked : List Stmt → Bool) (wide : Bool) (record : List Event) :
    Tandem.Beside ⟨older.machine.distances, older.machine.distances, picked, wide⟩ (start _ resting.sound.ground)
      Machine.globals Machine.globals older.machine ⟨older.machine, record⟩ :=
  ⟨⟨store_over_itself resting.sound picked, resting.globals, resting.globals, rfl, rfl, rfl, rfl⟩, start_told _ _⟩

theorem checked_tandem (resting : Resting first older) (resting' : Resting first older')
    (beside : k.Beside v Machine.globals Machine.globals older.machine ⟨older'.machine, record⟩) (later : first ≤ next)
    (later' : first ≤ next') (ids : Spread first next (Stmt.idsAll program)) (ids' : Spread first next' (Stmt.idsAll program'))
    (proper : Stmt.ProperAll program) (proper' : Stmt.ProperAll program')
    (accepted : program.Accepted older.machine.distances) (accepted' : program'.Accepted older'.machine.distances)
    (added : Stmt.AlignedAll (fun _ _ _ => True) k.picked [] program program') (wide : Bool) {steps steps' : Nat}
    (paced : Paced wide steps steps') :
    (∃ (k' : Tandem) (w : Overlay), k'.picked = k.picked ∧
      Agree (k'.Beside w Machine.globals Machine.globals) Halt.ReportsAs Eq (program.run steps older.machine)
        ((do Watch.resolve program'; Watch.interpret steps' program') ⟨older'.machine, record⟩)) ∨
    Event.anyLate k.picked
      (endState ((do Watch.resolve program'; Watch.interpret steps' program') ⟨older'.machine, record⟩)).events = true ∨
    Spent (program.run steps older.machine)
      ((do Watch.resolve program'; Watch.interpret steps' program') ⟨older'.machine, record⟩) wide := by
  obtain ⟨w, _, run, checked, ready⟩ := accepted_ready resting later ids proper accepted
  obtain ⟨w', _, run', checked', ready'⟩ := accepted_ready resting' later' ids' proper' accepted'
  have aligned : Stmt.AlignedAll (w.machine.distances.Lead w'.machine.distances) k.picked [] program program' :=
    stmts_lead (distances_lead ready.sound ready'.sound) program added .nil (by simp) ready.settled ready'.settled
  rcases agree_cases _ _ _ _ _ (mirrors_resolve program' ⟨older'.machine, record⟩ older'.machine rfl) with
    ⟨_, _, alone, m, watched, other, _, same⟩ | ⟨_, _, _, _, _, other, _, _⟩
  · rw [run'] at other
    cases other
    have more : record <:+ alone.events := records_ok (records_resolve program') watched
    have begun := checks_beside resting resting' beside checked checked' more wide
    rw [← show alone.machine = w'.machine from same] at begun aligned
    unfold Program.run
    rw [bind_ok _ run, bind_ok _ watched]
    refine (interpret_pace paced aligned _ _ _ begun).imp_left ?_
    exact fun ⟨after, _, agree⟩ => ⟨⟨w.machine.distances, alone.machine.distances, k.picked, wide⟩, after, rfl, agree⟩
  · rw [run'] at other
    cases other

end Checked

structure Watched.Counterpart (nextId : Nat) (m n : Watched) : Prop where
  resting : Resting nextId m
  resting' : Resting nextId n
  beside : ∃ (k : Tandem) (w : Overlay), k.picked = (fun _ => false) ∧
    k.Beside w Machine.globals Machine.globals m.machine n

def Machine.Counterpart (nextId : Nat) (m n : Machine) : Prop :=
  ∃ events events', Watched.Counterpart nextId ⟨m, events⟩ ⟨n, events'⟩

section Counterparts

variable {m n : Watched} {first next : Nat} {program program' : Program} {steps steps' : Nat}

theorem counterpart_itself (resting : Resting first m) : m.Counterpart first m :=
  ⟨resting, resting, _, _, rfl, beside_itself resting _ false m.events⟩

theorem never_late (events : List Event) : Event.anyLate (fun _ => false) events = false := by
  have never : ∀ (older : List Event) (loop : Nat), older.any (Event.opensLoop (fun _ => false) loop) = false := by
    intro older loop
    rw [List.any_eq_false]
    intro event _ opens
    unfold Event.opensLoop at opens
    split at opens
    · rw [Bool.and_false] at opens
      cases opens
    · cases opens
  have nothing : ∀ {α : Type} (a : Option α), a.any (fun _ => false) = false := fun a => by cases a <;> rfl
  induction events with
  | nil => rfl
  | cons event rest ih =>
      have here : event.isLate (fun _ => false) rest = false := by
        cases event <;> simp [Event.isLate, never, nothing]
      rw [Event.anyLate, here, ih, Bool.or_false]

theorem checks_counterpart (counterpart : m.Counterpart first n) {w w' : Watched} (checked : m.Checked next w)
    (checked' : n.Checked next w') : w.Counterpart next w' := by
  obtain ⟨k, v, none, beside⟩ := counterpart.beside
  exact ⟨checked.resting, checked'.resting, ⟨w.machine.distances, w'.machine.distances, k.picked, k.wide⟩, v, none,
    checks_beside counterpart.resting counterpart.resting' beside checked checked' checked'.longer k.wide⟩

theorem mirrors_run (steps : Nat) (program : Program) :
    Mirrors (do Watch.resolve program; Watch.interpret steps program) (program.run steps) :=
  mirrors_bind (mirrors_resolve program) fun _ => mirrors_interpret steps program

theorem run_rests (resting : Resting first m) (later : first ≤ next) (ids : Spread first next (Stmt.idsAll program))
    (proper : Stmt.ProperAll program) (steps : Nat) :
    Resting next (endState ((do Watch.resolve program; Watch.interpret steps program) m)) :=
  ends_state (checked_run_ends steps program first next m resting later ids proper) (fun _ _ => id) fun _ _ => And.left

theorem run_counterpart (counterpart : m.Counterpart first n) (later : first ≤ next)
    (ids : Spread first next (Stmt.idsAll program)) (ids' : Spread first next (Stmt.idsAll program'))
    (proper : Stmt.ProperAll program) (proper' : Stmt.ProperAll program') (accepted : program.Accepted m.machine.distances)
    (accepted' : program'.Accepted n.machine.distances)
    (added : Stmt.AlignedAll (fun _ _ _ => True) (fun _ => false) [] program program') (wide : Bool)
    (paced : Paced wide steps steps') :
    Agree (Machine.Counterpart next) Halt.ReportsAs Eq (program.run steps m.machine) (program'.run steps' n.machine) ∨
      Spent (program.run steps m.machine) (program'.run steps' n.machine) wide := by
  obtain ⟨k, v, none, beside⟩ := counterpart.beside
  have rests := run_rests counterpart.resting later ids proper steps
  have rests' := run_rests counterpart.resting' later ids' proper' steps'
  rcases checked_tandem counterpart.resting counterpart.resting' beside later later ids ids' proper proper' accepted accepted'
    (none ▸ added) wide paced with ⟨k', w, same, agree⟩ | late | spent
  · have left := mirrored_end (mirrors_run steps program) m
    have kept : Agree (fun s t => ∃ events, Watched.Counterpart next ⟨s, events⟩ t) Halt.ReportsAs Eq
        (program.run steps m.machine) ((do Watch.resolve program'; Watch.interpret steps' program') n) :=
      agree_ends agree fun beside => ⟨_, by rw [left]; exact rests, rests', k', w, same.trans none, beside⟩
    exact .inl (agree_ends (agree_shown (mirrors_run steps' program') n kept) fun ⟨events', events, beside⟩ =>
      ⟨events, events', beside⟩)
  · rw [none, never_late] at late
    cases late
  · exact .inr (spent_shown (mirrors_run steps' program') n spent)

theorem refused_resolve {m : Machine} (refused : ¬ program.Accepted m.distances) : ∃ e s,
    (program.resolve m.distances).1 = .error e ∧ Session.resolve program m = .error (.failed (.scoping e)) s := by
  unfold Session.resolve
  cases outcome : program.resolve m.distances with
  | mk verdict distances =>
      cases verdict with
      | ok a => exact (refused (by simp [Program.Accepted, outcome])).elim
      | error e => exact ⟨e, _, rfl, rfl⟩

theorem program_counterpart (counterpart : m.Counterpart first n) (later : first ≤ next)
    (ids : Spread first next (Stmt.idsAll program)) (proper : Stmt.ProperAll program) (wide : Bool)
    (paced : Paced wide steps steps') :
    Agree (Machine.Counterpart next) Halt.ReportsAs Eq (program.run steps m.machine) (program.run steps' n.machine) ∨
      Spent (program.run steps m.machine) (program.run steps' n.machine) wide := by
  have verdict : (program.resolve n.machine.distances).1 = (program.resolve m.machine.distances).1 :=
    (verdict_alone later ids counterpart.resting'.counted.fresh).trans
      (verdict_alone later ids counterpart.resting.counted.fresh).symm
  have same : program.Accepted n.machine.distances ↔ program.Accepted m.machine.distances := by
    unfold Program.Accepted
    rw [verdict]
  by_cases accepted : program.Accepted m.machine.distances
  · exact run_counterpart counterpart later ids ids proper proper accepted (same.mpr accepted) (stmts_itself [] program) wide
      paced
  · obtain ⟨e, s, here, refused⟩ := refused_resolve accepted
    obtain ⟨e', t, there, refused'⟩ := refused_resolve fun accepted' => accepted (same.mp accepted')
    obtain rfl : e' = e := Except.error.inj (there.symm.trans (verdict.trans here))
    have behind := checks_counterpart counterpart (resolve_checked counterpart.resting later ids proper)
      (resolve_checked counterpart.resting' later ids proper)
    have left := mirrored_end (mirrors_resolve program) m
    have right := mirrored_end (mirrors_resolve program) n
    rw [refused] at left
    rw [refused'] at right
    obtain rfl : s = (endState (Watch.resolve program m)).machine := left
    obtain rfl : t = (endState (Watch.resolve program n)).machine := right
    unfold Program.run
    rw [bind_error _ refused, bind_error _ refused']
    exact .inl (.error _ _ _ _ rfl ⟨_, _, behind⟩)

end Counterparts

end TreeWalk
