import TreeWalk.Proofs.Onward

set_option autoImplicit false

namespace TreeWalk

open Renaming

section Tidy

def Session.Tidy (s : Session) : Prop :=
  ∀ first distance, s.nextId ≤ first → s.machine.store.rename (moved first distance) = s.machine.store

theorem self_alike (s : Session) (tidy : s.Tidy) (fresh : ∀ id, s.nextId ≤ id → s.machine.distances[id]? = none)
    (first distance : Nat) (above : s.nextId ≤ first) : s.machine.Alike (moved first distance) s.machine := by
  refine ⟨(tidy first distance above).symm, rfl, rfl, rfl, fun id => ?_⟩
  by_cases below : id < first
  · rw [moved_below below]
  · have later : first ≤ id := Nat.le_of_not_lt below
    rw [moved_from later, fresh id (Nat.le_trans above later), fresh _ (Nat.le_trans above (Nat.le_add_right_of_le later))]

theorem program_fixed (program : Program) (low high first distance : Nat) (ids : Spread low high (Stmt.idsAll program))
    (above : high ≤ first) : Stmt.renameAll (.ofIds (moved first distance)) program = program :=
  stmts_rename_fixed program fun id member => moved_below (Nat.lt_of_lt_of_le (ids.within id member).2 above)

theorem run_tidy (steps : Nat) (source : String) (s : Session) (tidy : s.Tidy)
    (fresh : ∀ id, s.nextId ≤ id → s.machine.distances[id]? = none) : (endState (Session.run steps source s)).Tidy := by
  have parsed := parse_ends source s
  unfold Ends at parsed
  unfold Session.run Session.runUnder
  cases read : Session.parse source s with
  | error halt t =>
      rw [read] at parsed
      rw [bind_error _ read, parsed.1]
      exact tidy
  | ok program t =>
      rw [read] at parsed
      obtain ⟨later, machine, ids, _⟩ := parsed
      rw [bind_ok _ read]
      intro first distance above
      have kept : (endState (Session.onMachine
          (do Session.resolve program; Regime.standard.interpret steps program) t)).nextId = t.nextId := by
        unfold Session.onMachine
        split <;> rfl
      rw [kept] at above
      have alike := self_alike s tidy fresh first distance (Nat.le_trans later above)
      have checked := checked_run_alike steps program (moved_injective first distance) alike ids.nodup
        fun id member => fresh id (ids.within id member).1
      rw [program_fixed program _ _ first distance ids above] at checked
      unfold Session.onMachine
      rw [machine]
      rcases agree_cases _ _ _ _ _ checked with
        ⟨_, _, m, n, one, two, _, state⟩ | ⟨halt, other, m, n, one, two, _, state⟩
      · rw [one] at two ⊢
        cases two
        exact state.store.symm
      · rw [one] at two ⊢
        cases two
        exact state.store.symm

theorem natives_rename (ids : Nat → Nat) : Store.natives.map (Value.rename ids) = Store.natives := by
  unfold Store.natives
  rw [Bindings.map_of_list, List.map_map]
  rfl

theorem reachable_tidy (c : Chronicle) (reachable : c.Reachable) : c.session.Tidy := by
  induction reachable with
  | start source sink =>
      intro first distance _
      simp [Store.rename, Session.start, Machine.start, Store.empty, natives_rename]
  | run c steps source before ih =>
      exact run_tidy steps source c.session ih (reachable_sound c before).counted.fresh
  | parse c source before ih =>
      have parsed := parse_ends source c.session
      unfold Ends at parsed
      cases read : Session.parse source c.session with
      | error halt t =>
          rw [read] at parsed
          rw [show endState (EStateM.Result.error halt t : EStateM.Result Halt Session Program) = t from rfl, parsed.1]
          exact ih
      | ok program t =>
          rw [read] at parsed
          intro first distance above
          show t.machine.store.rename _ = t.machine.store
          rw [parsed.2.1]
          exact ih first distance (Nat.le_trans parsed.1 above)
  | streams c source sink before ih => exact ih

end Tidy

section Stages

theorem resolve_all_append (program others : Program) :
    Stmt.resolveAll (program ++ others) = (do Stmt.resolveAll program; Stmt.resolveAll others) := by
  induction program with
  | nil => rfl
  | cons s rest ih => rw [List.cons_append, Stmt.resolveAll, Stmt.resolveAll, ih, bind_assoc]

theorem accepted_anywhere (program : Program) (r : Renaming) (distances : Distances)
    (injective : Function.Injective r.id) (accepted : (Program.resolve program ∅).1 = .ok ())
    (fresh : ∀ id, distances[r.id id]? = none) :
    ∃ s, Stmt.resolveAll (Stmt.renameAll r program) (.start distances) = .ok () s := by
  unfold Program.resolve EStateM.run at accepted
  have found : ∀ id, distances[r.id id]? = (∅ : Distances)[id]? := fun id => by rw [fresh, Std.TreeMap.getElem?_emptyc]
  rcases agree_cases _ _ _ _ _ (rechecks_stmts injective program (.start ∅) (.start distances) ⟨rfl, rfl, rfl, found⟩) with
    ⟨_, _, s, t, left, right, _, _⟩ | ⟨e, f, s, t, left, right, _, _⟩
  · exact ⟨t, right⟩
  · rw [left] at accepted
    cases accepted

variable {program others : Program} {start mid next : Nat} {here : Distances} {u v : Scoping}

theorem fresh_behind (ids : Spread start mid (Stmt.idsAll program)) (later : start ≤ mid)
    (fresh : ∀ id, start ≤ id → here[id]? = none) (first : Stmt.resolveAll program (.start here) = .ok () u) :
    Balanced (Stmt.idsAll program) (.start here) u ∧ ∀ id, mid ≤ id → u.distances[id]? = none := by
  have balanced := ends_ok _ _ _ _ _ _
    (balances_stmts program ids.nodup (.start here) fun id member => fresh id (ids.within id member).1) first
  refine ⟨balanced, fun id above => ?_⟩
  rw [balanced.others id fun member => Nat.lt_irrefl _ (Nat.lt_of_lt_of_le (ids.within id member).2 above)]
  exact fresh id (Nat.le_trans later above)

theorem checks_joined (one : Spread start mid (Stmt.idsAll program)) (later : start ≤ mid)
    (fresh : ∀ id, start ≤ id → here[id]? = none)
    (first : Stmt.resolveAll program (.start here) = .ok () u)
    (second : Stmt.resolveAll others (.start u.distances) = .ok () v) :
    ∃ w, Stmt.resolveAll (program ++ others) (.start here) = .ok () w ∧
      ∀ id : Nat, w.distances[id]? = v.distances[id]? := by
  obtain ⟨balanced, _⟩ := fresh_behind one later fresh first
  have closed : u.scopes = [] := List.length_eq_zero_iff.mp balanced.depth
  have same : (Scoping.start u.distances).Renamed (.ofIds fun id => id) u :=
    ⟨closed, balanced.surrounding, balanced.inClass, fun _ => rfl⟩
  have rechecked := rechecks_stmts (r := .ofIds fun id => id) (fun _ _ equal => equal) others (.start u.distances) u same
  rw [stmts_rename_same, second] at rechecked
  rw [resolve_all_append, bind_ok _ first]
  generalize right : Stmt.resolveAll others u = result at rechecked
  cases rechecked with
  | ok _ _ _ w _ state => exact ⟨w, rfl, state.distances⟩

end Stages

section Runs

variable {steps : Nat} {text : String} {s : Session} {program : Program} {next : Nat}

theorem run_checked (reads : ReadsAs s.nextId text program next) {u : Scoping}
    (accepted : Stmt.resolveAll program (.start s.machine.distances) = .ok () u) :
    Session.run steps text s = Session.onMachine (Regime.standard.interpret steps program)
      ⟨{ s.machine with distances := u.distances }, next⟩ := by
  have resolved : Session.resolve program s.machine = .ok () { s.machine with distances := u.distances } := by
    unfold Session.resolve Program.resolve EStateM.run
    rw [accepted]
  rw [run_parsed steps text s program next (parse_reads reads)]
  unfold Session.onMachine
  rw [bind_ok _ resolved]

theorem interpret_error {m n : Machine} {halt : Halt} (run : Regime.standard.executeProgram steps program m = .error halt n) :
    Regime.standard.interpret steps program m = .error halt n :=
  bind_error _ run

theorem interpret_ok {m n : Machine} (run : Regime.standard.executeProgram steps program m = .ok () n)
    (flushes : n.sink.refusesFlush = false) : Regime.standard.interpret steps program m = .ok () n := by
  unfold Regime.interpret
  rw [bind_ok _ run]
  simp [Eval.flush, Eval.onSink, Sink.flush, flushes]

theorem interpret_append (others : Program) (formed : program.WellFormed) :
    Regime.standard.interpret steps (program ++ others) =
      (do Regime.standard.executeProgram steps program; Regime.standard.interpret steps others) := by
  unfold Regime.interpret
  rw [execute_program_append .standard steps others program (departs_program .standard steps formed), bind_assoc]

end Runs

section Joined

theorem moved_nowhere (first id : Nat) : moved first 0 id = id := by
  unfold moved
  split <;> rfl

variable {text behind whole : String} {s : Session} {program others : Program} {mid distance : Nat} {u v : Scoping}

theorem moved_behind {ids : List Nat} (spread : Spread mid (mid + distance) ids)
    (balanced : Balanced ids (.start u.distances) v) (beyond : ∀ id, mid ≤ id → u.distances[id]? = none)
    (further : ∀ id, mid + distance ≤ id → v.distances[id]? = none) (id : Nat) :
    v.distances[moved mid distance id]? = u.distances[id]? := by
  by_cases below : id < mid
  · rw [moved_below below]
    exact balanced.others id fun member => Nat.lt_irrefl _ (Nat.lt_of_lt_of_le below (spread.within id member).1)
  · have above : mid ≤ id := Nat.le_of_not_lt below
    rw [moved_from above, beyond id above, further _ (Nat.add_le_add_right above distance)]

theorem ended_alike {m n : Machine} {late : Distances} (tidy : (Session.mk m mid).Tidy)
    (alike : m.Alike (moved mid distance) n) (found : ∀ id : Nat, n.distances[id]? = late[id]?) :
    Machine.Alike (moved (mid + distance) 0) { m with distances := late } n := by
  have fixed : m.store.rename (moved mid distance) = m.store := tidy mid distance (Nat.le_refl mid)
  have still : m.store.rename (moved (mid + distance) 0) = m.store := tidy _ 0 (Nat.le_add_right mid distance)
  refine ⟨alike.store.trans (fixed.trans still.symm), alike.env, alike.source, alike.sink, fun id => ?_⟩
  rw [moved_nowhere]
  exact found id

theorem runs_joined (steps : Nat) (tidy : s.Tidy) (fresh : ∀ id, s.nextId ≤ id → s.machine.distances[id]? = none)
    (flushes : s.machine.sink.refusesFlush = false) (later : s.nextId ≤ mid)
    (one : Spread s.nextId mid (Stmt.idsAll program)) (two : Spread mid (mid + distance) (Stmt.idsAll others))
    (first : ReadsAs s.nextId text program mid) (second : ReadsAs mid behind others (mid + distance))
    (both : ReadsAs s.nextId whole (program ++ others) (mid + distance))
    (accepted : Stmt.resolveAll program (.start s.machine.distances) = .ok () u)
    (also : Stmt.resolveAll others (.start u.distances) = .ok () v) (formed : program.WellFormed) :
    ∃ first distance, Agree (Session.Alike first distance) Halt.ReportsAs Eq
      ((do Session.run steps text; Session.run steps behind) s) (Session.run steps whole s) := by
  obtain ⟨w, joined, same⟩ := checks_joined one later fresh accepted also
  obtain ⟨_, beyond⟩ := fresh_behind one later fresh accepted
  obtain ⟨balanced, further⟩ := fresh_behind two (Nat.le_add_right mid distance) beyond also
  let pair : Pairing := ⟨moved mid distance, u.distances, w.distances,
    fun id => (same _).trans (moved_behind two balanced beyond further id), s.machine.sink.refusesFlush⟩
  have twin : pair.Twin { s.machine with distances := u.distances } { s.machine with distances := w.distances } :=
    ⟨(tidy mid distance later).symm, rfl, rfl, rfl, rfl, rfl, rfl⟩
  have repeated := repeats_execute_program steps program _ _ twin
  rw [program_fixed program _ _ mid distance one (Nat.le_refl mid)] at repeated
  rw [run_checked both joined, interpret_append others formed]
  rcases agree_cases _ _ _ _ _ repeated with
    ⟨_, _, m, n, left, right, _, after⟩ | ⟨halt, other, m, n, left, right, report, after⟩
  · have early : Session.run steps text s = .ok () ⟨m, mid⟩ := by
      rw [run_checked first accepted]
      unfold Session.onMachine
      rw [interpret_ok left (after.refuses.trans flushes)]
    have ended := run_tidy steps text s tidy fresh
    rw [early] at ended
    have start : (Session.mk m mid).machine.distances = u.distances := after.here
    have found : ∀ id : Nat, n.distances[id]? = v.distances[id]? := after.there ▸ same
    have rest := interpret_alike steps others _ _ (ended_alike ended (twin_alike after) found)
    rw [program_fixed others _ _ _ 0 two (Nat.le_refl _)] at rest
    refine ⟨mid + distance, 0, ?_⟩
    rw [bind_ok _ early, run_checked (s := ⟨m, mid⟩) second (start ▸ also)]
    apply on_machine_alike (Nat.le_refl _)
    rwa [bind_ok _ right]
  · have early : Session.run steps text s = .error halt ⟨m, mid⟩ := by
      rw [run_checked first accepted]
      unfold Session.onMachine
      rw [interpret_error left]
    refine ⟨mid, distance, ?_⟩
    unfold Session.onMachine
    rw [bind_error _ early, bind_error _ right]
    exact .error _ _ _ _ report ⟨twin_alike after, Nat.le_refl _, rfl⟩

end Joined

theorem sequence_reachable (c : Chronicle) (reachable : c.Reachable) (steps : Nat) (text behind : String) :
    ∃ d : Chronicle, d.Reachable ∧
      d.session = endState ((do Session.run steps text; Session.run steps behind) c.session) := by
  cases early : Session.run steps text c.session with
  | error halt s =>
      refine ⟨_, .run c steps text reachable, ?_⟩
      rw [bind_error _ early, early]
  | ok _ s =>
      refine ⟨_, .run _ steps behind (.run c steps text reachable), ?_⟩
      rw [bind_ok _ early, early]
      rfl

-- `whole` has the lines of both texts, and `behind` blank ones in the place of those of the first.
structure Joins (text other behind whole : String) : Prop where
  behind : Text.lines behind.toList = List.replicate (Text.lines text.toList).length [] ++ Text.lines other.toList
  whole : Text.lines whole.toList = Text.lines text.toList ++ Text.lines other.toList

def SeenAlike (one two : EStateM.Result Halt Session Unit) : Prop :=
  observe one = observe two ∧
    ∀ requests, Session.observations requests (endState one) = Session.observations requests (endState two)

theorem texts_in_sequence (c : Chronicle) (reachable : c.Reachable) (steps : Nat) (text other behind whole : String)
    (one : Accepted text) (two : Accepted other) (joins : Joins text other behind whole)
    (flushes : c.session.machine.sink.refusesFlush = false) :
    SeenAlike (Session.run steps whole c.session)
      ((do Session.run steps text; Session.run steps behind) c.session) := by
  have fresh := (reachable_sound c reachable).counted.fresh
  obtain ⟨program, size, reads, checked⟩ := accepted_reads text one
  obtain ⟨others, distance, further, also⟩ := accepted_reads other two
  -- In the session both programs are read further on, the second one below the lines of the first.
  have first := reads_behind 0 size 0 c.session.nextId text text program rfl reads
  rw [Nat.zero_add] at first
  have second := reads_behind 0 distance _ (size + c.session.nextId) other behind others joins.behind further
  rw [Nat.zero_add, Nat.add_comm distance] at second
  have both := reads_joined _ _ _ text other behind whole _ _ joins.behind joins.whole first second
  obtain ⟨begun, early⟩ := reads_spread first
  obtain ⟨_, late⟩ := reads_spread second
  obtain ⟨u, accepted⟩ := accepted_anywhere program ⟨(· + c.session.nextId), (· + 0)⟩ c.session.machine.distances
    (fun _ _ => Nat.add_right_cancel) checked fun id => fresh _ (Nat.le_add_left _ id)
  obtain ⟨_, beyond⟩ := fresh_behind early begun fresh accepted
  obtain ⟨v, next⟩ := accepted_anywhere others ⟨(· + (size + c.session.nextId)), (· + (Text.lines text.toList).length)⟩
    u.distances (fun _ _ => Nat.add_right_cancel) also fun id => beyond _ (Nat.le_add_left _ id)
  have formed := (ends_ok _ _ _ _ _ _ (decides_program _ early.nodup (.start c.session.machine.distances) rfl
    fun id member => fresh id (early.within id member).1) accepted).1
  obtain ⟨place, width, agree⟩ := runs_joined steps (reachable_tidy c reachable) fresh flushes begun early late
    first second both accepted next formed
  obtain ⟨seen, alike⟩ := agree_observe agree alike_streams
  obtain ⟨d, reached, session⟩ := sequence_reachable c reachable steps text behind
  unfold SeenAlike
  rw [← session] at alike ⊢
  exact ⟨seen, fun requests => observations_alike place width requests d _ reached alike⟩

theorem texts_in_sequence_call :
    (Chronicle.ofText 20 "var x = none;").Reachable ∧
      Accepted "func f(y) \x7b\n  return y;\n\x7d" ∧ Accepted "Print(f(x));" ∧
      Joins "func f(y) \x7b\n  return y;\n\x7d" "Print(f(x));" "\n\n\nPrint(f(x));"
        "func f(y) \x7b\n  return y;\n\x7d\nPrint(f(x));" ∧
      (Chronicle.ofText 20 "var x = none;").session.machine.sink.refusesFlush = false ∧
      SeenAlike (Session.run 20 "func f(y) \x7b\n  return y;\n\x7d\nPrint(f(x));" (Chronicle.ofText 20 "var x = none;").session)
        ((do
          Session.run 20 "func f(y) \x7b\n  return y;\n\x7d"
          Session.run 20 "\n\n\nPrint(f(x));")
          (Chronicle.ofText 20 "var x = none;").session) := by
  have accepted : Accepted "func f(y) \x7b\n  return y;\n\x7d" := by decide +kernel
  have also : Accepted "Print(f(x));" := by decide +kernel
  have joins : Joins "func f(y) \x7b\n  return y;\n\x7d" "Print(f(x));" "\n\n\nPrint(f(x));"
      "func f(y) \x7b\n  return y;\n\x7d\nPrint(f(x));" := ⟨by decide +kernel, by decide +kernel⟩
  have flushes : (Chronicle.ofText 20 "var x = none;").session.machine.sink.refusesFlush = false := by decide +kernel
  exact ⟨of_text_reachable _ _, accepted, also, joins, flushes,
    texts_in_sequence _ (of_text_reachable _ _) 20 _ _ _ _ accepted also joins flushes⟩

end TreeWalk
