import TreeWalk.Proofs.Once
import TreeWalk.Proofs.Sequence

set_option autoImplicit false

namespace TreeWalk

namespace Session

-- Runs one text after the other, each within its steps, up to the first error.
def runAll (regime : Regime) : List (Nat × String) → SessionM Unit
  | [] => return ()
  | (steps, text) :: rest => do
      runUnder regime steps text
      runAll regime rest

-- The programs of the texts.
def parseAll : List (Nat × String) → SessionM (List Program)
  | [] => return []
  | (_, text) :: rest => do
      let program ← parse text
      return program :: (← parseAll rest)

end Session

section Programs

-- The names of the natives and those that the programs declare at the top level.
def globalNames (programs : List Program) : List String :=
  Native.all.map Native.name ++ programs.flatMap Stmt.ownAll

-- The names of a program that is run among those at the top level.
structure Program.Apart (ground : List String) (program : Program) : Prop where
  own : Stmt.ownAll program ⊆ ground
  distinct : (Stmt.nestedAll program).Nodup
  outside : ∀ name ∈ Stmt.nestedAll program, name ∉ ground

theorem declared_split_all : ∀ programs : List Program,
    (programs.flatMap Program.declared).Perm (programs.flatMap Stmt.ownAll ++ programs.flatMap Stmt.nestedAll)
  | [] => .refl _
  | program :: rest => by
      rw [List.perm_iff_count]
      intro name
      have here := (declared_split program).count_eq name
      have later := (declared_split_all rest).count_eq name
      simp only [List.flatMap_cons, List.count_append, Program.declared] at here later ⊢
      omega

theorem programs_apart (programs : List Program)
    (once : (Native.all.map Native.name ++ programs.flatMap Program.declared).Nodup) (program : Program)
    (member : program ∈ programs) : program.Apart (globalNames programs) := by
  have split : (globalNames programs ++ programs.flatMap Stmt.nestedAll).Nodup := by
    rw [globalNames, List.append_assoc]
    exact ((declared_split_all programs).append_left _).nodup_iff.mp once
  obtain ⟨_, nested, apart⟩ := List.nodup_append.mp split
  exact ⟨fun _ own => List.mem_append_right _ (List.mem_flatMap.mpr ⟨program, member, own⟩),
    (List.pairwise_flatMap.mp nested).1 program member,
    fun name inside global => apart name global name (List.mem_flatMap.mpr ⟨program, member, inside⟩) rfl⟩

theorem program_apart {ground : List String} {program : Program} (apart : program.Apart ground)
    (proper : Stmt.ProperAll program) : Stmt.PairedAll (Scheme.disjoint ground) [] program program := by
  refine stmts_reflected (once_reflects ground) program [] proper (fun _ own => ⟨apart.own own, rfl⟩)
    ⟨(Scheme.disjoint ground).fits_nil, apart.distinct, ?_, ?_⟩
  · intro member
    exact stmts_variable program proper ((declared_split program).mem_iff.mpr (List.mem_append_right _ member))
  · intro mark around name member
    obtain rfl := List.mem_singleton.mp around
    exact apart.outside name member

end Programs

section Runs

variable {ground : List String} {steps next : Nat} {program : Program} {w : Watched} {m n : Machine}

-- The machines of the two sessions between two runs.
structure Beside (ground : List String) (w : Watched) (n : Machine) : Prop where
  store : ∃ world, w.machine.store.Echoed (Scheme.disjoint ground) (Visit.Known w.events) world n.store
  env : n.env = Machine.globals
  distances : n.distances = w.machine.distances
  source : n.source = w.machine.source
  sink : n.sink = w.machine.sink

theorem interpret_beside (ready : Ready next program w) (globals : w.machine.env = Machine.globals)
    (proper : Stmt.ProperAll program) (apart : program.Apart ground) (beside : Beside ground w n)
    (run : Regime.standard.interpret steps program w.machine = .ok () m) :
    ∃ last n', last.machine = m ∧ Resting next last ∧
      Regime.outward.interpret steps program n = .ok () n' ∧ Beside ground last n' := by
  obtain ⟨world, stores⟩ := beside.store
  let k : Duet := ⟨Scheme.disjoint ground, Visit.Known w.events, w.machine.distances, ready.sound.distances⟩
  have stands : k.scheme.Stands world [] Machine.globals := ⟨rfl, (Scheme.disjoint ground).fits_nil⟩
  have echoed : Machine.Echoed k Machine.globals world w.machine n :=
    ⟨stores, globals, beside.env, rfl, beside.distances, beside.source, beside.sink⟩
  obtain ⟨wider, _, n', _, other, ended, _⟩ := interpret_alongside (follows_outward ground _ _ _) steps
    Machine.globals world [] program program stands ready.settled (program_apart apart proper) w.machine n echoed () m run
  have kept := interpret_keeps steps program w globals proper ready.settled ready.sound
  rcases agree_cases _ _ _ _ _ (mirrors_interpret steps program w w.machine rfl) with
    ⟨_, _, last, _, watched, same, _, rfl⟩ | ⟨_, _, _, _, _, refused, _, _⟩
  · unfold Ends at kept
    rw [watched] at kept
    obtain ⟨reached, sound, _⟩ := kept
    rw [run] at same
    cases same
    refine ⟨last, n', rfl, ⟨sound, counted_reaches _ _ w last ready.counted reached, ended.here⟩, other, ?_, ended.there,
      ended.echoed.trans ended.distances.symm, ended.source, ended.sink⟩
    exact ⟨wider, store_echoed_mono (fun _ visited => reaches_wider reached visited) ended.store⟩
  · rw [run] at refused
    cases refused

theorem resolve_ok {m' : Machine} (run : Session.resolve program m = .ok () m') :
    ∃ a distances, program.resolve m.distances = (.ok a, distances) ∧ m' = { m with distances } := by
  unfold Session.resolve at run
  split at run <;> cases run
  exact ⟨_, _, ‹_›, rfl⟩

theorem resolve_wider {v : Watched} (run : Watch.resolve program w = .ok () v) : w.events ⊆ v.events := by
  unfold Watch.resolve at run
  split at run <;> cases run
  exact fun _ => List.mem_append_right _

theorem resolve_beside {v : Watched} (beside : Beside ground w n) (watched : Watch.resolve program w = .ok () v)
    (run : Session.resolve program w.machine = .ok () v.machine) :
    ∃ n', Session.resolve program n = .ok () n' ∧ Beside ground v n' := by
  obtain ⟨world, stores⟩ := beside.store
  obtain ⟨_, distances, checked, same⟩ := resolve_ok run
  refine ⟨{ n with distances }, ?_, ⟨world, ?_⟩, beside.env, ?_, ?_, ?_⟩
  · unfold Session.resolve
    rw [beside.distances, checked]
  · rw [same]
    exact store_echoed_mono (fun _ visited => resolve_wider watched visited) stores
  all_goals rw [same]
  · exact beside.source
  · exact beside.sink

theorem checked_run_beside {first : Nat} (resting : Resting first w) (later : first ≤ next)
    (ids : Spread first next (Stmt.idsAll program)) (proper : Stmt.ProperAll program) (apart : program.Apart ground)
    (beside : Beside ground w n)
    (run : (do Session.resolve program; Regime.standard.interpret steps program) w.machine = .ok () m) :
    ∃ last n', last.machine = m ∧ Resting next last ∧
      (do Session.resolve program; Regime.outward.interpret steps program) n = .ok () n' ∧ Beside ground last n' := by
  have checked := resolve_ready w program first next resting.sound resting.counted later ids proper
  rcases agree_cases _ _ _ _ _ (mirrors_resolve program w w.machine rfl) with
    ⟨_, _, v, _, watched, resolved, _, rfl⟩ | ⟨_, _, _, _, _, refused, _, _⟩
  · unfold Ends at checked
    rw [watched] at checked
    obtain ⟨ready, env⟩ := checked
    obtain ⟨n', also, behind⟩ := resolve_beside beside watched resolved
    rw [bind_ok _ resolved] at run
    rw [bind_ok _ also]
    exact interpret_beside ready (env.trans resting.globals) proper apart behind run
  · rw [bind_error _ refused] at run
    cases run

end Runs

section Sessions

variable {ground : List String} {steps : Nat} {s t : Session}

-- The two sessions between two runs.
structure Parallel (ground : List String) (s t : Session) : Prop where
  machines : ∃ events, Resting s.nextId ⟨s.machine, events⟩ ∧ Beside ground ⟨s.machine, events⟩ t.machine
  nextId : t.nextId = s.nextId

theorem run_parallel {text : String} {program : Program} {next : Nat} {s' : Session} (parallel : Parallel ground s t)
    (reads : ReadsAs s.nextId text program next) (apart : program.Apart ground)
    (run : Session.runUnder .standard steps text s = .ok () s') :
    ∃ t', Session.runUnder .outward steps text t = .ok () t' ∧ Parallel ground s' t' ∧ s'.nextId = next := by
  obtain ⟨events, resting, beside⟩ := parallel.machines
  have parsed := parse_ends text s
  unfold Ends at parsed
  rw [parse_reads reads] at parsed
  obtain ⟨later, _, ids, proper⟩ := parsed
  unfold Session.runUnder at run ⊢
  rw [bind_ok _ (parse_reads reads)] at run
  rw [bind_ok _ (parse_reads (parallel.nextId ▸ reads))]
  unfold Session.onMachine at run ⊢
  split at run <;> cases run
  rename_i m ended
  obtain ⟨last, n', rfl, rested, other, behind⟩ := checked_run_beside resting later ids proper apart beside ended
  refine ⟨⟨n', next⟩, ?_, ⟨⟨last.events, rested, behind⟩, rfl⟩, rfl⟩
  simp only [other]

theorem run_all_parallel : ∀ (runs : List (Nat × String)) (programs : List Program) (s t s' u v : Session),
    Parallel ground s t → u.nextId = s.nextId → Session.parseAll runs u = .ok programs v →
    (∀ program ∈ programs, program.Apart ground) → Session.runAll .standard runs s = .ok () s' →
    ∃ t', Session.runAll .outward runs t = .ok () t' ∧ Parallel ground s' t'
  | [], _, _, t, _, _, _, parallel, _, _, _, run => by
      cases run
      exact ⟨t, rfl, parallel⟩
  | (steps, text) :: rest, programs, s, t, s', u, v, parallel, next, parsed, apart, run => by
      unfold Session.parseAll at parsed
      unfold Session.runAll at run ⊢
      cases read : Session.parse text u with
      | error halt u' => rw [bind_error _ read] at parsed; cases parsed
      | ok program u' =>
          rw [bind_ok _ read] at parsed
          cases more : Session.parseAll rest u' with
          | error halt v' => rw [bind_error _ more] at parsed; cases parsed
          | ok others v' =>
              rw [bind_ok _ more] at parsed
              cases parsed
              cases first : Session.runUnder .standard steps text s with
              | error halt mid => rw [bind_error _ first] at run; cases run
              | ok _ mid =>
                  rw [bind_ok _ first] at run
                  obtain ⟨t', other, beside, same⟩ := run_parallel parallel (next ▸ reads_of_parse read)
                    (apart program List.mem_cons_self) first
                  rw [bind_ok _ other]
                  exact run_all_parallel rest others mid t' s' u' v beside same.symm more
                    (fun program member => apart program (List.mem_cons_of_mem _ member)) run

theorem natives_echoed {seen : Visit → Prop} {world : List (List String)} (named : Native.all.map Native.name ⊆ ground) :
    Store.natives.Spelled (fun name => name) (· ∈ ground) (Value.Echoed (Scheme.disjoint ground) seen world)
      Store.natives where
  allowed name known := by
    obtain ⟨value, found⟩ := Option.isSome_iff_exists.mp known
    obtain ⟨native, member, same⟩ := List.mem_map.mp (Bindings.find_of_list _ name value found)
    cases same
    exact named (List.mem_map_of_mem member)
  found name value found := by
    obtain ⟨native, member, same⟩ := List.mem_map.mp (Bindings.find_of_list _ name value found)
    cases same
    exact ⟨.native native, found, rfl⟩
  origin name known := ⟨name, known, rfl⟩

theorem start_parallel (named : Native.all.map Native.name ⊆ ground) (source : Source) (sink : Sink) :
    Parallel ground (.start source sink) (.start source sink) where
  nextId := rfl
  machines := by
    have sound := reachable_sound _ (.start source sink)
    refine ⟨[], ⟨sound.record, sound.counted, sound.globals⟩, ⟨[ground], ?_⟩, rfl, rfl, rfl, rfl⟩
    refine ⟨rfl, rfl, rfl, fun layer mark marked => ?_, rfl, fun object name => ?_, rfl⟩
    · cases layer with
      | zero => cases marked; exact natives_echoed named
      | succ => cases marked
    · exact .none

theorem searches_agree (runs : List (Nat × String)) (programs : List Program) (source : Source) (sink : Sink)
    (s last : Session) (read : Session.parseAll runs (.start source sink) = .ok programs s)
    (once : (Native.all.map Native.name ++ programs.flatMap Program.declared).Nodup)
    (run : Session.runAll .standard runs (.start source sink) = .ok () last) :
    ∃ other, Session.runAll .outward runs (.start source sink) = .ok () other ∧
      other.machine.sink = last.machine.sink ∧ other.machine.source = last.machine.source := by
  have start : Parallel (globalNames programs) (.start source sink) (.start source sink) :=
    start_parallel (List.subset_append_left _ _) source sink
  obtain ⟨other, ended, parallel⟩ := run_all_parallel runs programs _ _ last _ s start rfl read
    (programs_apart programs once) run
  obtain ⟨_, _, beside⟩ := parallel.machines
  exact ⟨other, ended, beside.sink, beside.source⟩

def boxRuns : List (Nat × String) :=
  [(30, "class Box \x7b fill() \x7b class Lid \x7b shut(box) \x7b this.box = box; \x7d \x7d Lid().shut(this); \x7d \x7d"),
    (30, "var x = true; while (x) \x7b var y = Box(); func f() \x7b y.fill(); x = false; \x7d f(); \x7d Print(x);")]

theorem searches_agree_boxes : ∃ programs s last, Session.parseAll boxRuns (.start ⟨[]⟩ .unlimited) = .ok programs s ∧
    (Native.all.map Native.name ++ programs.flatMap Program.declared).Nodup ∧
    Session.runAll .standard boxRuns (.start ⟨[]⟩ .unlimited) = .ok () last ∧
    ∃ other, Session.runAll .outward boxRuns (.start ⟨[]⟩ .unlimited) = .ok () other ∧
      other.machine.sink = last.machine.sink ∧ other.machine.source = last.machine.source := by
  have checked : (match Session.parseAll boxRuns (.start ⟨[]⟩ .unlimited) with
    | .ok programs _ => decide (Native.all.map Native.name ++ programs.flatMap Program.declared).Nodup
    | .error _ _ => false) = true := by decide +kernel
  have ended : (observe (Session.runAll .standard boxRuns (.start ⟨[]⟩ .unlimited))).ending.isOk = true := by
    decide +kernel
  cases read : Session.parseAll boxRuns (.start ⟨[]⟩ .unlimited) with
  | error halt s => rw [read] at checked; cases checked
  | ok programs s =>
      rw [read] at checked
      cases run : Session.runAll .standard boxRuns (.start ⟨[]⟩ .unlimited) with
      | error halt s => rw [run] at ended; cases ended
      | ok a last =>
          have once := of_decide_eq_true checked
          exact ⟨programs, s, last, rfl, once, rfl, searches_agree boxRuns programs _ _ s last read once run⟩

end Sessions

end TreeWalk
