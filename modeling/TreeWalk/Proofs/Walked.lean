import TreeWalk.Proofs.Quiet
import TreeWalk.Proofs.Receivers

set_option autoImplicit false

namespace TreeWalk

def Entitled (events : List Event) (closure : Closure) : Prop :=
  closure.isConstructor = true →
    ∃ cause object, .bound cause closure object ∈ events ∧ cause.Allows events closure object

structure WalkKeeps (steps : Nat) : Prop where
  evaluate : ∀ (w : Watched) (frames : List Frame) (e : Expr), w.Stands frames → e.Proper →
    e.Settled (Visit.Known w.events) frames →
    Keeps w.machine.store.layers.size w (Watch.evaluate steps e) fun value next => value.Known next.events
  evaluateAll : ∀ (w : Watched) (frames : List Frame) (es : List Expr), w.Stands frames → Expr.ProperAll es →
    Expr.SettledAll (Visit.Known w.events) frames es →
    Keeps w.machine.store.layers.size w (Watch.evaluateAll steps es) fun values next =>
      ∀ value ∈ values, value.Known next.events
  call : ∀ (w : Watched) (callee : Value) (arguments : List Value) (line : Nat), callee.Known w.events →
    (∀ value ∈ arguments, value.Known w.events) → callee.arity? = some arguments.length →
    Keeps w.machine.store.layers.size w (Watch.call steps callee arguments line) fun value next =>
      value.Known next.events
  enter : ∀ (w : Watched) (closure : Closure) (arguments : List Value), closure.Known w.events →
    Entitled w.events closure → (∀ value ∈ arguments, value.Known w.events) →
    closure.arity = arguments.length →
    Keeps w.machine.store.layers.size w (Watch.enter steps closure arguments) fun value next =>
      value.Known next.events
  execute : ∀ (w : Watched) (frames : List Frame) (s : Stmt), w.Stands frames → s.Proper →
    s.Settled (Visit.Known w.events) frames →
    Keeps w.machine.store.layers.size w (Watch.execute steps s) fun flow next =>
      flow.Known next.events ∧ next.Stands (s.leaves frames)
  executeAll : ∀ (w : Watched) (frames : List Frame) (body : List Stmt), w.Stands frames → Stmt.ProperAll body →
    Stmt.SettledAll (Visit.Known w.events) frames body →
    Keeps w.machine.store.layers.size w (Watch.executeAll steps body) fun flow next => flow.Known next.events
  choose : ∀ (w : Watched) (frames : List Frame) (condition : Expr) (body : List Stmt) (alternative : Alternative),
    w.Stands frames → condition.Proper → Stmt.ProperAll body → alternative.Proper →
    condition.Settled (Visit.Known w.events) frames →
    Stmt.SettledAll (Visit.Known w.events) (.fresh (.branch body) :: frames) body →
    alternative.Settled (Visit.Known w.events) frames →
    Keeps w.machine.store.layers.size w (Watch.choose steps condition body alternative) fun flow next =>
      flow.Known next.events
  repeatWhile : ∀ (w : Watched) (frames : List Frame) (condition : Expr) (body : List Stmt) (layer : Nat),
    w.Stands frames → condition.Proper → Stmt.ProperAll body → condition.Settled (Visit.Known w.events) frames →
    Stmt.SettledAll (Visit.Known w.events) (.fresh (.loop body) :: frames) body →
    .opened (.loop body) layer ∈ w.events → (∀ outer ∈ w.machine.env.chain, outer < layer) →
    Keeps layer w (Watch.repeatWhile steps condition body (w.machine.env.child layer)) fun flow next =>
      flow.Known next.events

theorem routine_settled_body (frames : List Frame) (seen : Visit → Prop) (r : Routine) (settled : r.Settled seen frames) :
    Stmt.SettledAll seen (r.frame :: frames) r.body := by
  cases r
  exact settled

theorem routine_proper_parts (r : Routine) (proper : r.Proper) :
    r.name.Proper ∧ (∀ parameter ∈ r.parameters, parameter.Proper) ∧ Stmt.ProperAll r.body := by
  cases r
  exact proper

theorem parameter_of_ready (names : List Name) (scope : Scope) (name : String)
    (ready : (names.foldl (fun scope name => Bindings.insert scope name.text true) scope).find? name = some true) :
    (∃ parameter ∈ names, parameter.text = name) ∨ scope.find? name = some true := by
  induction names generalizing scope with
  | nil => exact .inr ready
  | cons first rest ih =>
      rcases ih _ ready with ⟨parameter, member, same⟩ | before
      · exact .inl ⟨parameter, List.mem_cons_of_mem _ member, same⟩
      · rcases Bindings.find_insert_cases _ _ _ _ _ before with ⟨same, _⟩ | old
        · exact .inl ⟨first, List.mem_cons_self, same.symm⟩
        · exact .inr old

theorem stands_called (w : Watched) (frames : List Frame) (closure : Closure) (layer : Nat)
    (layers : Matches w.events frames closure.env.chain) (lodged : closure.Lodged w.events frames)
    (called : closure.CalledIn w.events layer) (proper : ∀ parameter ∈ closure.routine.parameters, parameter.Proper)
    (named : ∀ parameter ∈ closure.routine.parameters, .named layer parameter.text ∈ w.events ∧
      (w.machine.store.layer layer).contains parameter.text = true) :
    Watched.Stands { w with machine := { w.machine with env := closure.env.child layer } }
      (closure.routine.frame :: frames) := by
  have parameters : ∀ name, closure.routine.frame.scope.find? name = some true →
      ∃ parameter ∈ closure.routine.parameters, parameter.text = name := by
    intro name ready
    rcases parameter_of_ready closure.routine.parameters Bindings.empty name ready with found | none
    · exact found
    · cases none
  refine ⟨⟨called.opened, fun name ready => ?_, layers⟩, ⟨fun name ready => ?_, fun direct => nomatch direct⟩,
    hosted_call closure frames layer lodged proper called⟩
  · obtain ⟨parameter, member, rfl⟩ := parameters name ready
    exact (named parameter member).1
  · obtain ⟨parameter, member, rfl⟩ := parameters name ready
    exact (named parameter member).2

theorem standing_after (w next : Watched) (frames : List Frame) (sound : w.Sound) (stands : w.Stands frames)
    (reached : w.Reaches w.machine.store.layers.size next) :
    next.Stands frames ∧
      ∀ inner : Expr, inner.Settled (Visit.Known w.events) frames → inner.Settled (Visit.Known next.events) frames :=
  ⟨stands_after w next frames sound reached stands, fun inner =>
    expr_settled_mono (fun _ visited => reaches_wider reached visited) inner frames⟩

theorem keeps_declaration (w : Watched) (frames : List Frame) (name : Name) (value : Value) (stands : w.Stands frames)
    (proper : name.Proper) (known : value.Known w.events) :
    Keeps w.machine.store.layers.size w (do Watch.define name value; return .normal) fun flow next =>
      Flow.Known next.events flow ∧ next.Stands (name.markIn true frames) := by
  intro sound
  apply keeps_bind (keeps_define name value (fun sound => stands_inside w frames sound stands) proper
    (value_known_mono value (fun _ => List.mem_cons_of_mem _) known)) _ sound
  rintro _ next reached _ ⟨event, contained⟩
  apply keeps_pure
  intro _
  have after := stands_after w next frames sound reached stands
  exact ⟨trivial, stands_marked next name frames after proper (reached.env ▸ event) (reached.env ▸ contained)⟩

section Step

variable {steps : Nat} (ih : WalkKeeps steps) (w : Watched) (frames : List Frame)

include ih

theorem walk_assign (mark : Mark) (name : Name) (value : Expr) (stands : w.Stands frames)
    (proper : (Expr.assign mark name value).Proper)
    (settled : (Expr.assign mark name value).Settled (Visit.Known w.events) frames) :
    Keeps w.machine.store.layers.size w (Watch.evaluate (steps + 1) (.assign mark name value)) fun value next =>
      value.Known next.events := by
  intro sound
  apply keeps_next (Nat.le_refl _) (ih.evaluate w frames value stands proper.2 settled.1) _ sound
  intro result mid reached _ known
  have later := standing_after w mid frames sound stands reached
  have written : Keeps mid.machine.store.layers.size mid
      (Watch.reach (.assign mark name value) (Eval.writeName mark.id name result)) fun _ _ => True := by
    refine keeps_reach _ mark.id name.text _ frames _ later.1 proper rfl (reaches_wider reached settled.2)
      (.inl ⟨mark, name, value, rfl⟩) ?_
    intro next machine events within
    have kept : result.Known next.events := by
      rw [events]
      exact value_known_mono result (fun _ => List.mem_cons_of_mem _) known
    exact keeps_write_name mark.id name result proper.1 kept (machine ▸ within)
  apply keeps_bind written
  exact fun _ next further _ _ => keeps_pure _ _ fun _ => value_known_mono result (reaches_wider further) known

theorem walk_invoke (mark : Mark) (callee : Expr) (arguments : List Expr) (line : Nat) (stands : w.Stands frames)
    (proper : (Expr.call mark callee arguments line).Proper)
    (settled : (Expr.call mark callee arguments line).Settled (Visit.Known w.events) frames) :
    Keeps w.machine.store.layers.size w (Watch.evaluate (steps + 1) (.call mark callee arguments line)) fun value next =>
      value.Known next.events := by
  intro sound
  have logged : Keeps w.machine.store.layers.size w (Watch.log (.called callee)) fun _ _ => True :=
    keeps_log _ _ rfl (fun _ => trivial) (fun _ => settled.1) trivial
  apply keeps_next (Nat.le_refl _) logged _ sound
  intro _ start begun _ _
  have first := standing_after w start frames sound stands begun
  apply keeps_next (Nat.le_refl _)
    (ih.evaluate start frames callee first.1 proper.1 (first.2 callee settled.2.1))
  intro function mid reached _ known
  have all := reaches_trans begun (reaches_lower reached begun.size)
  have second := standing_after w mid frames sound stands all
  have several := exprs_settled_mono (fun _ visited => reaches_wider all visited) arguments frames settled.2.2
  apply keeps_next (Nat.le_refl _) (ih.evaluateAll mid frames arguments second.1 proper.2 several)
  intro values next further _ others
  apply keeps_next (Nat.le_refl _) (keeps_quiet (quiet_arity function values line))
  intro _ last _ _ ⟨arity, same⟩
  have here := same ▸ value_known_mono function (reaches_wider further) known
  exact ih.call last function values line here (same ▸ others) arity

theorem walk_evaluate (e : Expr) (stands : w.Stands frames) (proper : e.Proper)
    (settled : e.Settled (Visit.Known w.events) frames) :
    Keeps w.machine.store.layers.size w (Watch.evaluate (steps + 1) e) fun value next => value.Known next.events := by
  intro sound
  cases e with
  | literal mark value =>
      refine keeps_pure _ _ (fun _ => ?_) sound
      cases value <;> trivial
  | grouping mark inner => exact ih.evaluate w frames inner stands proper settled sound
  | unary mark operator right =>
      apply keeps_bind (ih.evaluate w frames right stands proper settled) _ sound
      intro value next _ _ _
      apply keeps_weaken (keeps_quiet (quiet_unary operator value))
      exact fun result last _ _ ⟨plain, _⟩ => plain last.events
  | binary mark left operator right =>
      apply keeps_next (Nat.le_refl _) (ih.evaluate w frames left stands proper.1 settled.1) _ sound
      intro first mid reached _ _
      have later := standing_after w mid frames sound stands reached
      apply keeps_bind (ih.evaluate mid frames right later.1 proper.2 (later.2 right settled.2))
      intro second next _ _ _
      apply keeps_weaken (keeps_quiet (quiet_binary operator first second))
      exact fun result last _ _ ⟨plain, _⟩ => plain last.events
  | logical mark left operator right =>
      apply keeps_next (Nat.le_refl _) (ih.evaluate w frames left stands proper.1 settled.1) _ sound
      intro first mid reached _ known
      have later := standing_after w mid frames sound stands reached
      cases first with
      | bool truth =>
          dsimp only
          split
          · exact keeps_pure _ _ fun _ => trivial
          · exact ih.evaluate mid frames right later.1 proper.2 (later.2 right settled.2)
      | _ => exact keeps_fail _ _ _ (by simp)
  | ident mark name =>
      refine keeps_reach _ mark.id name.text _ frames _ stands proper rfl settled.1 (.inr settled.2) ?_ sound
      intro next machine _ within
      exact keeps_read_name mark.id name (machine ▸ within)
  | this mark name =>
      refine keeps_reach _ mark.id name.text _ frames _ stands proper rfl settled.1 (.inr settled.2) ?_ sound
      intro next machine _ within
      exact keeps_read_name mark.id name (machine ▸ within)
  | assign mark name value => exact walk_assign ih w frames mark name value stands proper settled sound
  | call mark callee arguments line => exact walk_invoke ih w frames mark callee arguments line stands proper settled sound
  | get mark object name =>
      apply keeps_bind (ih.evaluate w frames object stands proper settled) _ sound
      exact fun value next _ _ known => keeps_property name value known
  | set mark object name value =>
      apply keeps_next (Nat.le_refl _) (ih.evaluate w frames object stands proper.1 settled.2) _ sound
      intro target mid reached _ _
      have later := standing_after w mid frames sound stands reached
      cases target with
      | object holder =>
          apply keeps_bind (ih.evaluate mid frames value later.1 proper.2 (later.2 value settled.1))
          intro result next _ _ known
          apply keeps_bind (keeps_set_field name.line holder name.text result known)
          exact fun _ last further _ _ => keeps_pure _ _ fun _ => value_known_mono result (reaches_wider further) known
      | _ => exact keeps_fail _ _ _ (by simp)

theorem walk_evaluate_all (es : List Expr) (stands : w.Stands frames) (proper : Expr.ProperAll es)
    (settled : Expr.SettledAll (Visit.Known w.events) frames es) :
    Keeps w.machine.store.layers.size w (Watch.evaluateAll (steps + 1) es) fun values next =>
      ∀ value ∈ values, value.Known next.events := by
  intro sound
  cases es with
  | nil => exact keeps_pure _ _ (fun _ _ member => nomatch member) sound
  | cons e rest =>
      apply keeps_next (Nat.le_refl _) (ih.evaluate w frames e stands proper.1 settled.1) _ sound
      intro value mid reached _ known
      have later := stands_after w mid frames sound reached stands
      have others := exprs_settled_mono (fun _ visited => reaches_wider reached visited) rest frames settled.2
      apply keeps_bind (ih.evaluateAll mid frames rest later proper.2 others)
      intro values next further _ all
      apply keeps_pure
      intro _ result member
      rcases List.mem_cons.mp member with rfl | behind
      · exact value_known_mono _ (reaches_wider further) known
      · exact all result behind

theorem walk_call (callee : Value) (arguments : List Value) (line : Nat) (known : callee.Known w.events)
    (given : ∀ value ∈ arguments, value.Known w.events) (arity : callee.arity? = some arguments.length) :
    Keeps w.machine.store.layers.size w (Watch.call (steps + 1) callee arguments line) fun value next =>
      value.Known next.events := by
  cases callee with
  | native native =>
      apply keeps_weaken (keeps_quiet (quiet_native native arguments line))
      exact fun value next _ _ ⟨plain, _⟩ => plain next.events
  | function identity closure =>
      refine ih.enter w closure arguments known.1 ?_ given (Option.some.inj arity)
      intro constructor
      obtain ⟨name, object, named, event⟩ := known.2 constructor
      exact ⟨.property name, object, event, named⟩
  | «class» c =>
      apply keeps_bind (keeps_new_instance line c)
      rintro object mid reached _ ⟨rfl, same, new, fresh⟩
      cases method : object.ofClass.constructor? with
      | none => exact keeps_pure _ _ fun _ => same ▸ known
      | some found =>
          intro held
          have mine : object.ofClass.Known mid.events := same ▸ known
          apply keeps_next reached.size
            (keeps_receive line .creation _ found object mine method fun _ => ⟨new, same ▸ fresh⟩)
            _ held
          intro closure next further _ tied
          have all := reaches_trans reached further
          have entitled : Entitled next.events closure := by
            refine fun _ => ⟨.creation, object, tied.event, by rw [tied.events]; rfl, fun other before entered => ?_⟩
            have earlier : .entered other before ∈ mid.events := by simpa [tied.events] using entered
            rw [tied.fresh]
            exact Nat.ne_of_lt (held.entered other before earlier)
          have arguments_ : ∀ value ∈ arguments, value.Known next.events := fun value member =>
            value_known_mono value (reaches_wider all) (given value member)
          have count : closure.arity = arguments.length := by
            have counted : found.arity = arguments.length := by
              simpa only [Value.arity?, ClassValue.arity, method, Option.some.injEq] using arity
            rw [← counted]
            exact congrArg (fun r : Routine => r.parameters.length) tied.routine
          apply keeps_bind (ih.enter next closure arguments tied.known entitled arguments_ count)
          intro _ last final _ _
          apply keeps_pure
          intro _
          exact class_known_mono _ (reaches_wider (reaches_trans further (reaches_lower final
            (Nat.le_trans reached.size further.size)))) mine
  | _ => exact keeps_fail _ _ _ (by simp)

theorem walk_enter (closure : Closure) (arguments : List Value) (known : closure.Known w.events)
    (entitled : Entitled w.events closure) (given : ∀ value ∈ arguments, value.Known w.events)
    (arity : closure.arity = arguments.length) :
    Keeps w.machine.store.layers.size w (Watch.enter (steps + 1) closure arguments) fun value next =>
      value.Known next.events := by
  intro sound
  have whole := known
  obtain ⟨proper, frames, layers, settled, lodged⟩ := known
  have parts := routine_proper_parts closure.routine proper
  have inside := matches_inside w sound frames _ layers closure.env.inner List.mem_cons_self
  have justified : Justified w.events (.entered closure w.machine) := by
    intro constructor
    obtain ⟨cause, object, bound, reason⟩ := entitled constructor
    exact ⟨cause, object, bound, sound.receivers cause closure object bound, reason, whole, sound.values, sound.fields⟩
  apply keeps_get _ sound
  have logged : Keeps w.machine.store.layers.size w (Watch.log (.entered closure w.machine)) fun _ next =>
      next.machine = w.machine ∧ .entered closure w.machine ∈ next.events :=
    keeps_log _ _ rfl (fun _ => inside) (fun _ => justified) ⟨rfl, List.mem_cons_self⟩
  apply keeps_bind logged
  intro _ start begun _ ⟨same, entered⟩
  let layer := start.machine.store.layers.size
  have nested : Keeps w.machine.store.layers.size start (Watch.act (Eval.onStore 0 (Store.nest closure.env .empty)))
      fun env next => env = closure.env.child layer ∧ next.events = start.events ∧
        next.machine.store.layers.size = layer + 1 := by
    apply keeps_store
    intro _
    have grows : start.machine.store.Grows start.events _ :=
      Store.grows_push start.machine.store .empty fun _ _ found => nomatch found
    exact ⟨grows, rfl, rfl, Array.size_push _⟩
  intro held
  apply keeps_bind nested _ held
  rintro env mid reached _ ⟨rfl, events, size⟩
  have fresh : layer ∉ mid.events.filterMap Event.makes? := by
    intro member
    rw [events] at member
    exact Nat.lt_irrefl _ (held.below layer member).2
  have ground := held.ground
  have opened : Keeps w.machine.store.layers.size mid (Watch.log (.opened (.routine closure.routine) layer))
      fun _ next => .opened (.routine closure.routine) layer ∈ next.events ∧ next.machine = mid.machine :=
    keeps_log _ _ rfl (fun _ => ⟨ground, by omega, fresh⟩) (fun _ => trivial) ⟨List.mem_cons_self, rfl⟩
  apply keeps_bind opened
  intro _ next further _ ⟨event, unchanged⟩
  have soFar := reaches_trans begun (reaches_trans reached further)
  apply keeps_next soFar.size (keeps_lower (keeps_define_all (closure.env.child layer) closure.routine.parameters
    arguments next arity (by rw [unchanged]; simp [Env.child, size]) parts.2.1 fun value member =>
      value_known_mono value (reaches_wider soFar) (given value member)) soFar.size)
  intro _ last final _ named
  have all := reaches_trans soFar final
  have called : closure.CalledIn last.events layer :=
    ⟨⟨w.machine, reaches_wider (reaches_trans reached (reaches_trans further final)) entered, by rw [← same]⟩,
      reaches_wider final event⟩
  have standing := stands_called last frames closure layer (matches_mono _ _ (reaches_wider all) _ _ layers)
    (lodged_mono (reaches_wider all) closure frames lodged) called parts.2.1 named
  have body := stmts_settled_mono (fun _ visited => reaches_wider all visited) closure.routine.body _
    (routine_settled_body frames _ closure.routine settled)
  have run := keeps_within (closure.env.child layer) (fun (flow : Flow) events => flow.Known events)
    (ih.executeAll _ _ closure.routine.body standing parts.2.2 body)
  apply keeps_bind run
  exact fun flow end_ _ _ known => keeps_answer closure flow known

theorem walk_enclosed (site : Site) (body : List Stmt) (direct : site.isDeferred = false)
    (stands : w.Stands frames) (proper : Stmt.ProperAll body)
    (settled : Stmt.SettledAll (Visit.Known w.events) (.fresh site :: frames) body) :
    Keeps w.machine.store.layers.size w (do Watch.within (← Watch.childEnv site) (Watch.executeAll steps body))
      fun flow next => flow.Known next.events := by
  intro sound
  apply keeps_next (Nat.le_refl _) (keeps_child_env site) _ sound
  rintro env next reached _ ⟨rfl, opened⟩
  have standing := stands_entered next site w.machine.store.layers.size frames
    (stands_after w next frames sound reached stands) direct opened
  rw [reached.env] at standing
  have inner := stmts_settled_mono (fun _ visited => reaches_wider reached visited) body _ settled
  exact keeps_within _ (fun (flow : Flow) events => flow.Known events)
    (ih.executeAll _ _ body standing proper inner)

theorem walk_choose (condition : Expr) (body : List Stmt) (alternative : Alternative) (stands : w.Stands frames)
    (proper : condition.Proper) (properBody : Stmt.ProperAll body) (properRest : alternative.Proper)
    (settled : condition.Settled (Visit.Known w.events) frames)
    (settledBody : Stmt.SettledAll (Visit.Known w.events) (.fresh (.branch body) :: frames) body)
    (settledRest : alternative.Settled (Visit.Known w.events) frames) :
    Keeps w.machine.store.layers.size w (Watch.choose (steps + 1) condition body alternative) fun flow next =>
      flow.Known next.events := by
  intro sound
  apply keeps_next (Nat.le_refl _) (ih.evaluate w frames condition stands proper settled) _ sound
  intro value mid reached _ _
  apply keeps_next (Nat.le_refl _) (keeps_quiet (quiet_condition .ifStatement condition.line value))
  intro truth next further _ _
  have all := reaches_trans reached (reaches_lower further reached.size)
  have later := stands_after w next frames sound all stands
  have wider : ∀ v, Visit.Known w.events v → Visit.Known next.events v := fun _ visited => reaches_wider all visited
  split
  · exact walk_enclosed ih next frames (.branch body) body rfl later properBody
      (stmts_settled_mono wider body _ settledBody)
  · cases alternative with
    | none => exact keeps_pure _ _ fun _ => trivial
    | elseIf again inner other =>
        have rest := alternative_settled_mono wider _ frames settledRest
        exact ih.choose next frames again inner other later properRest.1 properRest.2.1 properRest.2.2 rest.1 rest.2.1
          rest.2.2
    | block inner =>
        exact walk_enclosed ih next frames (.otherwise inner) inner rfl later properRest
          (stmts_settled_mono wider inner _ settledRest)

theorem walk_repeat_while (condition : Expr) (body : List Stmt) (layer : Nat) (stands : w.Stands frames)
    (proper : condition.Proper) (properBody : Stmt.ProperAll body)
    (settled : condition.Settled (Visit.Known w.events) frames)
    (settledBody : Stmt.SettledAll (Visit.Known w.events) (.fresh (.loop body) :: frames) body)
    (opened : .opened (.loop body) layer ∈ w.events) (outside : ∀ outer ∈ w.machine.env.chain, outer < layer) :
    Keeps layer w (Watch.repeatWhile (steps + 1) condition body (w.machine.env.child layer)) fun flow next =>
      flow.Known next.events := by
  intro sound
  have inside : layer ≤ w.machine.store.layers.size :=
    Nat.le_of_lt (sound.below layer (List.mem_filterMap.mpr ⟨_, opened, rfl⟩)).2
  apply keeps_bind (keeps_lower (ih.evaluate w frames condition stands proper settled) inside) _ sound
  intro value first reached _ _
  apply keeps_bind (keeps_quiet (quiet_condition .whileStatement condition.line value))
  intro truth mid further _ _
  have all := reaches_trans reached further
  have later := stands_below layer w mid frames all outside stands
  split
  · have standing := stands_entered mid (.loop body) layer frames later rfl (reaches_wider all opened)
    rw [all.env] at standing
    have inner := stmts_settled_mono (fun _ visited => reaches_wider all visited) body _ settledBody
    have run := keeps_within (w.machine.env.child layer) (fun (flow : Flow) events => flow.Known events)
      (ih.executeAll _ _ body standing properBody inner)
    apply keeps_bind (keeps_lower run (Nat.le_trans inside all.size))
    intro flow next final _ known
    have soFar := reaches_trans all final
    cases flow with
    | returned result => exact keeps_pure _ _ fun _ => known
    | normal =>
        have renewed := keeps_renew body (w.machine.env.child layer) (reaches_wider soFar opened)
        have again := keeps_bind renewed (f := fun _ =>
          Watch.repeatWhile steps condition body (w.machine.env.child layer)) (by
              intro _ last emptied _ _
              have whole := reaches_trans soFar emptied
              have wider : ∀ v, Visit.Known w.events v → Visit.Known last.events v :=
                fun _ visited => reaches_wider whole visited
              have turned := ih.repeatWhile last frames condition body layer
                (stands_below layer w last frames whole outside stands) proper properBody
                (expr_settled_mono wider condition frames settled) (stmts_settled_mono wider body _ settledBody)
                (reaches_wider whole opened) (whole.env ▸ outside)
              rwa [whole.env] at turned)
        rwa [bind_assoc] at again
  · exact keeps_pure _ _ fun _ => trivial

theorem walk_loop (condition : Expr) (body : List Stmt) (stands : w.Stands frames)
    (proper : (Stmt.while condition body).Proper) (settled : (Stmt.while condition body).Settled (Visit.Known w.events) frames) :
    Keeps w.machine.store.layers.size w (do Watch.repeatWhile steps condition body (← Watch.childEnv (.loop body)))
      fun flow next => flow.Known next.events := by
  intro sound
  apply keeps_bind (keeps_child_env (.loop body)) _ sound
  rintro _ next reached _ ⟨rfl, opened⟩
  have wider : ∀ v, Visit.Known w.events v → Visit.Known next.events v :=
    fun _ visited => reaches_wider reached visited
  have chain := matches_inside w sound frames _ stands.layers
  have turned := ih.repeatWhile next frames condition body w.machine.store.layers.size
    (stands_after w next frames sound reached stands) proper.1 proper.2
    (expr_settled_mono wider condition frames settled.1) (stmts_settled_mono wider body _ settled.2) opened
    (reached.env ▸ chain)
  rwa [reached.env] at turned

theorem walk_execute (s : Stmt) (stands : w.Stands frames) (proper : s.Proper)
    (settled : s.Settled (Visit.Known w.events) frames) :
    Keeps w.machine.store.layers.size w (Watch.execute (steps + 1) s) fun flow next =>
      flow.Known next.events ∧ next.Stands (s.leaves frames) := by
  intro sound
  -- A statement that declares nothing leaves the scopes as they were.
  have unmoved : ∀ {p : Watch Flow}, s.leaves frames = frames →
      Keeps w.machine.store.layers.size w p (fun flow next => flow.Known next.events) →
      Keeps w.machine.store.layers.size w p fun flow next => flow.Known next.events ∧ next.Stands (s.leaves frames) := by
    intro p same keeps
    rw [same]
    apply keeps_weaken keeps
    exact fun flow next reached _ known => ⟨known, stands_after w next frames sound reached stands⟩
  cases s with
  | expression e =>
      apply unmoved rfl _ sound
      apply keeps_bind (ih.evaluate w frames e stands proper settled)
      exact fun _ next _ _ _ => keeps_pure _ _ fun _ => trivial
  | var name initializer =>
      cases initializer with
      | none => exact keeps_declaration w frames name .none stands proper trivial sound
      | some e =>
          apply keeps_next (Nat.le_refl _) (ih.evaluate w _ e (stands_waiting w name frames stands proper.1)
            proper.2 settled) _ sound
          intro value mid reached _ known
          exact keeps_declaration mid frames name value (stands_after w mid frames sound reached stands) proper.1 known
  | block body =>
      exact unmoved rfl (walk_enclosed ih w frames (.block body) body rfl stands proper settled) sound
  | branch condition body alternative =>
      exact unmoved rfl (ih.choose w frames condition body alternative stands proper.1 proper.2.1 proper.2.2 settled.1
        settled.2.1 settled.2.2) sound
  | «while» condition body => exact unmoved rfl (walk_loop ih w frames condition body stands proper settled) sound
  | function routine =>
      apply keeps_bind (keeps_define_function routine frames stands proper settled) _ sound
      exact fun _ next _ _ standing => keeps_pure _ _ fun _ => ⟨trivial, standing⟩
  | «return» line value =>
      cases value with
      | none => exact unmoved rfl (keeps_pure _ _ fun _ => trivial) sound
      | some e =>
          apply unmoved rfl _ sound
          apply keeps_bind (ih.evaluate w frames e stands proper settled)
          exact fun _ next _ _ known => keeps_pure _ _ fun _ => known
  | «class» name methods =>
      apply keeps_bind (keeps_define_class name methods frames stands proper.1 proper.2 settled) _ sound
      exact fun _ next _ _ standing => keeps_pure _ _ fun _ => ⟨trivial, standing⟩

theorem walk_execute_all (body : List Stmt) (stands : w.Stands frames) (proper : Stmt.ProperAll body)
    (settled : Stmt.SettledAll (Visit.Known w.events) frames body) :
    Keeps w.machine.store.layers.size w (Watch.executeAll (steps + 1) body) fun flow next =>
      flow.Known next.events := by
  cases body with
  | nil => exact keeps_pure _ _ fun _ => trivial
  | cons s rest =>
      apply keeps_next (Nat.le_refl _) (ih.execute w frames s stands proper.1 settled.1)
      rintro flow next reached _ ⟨known, standing⟩
      cases flow with
      | returned value => exact keeps_pure _ _ fun _ => known
      | normal =>
          exact ih.executeAll next _ rest standing proper.2
            (stmts_settled_mono (fun _ visited => reaches_wider reached visited) rest _ settled.2)

end Step

theorem walk_keeps : ∀ steps, WalkKeeps steps
  | 0 => by
      constructor <;> intros <;> exact keeps_throw _ _ id
  | steps + 1 => by
      have ih := walk_keeps steps
      exact ⟨walk_evaluate ih, walk_evaluate_all ih, walk_call ih, walk_enter ih, walk_execute ih,
        walk_execute_all ih, walk_choose ih, walk_repeat_while ih⟩

end TreeWalk
