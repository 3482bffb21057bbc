import TreeWalk.Proofs.Paces

set_option autoImplicit false

namespace TreeWalk

open Eval Overlay

structure Tandem.Walks (k : Tandem) (steps steps' : Nat) : Prop where
  evaluate : ∀ (w : Overlay) (spans : Spans) (env env' : Env) (e e' : Expr), w.Chained spans env.chain env'.chain →
    e.Aligned k.Lead spans e' →
    k.Pace w w env env' k.Values (Regime.standard.evaluate steps e) (Watch.evaluate steps' e')
  arguments : ∀ (w : Overlay) (spans : Spans) (env env' : Env) (es es' : List Expr),
    w.Chained spans env.chain env'.chain → Expr.AlignedAll k.Lead spans es es' →
    k.Pace w w env env' k.AllValues (Regime.standard.evaluateAll steps es) (Watch.evaluateAll steps' es')
  call : ∀ (w : Overlay) (env env' : Env) (callee callee' : Value) (arguments arguments' : List Value) (line : Nat),
    k.Values w callee callee' → k.AllValues w arguments arguments' →
    k.Pace w w env env' k.Values (Regime.standard.call steps callee arguments line) (Watch.call steps' callee' arguments' line)
  enter : ∀ (w : Overlay) (env env' : Env) (closure closure' : Closure) (arguments arguments' : List Value),
    (k.course.likeness w).function closure closure' → k.AllValues w arguments arguments' →
    k.Pace w w env env' k.Values (Regime.standard.enter steps closure arguments) (Watch.enter steps' closure' arguments')
  execute : ∀ (w : Overlay) (spans : Spans) (env env' : Env) (s s' : Stmt), w.Stands spans env env' →
    s.Aligned k.Lead k.picked spans s' →
    k.Pace w w env env' k.Flows (Regime.standard.execute steps s) (Watch.execute steps' s')
  body : ∀ (w : Overlay) (spans : Spans) (env env' : Env) (body body' : List Stmt), w.Stands spans env env' →
    Stmt.AlignedAll k.Lead k.picked spans body body' →
    k.Pace w w env env' k.Flows (Regime.standard.executeAll steps body) (Watch.executeAll steps' body')
  choose : ∀ (w : Overlay) (spans : Spans) (env env' : Env) (condition condition' : Expr) (body body' : List Stmt)
    (alternative alternative' : Alternative), w.Chained spans env.chain env'.chain →
    condition.Aligned k.Lead spans condition' → Stmt.AlignedAll k.Lead k.picked (true :: spans) body body' →
    alternative.Aligned k.Lead k.picked spans alternative' →
    k.Pace w w env env' k.Flows (Regime.standard.choose steps condition body alternative)
      (Watch.choose steps' condition' body' alternative')
  -- The layers of the loops are there for good, and both are emptied between the rounds.
  laps : ∀ (w : Overlay) (spans : Spans) (env env' : Env) (condition condition' : Expr) (body body' : List Stmt)
    (layer partner : Nat), w.Chained spans env.chain env'.chain → condition.Aligned k.Lead spans condition' →
    Stmt.AlignedAll k.Lead k.picked (true :: spans) body body' → w.roles[partner]? = some (.lasts layer) →
    k.Pace w w env env' k.Flows (Regime.standard.repeatWhile steps condition body (env.child layer))
      (Watch.repeatWhile steps' condition' body' (env'.child partner))
  -- The second run makes a layer for every round.
  rounds : ∀ (w base : Overlay) (spans : Spans) (env env' : Env) (condition condition' : Expr) (body body' : List Stmt)
    (mark : Mark) (layer loop : Nat), base.Chained spans env.chain env'.chain → condition.Aligned k.Lead spans condition' →
    Stmt.AlignedAll k.Lead k.picked (true :: false :: spans) body body' → w.AtLoop base layer loop →
    k.Pace base w env env' k.Flows (Regime.standard.repeatWhile steps condition body (env.child layer))
      (Watch.repeatWhile steps' condition' [.block body', .expression (.literal mark .none)] (env'.child loop))

theorem chained_later {w next : Overlay} {spans : Spans} {chain chain' : List Nat} (later : w.Later next)
    (chained : w.Chained spans chain chain') : next.Chained spans chain chain' :=
  chained_grown (later_grows later) chained

section Walk

variable {k : Tandem} {steps steps' : Nat} (ih : k.Walks steps steps') {w : Overlay} {spans : Spans} {env env' : Env}

include ih

theorem evaluate_pace {e e' : Expr} (chained : w.Chained spans env.chain env'.chain) (aligned : e.Aligned k.Lead spans e') :
    k.Pace w w env env' k.Values (Regime.standard.evaluate (steps + 1) e) (Watch.evaluate (steps' + 1) e') := by
  have walk := walk_records steps'
  cases aligned with
  | literal mark mark' value line => exact pace_pure (.plain _ (literal_plain value))
  | grouping mark mark' line inside => exact ih.evaluate w spans env env' _ _ chained inside
  | unary mark mark' operator line operand =>
      apply pace_then (ih.evaluate w spans env env' _ _ chained operand) fun _ => records_act _
      exact fun next value value' _ same => pace_act (abreast_goes (goes_unary operator same))
  | binary mark mark' operator line first second =>
      apply pace_then (ih.evaluate w spans env env' _ _ chained first) fun _ =>
        records_bind (walk.evaluate _) fun _ => records_act _
      intro next one one' later same
      apply pace_then (ih.evaluate next spans env env' _ _ (chained_later later chained) second) fun _ => records_act _
      exact fun last two two' further other => pace_act (abreast_goes (goes_binary operator (values_grown further same) other))
  | logical mark mark' operator line first second =>
      refine pace_then (ih.evaluate w spans env env' _ _ chained first) (fun value => ?_) ?_
      · cases value with
        | bool truth =>
            dsimp only
            split
            · exact records_pure _
            · exact walk.evaluate _
        | _ => exact records_act _
      intro next value value' later same
      cases same with
      | plain value plain =>
          cases value with
          | bool truth =>
              dsimp only
              by_cases done : Value.settles operator truth = true
              · simp only [done, if_true]
                exact pace_pure (.plain (.bool truth) trivial)
              · simp only [done]
                exact ih.evaluate next spans env env' _ _ (chained_later later chained) second
          | _ => exact pace_act (abreast_goes (goes_fail operator.line rfl))
      | _ => exact pace_act (abreast_goes (goes_fail operator.line rfl))
  | ident mark mark' name line leads =>
      exact pace_reach rfl chained leads fun meets => abreast_read (ground_overlay w) mark.id mark'.id meets name
  | this mark mark' name line leads =>
      exact pace_reach rfl chained leads fun meets => abreast_read (ground_overlay w) mark.id mark'.id meets name
  | assign mark mark' name line leads result =>
      apply pace_then (ih.evaluate w spans env env' _ _ chained result) fun _ =>
        records_bind (records_reach _ _) fun _ => records_pure _
      intro next value value' later same
      apply pace_then (pace_reach rfl (chained_later later chained) leads fun meets =>
        abreast_write (ground_overlay next) mark.id mark'.id meets name same) fun _ => records_pure _
      exact fun last _ _ further _ => pace_pure (values_grown further same)
  | call mark mark' closing line called others =>
      apply pace_log
      apply pace_then (ih.evaluate w spans env env' _ _ chained called) fun _ =>
        records_bind (walk.evaluateAll _) fun _ => records_bind (records_act _) fun _ => walk.call _ _ _
      intro next function function' later same
      apply pace_then (ih.arguments next spans env env' _ _ (chained_later later chained) others) fun _ =>
        records_bind (records_act _) fun _ => walk.call _ _ _
      intro last values values' further all
      have callee := values_grown further same
      apply pace_then (pace_act (abreast_arity closing callee all)) fun _ => walk.call _ _ _
      rintro end' _ _ final _
      exact ih.call end' env env' _ _ _ _ closing (values_grown final callee) (all_values_grown final all)
  | get mark mark' name line owner =>
      apply pace_then (ih.evaluate w spans env env' _ _ chained owner) fun _ => records_property _ _
      exact fun next value value' _ same =>
        pace_abreast (mirrors_property name value') (records_property name value') (abreast_property name same)
  | set mark mark' name line owner result =>
      refine pace_then (ih.evaluate w spans env env' _ _ chained owner) (fun target => ?_) ?_
      · cases target with
        | object object =>
            exact records_bind (walk.evaluate _) fun _ => records_bind (records_act _) fun _ => records_pure _
        | _ => exact records_act _
      intro next target target' later same
      cases same with
      | object target target' same =>
          apply pace_then (ih.evaluate next spans env env' _ _ (chained_later later chained) result) fun _ =>
            records_bind (records_act _) fun _ => records_pure _
          intro last value value' further stored
          apply pace_then (pace_act (abreast_field name.line (object_grown further same) name.text stored)) fun _ =>
            records_pure _
          exact fun end' _ _ final _ => pace_pure (values_grown final stored)
      | plain target plain =>
          cases target with
          | object target => exact plain.elim
          | _ => exact pace_act (abreast_goes (goes_fail name.line rfl))
      | _ => exact pace_act (abreast_goes (goes_fail name.line rfl))

theorem arguments_pace {es es' : List Expr} (chained : w.Chained spans env.chain env'.chain)
    (aligned : Expr.AlignedAll k.Lead spans es es') :
    k.Pace w w env env' k.AllValues (Regime.standard.evaluateAll (steps + 1) es) (Watch.evaluateAll (steps' + 1) es') := by
  cases aligned with
  | nil => exact pace_pure .nil
  | cons first others =>
      apply pace_then (ih.evaluate w spans env env' _ _ chained first) fun _ =>
        records_bind ((walk_records steps').evaluateAll _) fun _ => records_pure _
      intro next value value' later same
      apply pace_then (ih.arguments next spans env env' _ _ (chained_later later chained) others) fun _ => records_pure _
      exact fun last values values' further all => pace_pure (.cons (values_grown further same) all)

theorem call_pace (callee callee' : Value) (arguments arguments' : List Value) (line : Nat)
    (same : k.Values w callee callee') (all : k.AllValues w arguments arguments') :
    k.Pace w w env env' k.Values (Regime.standard.call (steps + 1) callee arguments line)
      (Watch.call (steps' + 1) callee' arguments' line) := by
  have walk := walk_records steps'
  cases same with
  | plain value plain =>
      cases callee with
      | native native => exact pace_act (abreast_goes (goes_native native all line))
      | function _ _ => exact plain.elim
      | «class» _ => exact plain.elim
      | object _ => exact plain.elim
      | _ => exact pace_act (abreast_goes (goes_fail line rfl))
  | function identity closure closure' same => exact ih.enter w env env' closure closure' arguments arguments' same all
  | «class» c c' same =>
      refine pace_then (pace_act (abreast_instance line same)) (fun object => ?_) ?_
      · cases c'.constructor? with
        | none => exact records_pure _
        | some method =>
            exact records_bind (records_receive line .creation method object) fun bound =>
              records_bind (walk.enter bound arguments') fun _ => records_pure (Value.object object)
      intro next object object' later made
      have method := like_constructor same
      revert method
      generalize c.constructor? = here
      generalize c'.constructor? = there
      rintro (kept | _)
      · rename_i method method'
        apply pace_then (pace_abreast (mirrors_receive line .creation method' object')
          (records_receive line .creation method' object')
          (abreast_receive line ((within_grown (later_grows later)).method _ _ kept) made))
          fun bound => records_bind (walk.enter bound arguments') fun _ => records_pure (Value.object object')
        intro last bound bound' further entered
        apply pace_then (ih.enter last env env' bound bound' arguments arguments' entered
          (all_values_grown (further_overlay later further) all)) fun _ => records_pure _
        exact fun end' _ _ final _ =>
          pace_pure (.object object object' (object_grown (further_overlay further final) made))
      · exact pace_pure (.object object object' made)
  | object object object' same =>
      exact pace_act (abreast_goes (goes_fail_on line _ not_callable_by_text (.object object object' same)))

theorem enter_pace (closure closure' : Closure) (arguments arguments' : List Value)
    (same : (k.course.likeness w).function closure closure') (all : k.AllValues w arguments arguments') :
    k.Pace w w env env' k.Values (Regime.standard.enter (steps + 1) closure arguments)
      (Watch.enter (steps' + 1) closure' arguments') := by
  have walk := walk_records steps'
  obtain ⟨spans, laid, receiver⟩ := same
  obtain ⟨_, parameters, inside⟩ := aligned_routine laid.routine
  apply pace_get
  intro n
  apply pace_log
  apply pace_then (pace_act (abreast_nest 0 closure.env closure'.env (child_steadily w) (child_links w) Bindings.paired_empty))
    fun made => records_log _ (records_bind (records_define_all made _ _) fun _ =>
      records_bind (records_within made (walk.executeAll _)) fun _ => records_act _)
  rintro _ _ _ later ⟨rfl, rfl, rfl⟩
  have stands := stands_child laid.chain
  apply pace_log
  rw [parameters]
  apply pace_then (pace_abreast (mirrors_define_all _ _ _) (records_define_all _ _ _)
    (abreast_parameters stands.linked closure.routine.parameters (all_values_grown later all)))
    fun _ => records_bind (records_within _ (walk.executeAll _)) fun _ => records_act _
  rintro next _ _ further _
  apply pace_then (pace_within (ih.body next _ _ _ _ _ (stands_grown further stands) inside)) fun _ => records_act _
  intro last flow flow' final ended
  have grown := later_grows (further_overlay later (further_overlay further final))
  refine pace_act (abreast_goes (goes_answer (over_head laid) (fun kind => ?_) ended))
  exact ⟨_, grown.lasts _ _ (receiver kind), rfl⟩

theorem inside_pace (site : Site) {body body' : List Stmt} (chained : w.Chained spans env.chain env'.chain)
    (aligned : Stmt.AlignedAll k.Lead k.picked (true :: spans) body body') :
    k.Pace w w env env' k.Flows (childEnv >>= fun inner => within inner (Regime.standard.executeAll steps body))
      (Watch.childEnv site >>= fun inner => Watch.within inner (Watch.executeAll steps' body')) := by
  apply pace_then (pace_child site) fun inner => records_within inner ((walk_records steps').executeAll _)
  rintro _ _ _ later ⟨rfl, rfl, rfl⟩
  exact pace_within (ih.body _ _ _ _ _ _ (stands_child chained) aligned)

theorem execute_pace {s s' : Stmt} (stands : w.Stands spans env env') (aligned : s.Aligned k.Lead k.picked spans s') :
    k.Pace w w env env' k.Flows (Regime.standard.execute (steps + 1) s) (Watch.execute (steps' + 1) s') := by
  have walk := walk_records steps'
  have behind : ∀ {α β : Type} {good : Overlay → α → β → Prop} {p : Eval α} {q : Watch β}, k.Pace w w env env' good p q →
      k.Pace w w env env' k.Flows (p >>= fun _ => pure Flow.normal) (q >>= fun _ => pure Flow.normal) :=
    fun pace => pace_then pace (fun _ => records_pure _) fun _ _ _ _ _ => pace_pure .normal
  have named : ∀ {next : Overlay} (name : Name) {value value' : Value}, next.Linked env.inner env'.inner →
      k.Values next value value' → k.Pace next next env env' (fun _ => Eq) (define name value) (Watch.define name value') :=
    fun name _ value' linked same =>
      pace_abreast (mirrors_define name value') (records_define name value') (abreast_same (goes_define_name linked name same))
  cases aligned with
  | expression value => exact behind (ih.evaluate w spans env env' _ _ stands.chain value)
  | var name => exact behind (named name stands.linked (.plain .none trivial))
  | initialized name value =>
      apply pace_then (ih.evaluate w spans env env' _ _ stands.chain value) fun _ =>
        records_bind (records_define _ _) fun _ => records_pure _
      intro next result result' later same
      exact pace_then (named name (linked_grown later stands.linked) same) (fun _ => records_pure _) fun _ _ _ _ _ =>
        pace_pure .normal
  | block inside => exact inside_pace ih _ stands.chain inside
  | branch test inside other => exact ih.choose w spans env env' _ _ _ _ _ _ stands.chain test inside other
  | «while» test inside =>
      apply pace_then (pace_child _) fun _ => walk.repeatWhile _ _ _
      rintro _ _ _ later ⟨rfl, rfl, rfl⟩
      exact ih.laps _ spans env env' _ _ _ _ _ _ (chained_later later stands.chain) test inside (child_role w)
  | idle mark test inside chosen =>
      apply pace_bind (still_overlay w) (pace_opened chosen) fun _ => walk.repeatWhile _ _ _
      rintro _ _ _ later ⟨rfl, rfl, rfl⟩
      exact ih.rounds _ w spans env env' _ _ _ _ mark _ _ stands.chain test inside (loop_first w)
  | function same =>
      rename_i routine routine'
      have name := (aligned_routine same).1
      have closures : (k.course.likeness w).function ⟨routine, env, false⟩ ⟨routine', env', false⟩ :=
        ⟨spans, ⟨same, rfl, stands.chain⟩, Bool.noConfusion⟩
      exact behind (pace_abreast (mirrors_define_function routine') (records_define_function routine')
        (abreast_same (goes_function stands.linked name closures)))
  | «return» line => exact pace_pure (.returned .none .none (.plain .none trivial))
  | returned line value =>
      apply pace_then (ih.evaluate w spans env env' _ _ stands.chain value) fun _ => records_pure _
      exact fun next result result' _ same => pace_pure (.returned result result' same)
  | «class» name inside =>
      rename_i methods methods'
      have closures : (methodsIn env methods).Paired (k.course.likeness w).method (methodsIn env' methods') :=
        paired_methods Bindings.paired_empty ((aligned_methods inside).imp fun routine routine' same =>
          ⟨(aligned_routine same).1, spans, same, aligned_constructor same, stands.chain⟩)
      exact behind (pace_abreast (mirrors_define_class name methods') (records_define_class name methods')
        (abreast_same (goes_class stands.linked name closures)))

theorem body_pace {body body' : List Stmt} (stands : w.Stands spans env env')
    (aligned : Stmt.AlignedAll k.Lead k.picked spans body body') :
    k.Pace w w env env' k.Flows (Regime.standard.executeAll (steps + 1) body) (Watch.executeAll (steps' + 1) body') := by
  cases aligned with
  | nil => exact pace_pure .normal
  | cons first others =>
      refine pace_then (ih.execute w spans env env' _ _ stands first) (fun flow => ?_) ?_
      · cases flow with
        | normal => exact (walk_records steps').executeAll _
        | returned value => exact records_pure _
      intro next flow flow' later ended
      cases ended with
      | normal => exact ih.body next spans env env' _ _ (stands_grown later stands) others
      | returned value value' same => exact pace_pure (.returned value value' same)

theorem condition_pace {base : Overlay} (construct : Construct) {condition condition' : Expr} (later : base.Later w)
    (chained : w.Chained spans env.chain env'.chain) (test : condition.Aligned k.Lead spans condition') {p p' : Eval Flow}
    {q q' : Watch Flow} (records : q.Records) (records' : q'.Records)
    (yes : ∀ next, w.Later next → k.Pace base next env env' k.Flows p q)
    (no : ∀ next, w.Later next → k.Pace base next env env' k.Flows p' q') :
    k.Pace base w env env' k.Flows
      (do if ← asCondition construct condition.line (← Regime.standard.evaluate steps condition) then p else p')
      (do if ← Watch.act (asCondition construct condition'.line (← Watch.evaluate steps' condition')) then q else q') := by
  have either : ∀ truth : Bool, Watch.Records (if truth then q else q') := by
    rintro (_ | _)
    · exact records'
    · exact records
  apply pace_bind later (pace_from (still_overlay w) (ih.evaluate w spans env env' _ _ chained test)) fun _ =>
    records_bind (records_act _) either
  intro next value value' before same
  rw [aligned_line test]
  apply pace_bind (further_overlay later before) (pace_act (abreast_condition construct condition.line same)) either
  rintro last truth _ after rfl
  cases truth with
  | true => exact yes last (further_overlay before after)
  | false => exact no last (further_overlay before after)

theorem laps_pace {condition condition' : Expr} {body body' : List Stmt} {layer partner : Nat}
    (chained : w.Chained spans env.chain env'.chain) (test : condition.Aligned k.Lead spans condition')
    (inside : Stmt.AlignedAll k.Lead k.picked (true :: spans) body body') (known : w.roles[partner]? = some (.lasts layer)) :
    k.Pace w w env env' k.Flows (Regime.standard.repeatWhile (steps + 1) condition body (env.child layer))
      (Watch.repeatWhile (steps' + 1) condition' body' (env'.child partner)) := by
  have walk := walk_records steps'
  refine condition_pace ih .whileStatement (still_overlay w) chained test ?_ (records_pure _) (fun next later => ?_)
    (fun next later => pace_from later (pace_pure .normal))
  · refine records_bind (records_within _ (walk.executeAll _)) fun flow => ?_
    cases flow with
    | returned value => exact records_pure _
    | normal => exact records_bind (records_act _) fun _ => records_log _ (walk.repeatWhile _ _ _)
  refine pace_from later ?_
  have known : next.roles[partner]? = some (.lasts layer) := get_longer later.roles _ _ known
  have stands : next.Stands (true :: spans) (env.child layer) (env'.child partner) :=
    ⟨.lasts known (chained_later later chained), _, known, rfl⟩
  refine pace_then (pace_within (ih.body next _ _ _ _ _ stands inside)) (fun flow => ?_) ?_
  · cases flow with
    | returned value => exact records_pure _
    | normal => exact records_bind (records_act _) fun _ => records_log _ (walk.repeatWhile _ _ _)
  intro last flow flow' further ended
  have behind := further_overlay later further
  cases ended with
  | returned value value' same => exact pace_pure (.returned value value' same)
  | normal =>
      exact pace_emptied (linked_grown further stands.linked)
        (ih.laps last spans env env' _ _ _ _ layer partner (chained_later behind chained) test inside
          (get_longer further.roles _ _ known))

end Walk

section Bodies

variable {steps : Nat} {mark : Mark} {body : List Stmt}

theorem branch_alone (condition : Expr) (alternative : Alternative) :
    Watch.executeAll (steps + 2) [.branch condition body alternative] = Watch.choose steps condition body alternative := by
  refine Eq.trans (bind_congr (g := pure) fun flow => ?_) (bind_pure _)
  cases flow <;> rfl

theorem branch_spent (few : steps < 2) (condition : Expr) (alternative : Alternative) (n : Watched) :
    ∃ t, Watch.executeAll steps [.branch condition body alternative] n = .error .exhausted t := by
  match steps, few with
  | 0, _ => exact ⟨_, rfl⟩
  | 1, _ => exact ⟨_, rfl⟩

theorem idle_alone : Watch.executeAll (steps + 4) [.block body, .expression (.literal mark .none)] =
    (Watch.childEnv (.block body) >>= fun inner => Watch.within inner (Watch.executeAll (steps + 2) body)) := by
  refine Eq.trans (bind_congr (g := pure) fun flow => ?_) (bind_pure _)
  cases flow <;> rfl

theorem idle_spent (few : steps < 4) (n : Watched) :
    ∃ t, Watch.executeAll steps [.block body, .expression (.literal mark .none)] n = .error .exhausted t := by
  match steps, few with
  | 0, _ => exact ⟨_, rfl⟩
  | 1, _ => exact ⟨_, rfl⟩
  | 2, _ => exact ⟨_, rfl⟩
  | 3, _ => cases body <;> exact ⟨_, rfl⟩

theorem paced_step {wide : Bool} {steps' : Nat} (paced : Paced wide (steps + 1) (steps' + 1)) : Paced wide steps steps' := by
  cases wide
  · exact Nat.le_of_succ_le_succ paced
  · unfold Paced at *
    omega

theorem paced_two {wide : Bool} {steps' : Nat} (paced : Paced wide (steps + 1) (steps' + 3)) : Paced wide steps steps' := by
  cases wide <;> unfold Paced at * <;> omega

end Bodies

section Layers

variable {k : Tandem} {steps steps' : Nat} (all : ∀ steps', Paced k.wide steps steps' → k.Walks steps steps')
  (paced : Paced k.wide (steps + 1) (steps' + 1)) {w : Overlay} {spans : Spans} {env env' : Env}

include all paced

theorem choose_pace {condition condition' : Expr} {body body' : List Stmt} {alternative alternative' : Alternative}
    (chained : w.Chained spans env.chain env'.chain) (test : condition.Aligned k.Lead spans condition')
    (inside : Stmt.AlignedAll k.Lead k.picked (true :: spans) body body')
    (other : alternative.Aligned k.Lead k.picked spans alternative') :
    k.Pace w w env env' k.Flows (Regime.standard.choose (steps + 1) condition body alternative)
      (Watch.choose (steps' + 1) condition' body' alternative') := by
  have ih := all steps' (paced_step paced)
  have walk := walk_records steps'
  refine condition_pace ih .ifStatement (still_overlay w) chained test
    (records_bind (records_child_env _) fun inner => records_within inner (walk.executeAll _)) ?_ (fun next later => ?_)
    (fun next later => ?_)
  · cases alternative' with
    | none => exact records_pure _
    | elseIf next inner rest => exact walk.choose _ _ _
    | block inner => exact records_bind (records_child_env _) fun env => records_within env (walk.executeAll _)
  · exact pace_from later (inside_pace ih _ (chained_later later chained) inside)
  · have chained := chained_later later chained
    refine pace_from later ?_
    cases other with
    | none => exact pace_pure .normal
    | elseIf test inside other => exact ih.choose next spans env env' _ _ _ _ _ _ chained test inside other
    | block inside => exact inside_pace ih _ chained inside
    | nested test inside other =>
        apply pace_aside
        apply pace_right
        by_cases few : steps' < 2
        · cases kind : k.wide with
          | false => exact pace_right_spent kind (branch_spent few _ _)
          | true =>
              rw [kind] at paced
              unfold Paced at paced
              omega
        · obtain ⟨more, rfl⟩ := Nat.exists_eq_add_of_le' (Nat.le_of_not_lt few)
          rw [branch_alone]
          have aside : next.Later next.aside := push_later _ _ _ _
          have chained : next.aside.Chained (false :: spans) env.chain (env'.child next.roles.length).chain :=
            .bare ⟨_, aside_role next, rfl⟩ (chained_later aside chained)
          exact pace_from aside
            ((all more (paced_two paced)).choose _ _ env _ _ _ _ _ _ _ chained test inside other)

theorem round_pace {base : Overlay} {body body' : List Stmt} (mark : Mark) {layer loop : Nat}
    (chained : base.Chained spans env.chain env'.chain)
    (inside : Stmt.AlignedAll k.Lead k.picked (true :: false :: spans) body body') (at_ : w.AtLoop base layer loop) :
    k.Pace base w env env'
      (fun next flow flow' => k.Flows next flow flow' ∧ next.roles[w.roles.length]? = some (.round layer loop) ∧
        next.roles[loop]? = some .runs)
      (within (env.child layer) (Regime.standard.executeAll steps body))
      (Watch.within (env'.child loop) (Watch.executeAll steps' [.block body', .expression (.literal mark .none)])) := by
  apply pace_within
  by_cases few : steps' < 4
  · cases kind : k.wide with
    | false => exact pace_right_spent kind (idle_spent few)
    | true =>
        rw [kind] at paced
        unfold Paced at paced
        obtain rfl : steps = 0 := by omega
        exact pace_left_spent kind
  · obtain ⟨more, rfl⟩ := Nat.exists_eq_add_of_le' (Nat.le_of_not_lt few)
    rw [idle_alone]
    apply pace_begun at_.waits
    apply pace_right
    have begun := loop_begun at_
    have live := begun_role at_.waits
    have runs := begun_runs at_.waits
    have stands : (w.begun layer loop at_.waits).Stands (true :: false :: spans) (env.child layer)
        ((env'.child loop).child w.roles.length) :=
      ⟨.round (.inl live) (.bare ⟨_, runs, rfl⟩ (chained_later begun chained)), _, live, rfl⟩
    have walks := all (more + 2) (paced_two paced)
    exact pace_weaken (fun _ => further_overlay begun)
      (fun next flow flow' later same => ⟨same, get_longer later.roles _ _ live, get_longer later.roles _ _ runs⟩)
      (walks.body _ _ _ _ body body' stands inside)

theorem rounds_pace {base : Overlay} {condition condition' : Expr} {body body' : List Stmt} (mark : Mark) {layer loop : Nat}
    (chained : base.Chained spans env.chain env'.chain) (test : condition.Aligned k.Lead spans condition')
    (inside : Stmt.AlignedAll k.Lead k.picked (true :: false :: spans) body body') (at_ : w.AtLoop base layer loop) :
    k.Pace base w env env' k.Flows (Regime.standard.repeatWhile (steps + 1) condition body (env.child layer))
      (Watch.repeatWhile (steps' + 1) condition' [.block body', .expression (.literal mark .none)] (env'.child loop)) := by
  have ih := all steps' (paced_step paced)
  have walk := walk_records steps'
  refine condition_pace ih .whileStatement at_.later (chained_later at_.later chained) test ?_ (records_pure _)
    (fun next later => ?_) (fun next later => pace_from (further_overlay at_.later later) (pace_pure .normal))
  · refine records_bind (records_within _ (walk.executeAll _)) fun flow => ?_
    cases flow with
    | returned value => exact records_pure _
    | normal => exact records_bind (records_act _) fun _ => records_log _ (walk.repeatWhile _ _ _)
  have at_ := loop_later later at_
  refine pace_bind (still_overlay base) (round_pace all paced mark chained inside at_) (fun flow => ?_) ?_
  · cases flow with
    | returned value => exact records_pure _
    | normal => exact records_bind (records_act _) fun _ => records_log _ (walk.repeatWhile _ _ _)
  rintro last flow flow' further ⟨ended, round, runs⟩
  cases ended with
  | returned value value' same => exact pace_from further (pace_pure (.returned value value' same))
  | normal =>
      have again := loop_again further at_.outside at_.later.roles.length_le at_.above round runs
      exact pace_ended round runs rfl rfl
        (ih.rounds _ base spans env env' _ _ _ _ mark layer loop chained test inside again)

end Layers

theorem walks_spent {k : Tandem} {steps steps' : Nat} (left : steps = 0 ∧ k.wide = true ∨ steps' = 0 ∧ k.wide = false) :
    k.Walks steps steps' := by
  rcases left with ⟨rfl, wide⟩ | ⟨rfl, narrow⟩
  · constructor <;> intros <;> exact pace_left_spent wide
  · constructor <;> intros <;> exact pace_right_spent narrow fun _ => ⟨_, rfl⟩

theorem walks_pace (k : Tandem) : ∀ steps steps', Paced k.wide steps steps' → k.Walks steps steps'
  | 0, steps', paced => by
      cases kind : k.wide with
      | true => exact walks_spent (.inl ⟨rfl, kind⟩)
      | false =>
          rw [kind] at paced
          exact walks_spent (.inr ⟨Nat.le_zero.mp paced, kind⟩)
  | steps + 1, 0, paced => by
      cases kind : k.wide with
      | true =>
          rw [kind] at paced
          unfold Paced at paced
          omega
      | false => exact walks_spent (.inr ⟨rfl, kind⟩)
  | steps + 1, steps' + 1, paced =>
      have all := walks_pace k steps
      have ih := all steps' (paced_step paced)
      { evaluate := fun _ _ _ _ _ _ => evaluate_pace ih
        arguments := fun _ _ _ _ _ _ => arguments_pace ih
        call := fun _ _ _ => call_pace ih
        enter := fun _ _ _ => enter_pace ih
        execute := fun _ _ _ _ _ _ => execute_pace ih
        body := fun _ _ _ _ _ _ => body_pace ih
        choose := fun _ _ _ _ _ _ _ _ _ _ => choose_pace all paced
        laps := fun _ _ _ _ _ _ _ _ _ _ => laps_pace ih
        rounds := fun _ _ _ _ _ _ _ _ _ mark _ _ => rounds_pace all paced mark }

section Programs

variable {k : Tandem} {steps steps' : Nat} (paced : Paced k.wide steps steps')

include paced

theorem program_pace {program program' : Program} (aligned : Stmt.AlignedAll k.Lead k.picked [] program program')
    (w : Overlay) :
    k.Pace w w Machine.globals Machine.globals (fun _ => Eq) (Regime.standard.executeProgram steps program)
      (Watch.executeProgram steps' program') := by
  induction program generalizing program' w with
  | nil =>
      cases aligned
      exact pace_pure rfl
  | cons s rest ih =>
      cases aligned with
      | cons first others =>
          have stands : w.Stands [] Machine.globals Machine.globals := ⟨.ground, ground_overlay w⟩
          refine pace_then ((walks_pace k steps steps' paced).execute w _ _ _ _ _ stands first) (fun flow => ?_) ?_
          · cases flow with
            | normal => exact records_program steps' _
            | returned value => exact records_pure ()
          intro next flow flow' later ended
          cases ended with
          | normal => exact ih others next
          | returned value value' same => exact pace_pure rfl

theorem interpret_pace {program program' : Program} (aligned : Stmt.AlignedAll k.Lead k.picked [] program program')
    (w : Overlay) :
    k.Pace w w Machine.globals Machine.globals (fun _ => Eq) (Regime.standard.interpret steps program)
      (Watch.interpret steps' program') := by
  apply pace_then (program_pace paced aligned w) fun _ => records_act _
  exact fun next _ _ _ _ => pace_act (abreast_same (goes_sink _ _))

end Programs

end TreeWalk
