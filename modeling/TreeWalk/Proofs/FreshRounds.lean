import TreeWalk.Proofs.Layerings

set_option autoImplicit false

namespace TreeWalk

open Eval Layering Renaming

structure Layering.Walks (distances : Distances) (steps : Nat) : Prop where
  evaluate : ∀ (w : Layering) (inside : Bool) (env env' : Env) (e : Expr), w.Stands inside env env' →
    (rounds distances).Abreast w w env env' (rounds distances).Values (Regime.standard.evaluate steps e) (Regime.freshRounds.evaluate steps e)
  arguments : ∀ (w : Layering) (inside : Bool) (env env' : Env) (es : List Expr), w.Stands inside env env' →
    (rounds distances).Abreast w w env env' (rounds distances).AllValues (Regime.standard.evaluateAll steps es)
      (Regime.freshRounds.evaluateAll steps es)
  call : ∀ (w : Layering) (env env' : Env) (callee callee' : Value) (arguments arguments' : List Value) (line : Nat),
    (rounds distances).Values w callee callee' → (rounds distances).AllValues w arguments arguments' →
    (rounds distances).Abreast w w env env' (rounds distances).Values (Regime.standard.call steps callee arguments line)
      (Regime.freshRounds.call steps callee' arguments' line)
  enter : ∀ (w : Layering) (env env' : Env) (closure closure' : Closure) (arguments arguments' : List Value),
    closure.Kept w closure' → (rounds distances).AllValues w arguments arguments' →
    (rounds distances).Abreast w w env env' (rounds distances).Values (Regime.standard.enter steps closure arguments)
      (Regime.freshRounds.enter steps closure' arguments')
  execute : ∀ (w : Layering) (inside : Bool) (env env' : Env) (s : Stmt), w.Stands inside env env' →
    s.loopsBare inside = true →
    (rounds distances).Abreast w w env env' (rounds distances).Flows (Regime.standard.execute steps s) (Regime.freshRounds.execute steps s)
  body : ∀ (w : Layering) (inside : Bool) (env env' : Env) (body : List Stmt), w.Stands inside env env' →
    Stmt.loopsBareAll inside body = true →
    (rounds distances).Abreast w w env env' (rounds distances).Flows (Regime.standard.executeAll steps body)
      (Regime.freshRounds.executeAll steps body)
  choose : ∀ (w : Layering) (inside : Bool) (env env' : Env) (condition : Expr) (body : List Stmt)
    (alternative : Alternative), w.Stands inside env env' → Stmt.loopsBareAll inside body = true →
    alternative.loopsBare inside = true →
    (rounds distances).Abreast w w env env' (rounds distances).Flows (Regime.standard.choose steps condition body alternative)
      (Regime.freshRounds.choose steps condition body alternative)
  loop : ∀ (base w : Layering) (inside : Bool) (env env' : Env) (condition : Expr) (body : List Stmt) (layer partner : Nat),
    base.Stands inside env env' → Stmt.loopsBareAll true body = true → w.AtRound base layer partner →
    (rounds distances).Abreast base w env env' (rounds distances).Flows (Regime.standard.repeatWhile steps condition body (env.child layer))
      (Regime.freshRounds.repeatWhile steps condition body (env'.child partner))

section Walk

variable {distances : Distances} {steps : Nat} (ih : Walks distances steps) {w : Layering} {inside : Bool} {env env' : Env}

include ih

theorem evaluate_abreast (e : Expr) (stands : w.Stands inside env env') :
    (rounds distances).Abreast w w env env' (rounds distances).Values (Regime.standard.evaluate (steps + 1) e)
      (Regime.freshRounds.evaluate (steps + 1) e) := by
  cases e with
  | literal mark literal => exact abreast_pure (.plain _ (literal_plain literal))
  | grouping mark inner => exact ih.evaluate w inside env env' inner stands
  | unary mark operator right =>
      apply abreast_then (ih.evaluate w inside env env' right stands)
      exact fun next value value' _ same => abreast_goes (goes_unary operator same)
  | binary mark left operator right =>
      apply abreast_then (ih.evaluate w inside env env' left stands)
      intro next first first' later same
      apply abreast_then (ih.evaluate next inside env env' right (stands_later later stands))
      exact fun last second second' further other =>
        abreast_goes (goes_binary operator (like_within (within_later further) _ _ same) other)
  | logical mark left operator right =>
      apply abreast_then (ih.evaluate w inside env env' left stands)
      intro next value value' later same
      cases same with
      | plain value plain =>
          cases value with
          | bool truth =>
              dsimp only
              by_cases done : Value.settles operator truth = true
              · simp only [done, if_true]
                exact abreast_pure (.plain (.bool truth) trivial)
              · simp only [done]
                exact ih.evaluate next inside env env' right (stands_later later stands)
          | _ => exact abreast_goes (goes_fail operator.line rfl)
      | _ => exact abreast_goes (goes_fail operator.line rfl)
  | ident mark name => exact abreast_read (ground_linked w) mark.id mark.id (stands_meets stands mark.id) name
  | this mark name => exact abreast_read (ground_linked w) mark.id mark.id (stands_meets stands mark.id) name
  | assign mark name value =>
      apply abreast_then (ih.evaluate w inside env env' value stands)
      intro next result result' later same
      apply abreast_then (abreast_write (ground_linked next) mark.id mark.id (stands_meets (stands_later later stands) mark.id) name same)
      exact fun last _ _ further _ => abreast_pure (like_within (within_later further) _ _ same)
  | call mark callee arguments line =>
      apply abreast_then (ih.evaluate w inside env env' callee stands)
      intro next function function' later same
      apply abreast_then (ih.arguments next inside env env' arguments (stands_later later stands))
      intro last values values' further all
      have callee := like_within (within_later further) _ _ same
      apply abreast_then (abreast_arity line callee all)
      rintro end' _ _ final _
      exact ih.call end' env env' _ _ _ _ line (like_within (within_later final) _ _ callee)
        (all_like_within (within_later final) all)
  | get mark object name =>
      apply abreast_then (ih.evaluate w inside env env' object stands)
      exact fun next value value' _ same => abreast_property name same
  | set mark object name value =>
      apply abreast_then (ih.evaluate w inside env env' object stands)
      intro next target target' later same
      cases same with
      | object target target' same =>
          apply abreast_then (ih.evaluate next inside env env' value (stands_later later stands))
          intro last result result' further stored
          have object := object_like_within (within_later further) same
          apply abreast_then (abreast_field name.line object name.text stored)
          exact fun end' _ _ final _ => abreast_pure (like_within (within_later final) _ _ stored)
      | plain target plain =>
          cases target with
          | object target => exact plain.elim
          | _ => exact abreast_goes (goes_fail name.line rfl)
      | _ => exact abreast_goes (goes_fail name.line rfl)

theorem arguments_abreast (es : List Expr) (stands : w.Stands inside env env') :
    (rounds distances).Abreast w w env env' (rounds distances).AllValues (Regime.standard.evaluateAll (steps + 1) es)
      (Regime.freshRounds.evaluateAll (steps + 1) es) := by
  cases es with
  | nil => exact abreast_pure .nil
  | cons e rest =>
      apply abreast_then (ih.evaluate w inside env env' e stands)
      intro next value value' later same
      apply abreast_then (ih.arguments next inside env env' rest (stands_later later stands))
      exact fun last values values' further all => abreast_pure (.cons (like_within (within_later further) _ _ same) all)

theorem call_abreast (callee callee' : Value) (arguments arguments' : List Value) (line : Nat)
    (same : (rounds distances).Values w callee callee') (all : (rounds distances).AllValues w arguments arguments') :
    (rounds distances).Abreast w w env env' (rounds distances).Values (Regime.standard.call (steps + 1) callee arguments line)
      (Regime.freshRounds.call (steps + 1) callee' arguments' line) := by
  cases same with
  | plain value plain =>
      cases callee with
      | native native => exact abreast_goes (goes_native native all line)
      | function _ _ => exact plain.elim
      | «class» _ => exact plain.elim
      | object _ => exact plain.elim
      | _ => exact abreast_goes (goes_fail line rfl)
  | function identity closure closure' kept => exact ih.enter w env env' closure closure' arguments arguments' kept all
  | «class» c c' same =>
      apply abreast_then (abreast_instance line same)
      intro next object object' later made
      have method := like_constructor same
      revert method
      generalize c.constructor? = here
      generalize c'.constructor? = there
      rintro (kept | _)
      · apply abreast_then (abreast_receive line (kept_later later _ _ kept) made)
        intro last bound bound' further entered
        apply abreast_then (ih.enter last env env' bound bound' arguments arguments' entered
          (all_like_within (within_later (further_later later further)) all))
        exact fun end' _ _ final _ =>
          abreast_pure (.object object object' (object_like_within (within_later (further_later further final)) made))
      · exact abreast_pure (.object object object' made)
  | object object object' same =>
      exact abreast_goes (goes_fail_on line _ not_callable_by_text (.object object object' same))

theorem enter_abreast (closure closure' : Closure) (arguments arguments' : List Value) (kept : closure.Kept w closure')
    (all : (rounds distances).AllValues w arguments arguments') :
    (rounds distances).Abreast w w env env' (rounds distances).Values (Regime.standard.enter (steps + 1) closure arguments)
      (Regime.freshRounds.enter (steps + 1) closure' arguments') := by
  obtain ⟨same, constructor, bare, chain⟩ := kept
  apply abreast_then (abreast_nest 0 closure.env closure'.env (child_later w false) (child_links w false) Bindings.paired_empty)
  rintro _ _ _ later ⟨rfl, rfl, rfl⟩
  have stands := stands_child (lasts_stands chain)
  rw [same]
  apply abreast_then (abreast_parameters (stands_inner stands) closure.routine.parameters
    (all_like_within (within_later later) all))
  rintro next _ _ further _
  apply abreast_then (abreast_within (ih.body next false _ _ closure.routine.body (stands_later further stands)
    ((loops_bare_body closure.routine).symm.trans bare)))
  intro last flow flow' final ended
  have entered := kept_later (further_later later (further_later further final)) closure closure' ⟨same, constructor, bare, chain⟩
  exact abreast_goes (goes_answer (last.likeness.function_head _ _ entered)
    (fun _ => lasts_linked (List.forall₂_cons.mp entered.chain).1) ended)

theorem inside_abreast (body : List Stmt) (stands : w.Stands inside env env')
    (bare : Stmt.loopsBareAll inside body = true) :
    (rounds distances).Abreast w w env env' (rounds distances).Flows (childEnv >>= fun inner => within inner (Regime.standard.executeAll steps body))
      (childEnv >>= fun inner => within inner (Regime.freshRounds.executeAll steps body)) := by
  apply abreast_then (abreast_child (child_later w false) (child_links w false))
  rintro _ _ _ later ⟨rfl, rfl, rfl⟩
  exact abreast_within (ih.body _ inside _ _ body (stands_child stands) bare)

theorem execute_abreast (s : Stmt) (stands : w.Stands inside env env') (bare : s.loopsBare inside = true) :
    (rounds distances).Abreast w w env env' (rounds distances).Flows (Regime.standard.execute (steps + 1) s)
      (Regime.freshRounds.execute (steps + 1) s) := by
  have behind : ∀ {α β : Type} {good : Layering → α → β → Prop} {p : Eval α} {q : Eval β},
      (rounds distances).Abreast w w env env' good p q →
        (rounds distances).Abreast w w env env' (rounds distances).Flows (p >>= fun _ => pure Flow.normal) (q >>= fun _ => pure Flow.normal) :=
    fun abreast => abreast_then abreast fun _ _ _ _ _ => abreast_pure .normal
  cases s with
  | expression e => exact behind (ih.evaluate w inside env env' e stands)
  | var name initializer =>
      cases initializer with
      | none => exact behind (abreast_define stands name (.plain .none trivial))
      | some e =>
          apply abreast_then (ih.evaluate w inside env env' e stands)
          intro next value value' later same
          exact abreast_then (abreast_define (stands_later later stands) name same) fun _ _ _ _ _ => abreast_pure .normal
  | block body => exact inside_abreast ih body stands bare
  | branch condition body alternative =>
      rw [Stmt.loopsBare, Bool.and_eq_true] at bare
      exact ih.choose w inside env env' condition body alternative stands bare.1 bare.2
  | «while» condition body =>
      apply abreast_bind (still_later w) (abreast_child (child_later w true) (child_links w true))
      rintro _ _ _ _ ⟨rfl, rfl, rfl⟩
      exact ih.loop w _ inside env env' condition body _ _ stands bare (round_first w)
  | function routine =>
      rw [Stmt.loopsBare, Bool.and_eq_true, Bool.not_eq_true'] at bare
      obtain ⟨rfl, bare⟩ := bare
      exact behind (abreast_function stands routine bare)
  | «return» line value =>
      cases value with
      | none => exact abreast_pure (.returned .none .none (.plain .none trivial))
      | some e =>
          apply abreast_then (ih.evaluate w inside env env' e stands)
          exact fun next value value' _ same => abreast_pure (.returned value value' same)
  | «class» name methods =>
      rw [Stmt.loopsBare, Bool.and_eq_true, Bool.not_eq_true'] at bare
      obtain ⟨rfl, bare⟩ := bare
      exact behind (abreast_class stands name methods bare)

theorem body_abreast (body : List Stmt) (stands : w.Stands inside env env') (bare : Stmt.loopsBareAll inside body = true) :
    (rounds distances).Abreast w w env env' (rounds distances).Flows (Regime.standard.executeAll (steps + 1) body)
      (Regime.freshRounds.executeAll (steps + 1) body) := by
  cases body with
  | nil => exact abreast_pure .normal
  | cons s rest =>
      rw [Stmt.loopsBareAll, Bool.and_eq_true] at bare
      apply abreast_then (ih.execute w inside env env' s stands bare.1)
      intro next flow flow' later ended
      cases ended with
      | normal => exact ih.body next inside env env' rest (stands_later later stands) bare.2
      | returned value value' same => exact abreast_pure (.returned value value' same)

theorem choose_abreast (condition : Expr) (body : List Stmt) (alternative : Alternative) (stands : w.Stands inside env env')
    (bare : Stmt.loopsBareAll inside body = true) (others : alternative.loopsBare inside = true) :
    (rounds distances).Abreast w w env env' (rounds distances).Flows (Regime.standard.choose (steps + 1) condition body alternative)
      (Regime.freshRounds.choose (steps + 1) condition body alternative) := by
  apply abreast_then (ih.evaluate w inside env env' condition stands)
  intro next value value' later same
  apply abreast_then (abreast_condition .ifStatement condition.line same)
  rintro last truth _ further rfl
  have here := stands_later (further_later later further) stands
  cases truth with
  | true => exact inside_abreast ih body here bare
  | false =>
      cases alternative with
      | none => exact abreast_pure .normal
      | elseIf condition inner rest =>
          rw [Alternative.loopsBare, Bool.and_eq_true] at others
          exact ih.choose last inside env env' condition inner rest here others.1 others.2
      | block inner => exact inside_abreast ih inner here others

theorem loop_abreast (base : Layering) (condition : Expr) (body : List Stmt) (layer partner : Nat)
    (stands : base.Stands inside env env') (bare : Stmt.loopsBareAll true body = true)
    (round : w.AtRound base layer partner) :
    (rounds distances).Abreast base w env env' (rounds distances).Flows (Regime.standard.repeatWhile (steps + 1) condition body (env.child layer))
      (Regime.freshRounds.repeatWhile (steps + 1) condition body (env'.child partner)) := by
  apply abreast_bind round.later (ih.evaluate w inside env env' condition (stands_later round.later stands))
  intro next value value' later same
  have round := round_later later round
  apply abreast_bind round.later (abreast_condition .whileStatement condition.line same)
  rintro last truth _ later rfl
  have round := round_later later round
  cases truth with
  | false => exact abreast_from round.later (abreast_pure .normal)
  | true =>
      have inner : last.Stands true (env.child layer) (env'.child partner) :=
        ⟨.cons round.linked (stands_later round.later stands).chain, Bool.noConfusion⟩
      apply abreast_bind round.later (abreast_within (ih.body last true _ _ body inner bare))
      intro behind flow flow' later ended
      have round := round_later later round
      cases ended with
      | returned value value' same => exact abreast_from round.later (abreast_pure (.returned value value' same))
      | normal =>
          apply abreast_bind (still_later base) (abreast_renew round.made round.later round.above)
          rintro _ _ _ later ⟨rfl, rfl, rfl⟩
          exact ih.loop base _ inside env env' condition body layer _ stands bare (round_again round)

end Walk

section Whole

variable {distances : Distances} {env env' : Env}

theorem walks_abreast (distances : Distances) : ∀ steps, Walks distances steps
  | 0 => by
      constructor
      case loop => exact fun _ _ _ _ _ _ _ _ _ _ _ round => abreast_from round.later (abreast_goes goes_exhausted)
      all_goals intros; exact abreast_goes goes_exhausted
  | steps + 1 =>
      have ih := walks_abreast distances steps
      { evaluate := fun _ _ _ _ => evaluate_abreast ih
        arguments := fun _ _ _ _ => arguments_abreast ih
        call := fun _ _ _ => call_abreast ih
        enter := fun _ _ _ => enter_abreast ih
        execute := fun _ _ _ _ => execute_abreast ih
        body := fun _ _ _ _ => body_abreast ih
        choose := fun _ _ _ _ => choose_abreast ih
        loop := fun base _ _ _ _ => loop_abreast ih base }

theorem program_abreast (steps : Nat) : ∀ (program : Program) (w : Layering), w.Stands false env env' →
    Stmt.loopsBareAll false program = true →
    (rounds distances).Abreast w w env env' (fun _ => Eq) (Regime.standard.executeProgram steps program)
      (Regime.freshRounds.executeProgram steps program)
  | [], _, _, _ => abreast_pure rfl
  | s :: rest, w, stands, bare => by
      rw [Stmt.loopsBareAll, Bool.and_eq_true] at bare
      apply abreast_then ((walks_abreast distances steps).execute w false env env' s stands bare.1)
      intro next flow flow' later ended
      cases ended with
      | normal => exact program_abreast steps rest next (stands_later later stands) bare.2
      | returned value value' same => exact abreast_pure rfl

theorem interpret_abreast (steps : Nat) (program : Program) (w : Layering) (stands : w.Stands false env env')
    (bare : Stmt.loopsBareAll false program = true) :
    (rounds distances).Abreast w w env env' (fun _ => Eq) (Regime.standard.interpret steps program)
      (Regime.freshRounds.interpret steps program) := by
  apply abreast_then (program_abreast steps program w stands bare)
  exact fun next _ _ _ _ => abreast_same (goes_sink _ _)

end Whole

section Sessions

def Request.loopsBare : Request → Bool
  | .run _ text =>
      match tokenize text with
      | .error _ => true
      | .ok tokens =>
          match TreeWalk.parse 0 tokens with
          | .error _ => true
          | .ok (program, _) => Stmt.loopsBareAll false program
  | _ => true

namespace Session

def answerUnder (regime : Regime) : Request → SessionM Unit
  | .run steps text => runUnder regime steps text
  | request => answer request

def observationsUnder (regime : Regime) : List Request → Session → List Observation
  | [], _ => []
  | request :: rest, s =>
      observe (answerUnder regime request s) :: observationsUnder regime rest (endState (answerUnder regime request s))

def afterUnder (regime : Regime) (requests : List Request) (s : Session) : Session :=
  requests.foldl (fun s request => endState (answerUnder regime request s)) s

def globals (s : Session) : Bindings Value :=
  s.machine.store.layer 0

def fields (s : Session) (object : Nat) : Bindings Value :=
  s.machine.store.fields object

end Session

def Machine.Beside (m n : Machine) : Prop :=
  ∃ (w : Layering) (distances : Distances), Machine.Like ((rounds distances).scene w Machine.globals Machine.globals) m n

structure Session.Beside (s t : Session) : Prop where
  machine : s.machine.Beside t.machine
  next : t.nextId = s.nextId

mutual
theorem bare_rename (r : Renaming) (inside : Bool) : ∀ s : Stmt, (s.rename r).loopsBare inside = s.loopsBare inside
  | .expression _ => rfl
  | .var _ none => rfl
  | .var _ (some _) => rfl
  | .return _ none => rfl
  | .return _ (some _) => rfl
  | .block body => bare_rename_all r inside body
  | .branch _ body alternative => by
      simp only [Stmt.rename, Stmt.loopsBare, bare_rename_all r inside body, bare_rename_alternative r inside alternative]
  | .while _ body => bare_rename_all r true body
  | .function routine => by simp only [Stmt.rename, Stmt.loopsBare, bare_rename_routine r routine]
  | .class _ methods => by simp only [Stmt.rename, Stmt.loopsBare, bare_rename_routines r methods]

theorem bare_rename_alternative (r : Renaming) (inside : Bool) : ∀ alternative : Alternative,
    (alternative.rename r).loopsBare inside = alternative.loopsBare inside
  | .none => rfl
  | .elseIf _ body alternative => by
      simp only [Alternative.rename, Alternative.loopsBare, bare_rename_all r inside body,
        bare_rename_alternative r inside alternative]
  | .block body => bare_rename_all r inside body

theorem bare_rename_routine (r : Renaming) : ∀ routine : Routine, (routine.rename r).loopsBare = routine.loopsBare
  | ⟨_, _, body⟩ => bare_rename_all r false body

theorem bare_rename_all (r : Renaming) (inside : Bool) : ∀ body : List Stmt,
    Stmt.loopsBareAll inside (Stmt.renameAll r body) = Stmt.loopsBareAll inside body
  | [] => rfl
  | s :: rest => by
      simp only [Stmt.renameAll, Stmt.loopsBareAll, bare_rename r inside s, bare_rename_all r inside rest]

theorem bare_rename_routines (r : Renaming) : ∀ methods : List Routine,
    Routine.loopsBareAll (Routine.renameAll r methods) = Routine.loopsBareAll methods
  | [] => rfl
  | routine :: rest => by
      simp only [Routine.renameAll, Routine.loopsBareAll, bare_rename_routine r routine, bare_rename_routines r rest]
end

theorem bare_reads {steps first next : Nat} {text : String} {program : Program}
    (bare : (Request.run steps text).loopsBare = true) (reads : ReadsAs first text program next) :
    Stmt.loopsBareAll false program = true := by
  let s : Session := .start ⟨[]⟩ .unlimited
  have outcome := parse_alike 0 first s { s with nextId := first } (Nat.le_refl 0) (Nat.zero_add first).symm text
  rw [parse_reads (s := { s with nextId := first }) reads] at outcome
  generalize begun : Session.parse text s = result at outcome
  cases outcome with
  | read program next =>
      obtain ⟨tokens, read, parsed⟩ := reads_of_parse begun
      have parsed : TreeWalk.parse 0 tokens = .ok (program, next) := parsed
      simp only [Request.loopsBare, read, parsed] at bare
      rwa [bare_rename_all]

variable {s t : Session}

theorem checked_beside (steps : Nat) (program : Program) (bare : Stmt.loopsBareAll false program = true) {m n : Machine}
    (beside : m.Beside n) :
    Agree Machine.Beside Halt.ReportsAs Eq
      ((do Session.resolve program; Regime.standard.interpret steps program) m)
      ((do Session.resolve program; Regime.freshRounds.interpret steps program) n) := by
  obtain ⟨w, distances, like⟩ := beside
  have here : m.distances = distances := like.here
  have there : n.distances = distances := like.there
  have stands : w.Stands false Machine.globals Machine.globals := lasts_stands (.cons w.ground .nil)
  have known : ∀ later : Distances, Machine.Like ((rounds later).scene w Machine.globals Machine.globals) { m with distances := later }
      { n with distances := later } := fun later => ⟨like.store, like.env, like.env', rfl, rfl, like.source, like.sink⟩
  cases outcome : program.resolve distances with
  | mk checked later =>
      cases checked with
      | error e =>
          have left : Session.resolve program m = .error (.failed (.scoping e)) { m with distances := later } := by
            simp only [Session.resolve, here, outcome]
          have right : Session.resolve program n = .error (.failed (.scoping e)) { n with distances := later } := by
            simp only [Session.resolve, there, outcome]
          rw [bind_error _ left, bind_error _ right]
          exact .error _ _ _ _ rfl ⟨w, later, known later⟩
      | ok a =>
          have left : Session.resolve program m = .ok () { m with distances := later } := by
            simp only [Session.resolve, here, outcome]
          have right : Session.resolve program n = .ok () { n with distances := later } := by
            simp only [Session.resolve, there, outcome]
          rw [bind_ok _ left, bind_ok _ right]
          obtain ⟨next, _, agree⟩ := interpret_abreast steps program w stands bare _ _ (known later)
          rcases agree_cases _ _ _ _ _ agree with
            ⟨_, _, m', n', first, second, same, state⟩ | ⟨halt, other, m', n', first, second, failure, state⟩
          · rw [first, second]
            exact .ok _ _ _ _ same ⟨next, later, state⟩
          · rw [first, second]
            exact .error _ _ _ _ failure ⟨next, later, state⟩

theorem answer_beside (request : Request) (bare : request.loopsBare = true) (beside : s.Beside t) :
    Agree Session.Beside Halt.ReportsAs Eq (Session.answerUnder .standard request s)
      (Session.answerUnder .freshRounds request t) := by
  cases request with
  | streams source sink =>
      obtain ⟨⟨w, distances, like⟩, next⟩ := beside
      exact .ok _ _ _ _ rfl ⟨⟨w, distances, like.store, like.env, like.env', like.here, like.there, rfl, rfl⟩, next⟩
  | parse text =>
      simp only [Session.answerUnder, Session.answer]
      rcases parse_both text beside.next with ⟨halt, left, right⟩ | ⟨program, last, left, right⟩
      · rw [bind_error _ left, bind_error _ right]
        exact .error _ _ _ _ rfl beside
      · rw [bind_ok _ left, bind_ok _ right]
        exact .ok _ _ _ _ rfl ⟨beside.machine, rfl⟩
  | run steps text =>
      simp only [Session.answerUnder, Session.runUnder]
      rcases parse_both text beside.next with ⟨halt, left, right⟩ | ⟨program, last, left, right⟩
      · rw [bind_error _ left, bind_error _ right]
        exact .error _ _ _ _ rfl beside
      · rw [bind_ok _ left, bind_ok _ right]
        have checked := checked_beside steps program (bare_reads bare (reads_of_parse left)) beside.machine
        exact agree_on_machine (s := ⟨s.machine, last⟩) (t := ⟨t.machine, last⟩) checked fun _ _ kept => ⟨kept, rfl⟩

theorem beside_streams (s t : Session) (beside : s.Beside t) :
    t.machine.sink = s.machine.sink ∧ t.machine.source = s.machine.source := by
  obtain ⟨w, distances, like⟩ := beside.machine
  exact ⟨like.sink, like.source⟩

theorem observations_beside : ∀ (requests : List Request) (s t : Session),
    (∀ request ∈ requests, request.loopsBare = true) → s.Beside t →
      Session.observationsUnder .freshRounds requests t = Session.observationsUnder .standard requests s ∧
        (Session.afterUnder .standard requests s).Beside (Session.afterUnder .freshRounds requests t)
  | [], _, _, _, beside => ⟨rfl, beside⟩
  | request :: rest, s, t, bare, beside => by
      obtain ⟨seen, next⟩ := agree_observe (answer_beside request (bare request List.mem_cons_self) beside) beside_streams
      obtain ⟨others, last⟩ := observations_beside rest _ _ (fun other member => bare other (List.mem_cons_of_mem _ member)) next
      exact ⟨by simp only [Session.observationsUnder, seen, others], last⟩

def Layering.start : Layering where
  size := 1
  made := [(0, false)]
  ground := rfl
  inside := by
    intro place layer round known
    cases place with
    | zero => cases known; exact Nat.one_pos
    | succ => cases known
  once := by
    intro place other layer round known also
    cases place with
    | zero =>
        cases other with
        | zero => rfl
        | succ => cases also
    | succ => cases known

theorem start_beside (source : Source) (sink : Sink) : (Session.start source sink).Beside (.start source sink) := by
  refine ⟨⟨.start, ∅, ⟨rfl, rfl, fun layer partner linked => ?_, fun _ => False.elim, rfl, fun object => ?_, rfl⟩, rfl, rfl, rfl, rfl, rfl, rfl⟩, rfl⟩
  · obtain ⟨round, known, _⟩ := linked
    cases partner with
    | zero => cases known; exact natives_like
    | succ => cases known
  · exact Bindings.paired_empty

def Likeness.code : Likeness where
  function closure other := other.routine = closure.routine ∧ other.isConstructor = closure.isConstructor
  method closure other := other.routine = closure.routine ∧ other.isConstructor = closure.isConstructor
  function_head _ _ same := ⟨congrArg Routine.name same.1, congrArg Routine.parameters same.1, same.2⟩
  method_head _ _ same := ⟨congrArg Routine.name same.1, congrArg Routine.parameters same.1, same.2⟩

theorem layering_code (w : Layering) : w.likeness.Within .code :=
  ⟨fun _ _ kept => ⟨kept.routine, kept.constructor⟩, fun _ _ kept => ⟨kept.routine, kept.constructor⟩⟩

-- Where no function and no class is declared in a loop, to empty the layer of the loop is to make a new one: every
-- request is answered the same, and the globals and the fields of all instances have the same values.
theorem fresh_rounds (source : Source) (sink : Sink) (requests : List Request)
    (bare : ∀ request ∈ requests, request.loopsBare = true) :
    Session.observationsUnder .freshRounds requests (.start source sink) =
        Session.observationsUnder .standard requests (.start source sink) ∧
      (Session.afterUnder .standard requests (.start source sink)).globals.Paired (Value.Like .code)
        (Session.afterUnder .freshRounds requests (.start source sink)).globals ∧
      ∀ object, ((Session.afterUnder .standard requests (.start source sink)).fields object).Paired (Value.Like .code)
        ((Session.afterUnder .freshRounds requests (.start source sink)).fields object) := by
  obtain ⟨seen, ⟨w, distances, like⟩, _⟩ := observations_beside requests _ _ bare (start_beside source sink)
  have code := like_within (layering_code w)
  exact ⟨seen, Bindings.paired_mono code (like.store.layers 0 0 (ground_linked w)),
    fun object => Bindings.paired_mono code (like.store.fields object)⟩

def roundRequests : List Request :=
  [.run 40 ("class Sum \x7b constructor() \x7b this.n = 0; \x7d add(x) \x7b var i = 0; while (i < x) \x7b var y = 1; this.n = this.n + y; " ++
      "i = i + 1; \x7d return this; \x7d \x7d var add = none;"),
    .run 40 ("func first(limit) \x7b for (var i = 0; i < 9; i = i + 1) \x7b var s = Sum(); add = s.add; add(i); " ++
      "if (i == limit) \x7b return s.n; \x7d \x7d \x7d Print(first(3));"),
    .run 40 "Print(add(4).n);"]

theorem fresh_rounds_sums : (∀ request ∈ roundRequests, request.loopsBare = true) ∧
    Session.observationsUnder .freshRounds roundRequests (.start ⟨[]⟩ .unlimited) =
      Session.observationsUnder .standard roundRequests (.start ⟨[]⟩ .unlimited) := by
  have bare : ∀ request ∈ roundRequests, request.loopsBare = true := by decide +kernel
  exact ⟨bare, (fresh_rounds _ _ roundRequests bare).1⟩

end Sessions

end TreeWalk
