import TreeWalk.Proofs.Ties

set_option autoImplicit false

namespace TreeWalk

open Watch

section Steps

variable {first : Nat} {links : Linkage} {α β : Type} {good : Linkage → α → Prop} {final : Linkage → β → Prop}

theorem hangs_act {p : Eval α} (hangs : Hangs Machine.Hung links p good) :
    Hangs (Watched.Hung first) links (act p) good := by
  intro w hung
  have kept : ∀ {later : Linkage} {m : Machine}, links.Extends later → m.Hung later →
      Watched.Hung first later ⟨m, w.events⟩ := fun grown now => by
    refine ⟨now, Nat.le_trans hung.since grown.made, fun event member other remembered => ?_⟩
    obtain ⟨since, before⟩ := hung.before event member other remembered
    exact ⟨since, before_later grown before⟩
  have ended := hangs w.machine hung.now
  unfold Ends at ended ⊢
  unfold act
  cases run : p w.machine with
  | ok a m =>
      rw [run] at ended
      obtain ⟨later, grown, now, here⟩ := ended
      exact ⟨later, grown, kept grown now, here⟩
  | error halt m =>
      rw [run] at ended
      obtain ⟨later, grown, now⟩ := ended
      exact ⟨later, grown, kept grown now⟩

theorem hangs_log (event : Event) (plain : event.machine? = none) {p : Watch α}
    (rest : Hangs (Watched.Hung first) links p good) : Hangs (Watched.Hung first) links (do log event; p) good := by
  intro w hung
  refine rest ⟨w.machine, event :: w.events⟩ ⟨hung.now, hung.since, fun other member m kept => ?_⟩
  rcases List.mem_cons.mp member with rfl | older
  · cases plain.symm.trans kept
  · exact hung.before other older m kept

theorem hangs_remember (event : Machine → Event) (its : ∀ m, (event m).machine? = some m) {p : Watch α}
    (rest : Hangs (Watched.Hung first) links p good) :
    Hangs (Watched.Hung first) links (do log (event (← get).machine); p) good := by
  intro w hung
  refine rest ⟨w.machine, event w.machine :: w.events⟩ ⟨hung.now, hung.since, fun other member m kept => ?_⟩
  rcases List.mem_cons.mp member with rfl | older
  · cases (its w.machine).symm.trans kept
    exact ⟨Nat.le_trans hung.since (Nat.le_of_eq hung.now.store.made.symm), hung_before hung.now⟩
  · exact hung.before other older m kept

theorem hangs_get_watched {f : Watched → Watch α} (rest : ∀ w, Hangs (Watched.Hung first) links (f w) good) :
    Hangs (Watched.Hung first) links (get >>= f) good :=
  fun w => rest w w

theorem hangs_env {f : Env → Watch α} (rest : ∀ env, links.Ties env → Hangs (Watched.Hung first) links (f env) good) :
    Hangs (Watched.Hung first) links (Watch.currentEnv >>= f) good :=
  fun w hung => rest w.machine.env hung.now.env w hung

theorem hangs_within (env : Env) (tied : links.Ties env) {p : Watch α}
    (inner : Hangs (Watched.Hung first) links p good) : Hangs (Watched.Hung first) links (Watch.within env p) good := by
  intro w hung
  have ended := inner { w with machine := { w.machine with env } } ⟨⟨hung.now.store, tied⟩, hung.since, hung.before⟩
  unfold Ends at ended ⊢
  unfold Watch.within
  cases run : p { w with machine := { w.machine with env } } with
  | ok a t =>
      rw [run] at ended
      obtain ⟨later, grown, state, here⟩ := ended
      exact ⟨later, grown, ⟨⟨state.now.store, ties_later grown hung.now.env⟩, state.since, state.before⟩, here⟩
  | error halt t =>
      rw [run] at ended
      obtain ⟨later, grown, state⟩ := ended
      exact ⟨later, grown, ⟨state.now.store, ties_later grown hung.now.env⟩, state.since, state.before⟩

theorem hangs_reach (node : Expr) {p : Eval α} (hangs : Hangs Machine.Hung links p good) :
    Hangs (Watched.Hung first) links (reach node p) good :=
  hangs_remember (.reached node) (fun _ => rfl) (hangs_act hangs)

theorem hangs_opened (site : Site) {f : Env → Watch α}
    (rest : ∀ later env, links.Extends later → later.Ties env → Hangs (Watched.Hung first) later (f env) good) :
    Hangs (Watched.Hung first) links (Watch.childEnv site >>= f) good := by
  have opened : Hangs (Watched.Hung first) links (Watch.childEnv site) Linkage.Ties :=
    hangs_bind (hangs_act hangs_child) fun _ _ _ tied => hangs_log _ rfl (hangs_pure _ tied)
  exact hangs_bind opened rest

theorem hangs_named (name : Name) (value : Value) (new : links.Holds value) :
    Hangs (Watched.Hung first) links (Watch.define name value) fun _ _ => True :=
  hangs_bind (hangs_act (hangs_define name value new)) fun _ _ _ _ => hangs_env fun _ _ =>
    hangs_log _ rfl (hangs_pure _ trivial)

theorem hangs_parameters (env : Env) (names : List Name) (values : List Value) {links : Linkage}
    (given : ∀ value ∈ values, links.Holds value) :
    Hangs (Watched.Hung first) links (Watch.defineAll env names values) fun _ _ => True := by
  induction names generalizing values links with
  | nil =>
      unfold Watch.defineAll
      exact hangs_pure _ trivial
  | cons name names ih =>
      cases values with
      | nil => exact hangs_pure _ trivial
      | cons value values =>
          have first := hangs_store name.line (hangs_bound env name.text value (given value List.mem_cons_self))
          apply hangs_bind (hangs_act first)
          exact fun later _ grown _ => hangs_log _ rfl
            (ih values (values_later grown fun other member => given other (List.mem_cons_of_mem _ member)))

theorem hangs_function (routine : Routine) :
    Hangs (Watched.Hung first) links (Watch.defineFunction routine) fun _ _ => True :=
  hangs_bind (hangs_act (hangs_store routine.name.line hangs_identity)) fun _ identity _ _ => hangs_env fun env tied =>
    hangs_named routine.name (.function identity ⟨routine, env, false⟩) tied

theorem hangs_class (name : Name) (methods : List Routine) :
    Hangs (Watched.Hung first) links (Watch.defineClass name methods) fun _ _ => True := by
  apply hangs_bind (hangs_named name .none trivial)
  intro _ _ _ _
  apply hangs_env
  intro env tied
  apply hangs_bind (hangs_act (hangs_store name.line hangs_identity))
  intro later identity grown _
  have made : (ClassValue.made identity name methods env).Every later.Carries :=
    made_every identity name methods env fun _ _ => ties_later grown tied
  exact hangs_log _ rfl (hangs_act (hangs_store name.line (hangs_writes (Store.writes_assign env name.text _) made)))

theorem hangs_log_bound (cause : Cause) (closure : Closure) (object : Instance) :
    Hangs (Watched.Hung first) links (logBound cause closure object) fun _ _ => True :=
  hangs_log _ rfl (hangs_log _ rfl (hangs_pure _ trivial))

theorem hangs_receive (line : Nat) (cause : Cause) (method : Closure) (object : Instance) (known : links.Carries method)
    (methods : object.ofClass.Every links.Carries) :
    Hangs (Watched.Hung first) links (receive line cause method object) Linkage.Carries :=
  hangs_bind (hangs_act (hangs_store line (hangs_receiver method object known methods))) fun _ closure _ bound =>
    hangs_bind (hangs_log_bound cause closure object) fun _ _ grown _ =>
      hangs_pure closure (carries_later grown closure bound)

theorem hangs_member (name : Name) (value : Value) (known : links.Holds value) :
    Hangs (Watched.Hung first) links (Watch.property name value) Linkage.Holds := by
  have whole : Hangs (Watched.Hung first) links (act (Eval.property name value)) Linkage.Holds :=
    hangs_act (hangs_get name value known)
  cases value with
  | object object =>
      apply hangs_get_watched
      intro w
      apply hangs_bind whole
      intro later found _ here
      cases found with
      | function identity closure =>
          dsimp only
          split
          · exact hangs_bind (hangs_log_bound _ closure object) fun _ _ grown _ => hangs_pure _ (value_later grown here)
          · exact hangs_pure _ here
      | _ => exact hangs_pure _ here
  | _ => exact whole

end Steps

section Walk

structure WalkHangs (first steps : Nat) : Prop where
  evaluate : ∀ links e, Hangs (Watched.Hung first) links (Watch.evaluate steps e) Linkage.Holds
  arguments : ∀ links es, Hangs (Watched.Hung first) links (Watch.evaluateAll steps es) fun later values =>
    ∀ value ∈ values, later.Holds value
  call : ∀ links callee arguments line, Linkage.Holds links callee →
    (∀ value ∈ arguments, links.Holds value) →
    Hangs (Watched.Hung first) links (Watch.call steps callee arguments line) Linkage.Holds
  enter : ∀ links closure arguments, Linkage.Carries links closure → (∀ value ∈ arguments, links.Holds value) →
    Hangs (Watched.Hung first) links (Watch.enter steps closure arguments) Linkage.Holds
  execute : ∀ links s, Hangs (Watched.Hung first) links (Watch.execute steps s) Linkage.Returns
  body : ∀ links body, Hangs (Watched.Hung first) links (Watch.executeAll steps body) Linkage.Returns
  choose : ∀ links condition body alternative,
    Hangs (Watched.Hung first) links (Watch.choose steps condition body alternative) Linkage.Returns
  loop : ∀ links condition body env, Linkage.Ties links env →
    Hangs (Watched.Hung first) links (Watch.repeatWhile steps condition body env) Linkage.Returns

variable {first steps : Nat} (ih : WalkHangs first steps)
include ih

theorem hangs_call (links : Linkage) (callee : Value) (arguments : List Value) (line : Nat)
    (known : links.Holds callee) (given : ∀ value ∈ arguments, links.Holds value) :
    Hangs (Watched.Hung first) links (Watch.call (steps + 1) callee arguments line) Linkage.Holds := by
  cases callee with
  | native native => exact hangs_act (hangs_operated (inert_native native arguments line))
  | function identity closure => exact ih.enter links closure arguments known given
  | «class» c =>
      apply hangs_bind (hangs_act (hangs_store line (hangs_instance c known)))
      intro now object grown methods
      have known : c.Every now.Carries := fun key closure found => carries_later grown closure (known key closure found)
      cases found : c.constructor? with
      | none => exact hangs_pure _ methods
      | some method =>
          apply hangs_bind (hangs_receive line .creation method object (known _ method found) methods)
          intro bound closure further carried
          apply hangs_bind (ih.enter bound closure arguments carried (values_later (extends_trans grown further) given))
          exact fun last _ entered _ => hangs_pure (Value.object object)
            fun key other found => carries_later (extends_trans further entered) other (methods key other found)
  | _ => exact hangs_act (hangs_fail _ _)

theorem hangs_enter (links : Linkage) (closure : Closure) (arguments : List Value) (known : links.Carries closure)
    (given : ∀ value ∈ arguments, links.Holds value) :
    Hangs (Watched.Hung first) links (Watch.enter (steps + 1) closure arguments) Linkage.Holds := by
  apply hangs_remember (.entered closure) fun _ => rfl
  apply hangs_bind (hangs_act (hangs_store 0 (hangs_nest closure.env known .empty fun _ _ none => nomatch none)))
  intro now env grown tied
  apply hangs_log _ rfl
  apply hangs_bind (hangs_parameters env closure.routine.parameters arguments (values_later grown given))
  intro filled _ further _
  apply hangs_bind (hangs_within env (ties_later further tied) (ih.body filled closure.routine.body))
  exact fun last flow _ returned => hangs_act (hangs_answer closure flow returned)

theorem hangs_evaluate (links : Linkage) (e : Expr) :
    Hangs (Watched.Hung first) links (Watch.evaluate (steps + 1) e) Linkage.Holds := by
  cases e with
  | literal mark value => exact hangs_pure _ (every_literal value)
  | grouping mark inner => exact ih.evaluate links inner
  | unary mark operator right =>
      apply hangs_bind (ih.evaluate links right)
      exact fun _ value _ _ => hangs_act (hangs_operated (inert_unary operator value))
  | binary mark left operator right =>
      apply hangs_bind (ih.evaluate links left)
      intro now first _ _
      apply hangs_bind (ih.evaluate now right)
      exact fun _ second _ _ => hangs_act (hangs_operated (inert_binary operator first second))
  | logical mark left operator right =>
      apply hangs_bind (ih.evaluate links left)
      intro now value _ _
      cases value with
      | bool truth =>
          dsimp only
          split
          · exact hangs_pure _ trivial
          · exact ih.evaluate now right
      | _ => exact hangs_act (hangs_fail _ _)
  | ident mark name | this mark name => exact hangs_reach _ (hangs_read _ _)
  | assign mark name value =>
      apply hangs_bind (ih.evaluate links value)
      intro now new _ known
      apply hangs_bind (hangs_reach _ (hangs_write mark.id name new known))
      exact fun _ _ grown _ => hangs_pure _ (value_later grown known)
  | call mark callee arguments line =>
      apply hangs_log _ rfl
      apply hangs_bind (ih.evaluate links callee)
      intro now function _ known
      apply hangs_bind (ih.arguments now arguments)
      intro ready values grown given
      apply hangs_bind (hangs_act (hangs_inert (inert_arity function values line)))
      exact fun last _ further _ => ih.call last function values line
        (value_later (extends_trans grown further) known) (values_later further given)
  | get mark object name =>
      apply hangs_bind (ih.evaluate links object)
      exact fun _ value _ known => hangs_member name value known
  | set mark object name value =>
      apply hangs_bind (ih.evaluate links object)
      intro now target _ _
      cases target with
      | object object =>
          apply hangs_bind (ih.evaluate now value)
          intro last new _ known
          apply hangs_bind (hangs_act (hangs_store name.line (hangs_field object name.text new known)))
          exact fun _ _ grown _ => hangs_pure _ (value_later grown known)
      | _ => exact hangs_act (hangs_fail _ _)

theorem hangs_arguments (links : Linkage) (es : List Expr) :
    Hangs (Watched.Hung first) links (Watch.evaluateAll (steps + 1) es) fun later values =>
      ∀ value ∈ values, later.Holds value := by
  cases es with
  | nil => exact hangs_pure _ fun _ none => nomatch none
  | cons e rest =>
      apply hangs_bind (ih.evaluate links e)
      intro now value _ known
      apply hangs_bind (ih.arguments now rest)
      intro last values grown given
      apply hangs_pure
      intro other member
      rcases List.mem_cons.mp member with rfl | further
      · exact value_later grown known
      · exact given other further

theorem hangs_scope (links : Linkage) (site : Site) (body : List Stmt) :
    Hangs (Watched.Hung first) links (do Watch.within (← Watch.childEnv site) (Watch.executeAll steps body))
      Linkage.Returns :=
  hangs_opened site fun now env _ tied => hangs_within env tied (ih.body now body)

theorem hangs_execute (links : Linkage) (s : Stmt) :
    Hangs (Watched.Hung first) links (Watch.execute (steps + 1) s) Linkage.Returns := by
  cases s with
  | expression e => exact hangs_bind (ih.evaluate links e) fun _ _ _ _ => hangs_pure _ trivial
  | var name initializer =>
      cases initializer with
      | none => exact hangs_bind (hangs_named name .none trivial) fun _ _ _ _ => hangs_pure _ trivial
      | some e =>
          apply hangs_bind (ih.evaluate links e)
          exact fun _ value _ known => hangs_bind (hangs_named name value known) fun _ _ _ _ => hangs_pure _ trivial
  | block body => exact hangs_scope ih links _ body
  | branch condition body alternative => exact ih.choose links condition body alternative
  | «while» condition body => exact hangs_opened _ fun now env _ tied => ih.loop now condition body env tied
  | function routine => exact hangs_bind (hangs_function routine) fun _ _ _ _ => hangs_pure _ trivial
  | «return» line value =>
      cases value with
      | none => exact hangs_pure _ trivial
      | some e => exact hangs_bind (ih.evaluate links e) fun _ _ _ known => hangs_pure _ known
  | «class» name methods => exact hangs_bind (hangs_class name methods) fun _ _ _ _ => hangs_pure _ trivial

theorem hangs_body (links : Linkage) (body : List Stmt) :
    Hangs (Watched.Hung first) links (Watch.executeAll (steps + 1) body) Linkage.Returns := by
  cases body with
  | nil => exact hangs_pure _ trivial
  | cons s rest =>
      apply hangs_bind (ih.execute links s)
      intro now flow _ known
      cases flow with
      | normal => exact ih.body now rest
      | returned value => exact hangs_pure _ known

theorem hangs_choose (links : Linkage) (condition : Expr) (body : List Stmt) (alternative : Alternative) :
    Hangs (Watched.Hung first) links (Watch.choose (steps + 1) condition body alternative)
      Linkage.Returns := by
  apply hangs_bind (ih.evaluate links condition)
  intro _ value _ _
  apply hangs_bind (hangs_act (hangs_inert (inert_condition _ _ value)))
  intro now truth _ _
  cases truth with
  | true => exact hangs_scope ih now _ body
  | false =>
      cases alternative with
      | none => exact hangs_pure _ trivial
      | elseIf next inner other => exact ih.choose now next inner other
      | block inner => exact hangs_scope ih now _ inner

theorem hangs_loop (links : Linkage) (condition : Expr) (body : List Stmt) (env : Env) (tied : links.Ties env) :
    Hangs (Watched.Hung first) links (Watch.repeatWhile (steps + 1) condition body env)
      Linkage.Returns := by
  apply hangs_bind (ih.evaluate links condition)
  intro _ value grown _
  apply hangs_bind (hangs_act (hangs_inert (inert_condition _ _ value)))
  intro now truth further _
  have tied : now.Ties env := ties_later (extends_trans grown further) tied
  cases truth with
  | false => exact hangs_pure _ trivial
  | true =>
      apply hangs_bind (hangs_within env tied (ih.body now body))
      intro ended flow grown known
      cases flow with
      | returned value => exact hangs_pure _ known
      | normal =>
          apply hangs_bind (hangs_act (hangs_store 0 (hangs_clear env)))
          exact fun emptied _ further _ => hangs_log _ rfl
            (ih.loop emptied condition body env (ties_later (extends_trans grown further) tied))

end Walk

section Whole

variable {first : Nat}

theorem walk_hangs (first : Nat) : ∀ steps, WalkHangs first steps
  | 0 => by
      constructor <;> intros <;> exact hangs_stop _
  | steps + 1 => by
      have ih := walk_hangs first steps
      exact ⟨hangs_evaluate ih, hangs_arguments ih, hangs_call ih, hangs_enter ih, hangs_execute ih, hangs_body ih,
        hangs_choose ih, hangs_loop ih⟩

theorem hangs_program (steps : Nat) (program : Program) (links : Linkage) :
    Hangs (Watched.Hung first) links (Watch.executeProgram steps program) fun _ _ => True := by
  induction program generalizing links with
  | nil => exact hangs_pure _ trivial
  | cons s rest ih =>
      apply hangs_bind ((walk_hangs first steps).execute links s)
      intro now flow _ _
      cases flow with
      | normal => exact ih now
      | returned value => exact hangs_pure _ trivial

theorem hangs_interpret (steps : Nat) (program : Program) (links : Linkage) :
    Hangs (Watched.Hung first) links (Watch.interpret steps program) fun _ _ => True :=
  hangs_bind (hangs_program steps program links) fun _ _ _ _ => hangs_act (hangs_inert inert_flush)

end Whole

end TreeWalk
