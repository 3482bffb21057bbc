import TreeWalk.Proofs.Verdicts

set_option autoImplicit false

namespace TreeWalk

open Enclosure (surrounding routine_past AllowsReturn)
open Position (Lawful)

namespace Flow

def Allowed (kind : Surrounding) : Flow → Prop
  | normal => True
  | returned value => kind ≠ .topLevel ∧ (kind = .constructor → value = .none)

theorem allowed_top {flow : Flow} (allowed : flow.Allowed .topLevel) : flow = .normal := by
  cases flow with
  | normal => rfl
  | returned value => exact (allowed.1 rfl).elim

end Flow

section Ending

variable {α : Type} {kind : Surrounding}

def Departs (kind : Surrounding) (p : Eval Flow) : Prop :=
  ∀ m n flow, p m = .ok flow n → flow.Allowed kind

theorem departs_pure {flow : Flow} (allowed : flow.Allowed kind) : Departs kind (pure flow) := by
  rintro m n flow ⟨⟩
  exact allowed

theorem departs_exhausted : Departs kind (throw .exhausted) := by
  rintro m n flow ⟨⟩

theorem departs_bind (p : Eval α) {f : α → Eval Flow} (rest : ∀ a, Departs kind (f a)) : Departs kind (p >>= f) := by
  intro m n flow run
  cases first : p m with
  | ok a mid =>
      rw [bind_ok f first] at run
      exact rest a mid n flow run
  | error halt mid =>
      rw [bind_error f first] at run
      cases run

theorem departs_next {p : Eval Flow} {f : Flow → Eval Flow} (first : Departs kind p)
    (rest : ∀ flow, flow.Allowed kind → Departs kind (f flow)) : Departs kind (p >>= f) := by
  intro m n flow run
  cases begun : p m with
  | ok a mid =>
      rw [bind_ok f begun] at run
      exact rest a (first m mid a begun) mid n flow run
  | error halt mid =>
      rw [bind_error f begun] at run
      cases run

theorem departs_within (env : Env) {p : Eval Flow} (inner : Departs kind p) : Departs kind (Eval.within env p) := by
  intro m n flow run
  unfold Eval.within at run
  cases begun : p { m with env } with
  | ok a mid =>
      rw [begun] at run
      cases run
      exact inner _ mid _ begun
  | error halt mid =>
      rw [begun] at run
      cases run

end Ending

section Scopes

variable {scopes : List Enclosure}

theorem lawful_has {p q : Position} (lawful : p.Lawful) (has : p.Has q) : q.Lawful :=
  ((Position.lawful_iff p).mp lawful).2 q has

theorem scope_lawful {site : Site} (plain : site.isReceiver = false) (lawful : Lawful ⟨scopes, .scope site⟩) :
    Stmt.LawfulAll (⟨site, site.given⟩ :: scopes) site.statements :=
  ((Position.lawful_scope scopes site plain).mp lawful).2

theorem surrounding_past {site : Site} (plain : site.isDeferred = false) (earlier : List String) :
    surrounding (⟨site, earlier⟩ :: scopes) = surrounding scopes := by
  unfold surrounding
  rw [routine_past plain]

end Scopes

section Walk

variable (regime : Regime)

structure WalkDeparts (steps : Nat) : Prop where
  execute : ∀ scopes s, Lawful ⟨scopes, .statement s⟩ → Departs (surrounding scopes) (regime.execute steps s)
  body : ∀ scopes body, Stmt.LawfulAll scopes body → Departs (surrounding scopes) (regime.executeAll steps body)
  choose : ∀ scopes condition body alternative, Lawful ⟨scopes, .alternative (.elseIf condition body alternative)⟩ →
    Departs (surrounding scopes) (regime.choose steps condition body alternative)
  loop : ∀ scopes condition body env, Lawful ⟨scopes, .scope (.loop body)⟩ →
    Departs (surrounding scopes) (regime.repeatWhile steps condition body env)

variable {regime} {steps : Nat} (ih : WalkDeparts regime steps)
include ih

theorem departs_site (scopes : List Enclosure) (site : Site) (plain : site.isDeferred = false)
    (lawful : Lawful ⟨scopes, .scope site⟩) : Departs (surrounding scopes) (regime.executeAll steps site.statements) := by
  rw [← surrounding_past plain site.given]
  exact ih.body _ _ (scope_lawful (plain_not_receiver plain) lawful)

theorem departs_enclosed (scopes : List Enclosure) (site : Site) (plain : site.isDeferred = false)
    (lawful : Lawful ⟨scopes, .scope site⟩) :
    Departs (surrounding scopes) (do Eval.within (← Eval.childEnv) (regime.executeAll steps site.statements)) :=
  departs_bind _ fun env => departs_within env (departs_site ih scopes site plain lawful)

theorem departs_execute (scopes : List Enclosure) (s : Stmt) (lawful : Lawful ⟨scopes, .statement s⟩) :
    Departs (surrounding scopes) (regime.execute (steps + 1) s) := by
  have done : Departs (surrounding scopes) (return .normal) := departs_pure trivial
  cases s with
  | expression e => exact departs_bind _ fun _ => done
  | var name initializer =>
      cases initializer with
      | none => exact departs_bind _ fun _ => done
      | some e => exact departs_bind _ fun _ => departs_bind _ fun _ => done
  | block body => exact departs_enclosed ih scopes (.block body) rfl (lawful_has lawful (.block scopes body))
  | branch condition body alternative =>
      exact ih.choose scopes condition body alternative (lawful_has lawful (.branch scopes condition body alternative))
  | «while» condition body =>
      exact departs_bind _ fun env =>
        ih.loop scopes condition body env (lawful_has lawful (.loop scopes condition body))
  | function routine => exact departs_bind _ fun _ => done
  | «return» line value =>
      have allowed : AllowsReturn scopes value := ((Position.lawful_iff _).mp lawful).1
      obtain ⟨inside, valueless⟩ := (Enclosure.allows_return_iff scopes value).mpr allowed
      cases value with
      | none => exact departs_pure ⟨inside, fun _ => rfl⟩
      | some e => exact departs_bind _ fun _ => departs_pure ⟨inside, fun constructor => (valueless rfl constructor).elim⟩
  | «class» name methods => exact departs_bind _ fun _ => done

theorem departs_body (scopes : List Enclosure) (body : List Stmt) (lawful : Stmt.LawfulAll scopes body) :
    Departs (surrounding scopes) (regime.executeAll (steps + 1) body) := by
  cases body with
  | nil => exact departs_pure trivial
  | cons s rest =>
      obtain ⟨here, later⟩ := (lawful_all_cons scopes s rest).mp lawful
      apply departs_next (ih.execute scopes s here)
      intro flow allowed
      cases flow with
      | normal =>
          rw [← Enclosure.declare_surrounding s.own scopes]
          exact ih.body _ rest later
      | returned value => exact departs_pure allowed

theorem departs_choose (scopes : List Enclosure) (condition : Expr) (body : List Stmt) (alternative : Alternative)
    (lawful : Lawful ⟨scopes, .alternative (.elseIf condition body alternative)⟩) :
    Departs (surrounding scopes) (regime.choose (steps + 1) condition body alternative) := by
  obtain ⟨_, chosen, further⟩ := (Position.lawful_else_if scopes condition body alternative).mp lawful
  apply departs_bind
  intro value
  apply departs_bind
  intro truth
  cases truth with
  | true => exact departs_enclosed ih scopes (.branch body) rfl chosen
  | false =>
      cases alternative with
      | none => exact departs_pure trivial
      | elseIf next inner other => exact ih.choose scopes next inner other further
      | block inner => exact departs_enclosed ih scopes (.otherwise inner) rfl (lawful_has further (.otherwise scopes inner))

theorem departs_loop (scopes : List Enclosure) (condition : Expr) (body : List Stmt) (env : Env)
    (lawful : Lawful ⟨scopes, .scope (.loop body)⟩) :
    Departs (surrounding scopes) (regime.repeatWhile (steps + 1) condition body env) := by
  apply departs_bind
  intro value
  apply departs_bind
  intro truth
  cases truth with
  | false => exact departs_pure trivial
  | true =>
      apply departs_next (departs_within env (departs_site ih scopes (.loop body) rfl lawful))
      intro flow allowed
      cases flow with
      | normal => exact departs_bind _ fun next => ih.loop scopes condition body next lawful
      | returned value => exact departs_pure allowed

end Walk

theorem walk_departs (regime : Regime) : ∀ steps, WalkDeparts regime steps
  | 0 => by
      constructor <;> intros <;> exact departs_exhausted
  | steps + 1 => by
      have ih := walk_departs regime steps
      exact ⟨departs_execute ih, departs_body ih, departs_choose ih, departs_loop ih⟩

theorem departs_program (regime : Regime) (steps : Nat) {program : Program} (formed : program.WellFormed) :
    ∀ s ∈ program, Departs .topLevel (regime.execute steps s) :=
  fun s member => (walk_departs regime steps).execute [] s ((well_formed_iff program).mp formed s member)

theorem execute_program_append (regime : Regime) (steps : Nat) (later : Program) : ∀ program : Program,
    (∀ s ∈ program, Departs .topLevel (regime.execute steps s)) →
      regime.executeProgram steps (program ++ later) =
        (do regime.executeProgram steps program; regime.executeProgram steps later)
  | [], _ => rfl
  | s :: rest, departs => by
      have behind := execute_program_append regime steps later rest fun t member =>
        departs t (List.mem_cons_of_mem s member)
      funext m
      rw [List.cons_append, Regime.executeProgram, Regime.executeProgram, bind_assoc]
      cases run : regime.execute steps s m with
      | error halt n => rw [bind_error _ run, bind_error _ run]
      | ok flow n =>
          obtain rfl := Flow.allowed_top (departs s List.mem_cons_self m n flow run)
          rw [bind_ok _ run, bind_ok _ run]
          exact congrFun behind n

end TreeWalk
