import TreeWalk.Proofs.Idle
import TreeWalk.Proofs.Verdicts

set_option autoImplicit false

namespace TreeWalk

open Enclosure (declare inClass routine? routine_past surrounding AllowsReturn)
open Position (Lawful Sound)

inductive Spanned : Spans → List Enclosure → List Enclosure → Prop where
  | nil : Spanned [] [] []
  | plain {spans : Spans} {scope scope' : Enclosure} {scopes scopes' : List Enclosure}
      (here : scope.site.isDeferred = false) (there : scope'.site.isDeferred = false)
      (outer : Spanned spans scopes scopes') : Spanned (true :: spans) (scope :: scopes) (scope' :: scopes')
  | routine {spans : Spans} {r r' : Routine} {earlier earlier' : List String} {scopes scopes' : List Enclosure}
      (same : r'.isConstructor = r.isConstructor) (level : spans.head? ≠ some false) (outer : Spanned spans scopes scopes') :
      Spanned (true :: spans) (⟨.routine r, earlier⟩ :: scopes) (⟨.routine r', earlier'⟩ :: scopes')
  | receiver {spans : Spans} {name name' : Name} {methods methods' : List Routine} {earlier earlier' : List String}
      {scopes scopes' : List Enclosure} (outer : Spanned spans scopes scopes') :
      Spanned (true :: spans) (⟨.receiver name methods, earlier⟩ :: scopes) (⟨.receiver name' methods', earlier'⟩ :: scopes')
  | extra {spans : Spans} {scope' : Enclosure} {scopes scopes' : List Enclosure}
      (there : scope'.site.isDeferred = false) (outer : Spanned spans scopes scopes') :
      Spanned (false :: spans) scopes (scope' :: scopes')

section Scopes

variable {spans : Spans} {scopes scopes' : List Enclosure}

theorem spanned_top (spanned : Spanned spans scopes scopes') (level : spans.head? ≠ some false) :
    scopes = [] ↔ scopes' = [] := by
  cases spanned with
  | extra => exact (level rfl).elim
  | _ => simp

theorem spanned_declare (spanned : Spanned spans scopes scopes') (level : spans.head? ≠ some false) (names : List String) :
    Spanned spans (declare names scopes) (declare names scopes') := by
  cases spanned with
  | nil => exact .nil
  | plain here there outer => exact .plain here there outer
  | routine same outside outer => exact .routine same outside outer
  | receiver outer => exact .receiver outer
  | extra => exact (level rfl).elim

theorem spanned_receiver (spanned : Spanned spans scopes scopes') :
    (∃ scope ∈ scopes, scope.site.isReceiver = true) ↔ ∃ scope ∈ scopes', scope.site.isReceiver = true := by
  induction spanned with
  | nil => exact Iff.rfl
  | plain here there outer ih =>
      simp only [List.mem_cons, exists_eq_or_imp, plain_not_receiver here, plain_not_receiver there]
      exact or_congr_right ih
  | routine same level outer ih =>
      simp only [List.mem_cons, exists_eq_or_imp, Site.isReceiver]
      exact or_congr_right ih
  | receiver outer ih => simp [Site.isReceiver]
  | extra there outer ih =>
      simp only [List.mem_cons, exists_eq_or_imp, plain_not_receiver there]
      exact ih.trans (or_iff_right Bool.false_ne_true).symm

theorem spanned_class (spanned : Spanned spans scopes scopes') (level : spans.head? ≠ some false) :
    inClass scopes' = inClass scopes := by
  cases spanned with
  | plain here there outer =>
      simp only [inClass, List.head?_cons, Option.any_some, plain_not_receiver here, plain_not_receiver there]
  | extra => exact (level rfl).elim
  | _ => rfl

theorem spanned_surrounding (spanned : Spanned spans scopes scopes') : surrounding scopes' = surrounding scopes := by
  induction spanned with
  | nil => rfl
  | plain here there outer ih =>
      unfold surrounding at ih ⊢
      rwa [routine_past here, routine_past there]
  | routine same level outer ih =>
      simp only [surrounding, routine?, spanned_class outer level, Resolving.methodKind, same]
  | receiver outer ih => exact ih
  | extra there outer ih =>
      unfold surrounding at ih ⊢
      rwa [routine_past there]

theorem spanned_return (spanned : Spanned spans scopes scopes') {value value' : Option Expr}
    (same : value'.isSome = value.isSome) : AllowsReturn scopes value ↔ AllowsReturn scopes' value' := by
  rw [← Enclosure.allows_return_iff, ← Enclosure.allows_return_iff, spanned_surrounding spanned, same]

end Scopes

section Rules

variable {good : Spans → Nat → Nat → Prop} {picked : List Stmt → Bool} {spans : Spans} {scopes scopes' : List Enclosure}

theorem paired_left {α β : Type} {R : α → β → Prop} {list : List α} {list' : List β} (all : List.Forall₂ R list list')
    (a : α) (member : a ∈ list) : ∃ b ∈ list', R a b := by
  induction all with
  | nil => cases member
  | cons first _ ih =>
      rcases List.mem_cons.mp member with rfl | later
      · exact ⟨_, List.mem_cons_self, first⟩
      · obtain ⟨b, found, same⟩ := ih later
        exact ⟨b, List.mem_cons_of_mem _ found, same⟩

theorem paired_right {α β : Type} {R : α → β → Prop} {list : List α} {list' : List β} (all : List.Forall₂ R list list')
    (b : β) (member : b ∈ list') : ∃ a ∈ list, R a b :=
  paired_left (R := fun b a => R a b) all.flip b member

theorem held_left {e e' d : Expr} (aligned : e.Aligned good spans e') (holds : e.Holds d) :
    ∃ d', e'.Holds d' ∧ d.Aligned good spans d' := by
  induction holds with
  | refl => exact ⟨e', .refl, aligned⟩
  | tail _ member ih =>
      obtain ⟨mid, held, same⟩ := ih
      obtain ⟨child, inside, also⟩ := paired_left (aligned_children same) _ member
      exact ⟨child, held.tail inside, also⟩

theorem held_right {e e' d' : Expr} (aligned : e.Aligned good spans e') (holds : e'.Holds d') :
    ∃ d, e.Holds d ∧ d.Aligned good spans d' := by
  induction holds with
  | refl => exact ⟨e, .refl, aligned⟩
  | tail _ member ih =>
      obtain ⟨mid, held, same⟩ := ih
      obtain ⟨child, inside, also⟩ := paired_right (aligned_children same) _ member
      exact ⟨child, held.tail inside, also⟩

theorem held_iff {e e' : Expr} (aligned : e.Aligned good spans e') {rule rule' : Expr → Prop}
    (same : ∀ d d', d.Aligned good spans d' → (rule d ↔ rule' d')) :
    (∀ d, e.Holds d → rule d) ↔ ∀ d, e'.Holds d → rule' d := by
  constructor
  · intro all d' holds
    obtain ⟨d, held, also⟩ := held_right aligned holds
    exact (same d d' also).mp (all d held)
  · intro all d holds
    obtain ⟨d', held, also⟩ := held_left aligned holds
    exact (same d d' also).mpr (all d' held)

theorem lawful_expr {e e' : Expr} (aligned : e.Aligned good spans e') (spanned : Spanned spans scopes scopes') :
    Lawful ⟨scopes, .expression e⟩ ↔ Lawful ⟨scopes', .expression e'⟩ := by
  rw [Position.lawful_expression, Position.lawful_expression]
  refine held_iff aligned fun d d' same => ?_
  cases same with
  | call _ _ _ _ called _ => cases called <;> exact Iff.rfl
  | this => exact spanned_receiver spanned
  | _ => exact Iff.rfl

theorem lawful_site {site site' : Site} (here : site.isReceiver = false) (there : site'.isReceiver = false)
    (given : site'.given = site.given) (own : Stmt.ownAll site'.statements = Stmt.ownAll site.statements)
    (inside : Stmt.LawfulAll (⟨site, site.given⟩ :: scopes) site.statements ↔
      Stmt.LawfulAll (⟨site', site'.given⟩ :: scopes') site'.statements) :
    Lawful ⟨scopes, .scope site⟩ ↔ Lawful ⟨scopes', .scope site'⟩ := by
  rw [Position.lawful_scope scopes site here, Position.lawful_scope scopes' site' there]
  refine and_congr ?_ inside
  unfold Site.names
  rw [given, own]

theorem lawful_alone {site : Site} {s : Stmt} (plain : site.isReceiver = false) (given : site.given = [])
    (statements : site.statements = [s]) (own : s.own = []) :
    Lawful ⟨scopes, .scope site⟩ ↔ Lawful ⟨⟨site, []⟩ :: scopes, .statement s⟩ := by
  rw [Position.lawful_scope scopes site plain, statements, lawful_all_cons, given]
  unfold Site.names
  rw [given, statements, show Stmt.ownAll [s] = s.own ++ [] from rfl, own]
  exact ⟨fun both => both.2.1, fun lawful => ⟨List.nodup_nil, lawful, lawful_all_nil _⟩⟩

theorem lawful_idle (body : List Stmt) (mark : Mark) :
    Lawful ⟨scopes, .scope (.loop [.block body, .expression (.literal mark .none)])⟩ ↔
      Lawful ⟨⟨.loop [.block body, .expression (.literal mark .none)], []⟩ :: scopes, .scope (.block body)⟩ := by
  have action : ∀ scopes, Lawful ⟨scopes, .statement (.expression (.literal mark .none))⟩ := by
    intro scopes
    rw [Position.lawful_only (.expression _ _) trivial (by rintro _ ⟨⟩; rfl)]
    exact Position.lawful_nothing _ trivial (by rintro _ ⟨⟩; contradiction)
  rw [Position.lawful_scope scopes _ rfl, ← Position.lawful_only (.block _ _) trivial (by rintro _ ⟨⟩; rfl)]
  constructor
  · exact fun both => ((lawful_all_cons _ _ _).mp both.2).1
  · exact fun lawful => ⟨List.nodup_nil, (lawful_all_cons _ _ _).mpr
      ⟨lawful, (lawful_all_cons _ _ _).mpr ⟨action _, lawful_all_nil _⟩⟩⟩

mutual
theorem lawful_stmt : ∀ (s : Stmt) {s' : Stmt} {spans : Spans} {scopes scopes' : List Enclosure},
    s.Aligned good picked spans s' → Spanned spans scopes scopes' → spans.head? ≠ some false →
      (Lawful ⟨scopes, .statement s⟩ ↔ Lawful ⟨scopes', .statement s'⟩)
  | .expression _, _, _, _, _, .expression value, spanned, _ => by
      rw [Position.lawful_only (.expression _ _) trivial (by rintro _ ⟨⟩; rfl),
        Position.lawful_only (.expression _ _) trivial (by rintro _ ⟨⟩; rfl)]
      exact lawful_expr value spanned
  | .var _ none, _, _, _, _, .var _, _, _ =>
      iff_of_true (Position.lawful_nothing _ trivial (by rintro _ ⟨⟩)) (Position.lawful_nothing _ trivial (by rintro _ ⟨⟩))
  | .var name (some _), _, _, _, _, .initialized _ value, spanned, level => by
      rw [Position.lawful_initializer, Position.lawful_initializer]
      refine and_congr (imp_congr (not_congr (spanned_top spanned level)) ?_)
        (lawful_expr value (spanned_declare spanned level _))
      have reads : ∀ e : Expr, (∀ mark other, e.Holds (.ident mark other) → other.text ≠ name.text) ↔
          ∀ d, e.Holds d → match d with | .ident _ other => other.text ≠ name.text | _ => True := by
        intro e
        constructor
        · intro all d holds
          split
          · exact all _ _ holds
          · trivial
        · exact fun all mark other holds => all _ holds
      rw [reads, reads]
      refine held_iff value fun d d' same => ?_
      cases same <;> exact Iff.rfl
  | .block body, _, _, _, _, .block inside, spanned, _ => by
      rw [Position.lawful_only (.block _ _) trivial (by rintro _ ⟨⟩; rfl),
        Position.lawful_only (.block _ _) trivial (by rintro _ ⟨⟩; rfl)]
      exact lawful_site rfl rfl rfl (aligned_own_all inside) (lawful_stmts body inside (.plain rfl rfl spanned) (by simp))
  | .branch condition body alternative, _, _, _, _, .branch test inside other, spanned, _ => by
      rw [Position.lawful_only (.branch _ _ _ _) trivial (by rintro _ ⟨⟩; rfl),
        Position.lawful_only (.branch _ _ _ _) trivial (by rintro _ ⟨⟩; rfl),
        Position.lawful_else_if, Position.lawful_else_if]
      exact and_congr (lawful_expr test spanned) (and_congr
        (lawful_site rfl rfl rfl (aligned_own_all inside) (lawful_stmts body inside (.plain rfl rfl spanned) (by simp)))
        (lawful_alternative alternative other spanned))
  | .while condition body, _, _, _, _, .while test inside, spanned, _ => by
      rw [Position.lawful_loop, Position.lawful_loop]
      exact and_congr (lawful_expr test spanned)
        (lawful_site rfl rfl rfl (aligned_own_all inside) (lawful_stmts body inside (.plain rfl rfl spanned) (by simp)))
  | .while condition body, _, _, _, _, .idle mark test inside _, spanned, _ => by
      rw [Position.lawful_loop, Position.lawful_loop]
      rw [lawful_idle]
      exact and_congr (lawful_expr test spanned) (lawful_site rfl rfl rfl (aligned_own_all inside)
        (lawful_stmts body inside (.plain rfl rfl (.extra rfl spanned)) (by simp)))
  | .function routine, _, _, _, _, .function same, spanned, level => by
      rw [Position.lawful_only (.function _ _) trivial (by rintro _ ⟨⟩; rfl),
        Position.lawful_only (.function _ _) trivial (by rintro _ ⟨⟩; rfl), (aligned_routine same).1]
      exact lawful_routine routine same (spanned_declare spanned level _) level
  | .return _ none, _, _, _, _, .return _, spanned, _ => by
      rw [Position.lawful_iff, Position.lawful_iff]
      exact and_congr (spanned_return spanned rfl) (iff_of_true (by rintro _ ⟨⟩) (by rintro _ ⟨⟩))
  | .return _ (some _), _, _, _, _, .returned _ value, spanned, _ => by
      rw [Position.lawful_returned, Position.lawful_returned]
      exact and_congr (spanned_return spanned rfl) (lawful_expr value spanned)
  | .class name methods, _, _, _, _, .class _ inside, spanned, level => by
      rw [Position.lawful_class, Position.lawful_class, Position.lawful_receiver, Position.lawful_receiver,
        aligned_method_names inside]
      exact and_congr_right fun _ => lawful_routines methods inside (.receiver (spanned_declare spanned level _)) (by simp)

theorem lawful_alternative : ∀ (a : Alternative) {a' : Alternative} {spans : Spans} {scopes scopes' : List Enclosure},
    a.Aligned good picked spans a' → Spanned spans scopes scopes' →
      (Lawful ⟨scopes, .alternative a⟩ ↔ Lawful ⟨scopes', .alternative a'⟩)
  | .none, _, _, _, _, .none, _ =>
      iff_of_true (Position.lawful_nothing _ trivial (by rintro _ ⟨⟩)) (Position.lawful_nothing _ trivial (by rintro _ ⟨⟩))
  | .elseIf condition body alternative, _, _, _, _, .elseIf test inside other, spanned => by
      rw [Position.lawful_else_if, Position.lawful_else_if]
      exact and_congr (lawful_expr test spanned) (and_congr
        (lawful_site rfl rfl rfl (aligned_own_all inside) (lawful_stmts body inside (.plain rfl rfl spanned) (by simp)))
        (lawful_alternative alternative other spanned))
  | .block body, _, _, _, _, .block inside, spanned => by
      rw [Position.lawful_only (.otherwise _ _) trivial (by rintro _ ⟨⟩; rfl),
        Position.lawful_only (.otherwise _ _) trivial (by rintro _ ⟨⟩; rfl)]
      exact lawful_site rfl rfl rfl (aligned_own_all inside) (lawful_stmts body inside (.plain rfl rfl spanned) (by simp))
  | .elseIf condition body alternative, _, _, _, _, .nested test inside other, spanned => by
      rw [Position.lawful_only (.otherwise _ _) trivial (by rintro _ ⟨⟩; rfl), lawful_alone rfl rfl rfl rfl,
        Position.lawful_only (.branch _ _ _ _) trivial (by rintro _ ⟨⟩; rfl), Position.lawful_else_if, Position.lawful_else_if]
      exact and_congr (lawful_expr test (.extra rfl spanned)) (and_congr
        (lawful_site rfl rfl rfl (aligned_own_all inside)
          (lawful_stmts body inside (.plain rfl rfl (.extra rfl spanned)) (by simp)))
        (lawful_alternative alternative other (.extra rfl spanned)))

theorem lawful_routine : ∀ (r : Routine) {r' : Routine} {spans : Spans} {scopes scopes' : List Enclosure},
    r.Aligned good picked spans r' → Spanned spans scopes scopes' → spans.head? ≠ some false →
      (Lawful ⟨scopes, .scope (.routine r)⟩ ↔ Lawful ⟨scopes', .scope (.routine r')⟩)
  | ⟨_, _, body⟩, _, _, _, _, .routine _ _ inside, spanned, level =>
      lawful_site rfl rfl rfl (aligned_own_all inside) (lawful_stmts body inside (.routine rfl level spanned) (by simp))

theorem lawful_routines : ∀ (methods : List Routine) {methods' : List Routine} {spans : Spans}
    {scopes scopes' : List Enclosure}, Routine.AlignedAll good picked spans methods methods' →
      Spanned spans scopes scopes' → spans.head? ≠ some false →
      ((∀ method ∈ methods, Lawful ⟨scopes, .scope (.routine method)⟩) ↔
        ∀ method ∈ methods', Lawful ⟨scopes', .scope (.routine method)⟩)
  | [], _, _, _, _, .nil, _, _ => by simp
  | method :: rest, _, _, _, _, .cons first others, spanned, level => by
      rw [List.forall_mem_cons, List.forall_mem_cons]
      exact and_congr (lawful_routine method first spanned level) (lawful_routines rest others spanned level)

theorem lawful_stmts : ∀ (body : List Stmt) {body' : List Stmt} {spans : Spans} {scopes scopes' : List Enclosure},
    Stmt.AlignedAll good picked spans body body' → Spanned spans scopes scopes' → spans.head? ≠ some false →
      (Stmt.LawfulAll scopes body ↔ Stmt.LawfulAll scopes' body')
  | [], _, _, _, _, .nil, _, _ => iff_of_true (lawful_all_nil _) (lawful_all_nil _)
  | s :: rest, _, _, _, _, .cons first others, spanned, level => by
      rw [lawful_all_cons, lawful_all_cons, aligned_own first]
      exact and_congr (lawful_stmt s first spanned level) (lawful_stmts rest others (spanned_declare spanned level _) level)
end

theorem well_formed_all (program : Program) : program.WellFormed ↔ Stmt.LawfulAll [] program := by
  rw [well_formed_iff]
  constructor
  · exact fun all before s after split => all s (split ▸ List.mem_append_right before List.mem_cons_self)
  · intro all s member
    obtain ⟨before, after, split⟩ := List.append_of_mem member
    exact all before s after split

theorem aligned_well_formed {program program' : Program} (aligned : Stmt.AlignedAll good picked [] program program') :
    program.WellFormed ↔ program'.WellFormed := by
  rw [well_formed_all, well_formed_all]
  exact lawful_stmts program aligned .nil (by simp)

end Rules

end TreeWalk
