import TreeWalk.Proofs.Positions

set_option autoImplicit false

namespace TreeWalk

open Enclosure

namespace Enclosure

def AllowsReturn (scopes : List Enclosure) (value : Option Expr) : Prop :=
  ∃ r outer, routine? scopes = some (r, outer) ∧
    (value.isSome = true → ¬ (inClass outer = true ∧ r.isConstructor = true))

end Enclosure

structure Program.WellFormed (program : Program) : Prop where
  distinct : ∀ scopes site, program.Shows ⟨scopes, .scope site⟩ → site.names.Nodup
  -- In a scope the first value of a variable does not read the variable.
  initialized : ∀ scopes name e mark other, program.Shows ⟨scopes, .statement (.var name (some e))⟩ →
    scopes ≠ [] → e.Holds (.ident mark other) → other.text ≠ name.text
  receivers : ∀ scopes mark name, program.Shows ⟨scopes, .expression (.this mark name)⟩ →
    ∃ scope ∈ scopes, scope.site.isReceiver = true
  returns : ∀ scopes line value, program.Shows ⟨scopes, .statement (.return line value)⟩ → AllowsReturn scopes value
  callees : ∀ scopes mark callee arguments line,
    program.Shows ⟨scopes, .expression (.call mark callee arguments line)⟩ → ¬ callee.AccessesConstructor
  methods : ∀ scopes name methods, program.Shows ⟨scopes, .statement (.class name methods)⟩ →
    (methods.map fun method => method.name.text).Nodup

namespace Position

def Sound : Position → Prop
  | ⟨_, .scope site⟩ => site.names.Nodup
  | ⟨scopes, .statement (.var name (some e))⟩ =>
      scopes ≠ [] → ∀ mark other, e.Holds (.ident mark other) → other.text ≠ name.text
  | ⟨scopes, .statement (.return _ value)⟩ => AllowsReturn scopes value
  | ⟨_, .statement (.class _ methods)⟩ => (methods.map fun method => method.name.text).Nodup
  | ⟨scopes, .expression (.this _ _)⟩ => ∃ scope ∈ scopes, scope.site.isReceiver = true
  | ⟨_, .expression (.call _ callee _ _)⟩ => ¬ callee.AccessesConstructor
  | _ => True

def Lawful (p : Position) : Prop :=
  ∀ q, p.Reaches q → q.Sound

theorem lawful_iff (p : Position) : p.Lawful ↔ p.Sound ∧ ∀ q, p.Has q → q.Lawful :=
  reaches_head_iff Sound p

end Position

theorem well_formed_iff (program : Program) :
    program.WellFormed ↔ ∀ s ∈ program, Position.Lawful ⟨[], .statement s⟩ := by
  constructor
  · intro formed s member p reaches
    have shown : program.Shows p := ⟨s, member, reaches⟩
    unfold Position.Sound
    split
    · exact formed.distinct _ _ shown
    · exact fun inside mark other => formed.initialized _ _ _ mark other shown inside
    · exact formed.returns _ _ _ shown
    · exact formed.methods _ _ _ shown
    · exact formed.receivers _ _ _ shown
    · exact formed.callees _ _ _ _ _ shown
    · trivial
  · intro lawful
    have sound : ∀ p, program.Shows p → p.Sound := fun p ⟨s, member, reaches⟩ => lawful s member p reaches
    exact
      { distinct := fun scopes site shown => sound _ shown
        initialized := fun scopes name e mark other shown inside => sound _ shown inside mark other
        receivers := fun scopes mark name shown => sound _ shown
        returns := fun scopes line value shown => sound _ shown
        callees := fun scopes mark callee arguments line shown => sound _ shown
        methods := fun scopes name methods shown => sound _ shown }

namespace Expr

theorem holds_head_iff (property : Expr → Prop) (e : Expr) :
    (∀ d, e.Holds d → property d) ↔ property e ∧ ∀ child ∈ e.children, ∀ d, child.Holds d → property d := by
  constructor
  · intro all
    exact ⟨all e .refl, fun child member d holds => all d (.head member holds)⟩
  · rintro ⟨here, inside⟩ d holds
    rcases Relation.ReflTransGen.cases_head holds with rfl | ⟨child, member, further⟩
    · exact here
    · exact inside child member d further

end Expr

namespace Enclosure

def Room (scopes : List Enclosure) (names : List String) : Prop :=
  ∀ scope ∈ scopes.head?, names.Nodup ∧ ∀ name ∈ names, name ∉ scope.earlier

theorem room_nothing (scopes : List Enclosure) : Room scopes [] :=
  fun _ _ => ⟨List.nodup_nil, fun _ member => nomatch member⟩

theorem room_append (names others : List String) (scopes : List Enclosure) :
    Room scopes (names ++ others) ↔ Room scopes names ∧ Room (declare names scopes) others := by
  cases scopes with
  | nil => simp [Room, declare]
  | cons scope outer =>
      simp only [Room, declare, List.head?_cons, Option.mem_some_iff, forall_eq', List.nodup_append, List.mem_append,
        not_or]
      constructor
      · rintro ⟨⟨first, second, apart⟩, free⟩
        exact ⟨⟨first, fun name member => free name (.inl member)⟩, second, fun name member =>
          ⟨free name (.inr member), fun before => apart name before name member rfl⟩⟩
      · rintro ⟨⟨first, free⟩, second, others⟩
        refine ⟨⟨first, second, fun a before b after same => (others b after).2 (same ▸ before)⟩, ?_⟩
        rintro name (before | after)
        · exact free name before
        · exact (others name after).1

theorem room_given (site : Site) (scopes : List Enclosure) :
    site.names.Nodup ↔ site.given.Nodup ∧ Room (⟨site, site.given⟩ :: scopes) (Stmt.ownAll site.statements) := by
  simp only [Site.names, List.nodup_append, Room, List.head?_cons, Option.mem_some_iff, forall_eq']
  constructor
  · rintro ⟨given, own, apart⟩
    exact ⟨given, own, fun name member before => apart name before name member rfl⟩
  · rintro ⟨given, own, free⟩
    exact ⟨given, own, fun a before b after same => free b after (same ▸ before)⟩

end Enclosure

def Stmt.LawfulAll (scopes : List Enclosure) (body : List Stmt) : Prop :=
  ∀ before s after, body = before ++ s :: after →
    Position.Lawful ⟨declare (Stmt.ownAll before) scopes, .statement s⟩

theorem lawful_all_nil (scopes : List Enclosure) : Stmt.LawfulAll scopes [] := by
  intro before s after split
  simp at split

theorem lawful_all_cons (scopes : List Enclosure) (s : Stmt) (rest : List Stmt) :
    Stmt.LawfulAll scopes (s :: rest) ↔
      Position.Lawful ⟨scopes, .statement s⟩ ∧ Stmt.LawfulAll (declare s.own scopes) rest := by
  constructor
  · intro all
    refine ⟨?_, fun before t after split => ?_⟩
    · have here := all [] s rest rfl
      rwa [show Stmt.ownAll [] = [] from rfl, declare_nil] at here
    · have later := all (s :: before) t after (by rw [split]; rfl)
      rwa [show Stmt.ownAll (s :: before) = s.own ++ Stmt.ownAll before from rfl, declare_append] at later
  · rintro ⟨here, later⟩ before t after split
    cases before with
    | nil =>
        obtain ⟨rfl, rfl⟩ : s = t ∧ rest = after := by simpa using split
        rwa [show Stmt.ownAll [] = [] from rfl, declare_nil]
    | cons first before =>
        obtain ⟨rfl, rfl⟩ : s = first ∧ rest = before ++ t :: after := by simpa using split
        rw [show Stmt.ownAll (s :: before) = s.own ++ Stmt.ownAll before from rfl, declare_append]
        exact later before t after rfl

section Laws

variable (scopes : List Enclosure)

namespace Position

theorem lawful_only {p q : Position} (has : p.Has q) (sound : p.Sound) (only : ∀ r, p.Has r → r = q) :
    p.Lawful ↔ q.Lawful := by
  rw [lawful_iff]
  exact ⟨fun lawful => lawful.2 q has, fun lawful => ⟨sound, fun r other => only r other ▸ lawful⟩⟩

theorem lawful_nothing (p : Position) (sound : p.Sound) (nothing : ∀ q, ¬ p.Has q) : p.Lawful :=
  (lawful_iff p).mpr ⟨sound, fun q has => (nothing q has).elim⟩

theorem lawful_expression (e : Expr) :
    Lawful ⟨scopes, .expression e⟩ ↔ ∀ d, e.Holds d → Sound ⟨scopes, .expression d⟩ := by
  constructor
  · intro lawful d holds
    refine lawful _ ?_
    induction holds with
    | refl => exact .refl
    | tail _ member ih => exact .tail ih (.child scopes _ _ member)
  · intro sound q reaches
    have held : ∃ d, e.Holds d ∧ q = ⟨scopes, .expression d⟩ := by
      induction reaches with
      | refl => exact ⟨e, .refl, rfl⟩
      | tail _ has ih =>
          obtain ⟨d, holds, rfl⟩ := ih
          cases has with
          | child _ _ child member => exact ⟨child, .tail holds member, rfl⟩
    obtain ⟨d, holds, rfl⟩ := held
    exact sound d holds

theorem lawful_loop (condition : Expr) (body : List Stmt) :
    Lawful ⟨scopes, .statement (.while condition body)⟩ ↔
      Lawful ⟨scopes, .expression condition⟩ ∧ Lawful ⟨scopes, .scope (.loop body)⟩ := by
  rw [lawful_iff]
  constructor
  · rintro ⟨_, inside⟩
    exact ⟨inside _ (.repeated _ _ _), inside _ (.loop _ _ _)⟩
  · rintro ⟨test, inner⟩
    refine ⟨trivial, fun q has => ?_⟩
    cases has with
    | repeated => exact test
    | loop => exact inner

theorem lawful_else_if (condition : Expr) (body : List Stmt) (alternative : Alternative) :
    Lawful ⟨scopes, .alternative (.elseIf condition body alternative)⟩ ↔
      Lawful ⟨scopes, .expression condition⟩ ∧ Lawful ⟨scopes, .scope (.branch body)⟩ ∧
        Lawful ⟨scopes, .alternative alternative⟩ := by
  rw [lawful_iff]
  constructor
  · rintro ⟨_, inside⟩
    exact ⟨inside _ (.condition _ _ _ _), inside _ (.chosen _ _ _ _), inside _ (.further _ _ _ _)⟩
  · rintro ⟨test, inner, other⟩
    refine ⟨trivial, fun q has => ?_⟩
    cases has with
    | condition => exact test
    | chosen => exact inner
    | further => exact other

theorem lawful_scope (site : Site) (plain : site.isReceiver = false) :
    Lawful ⟨scopes, .scope site⟩ ↔
      site.names.Nodup ∧ Stmt.LawfulAll (⟨site, site.given⟩ :: scopes) site.statements := by
  rw [lawful_iff]
  constructor
  · rintro ⟨distinct, inside⟩
    exact ⟨distinct, fun before s after split => inside _ (.statement scopes site before s after split)⟩
  · rintro ⟨distinct, all⟩
    refine ⟨distinct, fun q has => ?_⟩
    cases has with
    | statement _ _ before s after split => exact all before s after split
    | method => cases plain

theorem lawful_receiver (name : Name) (methods : List Routine) :
    Lawful ⟨scopes, .scope (.receiver name methods)⟩ ↔
      ∀ method ∈ methods, Lawful ⟨⟨.receiver name methods, [receiverName]⟩ :: scopes, .scope (.routine method)⟩ := by
  rw [lawful_iff]
  constructor
  · rintro ⟨_, inside⟩ method member
    exact inside _ (.method _ _ _ _ member)
  · intro all
    refine ⟨List.pairwise_singleton _ _, fun q has => ?_⟩
    cases has with
    | statement _ _ before s after split => simp [Site.statements] at split
    | method _ _ _ method member => exact all method member

theorem lawful_initializer (name : Name) (e : Expr) :
    Lawful ⟨scopes, .statement (.var name (some e))⟩ ↔
      (scopes ≠ [] → ∀ mark other, e.Holds (.ident mark other) → other.text ≠ name.text) ∧
        Lawful ⟨declare [name.text] scopes, .expression e⟩ := by
  rw [lawful_iff]
  constructor
  · rintro ⟨own, inside⟩
    exact ⟨own, inside _ (.initializer _ _ _)⟩
  · rintro ⟨own, value⟩
    refine ⟨own, fun q has => ?_⟩
    cases has
    exact value

theorem lawful_returned (line : Nat) (e : Expr) :
    Lawful ⟨scopes, .statement (.return line (some e))⟩ ↔
      AllowsReturn scopes (some e) ∧ Lawful ⟨scopes, .expression e⟩ := by
  rw [lawful_iff]
  constructor
  · rintro ⟨allowed, inside⟩
    exact ⟨allowed, inside _ (.returned _ _ _)⟩
  · rintro ⟨allowed, value⟩
    refine ⟨allowed, fun q has => ?_⟩
    cases has
    exact value

theorem lawful_class (name : Name) (methods : List Routine) :
    Lawful ⟨scopes, .statement (.class name methods)⟩ ↔
      (methods.map fun method => method.name.text).Nodup ∧
        Lawful ⟨declare [name.text] scopes, .scope (.receiver name methods)⟩ := by
  rw [lawful_iff]
  constructor
  · rintro ⟨distinct, inside⟩
    exact ⟨distinct, inside _ (.class _ _ _)⟩
  · rintro ⟨distinct, inner⟩
    refine ⟨distinct, fun q has => ?_⟩
    cases has
    exact inner

end Position

end Laws

end TreeWalk
