import Mathlib.Data.List.Forall2
import TreeWalk.Proofs.Checked
import TreeWalk.Proofs.Deciding
import TreeWalk.Proofs.WellFormed

set_option autoImplicit false

namespace TreeWalk

open Scoping (Context)
open Enclosure (Room declare inClass routine? AllowsReturn)
open Position (Lawful Sound)

namespace Enclosure

def surrounding (scopes : List Enclosure) : Surrounding :=
  match routine? scopes with
  | none => .topLevel
  | some (r, outer) => if inClass outer then Resolving.methodKind r else .function

def Known (scope : Enclosure) (known : Scope) : Prop :=
  ∀ name, known.find? name = if name ∈ scope.earlier then some true else none

theorem declare_surrounding (names : List String) (scopes : List Enclosure) :
    surrounding (declare names scopes) = surrounding scopes := by
  cases scopes with
  | nil => rfl
  | cons scope outer =>
      obtain ⟨site, earlier⟩ := scope
      cases site <;> rfl

theorem declare_in_class (names : List String) (scopes : List Enclosure) :
    inClass (declare names scopes) = inClass scopes := by
  cases scopes <;> rfl

theorem allows_return_iff (scopes : List Enclosure) (value : Option Expr) :
    surrounding scopes ≠ .topLevel ∧ (value.isSome = true → surrounding scopes ≠ .constructor) ↔
      AllowsReturn scopes value := by
  unfold surrounding AllowsReturn
  cases routine? scopes with
  | none => simp
  | some inner =>
      obtain ⟨r, outer⟩ := inner
      simp only [Option.some.injEq, Prod.mk.injEq, Resolving.methodKind]
      cases inside : inClass outer <;> cases kind : r.isConstructor <;> simp [inside, kind]

end Enclosure

structure Scoping.Context.Under (c : Context) (scopes : List Enclosure) : Prop where
  known : List.Forall₂ Enclosure.Known scopes c.scopes
  surrounding : c.surrounding = Enclosure.surrounding scopes
  inClass : c.inClass = scopes.any fun scope => scope.site.isReceiver

section Under

variable {c : Context} {scopes : List Enclosure}

theorem known_insert {scope : Enclosure} {known : Scope} (name : String) (here : scope.Known known) :
    Enclosure.Known { scope with earlier := scope.earlier ++ [name] } (known.insert name true) := by
  intro other
  by_cases same : other = name
  · subst same
    simp [Bindings.find_insert_self]
  · simp [Bindings.find_insert_other known name other true same, here other, same]

theorem under_insert (name : String) (under : c.Under scopes) : (c.insert name true).Under (declare [name] scopes) := by
  obtain ⟨known, surrounding, inClass⟩ := under
  obtain ⟨opened, _, _⟩ := c
  cases known with
  | nil => exact ⟨.nil, surrounding, inClass⟩
  | cons here outer =>
      exact ⟨.cons (known_insert name here) outer, surrounding.trans (Enclosure.declare_surrounding [name] _).symm, inClass⟩

theorem under_declared (names : List String) (under : c.Under scopes) : (c.declared names).Under (declare names scopes) := by
  induction names generalizing c scopes with
  | nil => exact (Enclosure.declare_nil scopes).symm ▸ under
  | cons name rest ih =>
      rw [show name :: rest = [name] ++ rest from rfl, Enclosure.declare_append]
      exact ih (under_insert name under)

theorem free_iff_room (name : String) (under : c.Under scopes) : c.Free name ↔ Room scopes [name] := by
  obtain ⟨known, _, _⟩ := under
  obtain ⟨opened, _, _⟩ := c
  cases known with
  | nil => simp [Context.Free, Room]
  | cons here outer =>
      simp only [Context.Free, Room, List.head?_cons, Option.mem_some_iff, forall_eq', Bindings.contains, here name]
      split <;> simp [*]

end Under

namespace Expr

def Allowed (c : Context) : Expr → Prop
  | ident _ name => ∀ scope ∈ c.scopes.head?, scope.find? name.text ≠ some false
  | this _ _ => c.inClass = true
  | call _ callee _ _ => ¬ callee.AccessesConstructor
  | _ => True

def AllAllowed (c : Context) (e : Expr) : Prop :=
  ∀ d, e.Holds d → d.Allowed c

end Expr

theorem decides_node {ids : List Nat} {c : Context} {p : Resolving Unit} {law : Prop} (e : Expr)
    (decides : Decides ids c p law c) (same : law ↔ e.Allowed c ∧ ∀ child ∈ e.children, child.AllAllowed c) :
    Decides ids c p (e.AllAllowed c) c :=
  decides_iff decides (same.trans (Expr.holds_head_iff _ e).symm)

mutual
theorem decides_expr (c : Context) : ∀ e : Expr, e.ids.Nodup → Decides e.ids c e.resolve (e.AllAllowed c) c
  | .literal mark value, _ =>
      decides_node _ (decides_visit mark.line (decides_pure _ c)) (by simp [Expr.Allowed, Expr.children])
  | .grouping mark inner, nodup => by
      have child := decides_expr c inner (List.nodup_cons.mp nodup).2
      exact decides_node _ (decides_visit mark.line (decides_subset child fun _ => List.mem_cons_of_mem _))
        (by simp [Expr.Allowed, Expr.children])
  | .unary mark _ right, nodup => by
      have child := decides_expr c right (List.nodup_cons.mp nodup).2
      exact decides_node _ (decides_visit mark.line (decides_subset child fun _ => List.mem_cons_of_mem _))
        (by simp [Expr.Allowed, Expr.children])
  | .binary mark left _ right, nodup | .logical mark left _ right, nodup => by
      have tail := (List.nodup_cons.mp nodup).2
      obtain ⟨first, second, _⟩ := List.nodup_append.mp tail
      have both := decides_then (balances_expr left first) tail (decides_expr c left first) (decides_expr c right second)
      exact decides_node _ (decides_visit mark.line (decides_subset both fun _ => List.mem_cons_of_mem _))
        (by simp [Expr.Allowed, Expr.children])
  | .ident mark name, nodup => by
      have found := decides_first (balances_check_read name) nodup (decides_check_read c name)
        (decides_locate c mark.id name)
      exact decides_node _ (decides_visit mark.line found) (by simp [Expr.Allowed, Expr.children])
  | .assign mark name value, nodup => by
      have tail := (List.nodup_cons.mp nodup).2
      have swapped : (value.ids ++ [mark.id]).Nodup := (List.perm_append_singleton _ _).symm.nodup nodup
      have both := decides_then (balances_expr value tail) swapped (decides_expr c value tail)
        (decides_locate c mark.id name)
      exact decides_node _
        (decides_visit mark.line (decides_subset both fun _ => (List.perm_append_singleton _ _).mem_iff.mp))
        (by simp [Expr.Allowed, Expr.children])
  | .call mark callee arguments _, nodup => by
      have tail := (List.nodup_cons.mp nodup).2
      obtain ⟨first, second, _⟩ := List.nodup_append.mp tail
      have both := decides_then (balances_expr callee first) tail (decides_expr c callee first)
        (decides_exprs c arguments second)
      have checked := decides_first (balances_check_callee callee) tail (decides_check_callee c callee) both
      exact decides_node _ (decides_visit mark.line (decides_subset checked fun _ => List.mem_cons_of_mem _))
        (by simp [Expr.Allowed, Expr.children])
  | .get mark object _, nodup => by
      have child := decides_expr c object (List.nodup_cons.mp nodup).2
      exact decides_node _ (decides_visit mark.line (decides_subset child fun _ => List.mem_cons_of_mem _))
        (by simp [Expr.Allowed, Expr.children])
  | .set mark object _ value, nodup => by
      have tail := (List.nodup_cons.mp nodup).2
      obtain ⟨first, second, _⟩ := List.nodup_append.mp tail
      have swapped : (value.ids ++ object.ids).Nodup := List.perm_append_comm.nodup tail
      have both := decides_then (balances_expr value second) swapped (decides_expr c value second)
        (decides_expr c object first)
      exact decides_node _
        (decides_visit mark.line (decides_subset both fun _ member =>
          List.mem_cons_of_mem _ (List.perm_append_comm.mem_iff.mp member)))
        (by simp [Expr.Allowed, Expr.children, and_comm])
  | .this mark name, nodup => by
      have found := decides_first (balances_check_this name) nodup (decides_check_this c name)
        (decides_locate c mark.id name)
      exact decides_node _ (decides_visit mark.line found) (by simp [Expr.Allowed, Expr.children])

theorem decides_exprs (c : Context) : ∀ es : List Expr, (Expr.idsAll es).Nodup →
    Decides (Expr.idsAll es) c (Expr.resolveAll es) (∀ e ∈ es, e.AllAllowed c) c
  | [], _ => decides_iff (decides_pure _ c) (by simp)
  | e :: rest, nodup => by
      obtain ⟨first, second, _⟩ := List.nodup_append.mp nodup
      exact decides_iff
        (decides_then (balances_expr e first) nodup (decides_expr c e first) (decides_exprs c rest second)) (by simp)
end

section Laws

variable {c : Context} {scopes : List Enclosure}

theorem allowed_iff (under : c.Under scopes) (e : Expr) : e.Allowed c ↔ Sound ⟨scopes, .expression e⟩ := by
  cases e with
  | ident mark name =>
      refine ⟨fun _ => trivial, fun _ => ?_⟩
      obtain ⟨known, _, _⟩ := under
      obtain ⟨opened, _, _⟩ := c
      cases known with
      | nil => exact fun _ none => nomatch none
      | cons here outer =>
          intro scope head
          obtain rfl := Option.mem_some.mp head
          rw [here name.text]
          split <;> simp
  | this mark name =>
      show c.inClass = true ↔ ∃ scope ∈ scopes, scope.site.isReceiver = true
      rw [under.inClass, List.any_eq_true]
  | _ => exact Iff.rfl

theorem all_allowed_iff (under : c.Under scopes) (e : Expr) : e.AllAllowed c ↔ Lawful ⟨scopes, .expression e⟩ := by
  rw [Position.lawful_expression]
  exact forall₂_congr fun d _ => allowed_iff under d

theorem allowed_waiting (under : c.Under scopes) (name : String) (e : Expr) : e.Allowed (c.insert name false) ↔
    (scopes ≠ [] → ∀ mark other, e = .ident mark other → other.text ≠ name) ∧ e.Allowed (c.insert name true) := by
  obtain ⟨known, _, _⟩ := under
  obtain ⟨opened, _, _⟩ := c
  cases known with
  | nil =>
      simp only [ne_eq, not_true_eq_false, false_implies, true_and]
      exact Iff.rfl
  | cons here outer =>
      cases e with
      | ident mark other =>
          by_cases same : other.text = name
          · subst same
            simp [Expr.Allowed, Context.insert, Bindings.find_insert_self]
          · simp [Expr.Allowed, Context.insert, Bindings.find_insert_other _ name other.text _ same, same]
      | _ => simp [Expr.Allowed, Context.insert]

theorem all_allowed_waiting (under : c.Under scopes) (name : String) (e : Expr) : e.AllAllowed (c.insert name false) ↔
    (scopes ≠ [] → ∀ mark other, e.Holds (.ident mark other) → other.text ≠ name) ∧
      Lawful ⟨declare [name] scopes, .expression e⟩ := by
  rw [← all_allowed_iff (under_insert name under)]
  constructor
  · intro all
    exact ⟨fun inside mark other holds => ((allowed_waiting under name _).mp (all _ holds)).1 inside mark other rfl,
      fun d holds => ((allowed_waiting under name d).mp (all d holds)).2⟩
  · rintro ⟨unread, all⟩ d holds
    exact (allowed_waiting under name d).mpr
      ⟨fun inside mark other same => unread inside mark other (same ▸ holds), all d holds⟩

theorem decides_return (under : c.Under scopes) (line : Nat) (value : Option Expr) :
    Decides [] c (Resolving.checkReturn line value.isSome) (AllowsReturn scopes value) c :=
  decides_iff (decides_check_return c line value.isSome)
    (by rw [under.surrounding]; exact Enclosure.allows_return_iff scopes value)

theorem under_inside (under : c.Under scopes) (site : Site) (plain : site.isDeferred = false) :
    (c.inside Bindings.empty).Under (⟨site, []⟩ :: scopes) := by
  obtain ⟨known, surrounding, inClass⟩ := under
  refine ⟨.cons (fun _ => rfl) known, ?_, ?_⟩
  · rw [show Enclosure.surrounding (⟨site, []⟩ :: scopes) = Enclosure.surrounding scopes from ?_]
    · exact surrounding
    · cases site <;> first | rfl | cases plain
  · rw [show (List.any (⟨site, []⟩ :: scopes) fun scope => scope.site.isReceiver) =
      scopes.any fun scope => scope.site.isReceiver from ?_]
    · exact inClass
    · cases site <;> first | rfl | cases plain

theorem under_routine (under : c.Under scopes) (r : Routine) (kind : Surrounding)
    (suits : kind = if inClass scopes then Resolving.methodKind r else .function) :
    (Context.inside Bindings.empty { c with surrounding := kind }).Under (⟨.routine r, []⟩ :: scopes) :=
  ⟨.cons (fun _ => rfl) under.known, suits, under.inClass⟩

theorem under_receiver (under : c.Under scopes) (name : Name) (methods : List Routine) :
    (Context.inside Resolving.receiverScope { c with inClass := true }).Under
      (⟨.receiver name methods, [receiverName]⟩ :: scopes) := by
  refine ⟨.cons ?_ under.known, under.surrounding, rfl⟩
  intro other
  by_cases same : other = receiverName
  · subst same
    rfl
  · simp only [List.mem_singleton, same, if_false]
    exact (Bindings.find_insert_other _ _ other true same).trans rfl

end Laws

theorem repeated_none_iff (seen : List String) (methods : List Routine) :
    Resolving.repeated? seen methods = none ↔
      (methods.map fun method => method.name.text).Nodup ∧ ∀ method ∈ methods, method.name.text ∉ seen := by
  induction methods generalizing seen with
  | nil => simp [Resolving.repeated?]
  | cons method rest ih =>
      simp only [Resolving.repeated?, List.contains_iff_mem, List.map_cons, List.nodup_cons, List.forall_mem_cons]
      by_cases listed : method.name.text ∈ seen
      · simp [listed]
      · simp only [listed, if_false, ih, List.mem_cons, not_or, List.mem_map, not_exists, not_and, not_false_eq_true,
          true_and]
        constructor
        · rintro ⟨distinct, free⟩
          exact ⟨⟨fun other member => (free other member).1, distinct⟩, fun other member => (free other member).2⟩
        · rintro ⟨⟨new, distinct⟩, free⟩
          exact ⟨distinct, fun other member => ⟨new other member, free other member⟩⟩

section Statements

variable {ids : List Nat} {c after : Context} {scopes : List Enclosure} {q : Resolving Unit} {law : Prop}

theorem decides_named (under : c.Under scopes) (name : Name) (nodup : ids.Nodup)
    (inner : Decides ids (c.insert name.text true) q law after) :
    Decides ids c (do Resolving.declare name; Resolving.define name; q) (law ∧ Room scopes [name.text]) after :=
  decides_iff (decides_declared name nodup inner) (by rw [free_iff_room name.text under]; exact and_comm)

theorem decides_parameters (names : List Name) (under : c.Under scopes) :
    Decides [] c (Resolving.declareAll names) (Room scopes (names.map Name.text)) (c.declared (names.map Name.text)) := by
  induction names generalizing c scopes with
  | nil => exact decides_iff (decides_pure [] c) ⟨fun _ => Enclosure.room_nothing scopes, fun _ => trivial⟩
  | cons name rest ih =>
      refine decides_iff (decides_named under name List.nodup_nil (ih (under_insert name.text under))) ?_
      exact and_comm.trans (Enclosure.room_append [name.text] (rest.map Name.text) scopes).symm

def Verdict (body : List Stmt) : Prop :=
  ∀ (scopes : List Enclosure) (c : Context), c.Under scopes → inClass scopes = false →
    Decides (Stmt.idsAll body) c (Stmt.resolveAll body) (Stmt.LawfulAll scopes body ∧ Room scopes (Stmt.ownAll body))
      (c.declared (Stmt.ownAll body))

theorem decides_body (under : c.Under scopes) (site : Site) (plain : site.isDeferred = false) (body : List Stmt)
    (statements : site.statements = body) (verdict : Verdict body) :
    Decides (Stmt.idsAll body) c (Resolving.inScope Bindings.empty (Stmt.resolveAll body))
      (Lawful ⟨scopes, .scope site⟩) c := by
  have given : site.given = [] := by cases site <;> first | rfl | cases plain
  have outside : site.isReceiver = false := by cases site <;> first | rfl | cases plain
  refine decides_iff (decides_in_scope _ _ (verdict _ _ (under_inside under site plain) outside)) ?_
  rw [Position.lawful_scope scopes site outside, Enclosure.room_given site scopes, given, statements]
  simp only [List.nodup_nil, true_and]
  exact and_comm

theorem room_fresh (site : Site) (scopes : List Enclosure) (names : List String) :
    Room (⟨site, []⟩ :: scopes) names ↔ names.Nodup := by
  simp [Room]

theorem behind_surrounding {s t : Scoping} {kind : Surrounding} (here : s.context = c)
    (there : t.context = { c with surrounding := kind }) :
    ({ t with surrounding := s.surrounding } : Scoping).context = c := by
  subst here
  obtain ⟨scopes, _, inClass⟩ := Context.mk.inj there
  simp only [Scoping.context, scopes, inClass]

theorem behind_class {s t : Scoping} {inside : Bool} (here : s.context = c)
    (there : t.context = { c with inClass := inside }) :
    ({ t with inClass := s.inClass } : Scoping).context = c := by
  subst here
  obtain ⟨scopes, surrounding, _⟩ := Context.mk.inj there
  simp only [Scoping.context, scopes, surrounding]

theorem decides_routine_body (under : c.Under scopes) (r : Routine) (kind : Surrounding)
    (suits : kind = if inClass scopes then Resolving.methodKind r else .function)
    (nodup : (Stmt.idsAll r.body).Nodup) (verdict : Verdict r.body) :
    Decides (Stmt.idsAll r.body) c (r.resolve kind) (Lawful ⟨scopes, .scope (.routine r)⟩) c := by
  obtain ⟨name, parameters, body⟩ := r
  have opened := under_routine under ⟨name, parameters, body⟩ kind suits
  have inner := decides_first (balances_parameters parameters) nodup (decides_parameters parameters opened)
    (verdict _ _ (under_declared (parameters.map Name.text) opened) rfl)
  rw [← Context.declared_append] at inner
  have within : Decides (Stmt.idsAll body) { c with surrounding := kind }
      (Resolving.inScope Bindings.empty do Resolving.declareAll parameters; Stmt.resolveAll body)
      (Lawful ⟨scopes, .scope (.routine ⟨name, parameters, body⟩)⟩) { c with surrounding := kind } := by
    refine decides_iff (decides_in_scope _ _ inner) ?_
    rw [Position.lawful_scope scopes _ rfl, Enclosure.room_given, room_fresh, and_assoc]
    exact and_congr_right fun _ => and_comm
  exact decides_around (fun s => { s with surrounding := kind }) (fun s t => { t with surrounding := s.surrounding })
    (fun s here => ⟨by rw [← here]; rfl, rfl⟩) (fun s t here there => behind_surrounding here there) within

theorem decides_class (under : c.Under scopes) (name : Name) (methods : List Routine) (nodup : (Routine.idsAll methods).Nodup)
    (verdict : ∀ (scopes : List Enclosure) (d : Context), d.Under scopes → inClass scopes = true →
      Decides (Routine.idsAll methods) d (Routine.resolveAll methods)
        (∀ method ∈ methods, Lawful ⟨scopes, .scope (.routine method)⟩) d) :
    Decides (Routine.idsAll methods) c (Stmt.class name methods).resolve
      (Lawful ⟨scopes, .statement (.class name methods)⟩ ∧ Room scopes [name.text]) (c.insert name.text true) := by
  have declared := under_insert name.text under
  refine decides_named under name nodup ?_
  cases repeats : Resolving.repeated? [] methods with
  | some method =>
      refine decides_iff (decides_refuse _ _ _ _ rfl) ⟨False.elim, fun lawful => ?_⟩
      have distinct := ((Position.lawful_class scopes name methods).mp lawful).1
      have none := (repeated_none_iff [] methods).mpr ⟨distinct, by simp⟩
      cases repeats.symm.trans none
  | none =>
      have distinct := ((repeated_none_iff [] methods).mp repeats).1
      have opened := under_receiver declared name methods
      have inner := decides_in_scope _ [] (verdict _ _ opened rfl)
      refine decides_around (fun s => { s with inClass := true }) (fun s t => { t with inClass := s.inClass })
        (fun s here => ⟨by rw [← here]; rfl, rfl⟩) (fun s t here there => behind_class here there) (decides_iff inner ?_)
      rw [Position.lawful_class, Position.lawful_receiver]
      exact ⟨fun all => ⟨distinct, all⟩, fun both => both.2⟩

end Statements

mutual
theorem decides_stmt : ∀ (s : Stmt) (scopes : List Enclosure) (c : Context), c.Under scopes → inClass scopes = false →
    s.ids.Nodup → Decides s.ids c s.resolve (Lawful ⟨scopes, .statement s⟩ ∧ Room scopes s.own) (c.declared s.own)
  | .expression e, scopes, c, under, _, nodup => by
      refine decides_iff (decides_expr c e nodup) ?_
      rw [all_allowed_iff under, Position.lawful_only (.expression scopes e) trivial (by rintro _ ⟨⟩; rfl)]
      exact (and_iff_left (Enclosure.room_nothing scopes)).symm
  | .var name none, scopes, c, under, _, nodup => by
      have declared := decides_declaration name (balances_pure []) nodup (decides_pure [] (c.insert name.text false))
      refine decides_iff declared ?_
      rw [free_iff_room name.text under, and_true]
      have lawful : Lawful ⟨scopes, .statement (.var name none)⟩ := Position.lawful_nothing _ trivial (by rintro _ ⟨⟩)
      exact (and_iff_right lawful).symm
  | .var name (some e), scopes, c, under, _, nodup => by
      have value := decides_expr (c.insert name.text false) e nodup
      refine decides_iff (decides_declaration name (balances_expr e nodup) nodup value) ?_
      rw [free_iff_room name.text under, all_allowed_waiting under, Position.lawful_initializer]
      exact and_comm
  | .block body, scopes, c, under, _, nodup => by
      refine decides_iff (decides_body under (.block body) rfl body rfl (decides_stmts body nodup)) ?_
      rw [Position.lawful_only (.block scopes body) trivial (by rintro _ ⟨⟩; rfl)]
      exact (and_iff_left (Enclosure.room_nothing scopes)).symm
  | .branch condition body alternative, scopes, c, under, plain, nodup => by
      have chosen := decides_alternative (.elseIf condition body alternative) scopes c under plain nodup
      refine decides_iff chosen ?_
      rw [Position.lawful_only (.branch scopes condition body alternative) trivial (by rintro _ ⟨⟩; rfl)]
      exact (and_iff_left (Enclosure.room_nothing scopes)).symm
  | .while condition body, scopes, c, under, _, nodup => by
      obtain ⟨first, second, _⟩ := List.nodup_append.mp nodup
      have inner := decides_body under (.loop body) rfl body rfl (decides_stmts body second)
      refine decides_iff (decides_then (balances_expr condition first) nodup (decides_expr c condition first) inner) ?_
      rw [all_allowed_iff under, Position.lawful_loop]
      exact (and_iff_left (Enclosure.room_nothing scopes)).symm
  | .function routine, scopes, c, under, plain, nodup => by
      have inner := decides_routine routine .function _ _ (under_insert routine.name.text under)
        (by rw [Enclosure.declare_in_class, plain]; rfl) nodup
      refine decides_iff (decides_named under routine.name nodup inner) ?_
      rw [Position.lawful_only (.function scopes routine) trivial (by rintro _ ⟨⟩; rfl)]
      exact Iff.rfl
  | .return line none, scopes, c, under, _, nodup => by
      refine decides_iff (decides_return under line none) ?_
      rw [Position.lawful_iff]
      exact ⟨fun allowed => ⟨⟨allowed, by rintro _ ⟨⟩⟩, Enclosure.room_nothing scopes⟩, fun lawful => lawful.1.1⟩
  | .return line (some e), scopes, c, under, _, nodup => by
      have both := decides_first (balances_check_return line true) nodup (decides_return under line (some e))
        (decides_expr c e nodup)
      refine decides_iff both ?_
      rw [all_allowed_iff under, Position.lawful_returned]
      exact (and_iff_left (Enclosure.room_nothing scopes)).symm
  | .class name methods, scopes, c, under, _, nodup =>
      decides_class under name methods nodup (decides_routines methods nodup)

theorem decides_alternative : ∀ (a : Alternative) (scopes : List Enclosure) (c : Context), c.Under scopes →
    inClass scopes = false → a.ids.Nodup → Decides a.ids c a.resolve (Lawful ⟨scopes, .alternative a⟩) c
  | .none, scopes, c, _, _, _ =>
      have lawful : Lawful ⟨scopes, .alternative .none⟩ := Position.lawful_nothing _ trivial (by rintro _ ⟨⟩)
      decides_iff (decides_pure [] c) ⟨fun _ => lawful, fun _ => trivial⟩
  | .elseIf condition body alternative, scopes, c, under, plain, nodup => by
      obtain ⟨front, last, _⟩ := List.nodup_append.mp nodup
      obtain ⟨first, second, _⟩ := List.nodup_append.mp front
      have inner := decides_body under (.branch body) rfl body rfl (decides_stmts body second)
      have early := decides_then (balances_expr condition first) front (decides_expr c condition first) inner
      have balances := balances_then _ _ _ _ (balances_expr condition first)
        (balances_in_scope _ Bindings.empty _ (balances_stmts body second)) front
      have whole := decides_then balances nodup early (decides_alternative alternative scopes c under plain last)
      rw [bind_assoc] at whole
      refine decides_iff whole ?_
      rw [all_allowed_iff under, Position.lawful_else_if, and_assoc]
  | .block body, scopes, c, under, _, nodup => by
      refine decides_iff (decides_body under (.otherwise body) rfl body rfl (decides_stmts body nodup)) ?_
      rw [Position.lawful_only (.otherwise scopes body) trivial (by rintro _ ⟨⟩; rfl)]

theorem decides_routine : ∀ (r : Routine) (kind : Surrounding) (scopes : List Enclosure) (c : Context), c.Under scopes →
    kind = (if inClass scopes then Resolving.methodKind r else .function) → r.ids.Nodup →
    Decides r.ids c (r.resolve kind) (Lawful ⟨scopes, .scope (.routine r)⟩) c
  | ⟨name, parameters, body⟩, kind, _, _, under, suits, nodup =>
      decides_routine_body under ⟨name, parameters, body⟩ kind suits nodup (decides_stmts body nodup)

theorem decides_stmts : ∀ body : List Stmt, (Stmt.idsAll body).Nodup → Verdict body
  | [], _, scopes, c, _, _ =>
      decides_iff (decides_pure [] c)
        ⟨fun _ => ⟨lawful_all_nil scopes, Enclosure.room_nothing scopes⟩, fun _ => trivial⟩
  | s :: rest, nodup, scopes, c, under, plain => by
      obtain ⟨first, second, _⟩ := List.nodup_append.mp nodup
      have behind := decides_stmts rest second _ _ (under_declared s.own under)
        ((Enclosure.declare_in_class s.own scopes).trans plain)
      have both := decides_then (balances_stmt s first) nodup (decides_stmt s scopes c under plain first) behind
      rw [← Context.declared_append] at both
      refine decides_iff both ?_
      rw [lawful_all_cons, show Stmt.ownAll (s :: rest) = s.own ++ Stmt.ownAll rest from rfl, Enclosure.room_append]
      exact and_and_and_comm

theorem decides_routines : ∀ methods : List Routine, (Routine.idsAll methods).Nodup →
    ∀ (scopes : List Enclosure) (c : Context), c.Under scopes → inClass scopes = true →
      Decides (Routine.idsAll methods) c (Routine.resolveAll methods)
        (∀ method ∈ methods, Lawful ⟨scopes, .scope (.routine method)⟩) c
  | [], _, _, c, _, _ => decides_iff (decides_pure [] c) (by simp)
  | method :: rest, nodup, scopes, c, under, inside => by
      obtain ⟨first, second, _⟩ := List.nodup_append.mp nodup
      have one := decides_routine method (Resolving.methodKind method) scopes c under (by rw [inside]; rfl) first
      have others := decides_routines rest second scopes c under inside
      exact decides_iff (decides_then (balances_routine _ method first) nodup one others) (by simp)
end

theorem decides_program (program : Program) (nodup : (Stmt.idsAll program).Nodup) :
    Decides (Stmt.idsAll program) ⟨[], .topLevel, false⟩ (Stmt.resolveAll program) program.WellFormed
      ⟨[], .topLevel, false⟩ := by
  have verdict := decides_stmts program nodup [] ⟨[], .topLevel, false⟩ ⟨.nil, rfl, rfl⟩ rfl
  rw [Context.declared_top] at verdict
  refine decides_iff verdict ?_
  rw [well_formed_iff]
  constructor
  · rintro ⟨all, _⟩ s member
    obtain ⟨before, after, split⟩ := List.append_of_mem member
    exact all before s after split
  · intro all
    exact ⟨fun before s after split => all s (split ▸ List.mem_append_right before List.mem_cons_self),
      fun _ none => nomatch none⟩

theorem accepts_well_formed (first next : Nat) (text : String) (program : Program) (distances : Distances)
    (reads : ReadsAs first text program next)
    (fresh : ∀ id, first ≤ id → id < next → distances[id]? = none) :
    ((program.resolve distances).1 = .ok () ↔ program.WellFormed) ∧
      ∀ s, (Stmt.resolveAll program).run (.start distances) = .ok () s →
        s.scopes = [] ∧ s.surrounding = .topLevel ∧ s.inClass = false := by
  obtain ⟨tokens, read, parsed⟩ := reads
  obtain ⟨_, spread, _⟩ := parse_built first next tokens program (tokenize_proper text tokens read) parsed
  have decided := decides_program program spread.nodup (.start distances) rfl fun id member =>
    fresh id (spread.within id member).1 (spread.within id member).2
  constructor
  · unfold Program.resolve EStateM.run
    cases run : Stmt.resolveAll program (.start distances) with
    | ok a s => exact ⟨fun _ => (ends_ok _ _ _ _ _ _ decided run).1, fun _ => rfl⟩
    | error e s => exact ⟨nofun, fun formed => ((ends_error _ _ _ _ _ _ decided run).1 formed).elim⟩
  · intro s run
    obtain ⟨_, context⟩ := ends_ok _ _ _ _ _ _ decided run
    exact Context.mk.inj context

theorem accepts_well_formed_class :
    ∃ program next,
      ReadsAs 0 "class A \x7b constructor(x) \x7b this.x = x; \x7d m() \x7b return this.x; \x7d \x7d" program next ∧
        (∀ id, 0 ≤ id → id < next → (∅ : Distances)[id]? = none) ∧ program.WellFormed := by
  obtain ⟨program, next, reads, accepted⟩ :=
    accepted_reads "class A \x7b constructor(x) \x7b this.x = x; \x7d m() \x7b return this.x; \x7d \x7d" (by decide +kernel)
  have fresh : ∀ id, 0 ≤ id → id < next → (∅ : Distances)[id]? = none :=
    fun _ _ _ => Std.TreeMap.getElem?_emptyc
  exact ⟨program, next, reads, fresh, (accepts_well_formed 0 next _ program ∅ reads fresh).1.mp accepted⟩

end TreeWalk
