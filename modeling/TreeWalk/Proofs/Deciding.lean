import TreeWalk.Proofs.Balanced
import TreeWalk.Proofs.Bindings
import TreeWalk.Proofs.Settled

set_option autoImplicit false

namespace TreeWalk

namespace Scoping

structure Context where
  scopes : List Scope
  surrounding : Surrounding
  inClass : Bool

def context (s : Scoping) : Context :=
  ⟨s.scopes, s.surrounding, s.inClass⟩

namespace Context

def insert (name : String) (ready : Bool) : Context → Context
  | ⟨[], surrounding, inClass⟩ => ⟨[], surrounding, inClass⟩
  | ⟨scope :: outer, surrounding, inClass⟩ => ⟨scope.insert name ready :: outer, surrounding, inClass⟩

def declared (c : Context) (names : List String) : Context :=
  names.foldl (fun c name => c.insert name true) c

def inside (scope : Scope) (c : Context) : Context :=
  { c with scopes := scope :: c.scopes }

def Free (c : Context) (name : String) : Prop :=
  ∀ scope ∈ c.scopes.head?, scope.contains name = false

theorem declared_append (c : Context) (names others : List String) :
    c.declared (names ++ others) = (c.declared names).declared others :=
  List.foldl_append

theorem declared_inside (names : List String) (scope : Scope) (c : Context) :
    (c.inside scope).declared names = c.inside (names.foldl (fun scope name => scope.insert name true) scope) := by
  induction names generalizing scope with
  | nil => rfl
  | cons name rest ih => exact ih (scope.insert name true)

theorem declared_top (names : List String) (surrounding : Surrounding) (inClass : Bool) :
    declared ⟨[], surrounding, inClass⟩ names = ⟨[], surrounding, inClass⟩ := by
  induction names with
  | nil => rfl
  | cons name rest ih => exact ih

end Context

end Scoping

open Scoping (Context)

def ScopeFault.isRule : ScopeFault → Bool
  | alreadyLocal _ | undeclared _ | noOpenScope => false
  | _ => true

-- From the context and with the identities new, the check accepts exactly under the law.
def Decides (ids : List Nat) (c : Context) (p : Resolving Unit) (law : Prop) (after : Context) : Prop :=
  ∀ s : Scoping, s.context = c → (∀ id ∈ ids, s.distances[id]? = none) →
    Ends p s (fun _ t => law ∧ t.context = after) fun e _ => ¬ law ∧ e.fault.isRule = true

section Rules

variable {ids others : List Nat} {c mid after : Context} {p q : Resolving Unit} {law more : Prop}

theorem decides_iff (decides : Decides ids c p law after) (same : law ↔ more) : Decides ids c p more after := by
  intro s here fresh
  exact ends_mono _ _ _ _ _ _ (decides s here fresh) (fun _ _ done => ⟨same.mp done.1, done.2⟩)
    fun _ _ refused => ⟨fun holds => refused.1 (same.mpr holds), refused.2⟩

theorem decides_subset (decides : Decides ids c p law after) (subset : ∀ id ∈ ids, id ∈ others) :
    Decides others c p law after :=
  fun s here fresh => decides s here fun id member => fresh id (subset id member)

theorem decides_pure (ids : List Nat) (c : Context) : Decides ids c (return ()) True c :=
  fun s here _ => ends_pure _ s _ _ ⟨trivial, here⟩

theorem decides_refuse (ids : List Nat) (c : Context) (line : Nat) (fault : ScopeFault) (rule : fault.isRule = true) :
    Decides ids c (Resolving.refuse line fault) False after :=
  fun _ _ _ => ⟨not_false, rule⟩

theorem decides_then (balances : Balances ids p) (nodup : (ids ++ others).Nodup) (first : Decides ids c p law mid)
    (second : Decides others mid q more after) : Decides (ids ++ others) c (do p; q) (law ∧ more) after := by
  intro s here fresh
  obtain ⟨_, _, disjoint⟩ := List.nodup_append.mp nodup
  have new : ∀ id ∈ ids, s.distances[id]? = none := fun id member => fresh id (List.mem_append_left _ member)
  apply ends_bind p _ s fun _ t => (law ∧ t.context = mid) ∧ Balanced ids s t
  · exact ends_mono _ _ _ _ _ _ (ends_and (first s here new) (balances s new)) (fun _ _ done => done)
      fun _ _ refused => ⟨fun both => refused.1.1 both.1, refused.1.2⟩
  · rintro _ t ⟨⟨holds, there⟩, balanced⟩
    have untouched : ∀ id ∈ others, t.distances[id]? = none := by
      intro id member
      rw [balanced.others id fun early => disjoint id early id member rfl]
      exact fresh id (List.mem_append_right _ member)
    exact ends_mono _ _ _ _ _ _ (second t there untouched) (fun _ _ done => ⟨⟨holds, done.1⟩, done.2⟩)
      fun _ _ refused => ⟨fun both => refused.1 both.2, refused.2⟩

theorem decides_first (balances : Balances [] p) (nodup : ids.Nodup) (first : Decides [] c p law mid)
    (second : Decides ids mid q more after) : Decides ids c (do p; q) (law ∧ more) after :=
  decides_then balances nodup first second

theorem decides_visit (line : Nat) (decides : Decides ids c p law after) :
    Decides ids c (do Resolving.visit line; p) law after :=
  fun s here fresh => decides { s with line } here fresh

theorem decides_run (run : ∀ line distances, (∀ id ∈ ids, distances[id]? = none) →
    Ends p ⟨c.scopes, c.surrounding, c.inClass, line, distances⟩ (fun _ t => law ∧ t.context = after)
      fun e _ => ¬ law ∧ e.fault.isRule = true) :
    Decides ids c p law after := by
  rintro ⟨scopes, surrounding, inClass, line, distances⟩ rfl fresh
  exact run line distances fresh

theorem decides_declare (c : Context) (name : Name) :
    Decides [] c (Resolving.declare name) (c.Free name.text) (c.insert name.text false) := by
  apply decides_visit
  rcases c with ⟨_ | ⟨scope, outer⟩, surrounding, inClass⟩
  · exact decides_run fun _ _ _ => ⟨fun _ none => (nomatch none), rfl⟩
  · apply decides_run
    intro line distances _
    apply ends_get
    dsimp only
    split
    · rename_i taken
      exact ⟨fun free => Bool.noConfusion (taken.symm.trans (free scope rfl)), rfl⟩
    · rename_i free
      exact ⟨fun _ head => Option.mem_some.mp head ▸ eq_false_of_ne_true free, rfl⟩

theorem decides_define (c : Context) (name : Name) :
    Decides [] (c.insert name.text false) (Resolving.define name) True (c.insert name.text true) := by
  rcases c with ⟨_ | ⟨scope, outer⟩, surrounding, inClass⟩
  · exact decides_run fun _ _ _ => ⟨trivial, rfl⟩
  · apply decides_run
    intro line distances _
    apply ends_get
    dsimp only [Context.insert]
    rw [if_pos (Bindings.contains_insert_self scope name.text false), Bindings.insert_insert]
    exact ⟨trivial, rfl⟩

theorem decides_declaration (name : Name) (balances : Balances ids p) (nodup : ids.Nodup)
    (between : Decides ids (c.insert name.text false) p law (c.insert name.text false)) :
    Decides ids c (do Resolving.declare name; p; Resolving.define name) (c.Free name.text ∧ law)
      (c.insert name.text true) := by
  have defined : Decides (ids ++ []) (c.insert name.text false) (do p; Resolving.define name) (law ∧ True)
      (c.insert name.text true) :=
    decides_then balances (by simpa using nodup) between (decides_define c name)
  rw [List.append_nil, and_true] at defined
  exact decides_first (balances_declare name) nodup (decides_declare c name) defined

theorem decides_declared (name : Name) (nodup : ids.Nodup)
    (rest : Decides ids (c.insert name.text true) q law after) :
    Decides ids c (do Resolving.declare name; Resolving.define name; q) (c.Free name.text ∧ law) after := by
  have defined := decides_first (balances_define name) nodup (decides_define c name) rest
  rw [true_and] at defined
  exact decides_first (balances_declare name) nodup (decides_declare c name) defined

theorem decides_locate (c : Context) (id : Nat) (name : Name) :
    Decides [id] c (Resolving.locate id name) True c := by
  apply decides_run
  intro line distances fresh
  have new : distances.contains id = false := by
    rw [Std.TreeMap.contains_eq_isSome_getElem?, fresh id (List.mem_singleton_self id)]
    rfl
  apply ends_get
  split
  · exact ends_pure _ _ _ _ ⟨trivial, rfl⟩
  · simp only [Distances.note, new, Bool.false_eq_true, if_false]
    exact ⟨trivial, rfl⟩

theorem decides_check_read (c : Context) (name : Name) :
    Decides [] c (Resolving.checkRead name) (∀ scope ∈ c.scopes.head?, scope.find? name.text ≠ some false) c := by
  rcases c with ⟨_ | ⟨scope, outer⟩, surrounding, inClass⟩
  · exact decides_run fun _ _ _ => ⟨fun _ none => (nomatch none), rfl⟩
  · apply decides_run
    intro line distances _
    apply ends_get
    dsimp only
    split
    · rename_i unready
      exact ⟨fun ready => ready scope rfl (eq_of_beq unready), rfl⟩
    · rename_i ready
      exact ⟨fun _ head => Option.mem_some.mp head ▸ fun found => ready (beq_of_eq found), rfl⟩

theorem decides_check_this (c : Context) (name : Name) :
    Decides [] c (Resolving.checkThis name) (c.inClass = true) c := by
  apply decides_run
  intro line distances _
  apply ends_get
  cases inside : c.inClass with
  | true => exact ⟨rfl, congrArg (Context.mk c.scopes c.surrounding) inside.symm⟩
  | false => exact ⟨Bool.false_ne_true, rfl⟩

theorem decides_check_callee (c : Context) (callee : Expr) :
    Decides [] c (Resolving.checkCallee callee) (¬ callee.AccessesConstructor) c := by
  unfold Resolving.checkCallee
  split
  · rename_i name
    split
    · rename_i same
      exact decides_iff (decides_refuse _ _ _ _ rfl) ⟨False.elim, fun other => other (eq_of_beq same)⟩
    · rename_i other
      exact decides_iff (decides_pure _ _) ⟨fun _ same => other (beq_of_eq same), fun _ => trivial⟩
  · rename_i other
    refine decides_iff (decides_pure _ _) ⟨fun _ accesses => ?_, fun _ => trivial⟩
    cases callee with
    | get mark object name => exact other mark object name rfl
    | _ => exact accesses

theorem decides_check_return (c : Context) (line : Nat) (hasValue : Bool) :
    Decides [] c (Resolving.checkReturn line hasValue)
      (c.surrounding ≠ .topLevel ∧ (hasValue = true → c.surrounding ≠ .constructor)) c := by
  rcases c with ⟨scopes, surrounding, inClass⟩
  apply decides_run
  intro _ distances _
  apply ends_get
  cases surrounding with
  | topLevel => exact ⟨fun law => law.1 rfl, rfl⟩
  | function | method => exact ⟨⟨nofun, nofun⟩, rfl⟩
  | constructor =>
      cases hasValue with
      | true => exact ⟨fun law => law.2 rfl rfl, rfl⟩
      | false => exact ⟨⟨nofun, nofun⟩, rfl⟩

theorem decides_in_scope (scope : Scope) (names : List String)
    (inner : Decides ids (c.inside scope) p law ((c.inside scope).declared names)) :
    Decides ids c (Resolving.inScope scope p) law c := by
  intro s here fresh
  show Ends (do p; Resolving.closeScope) { s with scopes := scope :: s.scopes } _ _
  apply ends_bind p _ _ (fun _ t => law ∧ t.context = (c.inside scope).declared names)
  · exact inner _ (by subst here; rfl) fresh
  · rintro _ ⟨scopes, surrounding, inClass, line, distances⟩ ⟨holds, there⟩
    rw [Context.declared_inside] at there
    obtain ⟨rfl, rfl, rfl⟩ := Context.mk.inj there
    exact ⟨holds, rfl⟩

theorem decides_around (change : Scoping → Scoping) (undo : Scoping → Scoping → Scoping)
    (changed : ∀ s, s.context = c → (change s).context = mid ∧ (change s).distances = s.distances)
    (undone : ∀ s t, s.context = c → t.context = mid → (undo s t).context = c) (inner : Decides ids mid p law mid) :
    Decides ids c (do
      let s ← get
      modify change
      p
      modify (undo s)) law c := by
  intro s here fresh
  obtain ⟨there, same⟩ := changed s here
  show Ends (do p; modify (undo s)) (change s) _ _
  apply ends_bind p _ _ (fun _ t => law ∧ t.context = mid)
  · exact inner (change s) there (same ▸ fresh)
  · exact fun _ t ⟨holds, behind⟩ => ⟨holds, undone s t here behind⟩

end Rules

end TreeWalk
