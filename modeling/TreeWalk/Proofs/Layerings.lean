import TreeWalk.Proofs.Sequence
import TreeWalk.Proofs.Worlds

set_option autoImplicit false

namespace TreeWalk

open Eval

section Bare

-- Whether no function and no class is declared in the body of a loop. What is asked of may stand in one itself.
mutual
def Stmt.loopsBare (inside : Bool) : Stmt → Bool
  | .expression _ | .var _ _ | .return _ _ => true
  | .block body => Stmt.loopsBareAll inside body
  | .branch _ body alternative => Stmt.loopsBareAll inside body && alternative.loopsBare inside
  | .while _ body => Stmt.loopsBareAll true body
  | .function routine => !inside && routine.loopsBare
  | .class _ methods => !inside && Routine.loopsBareAll methods

def Alternative.loopsBare (inside : Bool) : Alternative → Bool
  | .none => true
  | .elseIf _ body alternative => Stmt.loopsBareAll inside body && alternative.loopsBare inside
  | .block body => Stmt.loopsBareAll inside body

def Routine.loopsBare : Routine → Bool
  | ⟨_, _, body⟩ => Stmt.loopsBareAll false body

def Stmt.loopsBareAll (inside : Bool) : List Stmt → Bool
  | [] => true
  | s :: rest => s.loopsBare inside && Stmt.loopsBareAll inside rest

def Routine.loopsBareAll : List Routine → Bool
  | [] => true
  | routine :: rest => routine.loopsBare && Routine.loopsBareAll rest
end

theorem loops_bare_body (routine : Routine) : routine.loopsBare = Stmt.loopsBareAll false routine.body := by
  cases routine
  rw [Routine.loopsBare]

theorem loops_bare_all : ∀ {methods : List Routine}, Routine.loopsBareAll methods = true →
    ∀ routine ∈ methods, routine.loopsBare = true
  | [], _, _, member => absurd member List.not_mem_nil
  | method :: rest, bare, routine, member => by
      rw [Routine.loopsBareAll, Bool.and_eq_true] at bare
      rcases List.mem_cons.mp member with rfl | later
      · exact bare.1
      · exact loops_bare_all bare.2 routine later

end Bare

-- The layers of two runs: for each layer of the second run the one of the first run that it stands for, and
-- whether it was made for a round of a loop. Other layers stand for one that nothing else stands for.
structure Layering where
  size : Nat
  made : List (Nat × Bool)
  ground : made[0]? = some (0, false)
  inside : ∀ (place layer : Nat) (round : Bool), made[place]? = some (layer, round) → layer < size
  once : ∀ (place other layer : Nat) (round : Bool), made[place]? = some (layer, false) → made[other]? = some (layer, round) → other = place

namespace Layering

def Lasts (w : Layering) (layer partner : Nat) : Prop :=
  w.made[partner]? = some (layer, false)

def Linked (w : Layering) (layer partner : Nat) : Prop :=
  ∃ round, w.made[partner]? = some (layer, round) ∧
    ∀ later other, partner < later → w.made[later]? ≠ some (layer, other)

structure Later (w next : Layering) : Prop where
  size : w.size ≤ next.size
  made : w.made <+: next.made
  above : ∀ place layer round, w.made.length ≤ place → next.made[place]? = some (layer, round) → w.size ≤ layer

variable {w next last : Layering}

theorem still_later (w : Layering) : w.Later w where
  size := Nat.le_refl _
  made := List.prefix_refl _
  above place layer round outside known := by
    rw [List.getElem?_eq_none outside] at known
    cases known

theorem further_later (first : w.Later next) (second : next.Later last) : w.Later last where
  size := Nat.le_trans first.size second.size
  made := first.made.trans second.made
  above place layer round outside known := by
    by_cases old : place < next.made.length
    · obtain ⟨more, same⟩ := second.made
      rw [← same, List.getElem?_append_left old] at known
      exact first.above place layer round outside known
    · exact Nat.le_trans first.size (second.above place layer round (Nat.le_of_not_lt old) known)

theorem lasts_linked {layer partner : Nat} (lasts : w.Lasts layer partner) : w.Linked layer partner :=
  ⟨false, lasts, fun _ _ after known => absurd (w.once _ _ _ _ lasts known) (Nat.ne_of_gt after)⟩

theorem lasts_later (later : w.Later next) {layer partner : Nat} (lasts : w.Lasts layer partner) : next.Lasts layer partner :=
  get_longer later.made _ _ lasts

theorem linked_later (later : w.Later next) {layer partner : Nat} (linked : w.Linked layer partner) :
    next.Linked layer partner := by
  obtain ⟨round, known, last⟩ := linked
  refine ⟨round, get_longer later.made _ _ known, fun place other after found => ?_⟩
  by_cases old : place < w.made.length
  · obtain ⟨more, same⟩ := later.made
    rw [← same, List.getElem?_append_left old] at found
    exact last place other after found
  · have above := later.above place layer other (Nat.le_of_not_lt old) found
    exact absurd (w.inside _ _ _ known) (Nat.not_lt_of_le above)

def links (w : Layering) : Links where
  linked := w.Linked
  blank _ := False
  size := w.size
  size' := w.made.length
  inside layer partner linked := by
    obtain ⟨round, known, _⟩ := linked
    exact ⟨w.inside _ _ _ known, (List.getElem?_eq_some_iff.mp known).1⟩
  apart layer partner other partner' linked also := by
    obtain ⟨round, known, last⟩ := linked
    obtain ⟨round', known', last'⟩ := also
    constructor
    · rintro rfl
      rcases Nat.lt_trichotomy partner partner' with before | same | after
      · exact absurd known' (last _ _ before)
      · exact same
      · exact absurd known (last' _ _ after)
    · rintro rfl
      rw [known] at known'
      exact congrArg Prod.fst (Option.some.inj known')
  blank_inside _ := False.elim
  blank_apart _ _ := False.elim

theorem get_append_one {α : Type} (list : List α) (last a : α) (place : Nat) (known : (list ++ [last])[place]? = some a) :
    list[place]? = some a ∨ place = list.length ∧ a = last := by
  by_cases old : place < list.length
  · rw [List.getElem?_append_left old] at known
    exact .inl known
  · have inside := (List.getElem?_eq_some_iff.mp known).1
    simp only [List.length_append, List.length_singleton] at inside
    obtain rfl : place = list.length := by omega
    rw [List.getElem?_concat_length] at known
    exact .inr ⟨rfl, (Option.some.inj known).symm⟩

def child (w : Layering) (round : Bool) : Layering where
  size := w.size + 1
  made := w.made ++ [(w.size, round)]
  ground := get_longer (List.prefix_append _ _) _ _ w.ground
  inside place layer other known := by
    rcases get_append_one _ _ _ _ known with old | ⟨_, same⟩
    · exact Nat.lt_succ_of_lt (w.inside _ _ _ old)
    · cases same
      exact Nat.lt_succ_self _
  once place other layer kind known also := by
    rcases get_append_one _ _ _ _ known with old | ⟨here, same⟩ <;> rcases get_append_one _ _ _ _ also with old' | ⟨there, same'⟩
    · exact w.once _ _ _ _ old old'
    · cases same'
      exact absurd (w.inside _ _ _ old) (Nat.lt_irrefl _)
    · cases same
      exact absurd (w.inside _ _ _ old') (Nat.lt_irrefl _)
    · exact there.trans here.symm

def again (w : Layering) (layer partner : Nat) (known : w.made[partner]? = some (layer, true)) : Layering where
  size := w.size
  made := w.made ++ [(layer, true)]
  ground := get_longer (List.prefix_append _ _) _ _ w.ground
  inside place other round found := by
    rcases get_append_one _ _ _ _ found with old | ⟨_, same⟩
    · exact w.inside _ _ _ old
    · cases same
      exact w.inside _ _ _ known
  once place other id kind found also := by
    rcases get_append_one _ _ _ _ found with old | ⟨_, same⟩
    · rcases get_append_one _ _ _ _ also with old' | ⟨_, same'⟩
      · exact w.once _ _ _ _ old old'
      · cases same'
        have same := w.once _ _ _ _ old known
        rw [same, old] at known
        cases known
    · cases same

theorem child_later (w : Layering) (round : Bool) : w.Later (w.child round) where
  size := Nat.le_succ _
  made := List.prefix_append _ _
  above place layer other outside known := by
    rcases get_append_one _ _ _ _ known with old | ⟨_, same⟩
    · rw [List.getElem?_eq_none outside] at old
      cases old
    · cases same
      exact Nat.le_refl _

theorem child_made (w : Layering) (round : Bool) : (w.child round).made[w.made.length]? = some (w.size, round) :=
  List.getElem?_concat_length

theorem child_links (w : Layering) (round : Bool) : w.links.push.Covers (w.child round).links where
  size := rfl
  size' := by simp [child, links, Links.push]
  linked layer partner linked := by
    obtain ⟨other, known, last⟩ := linked
    rcases get_append_one _ _ _ _ known with old | ⟨rfl, same⟩
    · refine .inl ⟨other, old, fun later kind after found => last later kind after ?_⟩
      exact get_longer (List.prefix_append _ _) _ _ found
    · cases same
      exact .inr ⟨rfl, rfl⟩
  blank _ := False.elim

theorem again_later {base : Layering} {layer partner : Nat} (known : w.made[partner]? = some (layer, true))
    (later : base.Later w) (above : base.size ≤ layer) : base.Later (w.again layer partner known) where
  size := later.size
  made := later.made.trans (List.prefix_append _ _)
  above place other round outside found := by
    rcases get_append_one _ _ _ _ found with old | ⟨_, same⟩
    · exact later.above place other round outside old
    · cases same
      exact above

theorem linked_last {layer : Nat} {round : Bool} {place : Nat} (known : w.made[place]? = some (layer, round))
    (last : place + 1 = w.made.length) : w.Linked layer place := by
  refine ⟨round, known, fun later other after found => ?_⟩
  have inside := (List.getElem?_eq_some_iff.mp found).1
  omega

end Layering

structure Closure.Kept (w : Layering) (closure other : Closure) : Prop where
  routine : other.routine = closure.routine
  constructor : other.isConstructor = closure.isConstructor
  bare : closure.routine.loopsBare = true
  chain : List.Forall₂ w.Lasts closure.env.chain other.env.chain

namespace Layering

def likeness (w : Layering) : Likeness where
  function := Closure.Kept w
  method := Closure.Kept w
  function_head _ _ kept := ⟨congrArg Routine.name kept.routine, congrArg Routine.parameters kept.routine, kept.constructor⟩
  method_head _ _ kept := ⟨congrArg Routine.name kept.routine, congrArg Routine.parameters kept.routine, kept.constructor⟩

structure Stands (w : Layering) (inside : Bool) (env env' : Env) : Prop where
  chain : List.Forall₂ w.Linked env.chain env'.chain
  lasts : inside = false → List.Forall₂ w.Lasts env.chain env'.chain

variable {w next : Layering} {inside : Bool} {env env' : Env}

theorem kept_later (later : w.Later next) (closure other : Closure) (kept : closure.Kept w other) : closure.Kept next other :=
  ⟨kept.routine, kept.constructor, kept.bare, kept.chain.imp fun _ _ => lasts_later later⟩

theorem within_later (later : w.Later next) : w.likeness.Within next.likeness :=
  ⟨kept_later later, kept_later later⟩

theorem within_again {layer partner : Nat} (known : w.made[partner]? = some (layer, true)) :
    w.likeness.Within (w.again layer partner known).likeness := by
  have kept : ∀ closure other, Closure.Kept w closure other → closure.Kept (w.again layer partner known) other :=
    fun _ _ kept => ⟨kept.routine, kept.constructor, kept.bare,
      kept.chain.imp fun _ _ lasts => get_longer (List.prefix_append _ _) _ _ lasts⟩
  exact ⟨kept, kept⟩

theorem stands_later (later : w.Later next) (stands : w.Stands inside env env') : next.Stands inside env env' :=
  ⟨stands.chain.imp fun _ _ => linked_later later, fun out => (stands.lasts out).imp fun _ _ => lasts_later later⟩

theorem stands_inner (stands : w.Stands inside env env') : w.Linked env.inner env'.inner :=
  (List.forall₂_cons.mp stands.chain).1

theorem lasts_stands (chain : List.Forall₂ w.Lasts env.chain env'.chain) : w.Stands false env env' :=
  ⟨chain.imp fun _ _ => lasts_linked, fun _ => chain⟩

theorem stands_child (stands : w.Stands inside env env') :
    (w.child false).Stands inside (env.child w.size) (env'.child w.made.length) := by
  have later := child_later w false
  have new : (w.child false).Lasts w.size w.made.length := child_made w false
  exact ⟨.cons (lasts_linked new) (stands_later later stands).chain, fun out => .cons new ((stands_later later stands).lasts out)⟩

structure AtRound (w base : Layering) (layer partner : Nat) : Prop where
  later : base.Later w
  above : base.size ≤ layer
  made : w.made[partner]? = some (layer, true)
  linked : w.Linked layer partner

theorem round_first (w : Layering) : (w.child true).AtRound w w.size w.made.length where
  later := child_later w true
  above := Nat.le_refl _
  made := child_made w true
  linked := linked_last (child_made w true) (by simp [child])

theorem round_later {base : Layering} {layer partner : Nat} (later : w.Later next) (round : w.AtRound base layer partner) :
    next.AtRound base layer partner where
  later := further_later round.later later
  above := round.above
  made := get_longer later.made _ _ round.made
  linked := linked_later later round.linked

theorem round_again {base : Layering} {layer partner : Nat} (round : w.AtRound base layer partner) :
    (w.again layer partner round.made).AtRound base layer w.made.length where
  later := again_later round.made round.later round.above
  above := round.above
  made := List.getElem?_concat_length
  linked := linked_last List.getElem?_concat_length (by simp [again])

def rounds (distances : Distances) : Course Layering where
  likeness := likeness
  links := links
  Later := Later
  still := still_later
  further _ _ _ := further_later
  within _ _ := within_later
  child w := w.child false
  child_later w := child_later w false
  child_links w := child_links w false
  bound w _ _ kept :=
    ⟨kept.routine, kept.constructor, kept.bare,
      .cons (child_made w false) (kept.chain.imp fun _ _ => lasts_later (child_later w false))⟩
  here := distances
  there := distances

end Layering

section Steps

open Layering

variable {distances : Distances} {base w : Layering} {inside : Bool} {env env' : Env}

theorem again_like {s t : Store} {layer partner : Nat} (known : w.made[partner]? = some (layer, true))
    (like : s.Like w.likeness w.links t) :
    Store.Like (w.again layer partner known).likeness (w.again layer partner known).links
      { s with layers := s.layers.modify layer fun _ => .empty } { t with layers := t.layers.push .empty } where
  size := (Array.size_modify ..).trans like.size
  size' := by simp [again, links, show t.layers.size = w.made.length from like.size']
  layers l p linked := by
    have size' : t.layers.size = w.made.length := like.size'
    obtain ⟨round, found, last⟩ := linked
    rcases get_append_one _ _ _ _ found with old | ⟨rfl, same⟩
    · have inside := (List.getElem?_eq_some_iff.mp old).1
      have different : l ≠ layer := by
        rintro rfl
        exact last w.made.length true inside List.getElem?_concat_length
      have linked : w.Linked l p :=
        ⟨round, old, fun later other after known => last later other after (get_longer (List.prefix_append _ _) _ _ known)⟩
      rw [layer_clear_other s layer l different, Store.layer_push t .empty p (size' ▸ inside)]
      exact Bindings.paired_mono (like_within (within_again known)) (like.layers l p linked)
    · cases same
      rw [layer_clear_self, ← size', Store.layer_push_new t .empty]
      exact Bindings.paired_empty
  blank _ := False.elim
  objects := like.objects
  fields object := Bindings.paired_mono (like_within (within_again known)) (like.fields object)
  identities := like.identities

theorem abreast_renew {round round' : Env} {partner : Nat} (known : w.made[partner]? = some (round.inner, true))
    (later : base.Later w) (above : base.size ≤ round.inner) :
    (rounds distances).Abreast base w env env'
      (fun next made made' => next = w.again round.inner partner known ∧ made = round ∧ made' = env'.child w.made.length)
      (Regime.standard.renew round) (Regime.freshRounds.renew round') := by
  intro m n like
  have here : n.env = env' := like.env'
  have size' : n.store.layers.size = w.made.length := like.store.size'
  have made : Regime.freshRounds.renew round' n = .ok (env'.child w.made.length)
      { n with store := { n.store with layers := n.store.layers.push .empty } } := by
    rw [← here, ← size']
    rfl
  refine ⟨w.again round.inner partner known, again_later known later above, ?_⟩
  rw [made]
  refine .ok _ _ _ _ ⟨rfl, rfl, rfl⟩ ⟨?_, like.env, like.env', like.here, like.there, like.source, like.sink⟩
  exact again_like known like.store

theorem forall₂_get {α β : Type} {R : α → β → Prop} {list : List α} {list' : List β} (all : List.Forall₂ R list list')
    (place : Nat) : Option.Rel R list[place]? list'[place]? := by
  induction all generalizing place with
  | nil => exact .none
  | cons first rest ih =>
      cases place with
      | zero => exact .some first
      | succ place => exact ih place

theorem ground_linked (w : Layering) : w.links.linked 0 0 :=
  lasts_linked w.ground

theorem stands_meets (stands : w.Stands inside env env') (id : Nat) :
    Option.Rel (w.links.Meets env env') distances[id]? distances[id]? := by
  cases distances[id]? with
  | none => exact .none
  | some distance => exact .some ⟨forall₂_get stands.chain distance, fun _ => rfl⟩

theorem abreast_define (stands : w.Stands inside env env') (name : Name) {value other : Value}
    (same : (rounds distances).Values w value other) :
    (rounds distances).Abreast w w env env' (fun _ => Eq) (define name value) (define name other) :=
  abreast_same (goes_define_name (stands_inner stands) name same)

theorem abreast_function (stands : w.Stands false env env') (routine : Routine) (bare : routine.loopsBare = true) :
    (rounds distances).Abreast w w env env' (fun _ => Eq) (defineFunction routine) (defineFunction routine) :=
  abreast_same (goes_function (stands_inner stands) rfl ⟨rfl, rfl, bare, stands.lasts rfl⟩)

theorem abreast_class (stands : w.Stands false env env') (name : Name) (methods : List Routine)
    (bare : Routine.loopsBareAll methods = true) :
    (rounds distances).Abreast w w env env' (fun _ => Eq) (defineClass name methods) (defineClass name methods) := by
  have kept : List.Forall₂ (fun r r' : Routine => r'.name = r.name ∧
      Closure.Kept w ⟨r, env, r.isConstructor⟩ ⟨r', env', r'.isConstructor⟩) methods methods :=
    List.forall₂_same.mpr fun r member => ⟨rfl, rfl, rfl, loops_bare_all bare r member, stands.lasts rfl⟩
  exact abreast_same (goes_class (stands_inner stands) name (paired_methods Bindings.paired_empty kept))

end Steps

end TreeWalk
