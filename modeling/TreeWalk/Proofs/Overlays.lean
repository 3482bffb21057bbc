import TreeWalk.Proofs.Layerings
import TreeWalk.Proofs.Spans

set_option autoImplicit false

namespace TreeWalk

open Eval

-- What a layer of the second run stands for.
inductive Role where
  -- For a layer of the first run, and the two hold the same for good.
  | lasts (layer : Nat)
  | bare
  -- For a loop. Between the rounds the layer of the first run holds nothing either.
  | waits (layer : Nat)
  | runs
  | round (layer loop : Nat)
  | gone (loop : Nat)

namespace Role

-- The layer of the first run that is accounted for.
def layer? : Role → Option Nat
  | lasts layer | waits layer | round layer _ => some layer
  | bare | runs | gone _ => none

-- The one that holds the same.
def held? : Role → Option Nat
  | lasts layer | round layer _ => some layer
  | bare | waits _ | runs | gone _ => none

def isBare : Role → Bool
  | bare | waits _ | runs => true
  | lasts _ | round _ _ | gone _ => false

theorem held_layer {role : Role} {layer : Nat} (held : role.held? = some layer) : role.layer? = some layer := by
  cases role <;> first | exact held | cases held

end Role

-- A layer of the first run is accounted for once.
structure Overlay where
  size : Nat
  roles : List Role
  ground : roles[0]? = some (.lasts 0)
  inside : ∀ (place : Nat) (role : Role) (layer : Nat), roles[place]? = some role → role.layer? = some layer → layer < size
  once : ∀ (place other : Nat) (role role' : Role) (layer : Nat), roles[place]? = some role → roles[other]? = some role' →
    role.layer? = some layer → role'.layer? = some layer → other = place

section Lists

variable {α : Type} {list : List α} {place : Nat} {a b : α}

theorem get_push : (list ++ [a])[place]? = some b ↔ (place = list.length ∧ b = a) ∨ list[place]? = some b := by
  constructor
  · intro known
    rcases Layering.get_append_one _ _ _ _ known with old | new
    · exact .inr old
    · exact .inl new
  · rintro (⟨rfl, rfl⟩ | old)
    · exact List.getElem?_concat_length
    · exact get_longer (List.prefix_append _ _) _ _ old

theorem get_set {at_ : Nat} (inside : at_ < list.length) :
    (list.set at_ a)[place]? = some b ↔ (place = at_ ∧ b = a) ∨ (place ≠ at_ ∧ list[place]? = some b) := by
  rw [List.getElem?_set]
  by_cases same : at_ = place
  · subst same
    simp [inside, eq_comm]
  · simp [same, Ne.symm same]

end Lists

namespace Overlay

variable {w next last : Overlay}

def Linked (w : Overlay) (layer partner : Nat) : Prop :=
  ∃ role, w.roles[partner]? = some role ∧ role.held? = some layer

def Bare (w : Overlay) (partner : Nat) : Prop :=
  ∃ role, w.roles[partner]? = some role ∧ role.isBare = true

-- The layer of a round. Whether it goes on is left open, and with that what the layer of the loop stands for.
def OfRound (w : Overlay) (layer partner loop : Nat) : Prop :=
  w.roles[partner]? = some (.round layer loop) ∨ w.roles[partner]? = some (.gone loop)

def links (w : Overlay) : Links where
  linked := w.Linked
  blank layer := ∃ partner, w.roles[partner]? = some (Role.waits layer)
  size := w.size
  size' := w.roles.length
  inside layer partner linked := by
    obtain ⟨role, known, held⟩ := linked
    exact ⟨w.inside _ _ _ known (Role.held_layer held), (List.getElem?_eq_some_iff.mp known).1⟩
  apart layer partner other partner' linked also := by
    obtain ⟨role, known, held⟩ := linked
    obtain ⟨role', known', held'⟩ := also
    constructor
    · rintro rfl
      exact (w.once _ _ _ _ _ known known' (Role.held_layer held) (Role.held_layer held')).symm
    · rintro rfl
      rw [known] at known'
      cases known'
      exact Option.some.inj (held.symm.trans held')
  blank_inside layer := by
    rintro ⟨partner, known⟩
    exact w.inside _ _ _ known rfl
  blank_apart layer partner := by
    rintro ⟨waiting, known⟩ ⟨role, found, held⟩
    obtain rfl := w.once _ _ _ _ _ known found rfl (Role.held_layer held)
    rw [known] at found
    cases found
    cases held

-- What a closure relies on: roles that stay what they are, but for the rounds of a loop.
structure Grows (w next : Overlay) : Prop where
  lasts : ∀ layer partner : Nat, w.roles[partner]? = some (.lasts layer) → next.roles[partner]? = some (.lasts layer)
  bare : ∀ partner : Nat, w.Bare partner → next.Bare partner
  rounds : ∀ layer partner loop : Nat, w.OfRound layer partner loop → next.OfRound layer partner loop

-- What was there stays, and what is new does not stand for an old layer.
structure Later (w next : Overlay) : Prop where
  size : w.size ≤ next.size
  roles : w.roles <+: next.roles
  above : ∀ (place : Nat) (role : Role) (layer : Nat), w.roles.length ≤ place → next.roles[place]? = some role →
    role.layer? = some layer → w.size ≤ layer

-- And what is new is there for good.
structure Steadily (w next : Overlay) : Prop where
  later : w.Later next
  lasts : ∀ (place : Nat) (role : Role), w.roles.length ≤ place → next.roles[place]? = some role → ∃ layer, role = .lasts layer

theorem still_overlay (w : Overlay) : w.Later w where
  size := Nat.le_refl _
  roles := List.prefix_refl _
  above place role layer outside known := by
    rw [List.getElem?_eq_none outside] at known
    cases known

theorem further_overlay (first : w.Later next) (second : next.Later last) : w.Later last where
  size := Nat.le_trans first.size second.size
  roles := first.roles.trans second.roles
  above place role layer outside known accounted := by
    by_cases old : place < next.roles.length
    · obtain ⟨more, same⟩ := second.roles
      rw [← same, List.getElem?_append_left old] at known
      exact first.above place role layer outside known accounted
    · exact Nat.le_trans first.size (second.above place role layer (Nat.le_of_not_lt old) known accounted)

theorem still_steadily (w : Overlay) : w.Steadily w where
  later := still_overlay w
  lasts place role outside known := by
    rw [List.getElem?_eq_none outside] at known
    cases known

theorem further_steadily (first : w.Steadily next) (second : next.Steadily last) : w.Steadily last where
  later := further_overlay first.later second.later
  lasts place role outside known := by
    by_cases old : place < next.roles.length
    · obtain ⟨more, same⟩ := second.later.roles
      rw [← same, List.getElem?_append_left old] at known
      exact first.lasts place role outside known
    · exact second.lasts place role (Nat.le_of_not_lt old) known

theorem later_grows (later : w.Later next) : w.Grows next where
  lasts _ _ known := get_longer later.roles _ _ known
  bare _ := fun ⟨role, known, bare⟩ => ⟨role, get_longer later.roles _ _ known, bare⟩
  rounds _ _ _ := Or.imp (get_longer later.roles _ _) (get_longer later.roles _ _)

theorem linked_grown (later : w.Later next) {layer partner : Nat} (linked : w.Linked layer partner) :
    next.Linked layer partner := by
  obtain ⟨role, known, held⟩ := linked
  exact ⟨role, get_longer later.roles _ _ known, held⟩

-- A new layer in the second run, and maybe one in the first that it accounts for.
def push (w : Overlay) (role : Role) (size : Nat) (more : w.size ≤ size)
    (new : ∀ layer, role.layer? = some layer → w.size ≤ layer ∧ layer < size) : Overlay where
  size
  roles := w.roles ++ [role]
  ground := get_longer (List.prefix_append _ _) _ _ w.ground
  inside place other layer known accounted := by
    rcases get_push.mp known with ⟨_, rfl⟩ | old
    · exact (new layer accounted).2
    · exact Nat.lt_of_lt_of_le (w.inside _ _ _ old accounted) more
  once place other role' role'' layer known also accounted again := by
    rcases get_push.mp known with ⟨here, rfl⟩ | old <;> rcases get_push.mp also with ⟨there, rfl⟩ | old'
    · exact there.trans here.symm
    · exact absurd (new layer accounted).1 (Nat.not_le_of_lt (w.inside _ _ _ old' again))
    · exact absurd (new layer again).1 (Nat.not_le_of_lt (w.inside _ _ _ old accounted))
    · exact w.once _ _ _ _ _ old old' accounted again

def child (w : Overlay) : Overlay :=
  w.push (.lasts w.size) (w.size + 1) (Nat.le_succ _) (by rintro _ ⟨⟩; omega)

def opened (w : Overlay) : Overlay :=
  w.push (.waits w.size) (w.size + 1) (Nat.le_succ _) (by rintro _ ⟨⟩; omega)

def aside (w : Overlay) : Overlay :=
  w.push .bare w.size (Nat.le_refl _) (by rintro _ ⟨⟩)

def begun (w : Overlay) (layer loop : Nat) (waits : w.roles[loop]? = some (.waits layer)) : Overlay where
  size := w.size
  roles := w.roles.set loop .runs ++ [.round layer loop]
  ground := by
    have inside := (List.getElem?_eq_some_iff.mp waits).1
    refine get_push.mpr (.inr ((get_set inside).mpr (.inr ⟨?_, w.ground⟩)))
    rintro rfl
    cases w.ground.symm.trans waits
  inside place role other known accounted := by
    have inside := (List.getElem?_eq_some_iff.mp waits).1
    rcases get_push.mp known with ⟨_, rfl⟩ | old
    · cases accounted
      exact w.inside _ _ _ waits rfl
    · rcases (get_set inside).mp old with ⟨_, rfl⟩ | ⟨_, old⟩
      · cases accounted
      · exact w.inside _ _ _ old accounted
  once place other role role' id known also accounted again := by
    have inside := (List.getElem?_eq_some_iff.mp waits).1
    have apart : ∀ place role, place ≠ loop → w.roles[place]? = some role → role.layer? ≠ some layer :=
      fun place role different old accounted => different (w.once _ _ _ _ _ waits old rfl accounted)
    rcases get_push.mp known with ⟨here, rfl⟩ | old <;> rcases get_push.mp also with ⟨there, rfl⟩ | old'
    · exact there.trans here.symm
    · cases accounted
      rcases (get_set inside).mp old' with ⟨_, rfl⟩ | ⟨different, old'⟩
      · cases again
      · exact absurd again (apart _ _ different old')
    · cases again
      rcases (get_set inside).mp old with ⟨_, rfl⟩ | ⟨different, old⟩
      · cases accounted
      · exact absurd accounted (apart _ _ different old)
    · rcases (get_set inside).mp old with ⟨_, rfl⟩ | ⟨_, old⟩
      · cases accounted
      · rcases (get_set inside).mp old' with ⟨_, rfl⟩ | ⟨_, old'⟩
        · cases again
        · exact w.once _ _ _ _ _ old old' accounted again

def ended (w : Overlay) (layer partner loop : Nat) (round : w.roles[partner]? = some (.round layer loop))
    (runs : w.roles[loop]? = some .runs) : Overlay where
  size := w.size
  roles := (w.roles.set partner (.gone loop)).set loop (.waits layer)
  ground := by
    have inside := (List.getElem?_eq_some_iff.mp round).1
    have within := (List.getElem?_eq_some_iff.mp runs).1
    refine (get_set (by rwa [List.length_set])).mpr (.inr ⟨?_, (get_set inside).mpr (.inr ⟨?_, w.ground⟩)⟩)
    · rintro rfl
      cases w.ground.symm.trans runs
    · rintro rfl
      cases w.ground.symm.trans round
  inside place role other known accounted := by
    have inside := (List.getElem?_eq_some_iff.mp round).1
    have within := (List.getElem?_eq_some_iff.mp runs).1
    rcases (get_set (by rwa [List.length_set])).mp known with ⟨_, rfl⟩ | ⟨_, old⟩
    · cases accounted
      exact w.inside _ _ _ round rfl
    · rcases (get_set inside).mp old with ⟨_, rfl⟩ | ⟨_, old⟩
      · cases accounted
      · exact w.inside _ _ _ old accounted
  once place other role role' id known also accounted again := by
    have inside := (List.getElem?_eq_some_iff.mp round).1
    have within := (List.getElem?_eq_some_iff.mp runs).1
    have apart : ∀ place role, place ≠ partner → w.roles[place]? = some role → role.layer? ≠ some layer :=
      fun place role different old accounted => different (w.once _ _ _ _ _ round old rfl accounted)
    have old : ∀ place role, (w.roles.set partner (.gone loop))[place]? = some role → role.layer? = some id →
        place ≠ partner ∧ w.roles[place]? = some role := by
      intro place role known accounted
      rcases (get_set inside).mp known with ⟨_, rfl⟩ | old
      · cases accounted
      · exact old
    rcases (get_set (by rwa [List.length_set])).mp known with ⟨here, rfl⟩ | ⟨_, before⟩ <;>
      rcases (get_set (by rwa [List.length_set])).mp also with ⟨there, rfl⟩ | ⟨_, before'⟩
    · exact there.trans here.symm
    · cases accounted
      obtain ⟨different, known⟩ := old _ _ before' again
      exact absurd again (apart _ _ different known)
    · cases again
      obtain ⟨different, known⟩ := old _ _ before accounted
      exact absurd accounted (apart _ _ different known)
    · exact w.once _ _ _ _ _ (old _ _ before accounted).2 (old _ _ before' again).2 accounted again

section Changes

variable {layer partner loop : Nat}

theorem push_later (role : Role) (size : Nat) (more : w.size ≤ size)
    (new : ∀ layer, role.layer? = some layer → w.size ≤ layer ∧ layer < size) : w.Later (w.push role size more new) where
  size := more
  roles := List.prefix_append _ _
  above place other layer outside known accounted := by
    rcases get_push.mp known with ⟨_, rfl⟩ | old
    · exact (new layer accounted).1
    · rw [List.getElem?_eq_none outside] at old
      cases old

theorem ground_overlay (w : Overlay) : w.Linked 0 0 :=
  ⟨_, w.ground, rfl⟩

theorem child_role (w : Overlay) : w.child.roles[w.roles.length]? = some (.lasts w.size) :=
  List.getElem?_concat_length

theorem opened_role (w : Overlay) : w.opened.roles[w.roles.length]? = some (.waits w.size) :=
  List.getElem?_concat_length

theorem aside_role (w : Overlay) : w.aside.roles[w.roles.length]? = some .bare :=
  List.getElem?_concat_length

theorem child_steadily (w : Overlay) : w.Steadily w.child where
  later := push_later _ _ _ _
  lasts place role outside known := by
    rcases get_push.mp known with ⟨_, rfl⟩ | old
    · exact ⟨_, rfl⟩
    · rw [List.getElem?_eq_none outside] at old
      cases old

theorem begun_role (waits : w.roles[loop]? = some (.waits layer)) :
    (w.begun layer loop waits).roles[w.roles.length]? = some (.round layer loop) := by
  refine get_push.mpr (.inl ⟨?_, rfl⟩)
  rw [List.length_set]

theorem begun_runs (waits : w.roles[loop]? = some (.waits layer)) : (w.begun layer loop waits).roles[loop]? = some .runs :=
  get_push.mpr (.inr ((get_set (List.getElem?_eq_some_iff.mp waits).1).mpr (.inl ⟨rfl, rfl⟩)))

theorem begun_other (waits : w.roles[loop]? = some (.waits layer)) {place : Nat} {role : Role} (different : place ≠ loop)
    (known : w.roles[place]? = some role) : (w.begun layer loop waits).roles[place]? = some role :=
  get_push.mpr (.inr ((get_set (List.getElem?_eq_some_iff.mp waits).1).mpr (.inr ⟨different, known⟩)))

theorem begun_grows (waits : w.roles[loop]? = some (.waits layer)) : w.Grows (w.begun layer loop waits) where
  lasts old place known := begun_other waits (by rintro rfl; cases known.symm.trans waits) known
  bare place := by
    rintro ⟨role, known, bare⟩
    by_cases same : place = loop
    · subst same
      exact ⟨_, begun_runs waits, rfl⟩
    · exact ⟨role, begun_other waits same known, bare⟩
  rounds old place other := by
    rintro (known | known)
    · exact .inl (begun_other waits (by rintro rfl; cases known.symm.trans waits) known)
    · exact .inr (begun_other waits (by rintro rfl; cases known.symm.trans waits) known)

theorem begun_cases (waits : w.roles[loop]? = some (.waits layer)) {place : Nat} {role : Role}
    (known : (w.begun layer loop waits).roles[place]? = some role) :
    place = w.roles.length ∧ role = .round layer loop ∨ place = loop ∧ role = .runs ∨
      place ≠ loop ∧ w.roles[place]? = some role := by
  rcases get_push.mp known with ⟨here, rfl⟩ | old
  · exact .inl ⟨by rwa [List.length_set] at here, rfl⟩
  · exact .inr ((get_set (List.getElem?_eq_some_iff.mp waits).1).mp old)

theorem ended_cases (round : w.roles[partner]? = some (.round layer loop)) (runs : w.roles[loop]? = some .runs) {place : Nat}
    {role : Role} (known : (w.ended layer partner loop round runs).roles[place]? = some role) :
    place = loop ∧ role = .waits layer ∨ place = partner ∧ role = .gone loop ∨
      place ≠ loop ∧ place ≠ partner ∧ w.roles[place]? = some role := by
  have inside := (List.getElem?_eq_some_iff.mp round).1
  have within := (List.getElem?_eq_some_iff.mp runs).1
  rcases (get_set (by rwa [List.length_set])).mp known with here | ⟨outside, old⟩
  · exact .inl here
  · rcases (get_set inside).mp old with there | ⟨different, old⟩
    · exact .inr (.inl there)
    · exact .inr (.inr ⟨outside, different, old⟩)

theorem ended_waits (round : w.roles[partner]? = some (.round layer loop)) (runs : w.roles[loop]? = some .runs) :
    (w.ended layer partner loop round runs).roles[loop]? = some (.waits layer) :=
  (get_set (by rw [List.length_set]; exact (List.getElem?_eq_some_iff.mp runs).1)).mpr (.inl ⟨rfl, rfl⟩)

theorem ended_over (round : w.roles[partner]? = some (.round layer loop)) (runs : w.roles[loop]? = some .runs) :
    (w.ended layer partner loop round runs).roles[partner]? = some (.gone loop) := by
  refine (get_set (by rw [List.length_set]; exact (List.getElem?_eq_some_iff.mp runs).1)).mpr (.inr ⟨?_, ?_⟩)
  · rintro rfl
    cases round.symm.trans runs
  · exact (get_set (List.getElem?_eq_some_iff.mp round).1).mpr (.inl ⟨rfl, rfl⟩)

theorem ended_other (round : w.roles[partner]? = some (.round layer loop)) (runs : w.roles[loop]? = some .runs) {place : Nat}
    {role : Role} (outside : place ≠ loop) (different : place ≠ partner) (known : w.roles[place]? = some role) :
    (w.ended layer partner loop round runs).roles[place]? = some role :=
  (get_set (by rw [List.length_set]; exact (List.getElem?_eq_some_iff.mp runs).1)).mpr
    (.inr ⟨outside, (get_set (List.getElem?_eq_some_iff.mp round).1).mpr (.inr ⟨different, known⟩)⟩)

theorem ended_grows (round : w.roles[partner]? = some (.round layer loop)) (runs : w.roles[loop]? = some .runs) :
    w.Grows (w.ended layer partner loop round runs) where
  lasts old place known := ended_other round runs (by rintro rfl; cases known.symm.trans runs)
    (by rintro rfl; cases known.symm.trans round) known
  bare place := by
    rintro ⟨role, known, bare⟩
    by_cases same : place = loop
    · subst same
      exact ⟨_, ended_waits round runs, rfl⟩
    · refine ⟨role, ended_other round runs same ?_ known, bare⟩
      rintro rfl
      cases known.symm.trans round
      cases bare
  rounds old place other := by
    rintro (known | known)
    · by_cases same : place = partner
      · subst same
        cases known.symm.trans round
        exact .inr (ended_over round runs)
      · exact .inl (ended_other round runs (by rintro rfl; cases known.symm.trans runs) same known)
    · exact .inr (ended_other round runs (by rintro rfl; cases known.symm.trans runs)
        (by rintro rfl; cases known.symm.trans round) known)

end Changes

structure AtLoop (w base : Overlay) (layer loop : Nat) : Prop where
  later : base.Later w
  outside : base.roles.length ≤ loop
  above : base.size ≤ layer
  waits : w.roles[loop]? = some (.waits layer)

section AtLoop

variable {base : Overlay} {layer loop : Nat}

theorem prefix_set {α : Type} {old list : List α} {place : Nat} (before : old <+: list) (outside : old.length ≤ place) (a : α) :
    old <+: list.set place a := by
  obtain ⟨more, rfl⟩ := before
  rw [List.set_append_right _ _ outside]
  exact List.prefix_append _ _

theorem loop_first (w : Overlay) : w.opened.AtLoop w w.size w.roles.length :=
  ⟨push_later _ _ _ _, Nat.le_refl _, Nat.le_refl _, opened_role w⟩

theorem loop_later (later : w.Later next) (at_ : w.AtLoop base layer loop) : next.AtLoop base layer loop :=
  ⟨further_overlay at_.later later, at_.outside, at_.above, get_longer later.roles _ _ at_.waits⟩

theorem loop_begun (at_ : w.AtLoop base layer loop) : base.Later (w.begun layer loop at_.waits) where
  size := at_.later.size
  roles := (prefix_set at_.later.roles at_.outside _).trans (List.prefix_append _ _)
  above place role other outside known accounted := by
    rcases begun_cases at_.waits known with ⟨_, rfl⟩ | ⟨_, rfl⟩ | ⟨_, old⟩
    · cases accounted
      exact at_.above
    · cases accounted
    · exact at_.later.above place role other outside old accounted

theorem loop_again {partner : Nat} (later : base.Later next) (outside : base.roles.length ≤ loop)
    (behind : base.roles.length ≤ partner) (above : base.size ≤ layer) (round : next.roles[partner]? = some (.round layer loop))
    (runs : next.roles[loop]? = some .runs) : (next.ended layer partner loop round runs).AtLoop base layer loop where
  later := {
    size := later.size
    roles := prefix_set (prefix_set later.roles behind _) outside _
    above place role other place_outside known accounted := by
      rcases ended_cases round runs known with ⟨_, rfl⟩ | ⟨_, rfl⟩ | ⟨_, _, old⟩
      · cases accounted
        exact above
      · cases accounted
      · exact later.above place role other place_outside old accounted }
  outside := outside
  above := above
  waits := ended_waits round runs

end AtLoop

end Overlay

end TreeWalk
