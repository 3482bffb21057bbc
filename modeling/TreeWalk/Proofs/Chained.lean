import TreeWalk.Proofs.Overlays

set_option autoImplicit false

namespace TreeWalk

open Eval

def Distances.Lead (here there : Distances) (spans : Spans) (id id' : Nat) : Prop :=
  Option.Rel (Spans.Leads spans) here[id]? there[id']?

namespace Overlay

inductive Chained (w : Overlay) : Spans → List Nat → List Nat → Prop where
  | ground : Chained w [] [0] [0]
  | lasts {spans : Spans} {layer partner : Nat} {chain chain' : List Nat} (known : w.roles[partner]? = some (.lasts layer))
      (outer : Chained w spans chain chain') : Chained w (true :: spans) (layer :: chain) (partner :: chain')
  | bare {spans : Spans} {partner : Nat} {chain chain' : List Nat} (known : w.Bare partner)
      (outer : Chained w spans chain chain') : Chained w (false :: spans) chain (partner :: chain')
  | round {spans : Spans} {layer partner loop : Nat} {chain chain' : List Nat} (known : w.OfRound layer partner loop)
      (outer : Chained w (false :: spans) chain (loop :: chain')) :
      Chained w (true :: false :: spans) (layer :: chain) (partner :: loop :: chain')

structure Stands (w : Overlay) (spans : Spans) (env env' : Env) : Prop where
  chain : w.Chained spans env.chain env'.chain
  linked : w.Linked env.inner env'.inner

variable {w next : Overlay} {spans : Spans} {env env' : Env} {chain chain' : List Nat}

theorem chained_grown (grows : w.Grows next) (chained : w.Chained spans chain chain') : next.Chained spans chain chain' := by
  induction chained with
  | ground => exact .ground
  | lasts known _ ih => exact .lasts (grows.lasts _ _ known) ih
  | bare known _ ih => exact .bare (grows.bare _ known) ih
  | round known _ ih => exact .round (grows.rounds _ _ _ known) ih

theorem stands_grown (later : w.Later next) (stands : w.Stands spans env env') : next.Stands spans env env' :=
  ⟨chained_grown (later_grows later) stands.chain, linked_grown later stands.linked⟩

theorem chained_leads {distance distance' : Nat} (leads : spans.Leads distance distance') :
    ∀ {chain chain' : List Nat}, w.Chained spans chain chain' →
      ∃ layer partner, chain[distance]? = some layer ∧ chain'[distance']? = some partner ∧
        (w.Linked layer partner ∨ ∃ loop, chain'[distance' + 1]? = some loop ∧ w.roles[partner]? = some (.gone loop)) := by
  induction leads with
  | here =>
      intro chain chain' chained
      cases chained with
      | lasts known _ => exact ⟨_, _, rfl, rfl, .inl ⟨_, known, rfl⟩⟩
      | round known _ =>
          rcases known with live | gone
          · exact ⟨_, _, rfl, rfl, .inl ⟨_, live, rfl⟩⟩
          · exact ⟨_, _, rfl, rfl, .inr ⟨_, rfl, gone⟩⟩
  | further _ ih =>
      intro chain chain' chained
      cases chained with
      | lasts _ outer => exact ih outer
      | round _ outer => exact ih outer
  | past _ ih =>
      intro chain chain' chained
      cases chained with
      | bare _ outer => exact ih outer

end Overlay

structure Closure.Over (here there : Distances) (picked : List Stmt → Bool) (w : Overlay) (inner outer : Spans)
    (closure other : Closure) : Prop where
  routine : closure.routine.Aligned (here.Lead there) picked inner other.routine
  constructor : other.isConstructor = closure.isConstructor
  chain : w.Chained outer closure.env.chain other.env.chain

section Closures

variable {here there : Distances} {picked : List Stmt → Bool} {w next : Overlay} {inner outer : Spans}
  {closure other : Closure}

theorem over_head (laid : closure.Over here there picked w inner outer other) : closure.SameHead other :=
  ⟨(aligned_routine laid.routine).1, (aligned_routine laid.routine).2.1, laid.constructor⟩

theorem over_grown (grows : w.Grows next) (laid : closure.Over here there picked w inner outer other) :
    closure.Over here there picked next inner outer other :=
  ⟨laid.routine, laid.constructor, Overlay.chained_grown grows laid.chain⟩

end Closures

namespace Overlay

variable (here there : Distances) (picked : List Stmt → Bool)

def likeness (w : Overlay) : Likeness where
  function closure other := ∃ spans, closure.Over here there picked w spans spans other ∧
    (closure.isConstructor = true → w.roles[other.env.inner]? = some (.lasts closure.env.inner))
  method closure other := ∃ spans, closure.Over here there picked w (true :: spans) spans other
  function_head _ _ := fun ⟨_, laid, _⟩ => over_head laid
  method_head _ _ := fun ⟨_, laid⟩ => over_head laid

variable {here there : Distances} {picked : List Stmt → Bool} {w next : Overlay} {spans : Spans} {env env' : Env}

theorem within_grown (grows : w.Grows next) : (w.likeness here there picked).Within (next.likeness here there picked) where
  function _ _ := fun ⟨spans, laid, receiver⟩ =>
    ⟨spans, over_grown grows laid, fun kind => grows.lasts _ _ (receiver kind)⟩
  method _ _ := fun ⟨spans, laid⟩ => ⟨spans, over_grown grows laid⟩

theorem stands_child (chained : w.Chained spans env.chain env'.chain) :
    w.child.Stands (true :: spans) (env.child w.size) (env'.child w.roles.length) where
  chain := .lasts (child_role w) (chained_grown (later_grows (child_steadily w).later) chained)
  linked := ⟨_, child_role w, rfl⟩

theorem child_links (w : Overlay) : w.links.push.Covers w.child.links where
  size := rfl
  size' := by simp [child, push, links, Links.push]
  linked layer partner := by
    rintro ⟨role, known, held⟩
    rcases get_push.mp known with ⟨rfl, rfl⟩ | old
    · cases held
      exact .inr ⟨rfl, rfl⟩
    · exact .inl ⟨role, old, held⟩
  blank layer := by
    rintro ⟨partner, known⟩
    rcases get_push.mp known with ⟨_, new⟩ | old
    · cases new
    · exact ⟨partner, old⟩

variable (here there picked)

def course : Course Overlay where
  likeness := likeness here there picked
  links := links
  Later := Steadily
  still := still_steadily
  further _ _ _ := further_steadily
  within _ _ steadily := within_grown (later_grows steadily.later)
  child := child
  child_later := child_steadily
  child_links := child_links
  bound w method other := by
    rintro ⟨spans, laid⟩
    have stands := stands_child laid.chain
    exact ⟨true :: spans, ⟨laid.routine, laid.constructor, stands.chain⟩, fun _ => child_role w⟩
  here := here
  there := there

end Overlay

section Stores

open Overlay

variable {here there : Distances} {picked : List Stmt → Bool} {w : Overlay} {s t : Store} {layer partner loop : Nat}

theorem like_clear {k : Likeness} {links : Links} (like : s.Like k links t) (linked : links.linked layer partner) :
    Store.Like k links { s with layers := s.layers.modify layer fun _ => .empty }
      { t with layers := t.layers.modify partner fun _ => .empty } where
  size := (Array.size_modify ..).trans like.size
  size' := (Array.size_modify ..).trans like.size'
  layers l p known := by
    by_cases here : l = layer
    · have there := (links.apart _ _ _ _ known linked).mp here
      subst here there
      rw [layer_clear_self s, layer_clear_self t]
      exact Bindings.paired_empty
    · have there : p ≠ partner := fun equal => here ((links.apart _ _ _ _ known linked).mpr equal)
      rw [layer_clear_other s layer l here, layer_clear_other t partner p there]
      exact like.layers l p known
  blank l blank := by
    have here : l ≠ layer := fun same => links.blank_apart l partner blank (same ▸ linked)
    rw [layer_clear_other s layer l here]
    exact like.blank l blank
  objects := like.objects
  fields := like.fields
  identities := like.identities

theorem opened_like (like : s.Like (w.likeness here there picked) w.links t) :
    Store.Like (w.opened.likeness here there picked) w.opened.links { s with layers := s.layers.push .empty }
      { t with layers := t.layers.push .empty } where
  size := by simp [like.size, opened, push, links]
  size' := by simp [like.size', opened, push, links]
  layers l p := by
    rintro ⟨role, known, held⟩
    rcases get_push.mp known with ⟨_, rfl⟩ | old
    · cases held
    · have linked : w.links.linked l p := ⟨role, old, held⟩
      have inside := link_inside like linked
      rw [Store.layer_push s .empty l inside.1, Store.layer_push t .empty p inside.2]
      exact Bindings.paired_mono (like_within (within_grown (later_grows (push_later _ _ _ _)))) (like.layers l p linked)
  blank l := by
    rintro ⟨p, known⟩
    rcases get_push.mp known with ⟨_, new⟩ | old
    · cases new
      rw [← show s.layers.size = w.size from like.size, Store.layer_push_new s .empty]
    · have blank : w.links.blank l := ⟨p, old⟩
      rw [Store.layer_push s .empty l (like.size ▸ w.links.blank_inside l blank)]
      exact like.blank l blank
  objects := like.objects
  fields object := Bindings.paired_mono (like_within (within_grown (later_grows (push_later _ _ _ _)))) (like.fields object)
  identities := like.identities

theorem aside_like (like : s.Like (w.likeness here there picked) w.links t) :
    Store.Like (w.aside.likeness here there picked) w.aside.links s { t with layers := t.layers.push .empty } where
  size := like.size
  size' := by simp [like.size', aside, push, links]
  layers l p := by
    rintro ⟨role, known, held⟩
    rcases get_push.mp known with ⟨_, rfl⟩ | old
    · cases held
    · have linked : w.links.linked l p := ⟨role, old, held⟩
      rw [Store.layer_push t .empty p (link_inside like linked).2]
      exact Bindings.paired_mono (like_within (within_grown (later_grows (push_later _ _ _ _)))) (like.layers l p linked)
  blank l := by
    rintro ⟨p, known⟩
    rcases get_push.mp known with ⟨_, new⟩ | old
    · cases new
    · exact like.blank l ⟨p, old⟩
  objects := like.objects
  fields object := Bindings.paired_mono (like_within (within_grown (later_grows (push_later _ _ _ _)))) (like.fields object)
  identities := like.identities

theorem begun_like (waits : w.roles[loop]? = some (.waits layer)) (like : s.Like (w.likeness here there picked) w.links t) :
    Store.Like ((w.begun layer loop waits).likeness here there picked) (w.begun layer loop waits).links s
      { t with layers := t.layers.push .empty } where
  size := like.size
  size' := by simp [like.size', begun, links]
  layers l p := by
    rintro ⟨role, known, held⟩
    rcases begun_cases waits known with ⟨rfl, rfl⟩ | ⟨_, rfl⟩ | ⟨_, old⟩
    · cases held
      rw [← show t.layers.size = w.roles.length from like.size', Store.layer_push_new t .empty, like.blank layer ⟨loop, waits⟩]
      exact Bindings.paired_empty
    · cases held
    · have linked : w.links.linked l p := ⟨role, old, held⟩
      rw [Store.layer_push t .empty p (link_inside like linked).2]
      exact Bindings.paired_mono (like_within (within_grown (begun_grows waits))) (like.layers l p linked)
  blank l := by
    rintro ⟨p, known⟩
    rcases begun_cases waits known with ⟨_, new⟩ | ⟨_, new⟩ | ⟨_, old⟩
    · cases new
    · cases new
    · exact like.blank l ⟨p, old⟩
  objects := like.objects
  fields object := Bindings.paired_mono (like_within (within_grown (begun_grows waits))) (like.fields object)
  identities := like.identities

theorem ended_like (round : w.roles[partner]? = some (.round layer loop)) (runs : w.roles[loop]? = some .runs)
    (like : s.Like (w.likeness here there picked) w.links t) :
    Store.Like ((w.ended layer partner loop round runs).likeness here there picked)
      (w.ended layer partner loop round runs).links { s with layers := s.layers.modify layer fun _ => .empty }
      { t with layers := t.layers.modify loop fun _ => .empty } where
  size := (Array.size_modify ..).trans like.size
  size' := by simpa [ended, links] using like.size'
  layers l p := by
    rintro ⟨role, known, held⟩
    rcases ended_cases round runs known with ⟨_, rfl⟩ | ⟨_, rfl⟩ | ⟨outside, different, old⟩
    · cases held
    · cases held
    · have apart : l ≠ layer := by
        rintro rfl
        exact different (w.once _ _ _ _ _ round old rfl (Role.held_layer held))
      rw [layer_clear_other s layer l apart, layer_clear_other t loop p outside]
      exact Bindings.paired_mono (like_within (within_grown (ended_grows round runs))) (like.layers l p ⟨role, old, held⟩)
  blank l := by
    rintro ⟨p, known⟩
    rcases ended_cases round runs known with ⟨_, new⟩ | ⟨_, new⟩ | ⟨outside, different, old⟩
    · cases new
      exact layer_clear_self s layer
    · cases new
    · have apart : l ≠ layer := by
        rintro rfl
        exact different (w.once _ _ _ _ _ round old rfl rfl)
      rw [layer_clear_other s layer l apart]
      exact like.blank l ⟨p, old⟩
  objects := like.objects
  fields object := Bindings.paired_mono (like_within (within_grown (ended_grows round runs))) (like.fields object)
  identities := like.identities

end Stores

end TreeWalk
