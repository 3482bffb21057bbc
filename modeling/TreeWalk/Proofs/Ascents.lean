import TreeWalk.Proofs.Slots

set_option autoImplicit false

namespace TreeWalk

-- The links lead from a layer along a chain of layers, each made before the one that it encloses, to
-- the globals.
inductive Climb (enclosing : Nat → Option Nat) : Nat → List Nat → Prop where
  | globals (top : enclosing 0 = none) : Climb enclosing 0 [0]
  | outward (layer outer : Nat) (chain : List Nat) (link : enclosing layer = some outer) (earlier : outer < layer)
      (rest : Climb enclosing outer chain) : Climb enclosing layer (layer :: chain)

-- Layer after layer is visited, link by link, up to the first one at which the search stops, if it
-- comes to one. Whether it stops may depend on how many layers were passed.
inductive Search (enclosing : Nat → Option Nat) (stops : Nat → Nat → Prop) :
    Nat → Nat → List Nat → Option Nat → Prop where
  | found (passed layer : Nat) (here : stops passed layer) : Search enclosing stops passed layer [layer] (some layer)
  | none (passed layer : Nat) (on : ¬ stops passed layer) (top : enclosing layer = none) :
      Search enclosing stops passed layer [layer] none
  | outward (passed layer outer : Nat) (visited : List Nat) (found : Option Nat) (on : ¬ stops passed layer)
      (link : enclosing layer = some outer) (rest : Search enclosing stops (passed + 1) outer visited found) :
      Search enclosing stops passed layer (layer :: visited) found

-- An environment whose layers were made, and hang off the globals.
structure Env.HangsOff (enclosing : Nat → Option Nat) (made : Nat) (env : Env) : Prop where
  inside : env.inner < made
  climb : Climb enclosing env.inner env.chain

-- What works on names goes through the layers link by link, and through none of them twice.
structure Store.Follows (s : Store) (enclosing : Nat → Option Nat) (env : Env) : Prop where
  once : ∀ stops, ∃ visited found, visited.Nodup ∧
    ∀ others other, Search enclosing stops 0 env.inner others other ↔ others = visited ∧ other = found
  get : ∀ name visited found,
    Search enclosing (fun _ layer => (s.layer layer).contains name = true) 0 env.inner visited found →
    (found = none → Store.get env name s = .error (.undefined name) s) ∧
    ∀ layer, found = some layer → ∃ value, (s.layer layer).find? name = some value ∧ Store.get env name s = .ok value s
  assign : ∀ name value visited found,
    Search enclosing (fun _ layer => (s.layer layer).contains name = true) 0 env.inner visited found →
    (found = none → Store.assign env name value s = .error (.unassignable name) s) ∧
    ∀ layer, found = some layer → Store.assign env name value s = .ok () (s.write layer name value)
  getAt : ∀ distance name visited found,
    Search enclosing (fun passed _ => passed = distance) 0 env.inner visited found →
    (found = none → Store.getAt env distance name s = .error (.noLayer distance) s) ∧
    ∀ layer, found = some layer → Store.getAt env distance name s = Store.get ⟨layer, []⟩ name s
  assignAt : ∀ distance name value visited found,
    Search enclosing (fun passed _ => passed = distance) 0 env.inner visited found →
    (found = none → Store.assignAt env distance name value s = .error (.noLayer distance) s) ∧
    ∀ layer, found = some layer → Store.assignAt env distance name value s = Store.assign ⟨layer, []⟩ name value s

section Climbs

variable {enclosing : Nat → Option Nat} {layer : Nat} {chain : List Nat}

theorem climb_head (climb : Climb enclosing layer chain) : ∃ further, chain = layer :: further := by
  cases climb with
  | globals top => exact ⟨[], rfl⟩
  | outward layer outer chain link earlier rest => exact ⟨chain, rfl⟩

theorem climb_at_most (climb : Climb enclosing layer chain) : ∀ other ∈ chain, other ≤ layer := by
  induction climb with
  | globals top => simp
  | outward layer outer chain link earlier rest ih =>
      intro other member
      rcases List.mem_cons.mp member with rfl | further
      · exact Nat.le_refl other
      · exact Nat.le_of_lt (Nat.lt_of_le_of_lt (ih other further) earlier)

theorem climb_descends (climb : Climb enclosing layer chain) : chain.Pairwise (· > ·) := by
  induction climb with
  | globals top => exact List.pairwise_singleton _ _
  | outward layer outer chain link earlier rest ih =>
      have below : ∀ other ∈ chain, other < layer :=
        fun other member => Nat.lt_of_le_of_lt (climb_at_most rest other member) earlier
      exact List.pairwise_cons.mpr ⟨below, ih⟩

theorem climb_nodup (climb : Climb enclosing layer chain) : chain.Nodup :=
  (climb_descends climb).imp Nat.ne_of_gt

theorem climb_top (climb : Climb enclosing layer chain) : enclosing layer = none ↔ layer = 0 := by
  cases climb with
  | globals top => simp [top]
  | outward _ outer _ link earlier _ => simp [link, Nat.ne_zero_of_lt earlier]

theorem climb_earlier (climb : Climb enclosing layer chain) (outer : Nat) (link : enclosing layer = some outer) :
    outer < layer := by
  cases climb with
  | globals top => cases top.symm.trans link
  | outward _ other _ link' earlier _ =>
      cases link.symm.trans link'
      exact earlier

theorem climb_link {further : List Nat} (climb : Climb enclosing layer (layer :: further)) :
    enclosing layer = further.head? := by
  cases climb with
  | globals top => exact top
  | outward _ outer _ link earlier rest =>
      obtain ⟨beyond, rfl⟩ := climb_head rest
      exact link

theorem climb_further {outer : Nat} {further : List Nat} (climb : Climb enclosing layer (layer :: outer :: further)) :
    Climb enclosing outer (outer :: further) := by
  cases climb with
  | outward _ other _ link earlier rest =>
      obtain ⟨beyond, same⟩ := climb_head rest
      cases same
      exact rest

theorem climb_later {later : Nat → Option Nat} (same : ∀ other ≤ layer, later other = enclosing other)
    (climb : Climb enclosing layer chain) : Climb later layer chain := by
  induction climb with
  | globals top => exact .globals ((same 0 (Nat.le_refl 0)).trans top)
  | outward layer outer chain link earlier rest ih =>
      refine .outward layer outer chain ((same layer (Nat.le_refl layer)).trans link) earlier (ih fun other below => ?_)
      exact same other (Nat.le_trans below (Nat.le_of_lt earlier))

end Climbs

section Searches

variable {enclosing : Nat → Option Nat} {stops : Nat → Nat → Prop} {passed layer : Nat}
  {chain visited others : List Nat} {found other : Option Nat}

theorem search_exists (climb : Climb enclosing layer chain) (stops : Nat → Nat → Prop) (passed : Nat) :
    ∃ visited found, Search enclosing stops passed layer visited found ∧ visited <+: chain := by
  induction climb generalizing passed with
  | globals top =>
      by_cases here : stops passed 0
      · exact ⟨[0], some 0, .found passed 0 here, List.prefix_rfl⟩
      · exact ⟨[0], none, .none passed 0 here top, List.prefix_rfl⟩
  | outward layer outer chain link earlier rest ih =>
      by_cases here : stops passed layer
      · exact ⟨[layer], some layer, .found passed layer here, chain, rfl⟩
      · obtain ⟨visited, found, search, ahead⟩ := ih (passed + 1)
        exact ⟨layer :: visited, found, .outward passed layer outer visited found here link search,
          List.cons_prefix_cons.mpr ⟨rfl, ahead⟩⟩

theorem search_unique (search : Search enclosing stops passed layer visited found)
    (again : Search enclosing stops passed layer others other) : others = visited ∧ other = found := by
  induction search generalizing others other with
  | found passed layer here =>
      cases again with
      | found _ _ _ => exact ⟨rfl, rfl⟩
      | none _ _ on _ | outward _ _ _ _ _ on _ _ => exact (on here).elim
  | none passed layer on top =>
      cases again with
      | found _ _ here => exact (on here).elim
      | none _ _ _ _ => exact ⟨rfl, rfl⟩
      | outward _ _ _ _ _ _ link _ => cases top.symm.trans link
  | outward passed layer outer visited found on link rest ih =>
      cases again with
      | found _ _ here => exact (on here).elim
      | none _ _ _ top => cases top.symm.trans link
      | outward _ _ beyond _ _ _ link' rest' =>
          cases link.symm.trans link'
          obtain ⟨rfl, rfl⟩ := ih rest'
          exact ⟨rfl, rfl⟩

theorem search_first {is : Nat → Bool} (climb : Climb enclosing layer chain)
    (search : Search enclosing (fun _ layer => is layer = true) passed layer visited found) :
    found = chain.find? is := by
  induction climb generalizing passed visited with
  | globals top =>
      cases search with
      | found _ _ here => simp [here]
      | none _ _ on _ => simp [on]
      | outward _ _ _ _ _ _ link _ => cases top.symm.trans link
  | outward layer outer chain link earlier rest ih =>
      cases search with
      | found _ _ here => simp [here]
      | none _ _ _ top => cases top.symm.trans link
      | outward _ _ _ _ _ on link' search =>
          cases link.symm.trans link'
          rw [List.find?_cons_of_neg on]
          exact ih search

theorem search_place {distance : Nat} (climb : Climb enclosing layer chain) (near : passed ≤ distance)
    (search : Search enclosing (fun passed _ => passed = distance) passed layer visited found) :
    found = chain[distance - passed]? := by
  induction climb generalizing passed visited with
  | globals top =>
      cases search with
      | found _ _ here => simp [here]
      | none _ _ on _ =>
          have further : distance - passed ≠ 0 := by omega
          simp [further]
      | outward _ _ _ _ _ _ link _ => cases top.symm.trans link
  | outward layer outer chain link earlier rest ih =>
      cases search with
      | found _ _ here => simp [here]
      | none _ _ _ top => cases top.symm.trans link
      | outward _ _ _ _ _ on link' search =>
          cases link.symm.trans link'
          have further : distance - passed = distance - (passed + 1) + 1 := by omega
          rw [further, List.getElem?_cons_succ]
          exact ih (by omega) search

end Searches

namespace Store

variable {enclosing : Nat → Option Nat} {s : Store} {env : Env} {name : String} {layer : Nat}

theorem get_of_owner (owner : s.owner? env.chain name = some layer) :
    ∃ value, (s.layer layer).find? name = some value ∧ get env name s = .ok value s := by
  obtain ⟨binds, nearer, further, chain, unbound⟩ := List.find?_eq_some_iff_append.mp owner
  obtain ⟨value, holds⟩ := (binds_iff s layer name).mp binds
  have first := first_of_split chain binds fun other inside => by simpa [Binds] using unbound other inside
  exact ⟨value, holds, by rw [get, find_of_first first, holds]⟩

theorem get_of_none (none : s.owner? env.chain name = none) : get env name s = .error (.undefined name) s := by
  rw [get, find_of_unbound (List.find?_eq_none.mp none)]

theorem get_at_layer {distance : Nat} (there : env.chain[distance]? = some layer) :
    getAt env distance name s = get ⟨layer, []⟩ name s := by
  rw [getAt, there]
  cases found : (s.layer layer).find? name <;> simp [get, Store.find?, Env.chain, found]

theorem assign_at_layer {distance : Nat} (value : Value) (there : env.chain[distance]? = some layer) :
    assignAt env distance name value s = assign ⟨layer, []⟩ name value s := by
  rw [assignAt, there]
  cases known : (s.layer layer).contains name <;> simp [assign, owner?, Env.chain, known]

theorem climb_follows (climb : Climb enclosing env.inner env.chain) : s.Follows enclosing env where
  once stops := by
    obtain ⟨visited, found, search, ahead⟩ := search_exists climb stops 0
    refine ⟨visited, found, (climb_nodup climb).sublist ahead.sublist, fun others other => ⟨?_, ?_⟩⟩
    · exact fun again => search_unique search again
    · rintro ⟨rfl, rfl⟩
      exact search
  get name visited found search := by
    have owner : found = s.owner? env.chain name := search_first climb search
    exact ⟨fun none => get_of_none (owner ▸ none), fun layer some => get_of_owner (owner ▸ some)⟩
  assign name value visited found search := by
    have owner : found = s.owner? env.chain name := search_first climb search
    exact ⟨fun none => by rw [assign, ← owner, none], fun layer some => by rw [assign, ← owner, some]⟩
  getAt distance name visited found search := by
    have place : found = env.chain[distance]? := search_place climb (Nat.zero_le distance) search
    exact ⟨fun none => by rw [getAt, ← place, none], fun layer some => get_at_layer (place ▸ some)⟩
  assignAt distance name value visited found search := by
    have place : found = env.chain[distance]? := search_place climb (Nat.zero_le distance) search
    exact ⟨fun none => by rw [assignAt, ← place, none], fun layer some => assign_at_layer value (place ▸ some)⟩

end Store

end TreeWalk
