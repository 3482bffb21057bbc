import TreeWalk.Proofs.Alpha
import TreeWalk.Proofs.Places

set_option autoImplicit false

namespace TreeWalk

abbrev Scheme.disjoint (ground : List String) : Scheme where
  Mark := List String
  ground := ground
  receiver := [receiverName]
  spell _ name := name
  Allows mark name := name ∈ mark
  Fits scopes :=
    (∀ scope ∈ scopes, receiverName ∈ scope.2 → scope.1.scope.contains receiverName = true) ∧
      (scopes.map Prod.snd ++ [ground]).Pairwise fun own others => ∀ name ∈ own, name ∈ others → name = receiverName
  spell_ground _ := rfl
  spell_receiver _ := rfl
  allows_receiver := List.mem_singleton_self _
  distinct _ _ _ _ _ := id
  fits_nil := ⟨fun _ member => (nomatch member), List.pairwise_singleton _ _⟩
  fits_declare frame mark outer name ready := by
    rintro ⟨named, apart⟩
    refine ⟨fun scope member inside => ?_, apart⟩
    rcases List.mem_cons.mp member with rfl | later
    · exact (Bindings.contains_insert _ _ _).mpr (.inr (named _ List.mem_cons_self inside))
    · exact named scope (List.mem_cons_of_mem _ later) inside

section Searches

variable {ground : List String} {world : List (List String)}

theorem disjoint_reading (scopes : List (Frame × List String)) (name : String) :
    (Scheme.disjoint ground).reading scopes name = name :=
  (Scheme.disjoint ground).reading_same (fun _ _ => rfl) scopes name

theorem disjoint_outer {frame : Frame} {mark : List String} {outer : List (Frame × List String)}
    (fits : (Scheme.disjoint ground).Fits ((frame, mark) :: outer)) : (Scheme.disjoint ground).Fits outer :=
  ⟨fun scope member => fits.1 scope (List.mem_cons_of_mem _ member), (List.pairwise_cons.mp fits.2).2⟩

theorem place_known (known : world[0]? = some ground) (name : String) :
    ∀ (scopes : List (Frame × List String)) (layers : List Nat), Views world scopes layers →
      ∃ mark ∈ scopes.map Prod.snd ++ [ground], world[placeOf scopes layers name]? = some mark
  | [], _, _ => ⟨ground, List.mem_singleton_self _, known⟩
  | (frame, mark) :: outer, layer :: rest, ⟨marked, further⟩ => by
      by_cases here : frame.scope.contains name = true
      · simp only [placeOf, here, if_true]
        exact ⟨mark, List.mem_cons_self, marked⟩
      · simp only [placeOf, here, Bool.false_eq_true, if_false]
        obtain ⟨other, member, same⟩ := place_known known name outer rest further
        exact ⟨other, List.mem_cons_of_mem _ member, same⟩

theorem search_ends (store : Store) (known : world[0]? = some ground)
    (allowed : ∀ layer mark, world[layer]? = some mark → ∀ name, (store.layer layer).contains name = true → name ∈ mark)
    (name : String) : ∀ (scopes : List (Frame × List String)) (layers : List Nat), Views world scopes layers →
      (Scheme.disjoint ground).Fits scopes → (store.layer (placeOf scopes layers name)).contains name = true →
      store.owner? layers name = some (placeOf scopes layers name)
  | [], _, rfl, _, bound => List.find?_cons_of_pos bound
  | (frame, mark) :: outer, layer :: rest, ⟨marked, further⟩, fits, bound => by
      by_cases here : frame.scope.contains name = true
      · simp only [placeOf, here, if_true] at bound ⊢
        exact List.find?_cons_of_pos bound
      · simp only [placeOf, here, Bool.false_eq_true, if_false] at bound ⊢
        have absent : (store.layer layer).contains name = false := by
          rw [← Bool.not_eq_true]
          intro also
          obtain ⟨other, member, same⟩ := place_known known name outer rest further
          have receiver : name = receiverName := (List.pairwise_cons.mp fits.2).1 other member name
            (allowed layer mark marked name also) (allowed _ other same name bound)
          subst receiver
          exact here (fits.1 _ List.mem_cons_self (allowed layer mark marked _ also))
        simp only [Store.owner?, List.find?_cons, absent]
        exact search_ends store known allowed name outer rest further (disjoint_outer fits) bound

theorem find_at_owner (store : Store) (name : String) (layer : Nat) : ∀ chain : List Nat,
    store.owner? chain name = some layer → store.find? chain name = (store.layer layer).find? name
  | [], owner => nomatch owner
  | first :: rest, owner => by
      simp only [Store.owner?, List.find?_cons, Bindings.contains] at owner
      simp only [Store.find?, List.findSome?_cons]
      cases found : (store.layer first).find? name with
      | some value =>
          simp only [found, Option.isSome_some, Option.some.injEq] at owner
          rw [← owner, found]
      | none =>
          simp only [found, Option.isSome_none] at owner
          exact find_at_owner store name layer rest owner

theorem echoed_allowed {seen : Visit → Prop} {s t : Store} (echoed : s.Echoed (Scheme.disjoint ground) seen world t)
    (layer : Nat) (mark : List String) (marked : world[layer]? = some mark) (name : String)
    (known : (t.layer layer).contains name = true) : name ∈ mark := by
  have layers := echoed.layers layer mark marked
  obtain ⟨_, inside, rfl⟩ := layers.origin name known
  exact layers.allowed _ inside

end Searches

theorem follows_outward (ground : List String) (seen : Visit → Prop) (distances : Distances)
    (located : ∀ v r, seen v → v.node.reference? = some r → distances[r.id]? = v.found) :
    (Duet.mk (Scheme.disjoint ground) seen distances located).Follows .outward where
  renew := rfl
  read world env scopes node id name reference shown stands := by
    intro m n echoed value m' run
    obtain ⟨rfl, found⟩ :=
      (read_at (leads_to_place echoed.here echoed.distances reference shown stands.views) name value).mp run
    obtain ⟨value', other, pair⟩ := found_echoed echoed stands.views name.text value found
    rw [disjoint_reading] at other
    have owner := search_ends n.store echoed.store.ground (echoed_allowed echoed.store) name.text scopes _ stands.views
      stands.fits (Bindings.contains_of_find _ _ other)
    refine ⟨world, value', n, List.prefix_refl _, ?_, echoed, pair⟩
    show (Eval.currentEnv >>= _) n = _
    rw [bind_ok _ (show Eval.currentEnv n = .ok env n from echoed.there ▸ rfl)]
    simp only [Eval.onStore, Store.get, Name.respell, disjoint_reading, find_at_owner _ _ _ _ owner, other]
  write world env scopes node id name value value' reference shown stands pair := by
    intro m n echoed a m' run
    obtain ⟨rfl, known⟩ :=
      (write_at (leads_to_place echoed.here echoed.distances reference shown stands.views) name value a).mp run
    obtain ⟨other, written⟩ := written_echoed echoed stands.views name.text pair known
    rw [disjoint_reading] at other written
    have owner := search_ends n.store echoed.store.ground (echoed_allowed echoed.store) name.text scopes _ stands.views
      stands.fits other
    refine ⟨world, (), _, List.prefix_refl _, ?_, written, trivial⟩
    show (Eval.currentEnv >>= _) n = _
    rw [bind_ok _ (show Eval.currentEnv n = .ok env n from echoed.there ▸ rfl)]
    simp only [Eval.onStore, Store.assign, Name.respell, disjoint_reading, owner]

end TreeWalk
