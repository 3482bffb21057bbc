import TreeWalk.Proofs.Alongside

set_option autoImplicit false

namespace TreeWalk

def placeOf {Mark : Type} : List (Frame × Mark) → List Nat → String → Nat
  | (frame, _) :: outer, layer :: rest, name =>
      if frame.scope.contains name then layer else placeOf outer rest name
  | _, _, _ => 0

def Machine.LeadsTo (m : Machine) (id layer : Nat) : Prop :=
  match m.distances[id]? with
  | some distance => m.env.chain[distance]? = some layer
  | none => layer = 0

theorem place_at_distance {Mark : Type} {world : List Mark} (name : String) :
    ∀ (scopes : List (Frame × Mark)) (layers : List Nat), Views world scopes layers →
      match (scopes.map fun scope => scope.1.scope).findIdx? fun scope => scope.contains name with
      | some distance => layers[distance]? = some (placeOf scopes layers name)
      | none => placeOf scopes layers name = 0
  | [], _, _ => rfl
  | (frame, mark) :: outer, layer :: rest, ⟨_, further⟩ => by
      have behind := place_at_distance name outer rest further
      rw [List.map_cons, List.findIdx?_cons]
      by_cases here : frame.scope.contains name = true
      · simp only [here, if_true, placeOf, List.getElem?_cons_zero]
      · simp only [here, Bool.false_eq_true, if_false, placeOf]
        revert behind
        generalize (outer.map fun scope => scope.1.scope).findIdx? (fun scope => scope.contains name) = found
        cases found with
        | none => exact id
        | some distance => exact fun at_ => by simpa using at_

theorem place_marked {S : Scheme} {world : List S.Mark} (ground : world[0]? = some S.ground) (name : String) :
    ∀ (scopes : List (Frame × S.Mark)) (layers : List Nat), Views world scopes layers →
      ∃ mark, world[placeOf scopes layers name]? = some mark ∧ S.reading scopes name = S.spell mark name
  | [], _, _ => ⟨S.ground, ground, (S.spell_ground name).symm⟩
  | (frame, mark) :: outer, layer :: rest, ⟨marked, further⟩ => by
      by_cases here : frame.scope.contains name = true
      · simp only [placeOf, Scheme.reading, here, if_true]
        exact ⟨mark, marked, rfl⟩
      · simp only [placeOf, Scheme.reading, here, Bool.false_eq_true, if_false]
        exact place_marked ground name outer rest further

section Lookups

variable {env : Env} {distance layer : Nat} {name : String}

theorem find_in_layer (s : Store) : s.find? (Env.mk layer []).chain name = (s.layer layer).find? name := by
  simp [Store.find?, Env.chain]

theorem owner_in_layer (s : Store) :
    s.owner? (Env.mk layer []).chain name = if (s.layer layer).contains name then some layer else none := by
  cases known : (s.layer layer).contains name <;> simp [Store.owner?, Env.chain, known]

theorem get_at_layer (inside : env.chain[distance]? = some layer) :
    Store.getAt env distance name = Store.get ⟨layer, []⟩ name := by
  funext s
  unfold Store.getAt Store.get
  rw [inside, find_in_layer]

theorem assign_at_layer (inside : env.chain[distance]? = some layer) (value : Value) :
    Store.assignAt env distance name value = Store.assign ⟨layer, []⟩ name value := by
  funext s
  unfold Store.assignAt Store.assign
  rw [inside, owner_in_layer]
  cases known : (s.layer layer).contains name <;> simp [known]

variable {m m' : Machine} {id : Nat}

theorem read_in_layer (leads : m.LeadsTo id layer) (name : Name) :
    Eval.readName id name m = Eval.onStore name.line (Store.get ⟨layer, []⟩ name.text) m := by
  unfold Machine.LeadsTo at leads
  unfold Eval.readName
  rw [bind_ok _ (show Eval.distance? id m = .ok m.distances[id]? m from rfl)]
  cases distance : m.distances[id]? with
  | none =>
      rw [distance] at leads
      subst leads
      rfl
  | some distance' =>
      rw [distance] at leads
      dsimp only at leads ⊢
      rw [bind_ok _ (show Eval.currentEnv m = .ok m.env m from rfl)]
      rw [get_at_layer leads]

theorem write_in_layer (leads : m.LeadsTo id layer) (name : Name) (value : Value) :
    Eval.writeName id name value m = Eval.onStore name.line (Store.assign ⟨layer, []⟩ name.text value) m := by
  unfold Machine.LeadsTo at leads
  unfold Eval.writeName
  rw [bind_ok _ (show Eval.distance? id m = .ok m.distances[id]? m from rfl)]
  cases distance : m.distances[id]? with
  | none =>
      rw [distance] at leads
      subst leads
      rfl
  | some distance' =>
      rw [distance] at leads
      dsimp only at leads ⊢
      rw [bind_ok _ (show Eval.currentEnv m = .ok m.env m from rfl)]
      rw [assign_at_layer leads]

theorem read_at (leads : m.LeadsTo id layer) (name : Name) (value : Value) :
    Eval.readName id name m = .ok value m' ↔ m' = m ∧ (m.store.layer layer).find? name.text = some value := by
  rw [read_in_layer leads]
  cases found : (m.store.layer layer).find? name.text with
  | none => simp [Eval.onStore, Store.get, find_in_layer, found]
  | some result =>
      simp only [Eval.onStore, Store.get, find_in_layer, found]
      constructor
      · intro run
        cases run
        exact ⟨rfl, rfl⟩
      · rintro ⟨rfl, same⟩
        cases same
        rfl

theorem write_at (leads : m.LeadsTo id layer) (name : Name) (value : Value) (a : Unit) :
    Eval.writeName id name value m = .ok a m' ↔
      m' = { m with store := m.store.write layer name.text value } ∧
        (m.store.layer layer).contains name.text = true := by
  rw [write_in_layer leads]
  cases known : (m.store.layer layer).contains name.text with
  | false => simp [Eval.onStore, Store.assign, owner_in_layer, known]
  | true => simp [Eval.onStore, Store.assign, owner_in_layer, known, eq_comm]

end Lookups

section Follows

variable {k : Duet} {env : Env} {world : List k.scheme.Mark} {scopes : List (Frame × k.scheme.Mark)} {m n : Machine}

theorem leads_to_place (here : m.env = env) (distances : m.distances = k.distances) {node : Expr} {id : Nat}
    {name : String} (reference : node.reference? = some ⟨name, id⟩)
    (shown : k.seen (.ofFrames node (scopes.map Prod.fst))) (views : Views world scopes env.chain) :
    m.LeadsTo id (placeOf scopes env.chain name) := by
  have located := k.located _ _ shown reference
  have found : (Visit.ofFrames node (scopes.map Prod.fst)).found =
      (scopes.map fun scope => scope.1.scope).findIdx? fun scope => scope.contains name := by
    simp only [Visit.found, Visit.ofFrames, reference, Option.bind_some, List.map_map]
    rfl
  unfold Machine.LeadsTo
  rw [distances, here, located, found]
  exact place_at_distance name scopes env.chain views

theorem found_echoed (echoed : m.Echoed k env world n) (views : Views world scopes env.chain) (name : String)
    (value : Value) (found : (m.store.layer (placeOf scopes env.chain name)).find? name = some value) :
    ∃ value', (n.store.layer (placeOf scopes env.chain name)).find? (k.scheme.reading scopes name) = some value' ∧
      k.Echoes world value value' := by
  obtain ⟨mark, marked, spelled⟩ := place_marked echoed.store.ground name scopes env.chain views
  rw [spelled]
  exact (echoed.store.layers _ mark marked).found name value found

theorem written_echoed (echoed : m.Echoed k env world n) (views : Views world scopes env.chain) (name : String)
    {value value' : Value} (pair : k.Echoes world value value')
    (known : (m.store.layer (placeOf scopes env.chain name)).contains name = true) :
    (n.store.layer (placeOf scopes env.chain name)).contains (k.scheme.reading scopes name) = true ∧
      Machine.Echoed k env world { m with store := m.store.write (placeOf scopes env.chain name) name value }
        { n with store := n.store.write (placeOf scopes env.chain name) (k.scheme.reading scopes name) value' } := by
  obtain ⟨mark, marked, spelled⟩ := place_marked echoed.store.ground name scopes env.chain views
  have layers := echoed.store.layers _ mark marked
  rw [spelled]
  exact ⟨Bindings.spelled_contains layers name known,
    echoed_write echoed.store marked (layers.allowed name known) pair, echoed.here, echoed.there, echoed.distances,
    echoed.echoed, echoed.source, echoed.sink⟩

theorem follows_standard (k : Duet) : k.Follows .standard where
  renew := rfl
  read world env scopes node id name reference shown stands := by
    intro m n echoed value m' run
    have there := leads_to_place echoed.there echoed.echoed reference shown stands.views
    obtain ⟨rfl, found⟩ :=
      (read_at (leads_to_place echoed.here echoed.distances reference shown stands.views) name value).mp run
    obtain ⟨value', other, pair⟩ := found_echoed echoed stands.views name.text value found
    exact ⟨world, value', n, List.prefix_refl _, (read_at there _ value').mpr ⟨rfl, other⟩, echoed, pair⟩
  write world env scopes node id name value value' reference shown stands pair := by
    intro m n echoed a m' run
    have there := leads_to_place echoed.there echoed.echoed reference shown stands.views
    obtain ⟨rfl, known⟩ :=
      (write_at (leads_to_place echoed.here echoed.distances reference shown stands.views) name value a).mp run
    obtain ⟨other, written⟩ := written_echoed echoed stands.views name.text pair known
    exact ⟨world, (), _, List.prefix_refl _, (write_at there _ value' ()).mpr ⟨rfl, other⟩, written, trivial⟩

end Follows

end TreeWalk
