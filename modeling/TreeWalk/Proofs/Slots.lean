import TreeWalk.Proofs.Accesses
import TreeWalk.Proofs.Stores

set_option autoImplicit false

namespace TreeWalk

namespace Store

def Binds (s : Store) (layer : Nat) (name : String) : Prop :=
  (s.layer layer).contains name = true

-- On the way outward the first layer that binds the name is `layer`, `hops` steps up.
structure First (s : Store) (env : Env) (name : String) (hops layer : Nat) : Prop where
  there : env.chain[hops]? = some layer
  binds : s.Binds layer name
  nearer : ∀ fewer < hops, ∀ other, env.chain[fewer]? = some other → ¬ s.Binds other name

-- The slot holds the value, and all the rest is as it was.
structure Changed (s t : Store) (layer : Nat) (name : String) (value : Value) : Prop where
  here : (t.layer layer).find? name = some value
  elsewhere : ∀ other key, other ≠ layer ∨ key ≠ name → (t.layer other).find? key = (s.layer other).find? key
  sizes : t.layers.size = s.layers.size
  objects : t.objects = s.objects
  nextIdentity : t.nextIdentity = s.nextIdentity

def answer {α : Type} (act : StoreM α) (s : Store) : Except RuntimeFault α :=
  match act s with
  | .ok a _ => .ok a
  | .error fault _ => .error fault

section Walks

variable {s : Store} {env : Env} {name : String}

theorem binds_iff (s : Store) (layer : Nat) (name : String) :
    s.Binds layer name ↔ ∃ value, (s.layer layer).find? name = some value :=
  Option.isSome_iff_exists

theorem not_binds_iff (s : Store) (layer : Nat) (name : String) :
    ¬ s.Binds layer name ↔ (s.layer layer).find? name = none := by
  rw [binds_iff, ← Option.isSome_iff_exists, Option.not_isSome_iff_eq_none]

theorem first_of_split {nearer further : List Nat} {layer : Nat} (chain : env.chain = nearer ++ layer :: further)
    (binds : s.Binds layer name) (unbound : ∀ other ∈ nearer, ¬ s.Binds other name) :
    s.First env name nearer.length layer := by
  refine ⟨by rw [chain]; simp, binds, fun fewer less other there => ?_⟩
  rw [chain, List.getElem?_append_left less] at there
  exact unbound other (List.mem_of_getElem? there)

theorem first_split {hops layer : Nat} (first : s.First env name hops layer) :
    ∃ nearer further, env.chain = nearer ++ layer :: further ∧ nearer.length = hops ∧
      ∀ other ∈ nearer, ¬ s.Binds other name := by
  obtain ⟨inside, at_⟩ := List.getElem?_eq_some_iff.mp first.there
  refine ⟨env.chain.take hops, env.chain.drop (hops + 1), ?_, List.length_take_of_le (Nat.le_of_lt inside), ?_⟩
  · rw [← at_, ← List.drop_eq_getElem_cons inside, List.take_append_drop]
  · intro other member
    obtain ⟨place, there⟩ := List.mem_iff_getElem?.mp member
    have less : place < hops := by
      have bound := (List.getElem?_eq_some_iff.mp there).1
      rw [List.length_take] at bound
      omega
    rw [List.getElem?_take_of_lt less] at there
    exact first.nearer place less other there

theorem first_exists (s : Store) (env : Env) (name : String) :
    (∃ hops layer, s.First env name hops layer) ↔ ∃ layer ∈ env.chain, s.Binds layer name := by
  constructor
  · rintro ⟨hops, layer, first⟩
    exact ⟨layer, List.mem_of_getElem? first.there, first.binds⟩
  · rintro ⟨layer, member, binds⟩
    have found : (env.chain.find? fun id => (s.layer id).contains name).isSome :=
      List.find?_isSome.mpr ⟨layer, member, binds⟩
    obtain ⟨owner, owned⟩ := Option.isSome_iff_exists.mp found
    obtain ⟨bound, nearer, further, chain, unbound⟩ := List.find?_eq_some_iff_append.mp owned
    exact ⟨nearer.length, owner, first_of_split chain bound fun other inside => by simpa [Binds] using unbound other inside⟩

theorem find_of_first {hops layer : Nat} (first : s.First env name hops layer) :
    s.find? env.chain name = (s.layer layer).find? name := by
  obtain ⟨value, bound⟩ := (binds_iff s layer name).mp first.binds
  obtain ⟨nearer, further, chain, _, unbound⟩ := first_split first
  rw [bound]
  exact List.findSome?_eq_some_iff.mpr
    ⟨nearer, layer, further, chain, bound, fun other inside => (not_binds_iff s other name).mp (unbound other inside)⟩

theorem owner_of_first {hops layer : Nat} (first : s.First env name hops layer) :
    s.owner? env.chain name = some layer := by
  obtain ⟨nearer, further, chain, _, unbound⟩ := first_split first
  exact List.find?_eq_some_iff_append.mpr
    ⟨first.binds, nearer, further, chain, fun other inside => by simpa [Binds] using unbound other inside⟩

theorem find_of_unbound (unbound : ∀ layer ∈ env.chain, ¬ s.Binds layer name) : s.find? env.chain name = none :=
  List.findSome?_eq_none_iff.mpr fun layer member => (not_binds_iff s layer name).mp (unbound layer member)

theorem owner_of_unbound (unbound : ∀ layer ∈ env.chain, ¬ s.Binds layer name) : s.owner? env.chain name = none :=
  List.find?_eq_none.mpr unbound

theorem first_or_unbound (s : Store) (env : Env) (name : String) :
    (∃ hops layer, s.First env name hops layer) ∨ ∀ layer ∈ env.chain, ¬ s.Binds layer name := by
  by_cases bound : ∃ layer ∈ env.chain, s.Binds layer name
  · exact .inl ((first_exists s env name).mpr bound)
  · exact .inr fun layer member binds => bound ⟨layer, member, binds⟩

end Walks

section Operations

variable (s : Store) (env : Env) (name : String)

theorem get_cases :
    (∃ hops layer value, s.First env name hops layer ∧ (s.layer layer).find? name = some value ∧
      get env name s = .ok value s) ∨
    ((∀ layer ∈ env.chain, ¬ s.Binds layer name) ∧ get env name s = .error (.undefined name) s) := by
  unfold get
  rcases first_or_unbound s env name with ⟨hops, layer, first⟩ | unbound
  · obtain ⟨value, holds⟩ := (binds_iff s layer name).mp first.binds
    exact .inl ⟨hops, layer, value, first, holds, by rw [find_of_first first, holds]⟩
  · exact .inr ⟨unbound, by rw [find_of_unbound unbound]⟩

theorem assign_cases (value : Value) :
    (∃ hops layer, s.First env name hops layer ∧ assign env name value s = .ok () (s.write layer name value)) ∨
    ((∀ layer ∈ env.chain, ¬ s.Binds layer name) ∧ assign env name value s = .error (.unassignable name) s) := by
  unfold assign
  rcases first_or_unbound s env name with ⟨hops, layer, first⟩ | unbound
  · exact .inl ⟨hops, layer, first, by rw [owner_of_first first]⟩
  · exact .inr ⟨unbound, by rw [owner_of_unbound unbound]⟩

theorem get_at_there {hops layer : Nat} {value : Value} (there : env.chain[hops]? = some layer)
    (holds : (s.layer layer).find? name = some value) : getAt env hops name s = .ok value s := by
  unfold getAt
  rw [there]
  dsimp only
  rw [holds]

theorem assign_at_cases (hops : Nat) (value : Value) :
    (∃ layer, env.chain[hops]? = some layer ∧ s.Binds layer name ∧
      assignAt env hops name value s = .ok () (s.write layer name value)) ∨
    ((∀ layer, env.chain[hops]? = some layer → ¬ s.Binds layer name) ∧
      ∃ fault, assignAt env hops name value s = .error fault s) := by
  unfold assignAt
  cases there : env.chain[hops]? with
  | none => exact .inr ⟨nofun, _, rfl⟩
  | some layer =>
      by_cases binds : s.Binds layer name
      · exact .inl ⟨layer, rfl, binds, if_pos binds⟩
      · refine .inr ⟨fun other same => ?_, _, if_neg binds⟩
        cases same
        exact binds

theorem define_cases (value : Value) :
    (¬ s.Binds env.inner name ∧ define env name value s = .ok () (s.write env.inner name value)) ∨
    (s.Binds env.inner name ∧ define env name value s = .error (.redefined name) s) := by
  unfold define
  by_cases binds : s.Binds env.inner name
  · exact .inr ⟨binds, if_pos binds⟩
  · exact .inl ⟨binds, if_neg binds⟩

theorem fails_unchanged (hops : Nat) (value : Value) (fault : RuntimeFault) (t : Store)
    (fails : get env name s = .error fault t ∨ getAt env hops name s = .error fault t ∨
      assign env name value s = .error fault t ∨ assignAt env hops name value s = .error fault t ∨
      define env name value s = .error fault t) : t = s := by
  rcases fails with fails | fails | fails | fails | fails
  · exact (ends_error _ _ _ _ _ _ (reads_get env name s) fails).1
  · exact (ends_error _ _ _ _ _ _ (reads_get_at env hops name s) fails).1
  · exact (ends_error _ _ _ _ _ _ (writes_assign env name value s) fails).1
  · exact (ends_error _ _ _ _ _ _ (writes_assign_at env hops name value s) fails).1
  · exact (ends_error _ _ _ _ _ _ (define_ends env name value s) fails).1

end Operations

section Changes

variable {s t : Store} {layer : Nat} {name : String} {value : Value}

theorem write_changes (inside : layer < s.layers.size) (name : String) (value : Value) :
    s.Changed (s.write layer name value) layer name value where
  here := by rw [layer_write_self s layer name value inside, Bindings.find_insert_self]
  elsewhere := by
    rintro other key (apart | apart)
    · rw [layer_write_other s layer other name value apart]
    · exact find_write_kept s layer other name key value apart
  sizes := Array.size_modify
  objects := rfl
  nextIdentity := rfl

theorem changed_binds (changed : s.Changed t layer name value) {other : Nat} {key : String}
    (apart : other ≠ layer ∨ key ≠ name) : t.Binds other key ↔ s.Binds other key := by
  unfold Binds Bindings.contains
  rw [changed.elsewhere other key apart]

theorem changed_seen (changed : s.Changed t layer name value) {env : Env} {hops : Nat}
    (first : t.First env name hops layer) : answer (get env name) t = .ok value := by
  unfold answer get
  rw [find_of_first first, changed.here]

theorem find_same {env : Env} {key : String}
    (same : ∀ hops other, t.First env key hops other → (t.layer other).find? key = (s.layer other).find? key)
    (unbound : ∀ other, ¬ t.Binds other key → ¬ s.Binds other key) :
    t.find? env.chain key = s.find? env.chain key := by
  rcases first_or_unbound t env key with ⟨hops, other, first⟩ | none
  · have kept := same hops other first
    have also : s.First env key hops other := by
      refine ⟨first.there, ?_, fun fewer less nearer there => unbound nearer (first.nearer fewer less nearer there)⟩
      have binds := first.binds
      unfold Binds Bindings.contains at binds ⊢
      rwa [← kept]
    rw [find_of_first first, find_of_first also, kept]
  · rw [find_of_unbound none, find_of_unbound fun other member => unbound other (none other member)]

theorem changed_unseen (changed : s.Changed t layer name value) (env : Env) (key : String)
    (unseen : ¬ (key = name ∧ ∃ hops, t.First env name hops layer)) :
    answer (get env key) t = answer (get env key) s := by
  have same : t.find? env.chain key = s.find? env.chain key := by
    apply find_same
    · intro hops other first
      apply changed.elsewhere
      by_cases named : key = name
      · subst named
        exact .inl fun here => unseen ⟨rfl, hops, here ▸ first⟩
      · exact .inr named
    · intro other free bound
      by_cases slot : other = layer ∧ key = name
      · obtain ⟨rfl, rfl⟩ := slot
        exact free ((binds_iff t other key).mpr ⟨value, changed.here⟩)
      · exact free ((changed_binds changed (Decidable.not_and_iff_not_or_not.mp slot)).mpr bound)
  unfold answer get
  rw [same]
  cases s.find? env.chain key <;> rfl

end Changes

section Outcomes

variable (s : Store) (env : Env) (name : String)

theorem get_succeeds_iff : (∃ found t, get env name s = .ok found t) ↔ ∃ layer ∈ env.chain, s.Binds layer name := by
  rw [← first_exists]
  rcases get_cases s env name with ⟨hops, layer, found, first, _, run⟩ | ⟨unbound, run⟩
  · exact iff_of_true ⟨found, s, run⟩ ⟨hops, layer, first⟩
  · refine iff_of_false (fun ⟨found, t, also⟩ => ?_) fun ⟨hops, layer, first⟩ => ?_
    · rw [run] at also
      cases also
    · exact unbound layer (List.mem_of_getElem? first.there) first.binds

theorem get_reads_first (found : Value) (t : Store) (run : get env name s = .ok found t) :
    ∃ hops layer, s.First env name hops layer ∧ getAt env hops name s = .ok found t ∧ t = s := by
  rcases get_cases s env name with ⟨hops, layer, value, first, holds, read⟩ | ⟨_, failed⟩
  · rw [read] at run
    cases run
    exact ⟨hops, layer, first, get_at_there s env name first.there holds, rfl⟩
  · rw [failed] at run
    cases run

variable (value : Value)

theorem assign_succeeds_iff :
    (∃ t, assign env name value s = .ok () t) ↔ ∃ layer ∈ env.chain, s.Binds layer name := by
  rw [← first_exists]
  rcases assign_cases s env name value with ⟨hops, layer, first, run⟩ | ⟨unbound, run⟩
  · exact iff_of_true ⟨_, run⟩ ⟨hops, layer, first⟩
  · refine iff_of_false (fun ⟨t, also⟩ => ?_) fun ⟨hops, layer, first⟩ => ?_
    · rw [run] at also
      cases also
    · exact unbound layer (List.mem_of_getElem? first.there) first.binds

theorem assign_changes_first (t : Store) (run : assign env name value s = .ok () t) :
    ∃ hops layer, s.First env name hops layer ∧ s.Changed t layer name value := by
  rcases assign_cases s env name value with ⟨hops, layer, first, wrote⟩ | ⟨_, failed⟩
  · rw [wrote] at run
    cases run
    exact ⟨hops, layer, first, write_changes (inside_of_contains s layer name first.binds) name value⟩
  · rw [failed] at run
    cases run

theorem assign_at_succeeds_iff (hops : Nat) : (∃ t, assignAt env hops name value s = .ok () t) ↔
    ∃ layer, env.chain[hops]? = some layer ∧ s.Binds layer name := by
  rcases assign_at_cases s env name hops value with ⟨layer, there, binds, run⟩ | ⟨unbound, fault, run⟩
  · exact iff_of_true ⟨_, run⟩ ⟨layer, there, binds⟩
  · refine iff_of_false (fun ⟨t, also⟩ => ?_) fun ⟨layer, there, binds⟩ => unbound layer there binds
    rw [run] at also
    cases also

theorem assign_at_changes (hops : Nat) (t : Store) (run : assignAt env hops name value s = .ok () t) :
    ∃ layer, env.chain[hops]? = some layer ∧ s.Changed t layer name value := by
  rcases assign_at_cases s env name hops value with ⟨layer, there, binds, wrote⟩ | ⟨_, fault, failed⟩
  · rw [wrote] at run
    cases run
    exact ⟨layer, there, write_changes (inside_of_contains s layer name binds) name value⟩
  · rw [failed] at run
    cases run

theorem define_succeeds_iff : (∃ t, define env name value s = .ok () t) ↔ ¬ s.Binds env.inner name := by
  rcases define_cases s env name value with ⟨new, run⟩ | ⟨known, run⟩
  · exact iff_of_true ⟨_, run⟩ new
  · refine iff_of_false (fun ⟨t, also⟩ => ?_) fun new => new known
    rw [run] at also
    cases also

theorem define_changes (inside : env.inner < s.layers.size) (t : Store) (run : define env name value s = .ok () t) :
    s.Changed t env.inner name value := by
  rcases define_cases s env name value with ⟨_, wrote⟩ | ⟨_, failed⟩
  · rw [wrote] at run
    cases run
    exact write_changes inside name value
  · rw [failed] at run
    cases run

end Outcomes

theorem one_slot_touched (s : Store) (env : Env) (inside : env.inner < s.layers.size) (name : String) (value : Value) :
    ((∃ found t, get env name s = .ok found t) ↔ ∃ layer ∈ env.chain, s.Binds layer name) ∧
    (∀ found t, get env name s = .ok found t →
      ∃ hops layer, s.First env name hops layer ∧ getAt env hops name s = .ok found t ∧ t = s) ∧
    ((∃ t, assign env name value s = .ok () t) ↔ ∃ layer ∈ env.chain, s.Binds layer name) ∧
    (∀ t, assign env name value s = .ok () t →
      ∃ hops layer, s.First env name hops layer ∧ s.Changed t layer name value) ∧
    (∀ hops, (∃ t, assignAt env hops name value s = .ok () t) ↔
      ∃ layer, env.chain[hops]? = some layer ∧ s.Binds layer name) ∧
    (∀ hops t, assignAt env hops name value s = .ok () t →
      ∃ layer, env.chain[hops]? = some layer ∧ s.Changed t layer name value) ∧
    ((∃ t, define env name value s = .ok () t) ↔ ¬ s.Binds env.inner name) ∧
    (∀ t, define env name value s = .ok () t → s.Changed t env.inner name value) ∧
    (∀ layer t, s.Changed t layer name value → ∀ handle : Env,
      (∀ hops, t.First handle name hops layer → answer (get handle name) t = .ok value) ∧
        ∀ key, ¬ (key = name ∧ ∃ hops, t.First handle name hops layer) →
          answer (get handle key) t = answer (get handle key) s) ∧
    (∀ hops fault t, get env name s = .error fault t ∨ getAt env hops name s = .error fault t ∨
      assign env name value s = .error fault t ∨ assignAt env hops name value s = .error fault t ∨
      define env name value s = .error fault t → t = s) := by
  refine ⟨get_succeeds_iff s env name, get_reads_first s env name, assign_succeeds_iff s env name value,
    assign_changes_first s env name value, assign_at_succeeds_iff s env name value,
    assign_at_changes s env name value, define_succeeds_iff s env name value,
    define_changes s env name value inside, ?_, fun hops => fails_unchanged s env name hops value⟩
  intro layer t changed handle
  exact ⟨fun hops first => changed_seen changed first, changed_unseen changed handle⟩

def siblings : Store :=
  ⟨#[Bindings.empty.insert "x" (.bool true), Bindings.empty, Bindings.empty.insert "x" .none], #[], 0⟩

theorem one_slot_touched_siblings : 1 < siblings.layers.size ∧
    ∃ t, assign ⟨1, [0]⟩ "x" (.bool false) siblings = .ok () t ∧ answer (get ⟨0, []⟩ "x") t = .ok (.bool false) ∧
      answer (get ⟨2, [0]⟩ "x") t = .ok .none := by
  have inside : 1 < siblings.layers.size := by decide
  obtain ⟨_, _, _, changes, _, _, _, _, seen, _⟩ := one_slot_touched siblings ⟨1, [0]⟩ inside "x" (.bool false)
  have run : assign ⟨1, [0]⟩ "x" (.bool false) siblings = .ok () (siblings.write 0 "x" (.bool false)) := rfl
  obtain ⟨hops, layer, first, changed⟩ := changes _ run
  have owned := owner_of_first first
  have outer : layer = 0 := (Option.some.inj owned).symm
  subst outer
  refine ⟨inside, _, run, (seen 0 _ changed ⟨0, []⟩).1 0 ?_, ((seen 0 _ changed ⟨2, [0]⟩).2 "x" ?_).trans rfl⟩
  · exact ⟨rfl, rfl, fun fewer less => absurd less (Nat.not_lt_zero _)⟩
  · rintro ⟨-, hops, there, -, nearer⟩
    cases hops with
    | zero => cases there
    | succ hops => exact nearer 0 (Nat.succ_pos _) 2 rfl rfl

end Store

end TreeWalk
