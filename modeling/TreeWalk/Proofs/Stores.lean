import TreeWalk.Proofs.Bindings
import TreeWalk.Proofs.Layers

set_option autoImplicit false

namespace TreeWalk

namespace Store

theorem layer_write_self (s : Store) (id : Nat) (name : String) (value : Value) (inside : id < s.layers.size) :
    (s.write id name value).layer id = (s.layer id).insert name value := by
  simp [layer, write, Array.getD_eq_getD_getElem?, Array.getElem_modify, inside]

theorem layer_write_other (s : Store) (id other : Nat) (name : String) (value : Value) (different : other ≠ id) :
    (s.write id name value).layer other = s.layer other := by
  simp [layer, write, Array.getD_eq_getD_getElem?, Array.getElem?_modify, Ne.symm different]

theorem layer_outside (s : Store) (id : Nat) (outside : s.layers.size ≤ id) : s.layer id = .empty := by
  simp [layer, Array.getD_eq_getD_getElem?, outside]

theorem write_outside (s : Store) (id : Nat) (name : String) (value : Value) (outside : s.layers.size ≤ id) (other : Nat) :
    (s.write id name value).layer other = s.layer other := by
  by_cases same : other = id
  · subst same
    simp [layer, write, Array.getD_eq_getD_getElem?, outside]
  · exact layer_write_other s id other name value same

theorem inside_of_contains (s : Store) (id : Nat) (name : String) (known : (s.layer id).contains name = true) :
    id < s.layers.size := by
  apply Nat.lt_of_not_le
  intro outside
  rw [layer_outside s id outside] at known
  cases known

theorem find_write (s : Store) (id other : Nat) (name known : String) (value found : Value)
    (read : ((s.write id name value).layer other).find? known = some found) :
    (s.layer other).find? known = some found ∨ (found = value ∧ known = name) := by
  by_cases inside : id < s.layers.size
  · by_cases same : other = id
    · subst same
      rw [layer_write_self s other name value inside] at read
      rcases Bindings.find_insert_cases _ name known value found read with ⟨named, here⟩ | before
      · exact .inr ⟨here, named⟩
      · exact .inl before
    · rw [layer_write_other s id other name value same] at read
      exact .inl read
  · rw [write_outside s id name value (Nat.le_of_not_lt inside)] at read
    exact .inl read

theorem find_write_kept (s : Store) (id other : Nat) (name known : String) (value : Value) (different : known ≠ name) :
    ((s.write id name value).layer other).find? known = (s.layer other).find? known := by
  by_cases inside : id < s.layers.size
  · by_cases same : other = id
    · subst same
      rw [layer_write_self s other name value inside, Bindings.find_insert_other _ name known value different]
    · rw [layer_write_other s id other name value same]
  · rw [write_outside s id name value (Nat.le_of_not_lt inside)]

theorem contains_write (s : Store) (id other : Nat) (name known : String) (value : Value)
    (before : (s.layer other).contains known = true) : ((s.write id name value).layer other).contains known = true := by
  have inside := inside_of_contains s other known before
  by_cases named : known = name
  · subst named
    by_cases same : other = id
    · subst same
      rw [layer_write_self s other known value inside]
      exact Bindings.contains_insert_self _ _ _
    · rwa [layer_write_other s id other known value same]
  · unfold Bindings.contains at before ⊢
    rwa [find_write_kept s id other name known value named]

theorem layer_push (s : Store) (bindings : Bindings Value) (id : Nat) (inside : id < s.layers.size) :
    ({ s with layers := s.layers.push bindings } : Store).layer id = s.layer id := by
  have different : id ≠ s.layers.size := Nat.ne_of_lt inside
  simp [layer, Array.getD_eq_getD_getElem?, Array.getElem?_push, different]

theorem layer_push_new (s : Store) (bindings : Bindings Value) :
    ({ s with layers := s.layers.push bindings } : Store).layer s.layers.size = bindings := by
  simp [layer, Array.getD_eq_getD_getElem?]

theorem layer_push_cases (s : Store) (bindings : Bindings Value) (id : Nat) :
    ({ s with layers := s.layers.push bindings } : Store).layer id = s.layer id ∨
      ({ s with layers := s.layers.push bindings } : Store).layer id = bindings := by
  by_cases inside : id < s.layers.size
  · exact .inl (layer_push s bindings id inside)
  · by_cases new : id = s.layers.size
    · exact .inr (new ▸ layer_push_new s bindings)
    · left
      have outside : s.layers.size + 1 ≤ id := by omega
      rw [layer_outside s id (Nat.le_of_succ_le outside)]
      apply layer_outside
      simpa only [Array.size_push] using outside

structure Grows (events : List Event) (s next : Store) : Prop where
  size : s.layers.size ≤ next.layers.size
  objects : s.objects.size ≤ next.objects.size
  names : ∀ layer name, (s.layer layer).contains name = true → (next.layer layer).contains name = true
  receivers : ∀ layer object, (s.layer layer).find? receiverName = some (.object object) →
    (next.layer layer).find? receiverName = some (.object object)
  values : ∀ layer name value, (next.layer layer).find? name = some value →
    (s.layer layer).find? name = some value ∨ value.Known events
  fields : ∀ object name value, (next.fields object).find? name = some value →
    (s.fields object).find? name = some value ∨ value.Known events

variable {events : List Event}

theorem grows_refl (s : Store) : Grows events s s :=
  ⟨Nat.le_refl _, Nat.le_refl _, fun _ _ => id, fun _ _ => id, fun _ _ _ => .inl, fun _ _ _ => .inl⟩

theorem grows_write (s : Store) (id : Nat) (name : String) (value : Value) (different : name ≠ receiverName)
    (known : value.Known events) : Grows events s (s.write id name value) where
  size := by simp [write]
  objects := Nat.le_refl _
  names layer other before := contains_write s id layer name other value before
  receivers layer object before := by rwa [find_write_kept s id layer name receiverName value (Ne.symm different)]
  values layer other found read := by
    rcases find_write s id layer name other value found read with before | ⟨same, _⟩
    · exact .inl before
    · exact .inr (same ▸ known)
  fields _ _ _ := .inl

theorem grows_push (s : Store) (bindings : Bindings Value)
    (known : ∀ name value, bindings.find? name = some value → value.Known events) :
    Grows events s { s with layers := s.layers.push bindings } where
  size := by simp
  objects := Nat.le_refl _
  names layer name before := by
    rwa [layer_push s bindings layer (inside_of_contains s layer name before)]
  receivers layer object before := by
    have inside : (s.layer layer).contains receiverName = true := by simp [Bindings.contains, before]
    rwa [layer_push s bindings layer (inside_of_contains s layer receiverName inside)]
  values layer name value found := by
    rcases layer_push_cases s bindings layer with old | new
    · exact .inl (old ▸ found)
    · exact .inr (known name value (new ▸ found))
  fields _ _ _ := .inl

theorem fields_modify (s : Store) (object other : Nat) (name field : String) (value found : Value)
    (read : (({ s with objects := s.objects.modify object fun b => b.insert name value } : Store).fields other).find?
      field = some found) : (s.fields other).find? field = some found ∨ found = value := by
  by_cases same : object = other
  · subst same
    by_cases inside : object < s.objects.size
    · have inserted : ((s.fields object).insert name value).find? field = some found := by
        simpa [fields, Array.getD_eq_getD_getElem?, Array.getElem_modify, inside] using read
      rcases Bindings.find_insert_cases _ name field value found inserted with ⟨_, here⟩ | before
      · exact .inr here
      · exact .inl before
    · exact .inl (by simpa [fields, Array.getD_eq_getD_getElem?, Array.getElem?_modify, inside] using read)
  · exact .inl (by simpa [fields, Array.getD_eq_getD_getElem?, Array.getElem?_modify, same] using read)

theorem grows_set_field (s : Store) (object : Nat) (name : String) (value : Value) (known : value.Known events) :
    Grows events s { s with objects := s.objects.modify object fun b => b.insert name value } where
  size := Nat.le_refl _
  objects := Nat.le_of_eq (Array.size_modify ..).symm
  names _ _ := id
  receivers _ _ := id
  values _ _ _ := .inl
  fields other field found read := by
    rcases fields_modify s object other name field value found read with before | same
    · exact .inl before
    · exact .inr (same ▸ known)

theorem grows_new_instance (s : Store) : Grows events s { s with objects := s.objects.push .empty } where
  size := Nat.le_refl _
  objects := by simp
  names _ _ := id
  receivers _ _ := id
  values _ _ _ := .inl
  fields other field found read := by
    left
    by_cases new : other = s.objects.size
    · simp [fields, Array.getD_eq_getD_getElem?, new, Bindings.find?, Bindings.empty] at read
    · simpa [fields, Array.getD_eq_getD_getElem?, Array.getElem?_push, new] using read

theorem grows_new_identity (s : Store) : Grows events s { s with nextIdentity := s.nextIdentity + 1 } :=
  ⟨Nat.le_refl _, Nat.le_refl _, fun _ _ => id, fun _ _ => id, fun _ _ _ => .inl, fun _ _ _ => .inl⟩

end Store

theorem layer_clear_self (s : Store) (layer : Nat) :
    ({ s with layers := s.layers.modify layer fun _ => .empty } : Store).layer layer = .empty := by
  by_cases inside : layer < s.layers.size
  · simp [Store.layer, Array.getD_eq_getD_getElem?, Array.getElem_modify, inside]
  · simp [Store.layer, Array.getD_eq_getD_getElem?, inside]

theorem layer_clear_other (s : Store) (id other : Nat) (different : other ≠ id) :
    ({ s with layers := s.layers.modify id fun _ => .empty } : Store).layer other = s.layer other := by
  simp [Store.layer, Array.getD_eq_getD_getElem?, Array.getElem?_modify, Ne.symm different]

theorem find_clear (s : Store) (id other : Nat) (name : String) (value : Value)
    (found : (({ s with layers := s.layers.modify id fun _ => .empty } : Store).layer other).find? name = some value) :
    (s.layer other).find? name = some value := by
  by_cases same : other = id
  · subst same
    by_cases inside : other < s.layers.size
    · simp [Store.layer, Array.getD_eq_getD_getElem?, Array.getElem_modify, inside, Bindings.find?,
        Bindings.empty] at found
    · simpa [Store.layer, Array.getD_eq_getD_getElem?, inside] using found
  · rwa [layer_clear_other s id other same] at found

theorem fields_push (s : Store) (object : Nat) :
    ({ s with objects := s.objects.push .empty } : Store).fields object = s.fields object := by
  by_cases new : object = s.objects.size
  · simp [Store.fields, Array.getD_eq_getD_getElem?, new]
  · simp [Store.fields, Array.getD_eq_getD_getElem?, Array.getElem?_push, new]

end TreeWalk
