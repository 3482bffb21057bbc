import TreeWalk.Bindings

set_option autoImplicit false

namespace TreeWalk

namespace Bindings

variable {α : Type}

theorem put_put (name : String) (first second : α) (entries : List (String × α)) :
    put name second (put name first entries) = put name second entries := by
  induction entries with
  | nil => simp [put]
  | cons entry rest ih =>
      obtain ⟨key, old⟩ := entry
      by_cases same : name = key
      · simp [put, same]
      · simp [put, same, ih]

theorem insert_insert (b : Bindings α) (name : String) (first second : α) :
    (b.insert name first).insert name second = b.insert name second :=
  congrArg Bindings.mk (put_put name first second b.entries)

theorem contains_insert_self (b : Bindings α) (name : String) (value : α) : (b.insert name value).contains name := by
  simp [contains, find_insert_self]

theorem contains_insert {b : Bindings α} (name key : String) (value : α) :
    (b.insert name value).contains key = true ↔ key = name ∨ b.contains key = true := by
  by_cases same : key = name
  · subst same
    simp [contains_insert_self]
  · simp [contains, find_insert_other b name key value same, same]

theorem find_insert_cases (b : Bindings α) (name other : String) (value result : α)
    (found : (b.insert name value).find? other = some result) :
    other = name ∧ result = value ∨ b.find? other = some result := by
  by_cases same : other = name
  · subst same
    rw [find_insert_self] at found
    exact .inl ⟨rfl, (Option.some.inj found).symm⟩
  · exact .inr (find_insert_other b name other value same ▸ found)

theorem find_fold_insert (entries : List (String × α)) (b : Bindings α) (name : String) (value : α)
    (found : (entries.foldl (fun b entry => b.insert entry.1 entry.2) b).find? name = some value) :
    (name, value) ∈ entries ∨ b.find? name = some value := by
  induction entries generalizing b with
  | nil => exact .inr found
  | cons entry rest ih =>
      rcases ih _ found with later | before
      · exact .inl (List.mem_cons_of_mem _ later)
      · rcases find_insert_cases b entry.1 name entry.2 value before with ⟨named, here⟩ | old
        · exact .inl (by simp [named, here])
        · exact .inr old

theorem find_of_list (entries : List (String × α)) (name : String) (value : α)
    (found : (ofList entries).find? name = some value) : (name, value) ∈ entries := by
  rcases find_fold_insert entries empty name value found with member | none
  · exact member
  · cases none

end Bindings

end TreeWalk
