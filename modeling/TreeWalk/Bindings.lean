namespace TreeWalk

structure Bindings (α : Type) where
  entries : List (String × α)
deriving Repr

namespace Bindings

variable {α : Type}

def empty : Bindings α :=
  ⟨[]⟩

def find? (b : Bindings α) (name : String) : Option α :=
  b.entries.lookup name

def contains (b : Bindings α) (name : String) : Bool :=
  (b.find? name).isSome

def names (b : Bindings α) : List String :=
  b.entries.map Prod.fst

def put (name : String) (value : α) : List (String × α) → List (String × α)
  | [] => [(name, value)]
  | (key, old) :: rest =>
      if name == key then (key, value) :: rest else (key, old) :: put name value rest

def insert (b : Bindings α) (name : String) (value : α) : Bindings α :=
  ⟨put name value b.entries⟩

-- Of two entries for one name the later one stays.
def ofList (entries : List (String × α)) : Bindings α :=
  entries.foldl (fun b entry => b.insert entry.1 entry.2) empty

theorem lookup_put_self (name : String) (value : α) (entries : List (String × α)) :
    (put name value entries).lookup name = some value := by
  induction entries with
  | nil => simp [put]
  | cons entry rest ih =>
      obtain ⟨key, old⟩ := entry
      cases same : name == key <;> simp [put, List.lookup_cons, same, ih]

theorem lookup_put_other (name other : String) (value : α) (entries : List (String × α))
    (different : other ≠ name) : (put name value entries).lookup other = entries.lookup other := by
  induction entries with
  | nil => simp [put, List.lookup_cons, beq_false_of_ne different]
  | cons entry rest ih =>
      obtain ⟨key, old⟩ := entry
      by_cases same : name = key
      · subst same
        simp [put, List.lookup_cons, beq_false_of_ne different]
      · simp [put, List.lookup_cons, beq_false_of_ne same, ih]

theorem find_insert_self (b : Bindings α) (name : String) (value : α) :
    (b.insert name value).find? name = some value :=
  lookup_put_self name value b.entries

theorem find_insert_other (b : Bindings α) (name other : String) (value : α)
    (different : other ≠ name) : (b.insert name value).find? other = b.find? other :=
  lookup_put_other name other value b.entries different

end Bindings

end TreeWalk
