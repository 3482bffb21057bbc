import TreeWalk.Operators
import TreeWalk.Proofs.Renaming
import TreeWalk.Proofs.Runs
import TreeWalk.Store

set_option autoImplicit false

namespace TreeWalk

namespace Bindings

variable {α β : Type} (f : α → β)

def map (b : Bindings α) : Bindings β :=
  ⟨b.entries.map fun entry => (entry.1, f entry.2)⟩

theorem map_find (b : Bindings α) (name : String) : (b.map f).find? name = (b.find? name).map f := by
  unfold find? map
  induction b.entries with
  | nil => rfl
  | cons entry rest ih =>
      obtain ⟨key, value⟩ := entry
      cases same : name == key <;> simp [List.lookup_cons, same, ih]

theorem map_contains (b : Bindings α) (name : String) : (b.map f).contains name = b.contains name := by
  simp only [contains, map_find, Option.isSome_map]

theorem map_put (name : String) (value : α) (entries : List (String × α)) :
    (put name value entries).map (fun entry => (entry.1, f entry.2)) =
      put name (f value) (entries.map fun entry => (entry.1, f entry.2)) := by
  induction entries with
  | nil => rfl
  | cons entry rest ih =>
      obtain ⟨key, old⟩ := entry
      cases same : name == key <;> simp [put, same, ih]

theorem map_insert (b : Bindings α) (name : String) (value : α) :
    (b.insert name value).map f = (b.map f).insert name (f value) :=
  congrArg Bindings.mk (map_put f name value b.entries)

theorem map_fold_insert (entries : List (String × α)) (b : Bindings α) :
    (entries.foldl (fun b entry => b.insert entry.1 entry.2) b).map f =
      (entries.map fun entry => (entry.1, f entry.2)).foldl (fun b entry => b.insert entry.1 entry.2) (b.map f) := by
  induction entries generalizing b with
  | nil => rfl
  | cons entry rest ih => simp only [List.foldl_cons, List.map_cons, ih, map_insert]

theorem map_of_list (entries : List (String × α)) :
    (ofList entries).map f = ofList (entries.map fun entry => (entry.1, f entry.2)) :=
  map_fold_insert f entries empty

end Bindings

section Rename

variable (ids : Nat → Nat)

def Closure.rename (closure : Closure) : Closure :=
  { closure with routine := closure.routine.rename (.ofIds ids) }

def ClassValue.rename (c : ClassValue) : ClassValue :=
  { c with methods := c.methods.map (Closure.rename ids) }

def Instance.rename (object : Instance) : Instance :=
  { object with ofClass := object.ofClass.rename ids }

def Value.rename : Value → Value
  | .function identity closure => .function identity (closure.rename ids)
  | .class c => .class (c.rename ids)
  | .object target => .object (target.rename ids)
  | value => value

def Store.rename (s : Store) : Store :=
  { layers := s.layers.map (Bindings.map (Value.rename ids))
    objects := s.objects.map (Bindings.map (Value.rename ids))
    nextIdentity := s.nextIdentity }

end Rename

section Values

variable {ids : Nat → Nat}

theorem routine_rename_name (routine : Routine) : (routine.rename (.ofIds ids)).name = routine.name := by
  cases routine
  rfl

theorem routine_rename_parameters (routine : Routine) :
    (routine.rename (.ofIds ids)).parameters = routine.parameters := by
  cases routine
  exact names_rename_ids _

theorem routine_rename_body (routine : Routine) :
    (routine.rename (.ofIds ids)).body = Stmt.renameAll (.ofIds ids) routine.body := by
  cases routine
  rfl

theorem class_rename_constructor (c : ClassValue) :
    (c.rename ids).constructor? = c.constructor?.map (Closure.rename ids) :=
  Bindings.map_find _ c.methods _

theorem closure_rename_arity (closure : Closure) : (closure.rename ids).arity = closure.arity :=
  congrArg List.length (routine_rename_parameters closure.routine)

theorem value_rename_text (value : Value) : (value.rename ids).text = value.text := by
  cases value with
  | function identity closure => simp only [Value.rename, Value.text, Closure.rename, routine_rename_name]
  | _ => rfl

theorem value_rename_type_name (value : Value) : (value.rename ids).typeName? = value.typeName? := by
  cases value <;> rfl

theorem value_rename_arity (value : Value) : (value.rename ids).arity? = value.arity? := by
  cases value with
  | function identity closure => simp only [Value.rename, Value.arity?, closure_rename_arity]
  | «class» c =>
      simp only [Value.rename, Value.arity?, ClassValue.arity, class_rename_constructor]
      cases c.constructor? with
      | none => rfl
      | some method => exact congrArg some (closure_rename_arity method)
  | _ => rfl

theorem value_rename_equal (left right : Value) : (left.rename ids).isEqual (right.rename ids) = left.isEqual right := by
  cases left <;> cases right <;> rfl

theorem literal_rename (literal : Literal) : literal.value.rename ids = literal.value := by
  cases literal <;> rfl

theorem unary_rename (operator : Token) (right : Value) :
    (right.rename ids).applyUnary operator = (right.applyUnary operator).map (Value.rename ids) := by
  unfold Value.applyUnary
  split
  · cases right <;> rfl
  · cases right <;> rfl
  · rfl

theorem add_rename (left right : Value) :
    (left.rename ids).add (right.rename ids) = (left.add right).map (Value.rename ids) := by
  cases left <;> cases right <;> rfl

theorem calculate_rename (operator : Token) (a b : Float) :
    Value.calculate operator a b = (Value.calculate operator a b).map (Value.rename ids) := by
  unfold Value.calculate
  split
  all_goals first
    | rfl
    | split <;> rfl

theorem binary_rename (operator : Token) (left right : Value) :
    (left.rename ids).applyBinary operator (right.rename ids) =
      (left.applyBinary operator right).map (Value.rename ids) := by
  unfold Value.applyBinary
  split
  · exact add_rename left right
  · exact congrArg (fun same => Except.ok (Value.bool same)) (value_rename_equal left right)
  · exact congrArg (fun same => Except.ok (Value.bool !same)) (value_rename_equal left right)
  · cases left with
    | number a =>
        cases right with
        | number b => exact calculate_rename operator a b
        | _ => rfl
    | _ => rfl

end Values

namespace Store

variable {ids : Nat → Nat}

theorem rename_layer (s : Store) (layer : Nat) :
    (s.rename ids).layer layer = (s.layer layer).map (Value.rename ids) := by
  simp only [Store.layer, Store.rename, Array.getD_eq_getD_getElem?, Array.getElem?_map]
  cases s.layers[layer]? <;> rfl

theorem rename_fields (s : Store) (object : Nat) :
    (s.rename ids).fields object = (s.fields object).map (Value.rename ids) := by
  simp only [Store.fields, Store.rename, Array.getD_eq_getD_getElem?, Array.getElem?_map]
  cases s.objects[object]? <;> rfl

theorem map_modify {α β : Type} (f : α → β) (change : α → α) (other : β → β) (items : Array α) (position : Nat)
    (same : ∀ a, f (change a) = other (f a)) : (items.modify position change).map f = (items.map f).modify position other := by
  apply Array.ext_getElem?
  intro index
  simp only [Array.getElem?_map, Array.getElem?_modify]
  split
  · cases items[index]? with
    | none => rfl
    | some item => exact congrArg some (same item)
  · rfl

theorem rename_write (s : Store) (layer : Nat) (name : String) (value : Value) :
    (s.write layer name value).rename ids = (s.rename ids).write layer name (value.rename ids) := by
  simp only [Store.write, Store.rename]
  rw [map_modify _ _ (fun b => b.insert name (value.rename ids)) _ _ fun b => Bindings.map_insert _ b name value]

theorem rename_owner (s : Store) (chain : List Nat) (name : String) :
    (s.rename ids).owner? chain name = s.owner? chain name := by
  simp only [Store.owner?, rename_layer, Bindings.map_contains]

theorem rename_find (s : Store) (chain : List Nat) (name : String) :
    (s.rename ids).find? chain name = (s.find? chain name).map (Value.rename ids) := by
  simp only [Store.find?, rename_layer, Bindings.map_find, List.map_findSome?]
  rfl

variable (ids)

abbrev Relabels {α β : Type} (f : α → β) (p : StoreM α) (q : StoreM β) : Prop :=
  Matched (fun s t => t = s.rename ids) (fun e f => f.text = e.text) (fun a b => b = f a) p q

section Relabels

variable {ids} {α β : Type}

theorem relabels_add_layer (bindings : Bindings Value) :
    Relabels ids id (addLayer bindings) (addLayer (bindings.map (Value.rename ids))) := by
  rintro s _ rfl
  refine .ok _ _ _ _ Array.size_map ?_
  simp only [Store.rename, Array.map_push]

theorem relabels_nest (env : Env) (bindings : Bindings Value) :
    Relabels ids id (nest env bindings) (nest env (bindings.map (Value.rename ids))) := by
  apply matched_bind _ _ _ _ _ _ _ _ (relabels_add_layer bindings)
  rintro layer _ rfl
  exact matched_pure _ _ _ _ _ rfl

theorem relabels_define (env : Env) (name : String) (value : Value) :
    Relabels ids id (define env name value) (define env name (value.rename ids)) := by
  rintro s _ rfl
  unfold define
  rw [rename_layer, Bindings.map_contains]
  split
  · exact .error _ _ _ _ rfl rfl
  · exact .ok _ _ _ _ rfl (rename_write s _ _ _).symm

theorem relabels_get (env : Env) (name : String) : Relabels ids (Value.rename ids) (get env name) (get env name) := by
  rintro s _ rfl
  unfold get
  rw [rename_find]
  cases s.find? env.chain name with
  | none => exact .error _ _ _ _ rfl rfl
  | some value => exact .ok _ _ _ _ rfl rfl

theorem relabels_assign (env : Env) (name : String) (value : Value) :
    Relabels ids id (assign env name value) (assign env name (value.rename ids)) := by
  rintro s _ rfl
  unfold assign
  rw [rename_owner]
  cases s.owner? env.chain name with
  | none => exact .error _ _ _ _ rfl rfl
  | some layer => exact .ok _ _ _ _ rfl (rename_write s _ _ _).symm

theorem relabels_get_at (env : Env) (distance : Nat) (name : String) :
    Relabels ids (Value.rename ids) (getAt env distance name) (getAt env distance name) := by
  rintro s _ rfl
  unfold getAt
  cases env.chain[distance]? with
  | none => exact .error _ _ _ _ rfl rfl
  | some layer =>
      dsimp only
      rw [rename_layer, Bindings.map_find]
      cases (s.layer layer).find? name with
      | none => exact .error _ _ _ _ rfl rfl
      | some value => exact .ok _ _ _ _ rfl rfl

theorem relabels_assign_at (env : Env) (distance : Nat) (name : String) (value : Value) :
    Relabels ids id (assignAt env distance name value) (assignAt env distance name (value.rename ids)) := by
  rintro s _ rfl
  unfold assignAt
  cases env.chain[distance]? with
  | none => exact .error _ _ _ _ rfl rfl
  | some layer =>
      dsimp only
      rw [rename_layer, Bindings.map_contains]
      split
      · exact .ok _ _ _ _ rfl (rename_write s _ _ _).symm
      · exact .error _ _ _ _ rfl rfl

theorem relabels_clear (env : Env) : Relabels ids id (clear env) (clear env) := by
  rintro s _ rfl
  refine .ok _ _ _ _ rfl ?_
  simp only [Store.rename]
  rw [map_modify (Bindings.map (Value.rename ids)) (fun _ => Bindings.empty) (fun _ => Bindings.empty) _ _ fun _ => rfl]

theorem relabels_new_identity : Relabels ids id newIdentity newIdentity := by
  rintro s _ rfl
  exact .ok _ _ _ _ rfl rfl

theorem relabels_new_instance (c : ClassValue) :
    Relabels ids (Instance.rename ids) (newInstance c) (newInstance (c.rename ids)) := by
  rintro s _ rfl
  refine .ok _ _ _ _ (congrArg (Instance.mk · _) Array.size_map) ?_
  simp only [Store.rename, Array.map_push]
  rfl

theorem relabels_set_field (object : Instance) (name : String) (value : Value) :
    Relabels ids id (setField object name value) (setField (object.rename ids) name (value.rename ids)) := by
  rintro s _ rfl
  refine .ok _ _ _ _ rfl ?_
  simp only [Store.rename]
  rw [map_modify _ _ (fun b => b.insert name (value.rename ids)) _ _ fun b => Bindings.map_insert _ b name value]
  rfl

theorem relabels_bind (closure : Closure) (object : Instance) :
    Relabels ids (Closure.rename ids) (bind closure object) (bind (closure.rename ids) (object.rename ids)) := by
  apply matched_bind _ _ _ _ _ _ _ _ (relabels_nest closure.env _)
  rintro env _ rfl
  exact matched_pure _ _ _ _ _ rfl

theorem relabels_property (object : Instance) (name : String) :
    Relabels ids (Value.rename ids) (property object name) (property (object.rename ids) name) := by
  rintro s _ rfl
  unfold property
  have fields : ((s.rename ids).fields (object.rename ids).identity).find? name =
      ((s.fields object.identity).find? name).map (Value.rename ids) := by
    rw [← Bindings.map_find, ← rename_fields]
    rfl
  have methods : (object.rename ids).ofClass.methods.find? name =
      (object.ofClass.methods.find? name).map (Closure.rename ids) := Bindings.map_find _ _ _
  rw [bind_ok _ (get_the_run s), bind_ok _ (get_the_run (s.rename ids)), fields, methods]
  cases (s.fields object.identity).find? name with
  | some value => exact .ok _ _ _ _ rfl rfl
  | none =>
      cases object.ofClass.methods.find? name with
      | none => exact .error _ _ _ _ rfl rfl
      | some method =>
          have bound : Relabels ids (Value.rename ids)
              (do let identity ← newIdentity; return .function identity (← bind method object))
              (do let identity ← newIdentity; return .function identity (← bind (method.rename ids) (object.rename ids))) := by
            apply matched_bind _ _ _ _ _ _ _ _ relabels_new_identity
            rintro identity _ rfl
            apply matched_bind _ _ _ _ _ _ _ _ (relabels_bind method object)
            rintro closure _ rfl
            exact matched_pure _ _ _ _ _ rfl
          exact bound s _ rfl

end Relabels

end Store

end TreeWalk
