import TreeWalk.Fault

namespace TreeWalk

structure Store where
  layers : Array (Bindings Value)
  objects : Array (Bindings Value)
  -- The identity of the next function or class.
  nextIdentity : Nat

namespace Store

def empty : Store :=
  ⟨#[], #[], 0⟩

def layer (s : Store) (id : Nat) : Bindings Value :=
  s.layers.getD id .empty

def fields (s : Store) (id : Nat) : Bindings Value :=
  s.objects.getD id .empty

def write (s : Store) (id : Nat) (name : String) (value : Value) : Store :=
  { s with layers := s.layers.modify id fun b => b.insert name value }

def owner? (s : Store) (chain : List Nat) (name : String) : Option Nat :=
  chain.find? fun id => (s.layer id).contains name

def find? (s : Store) (chain : List Nat) (name : String) : Option Value :=
  chain.findSome? fun id => (s.layer id).find? name

end Store

abbrev StoreM := EStateM RuntimeFault Store

namespace Store

def addLayer (bindings : Bindings Value) : StoreM Nat :=
  modifyGet fun s => (s.layers.size, { s with layers := s.layers.push bindings })

def nest (env : Env) (bindings : Bindings Value) : StoreM Env := do
  return env.child (← addLayer bindings)

def define (env : Env) (name : String) (value : Value) : StoreM Unit := fun s =>
  if (s.layer env.inner).contains name then .error (.redefined name) s
  else .ok () (s.write env.inner name value)

def get (env : Env) (name : String) : StoreM Value := fun s =>
  match s.find? env.chain name with
  | some value => .ok value s
  | none => .error (.undefined name) s

def assign (env : Env) (name : String) (value : Value) : StoreM Unit := fun s =>
  match s.owner? env.chain name with
  | some id => .ok () (s.write id name value)
  | none => .error (.unassignable name) s

def getAt (env : Env) (distance : Nat) (name : String) : StoreM Value := fun s =>
  match env.chain[distance]? with
  | none => .error (.noLayer distance) s
  | some id =>
      match (s.layer id).find? name with
      | some value => .ok value s
      | none => .error (.undefined name) s

def assignAt (env : Env) (distance : Nat) (name : String) (value : Value) : StoreM Unit :=
  fun s =>
    match env.chain[distance]? with
    | none => .error (.noLayer distance) s
    | some id =>
        if (s.layer id).contains name then .ok () (s.write id name value)
        else .error (.unassignable name) s

-- Takes every binding out of a layer, which stays in view wherever it was.
def clear (env : Env) : StoreM Unit :=
  modify fun s => { s with layers := s.layers.modify env.inner fun _ => .empty }

def contains (env : Env) (name : String) : StoreM Bool :=
  return ((← getThe Store).layer env.inner).contains name

def newIdentity : StoreM Nat :=
  modifyGet fun s => (s.nextIdentity, { s with nextIdentity := s.nextIdentity + 1 })

def newInstance (c : ClassValue) : StoreM Instance :=
  modifyGet fun s => (⟨s.objects.size, c⟩, { s with objects := s.objects.push .empty })

def setField (object : Instance) (name : String) (value : Value) : StoreM Unit :=
  modify fun s =>
    { s with objects := s.objects.modify object.identity fun b => b.insert name value }

def bind (closure : Closure) (object : Instance) : StoreM Closure := do
  let env ← nest closure.env (Bindings.empty.insert "this" (.object object))
  return { closure with env }

def property (object : Instance) (name : String) : StoreM Value := do
  match ((← getThe Store).fields object.identity).find? name with
  | some value => return value
  | none =>
      match object.ofClass.methods.find? name with
      | some method =>
          let identity ← newIdentity
          return .function identity (← bind method object)
      | none => throw (.noProperty name object.ofClass.name)

def natives : Bindings Value :=
  Bindings.ofList (Native.all.map fun n => (n.name, .native n))

end Store

end TreeWalk
