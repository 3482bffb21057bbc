import TreeWalk.Evaluation
import TreeWalk.Proofs.ReceiverName
import TreeWalk.Proofs.Runs

set_option autoImplicit false

namespace TreeWalk

namespace Store

def Reads (act : StoreM Value) (name : String) (faults : RuntimeFault → Prop) : Prop :=
  ∀ s, Ends act s (fun value t => t = s ∧ ∃ layer, (s.layer layer).find? name = some value)
    fun fault t => t = s ∧ faults fault

def Writes (act : StoreM Unit) (name : String) (value : Value) (faults : RuntimeFault → Prop) : Prop :=
  ∀ s, Ends act s (fun _ t => ∃ layer, (s.layer layer).contains name = true ∧ t = s.write layer name value)
    fun fault t => t = s ∧ faults fault

variable (env : Env) (distance : Nat) (name : String) (value : Value)

theorem reads_get : Reads (get env name) name (· = .undefined name) := by
  intro s
  unfold Ends get
  cases found : s.find? env.chain name with
  | none => exact ⟨rfl, rfl⟩
  | some value =>
      obtain ⟨layer, _, here⟩ := List.exists_of_findSome?_eq_some found
      exact ⟨rfl, layer, here⟩

theorem reads_get_at : Reads (getAt env distance name) name fun fault =>
    fault = .undefined name ∨ fault = .noLayer distance ∧ env.chain[distance]? = none := by
  intro s
  unfold Ends getAt
  cases env.chain[distance]? with
  | none => exact ⟨rfl, .inr ⟨rfl, rfl⟩⟩
  | some layer =>
      dsimp only
      cases found : (s.layer layer).find? name with
      | none => exact ⟨rfl, .inl rfl⟩
      | some value => exact ⟨rfl, layer, found⟩

theorem writes_assign : Writes (assign env name value) name value (· = .unassignable name) := by
  intro s
  unfold Ends assign
  cases owner : s.owner? env.chain name with
  | none => exact ⟨rfl, rfl⟩
  | some layer =>
      have bound := List.find?_some owner
      exact ⟨layer, bound, rfl⟩

theorem writes_assign_at : Writes (assignAt env distance name value) name value fun fault =>
    fault = .unassignable name ∨ fault = .noLayer distance ∧ env.chain[distance]? = none := by
  intro s
  unfold Ends assignAt
  cases env.chain[distance]? with
  | none => exact ⟨rfl, .inr ⟨rfl, rfl⟩⟩
  | some layer =>
      by_cases bound : (s.layer layer).contains name
      · simp only [bound, if_true]
        exact ⟨layer, bound, rfl⟩
      · simp only [bound]
        exact ⟨rfl, .inl rfl⟩

theorem define_ends (s : Store) : Ends (define env name value) s
    (fun _ t => (s.layer env.inner).contains name = false ∧ t = s.write env.inner name value)
    fun fault t => t = s ∧ fault = .redefined name ∧ (s.layer env.inner).contains name = true := by
  unfold Ends define
  cases known : (s.layer env.inner).contains name with
  | true => exact ⟨rfl, rfl, rfl⟩
  | false => exact ⟨rfl, rfl⟩

def received (s : Store) (object : Instance) : Store :=
  { s with nextIdentity := s.nextIdentity + 1,
           layers := s.layers.push (Bindings.empty.insert receiverName (.object object)) }

end Store

theorem store_property_ends (object : Instance) (name : String) (s : Store) :
    Ends (Store.property object name) s
      (fun value t => (t = s ∧ (s.fields object.identity).find? name = some value) ∨
        ∃ method, object.ofClass.methods.find? name = some method ∧ t = s.received object ∧
          value = .function s.nextIdentity { method with env := method.env.child s.layers.size })
      fun fault t => t = s ∧ fault = .noProperty name object.ofClass.name := by
  unfold Ends
  cases field : (s.fields object.identity).find? name with
  | some value =>
      have run : Store.property object name s = .ok value s := by
        simp only [Store.property, bind, EStateM.bind, get_the_run, field, pure, EStateM.pure]
      rw [run]
      exact .inl ⟨rfl, rfl⟩
  | none =>
      cases method : object.ofClass.methods.find? name with
      | none =>
          have run : Store.property object name s = .error (.noProperty name object.ofClass.name) s := by
            simp only [Store.property, bind, EStateM.bind, get_the_run, field, method, throw_run]
          rw [run]
          exact ⟨rfl, rfl⟩
      | some closure =>
          have run : Store.property object name s = .ok
              (.function s.nextIdentity { closure with env := closure.env.child s.layers.size }) (s.received object) := by
            simp only [Store.property, bind, EStateM.bind, get_the_run, field, method]
            rfl
          rw [run]
          exact .inr ⟨closure, rfl, rfl, rfl⟩

section Machines

variable {α : Type} {m : Machine}

theorem ends_store (line : Nat) {act : StoreM α} {done : α → Store → Prop} {stopped : RuntimeFault → Store → Prop}
    (ended : Ends act m.store done stopped) : Ends (Eval.onStore line act) m
      (fun a t => ∃ s, t = { m with store := s } ∧ done a s)
      fun halt t => ∃ fault s, halt = .failed (.runtime ⟨line, fault⟩) ∧ t = { m with store := s } ∧ stopped fault s := by
  unfold Ends Eval.onStore at *
  cases run : act m.store with
  | ok a s =>
      rw [run] at ended
      simp only [run]
      exact ⟨s, rfl, ended⟩
  | error fault s =>
      rw [run] at ended
      simp only [run]
      exact ⟨fault, s, rfl, rfl, ended⟩

theorem ends_within (env : Env) {p : Eval α} {done : α → Machine → Prop} {stopped : Halt → Machine → Prop}
    (ended : Ends p { m with env } (fun a t => done a { t with env := m.env })
      fun halt t => stopped halt { t with env := m.env }) : Ends (Eval.within env p) m done stopped := by
  unfold Ends Eval.within at *
  cases run : p { m with env } with
  | ok a t => rw [run] at ended; exact ended
  | error halt t => rw [run] at ended; exact ended

end Machines

section Names

open Eval

variable (id : Nat) (name : Name) (m : Machine)

def Machine.Strays (m : Machine) (id : Nat) (fault : RuntimeFault) : Prop :=
  ∃ distance, m.distances[id]? = some distance ∧ m.env.chain[distance]? = none ∧ fault = .noLayer distance

theorem read_name_acts : ∃ act, readName id name m = onStore name.line act m ∧
    Store.Reads act name.text fun fault => fault = .undefined name.text ∨ m.Strays id fault := by
  cases recorded : m.distances[id]? with
  | none =>
      refine ⟨Store.get Machine.globals name.text, ?_, fun s => ?_⟩
      · simp only [readName, distance?, bind, EStateM.bind, get_run, pure, EStateM.pure, recorded]
      · apply ends_mono _ _ _ _ _ _ (Store.reads_get Machine.globals name.text s) fun _ _ done => done
        exact fun _ _ ⟨same, missing⟩ => ⟨same, .inl missing⟩
  | some distance =>
      refine ⟨Store.getAt m.env distance name.text, ?_, fun s => ?_⟩
      · simp only [readName, distance?, currentEnv, bind, EStateM.bind, get_run, pure, EStateM.pure, recorded]
      · apply ends_mono _ _ _ _ _ _ (Store.reads_get_at m.env distance name.text s) fun _ _ done => done
        rintro _ _ ⟨same, missing | ⟨rfl, outside⟩⟩
        · exact ⟨same, .inl missing⟩
        · exact ⟨same, .inr ⟨distance, recorded, outside, rfl⟩⟩

theorem write_name_acts (value : Value) : ∃ act, writeName id name value m = onStore name.line act m ∧
    Store.Writes act name.text value fun fault => fault = .unassignable name.text ∨ m.Strays id fault := by
  cases recorded : m.distances[id]? with
  | none =>
      refine ⟨Store.assign Machine.globals name.text value, ?_, fun s => ?_⟩
      · simp only [writeName, distance?, bind, EStateM.bind, get_run, pure, EStateM.pure, recorded]
      · apply ends_mono _ _ _ _ _ _ (Store.writes_assign Machine.globals name.text value s) fun _ _ done => done
        exact fun _ _ ⟨same, missing⟩ => ⟨same, .inl missing⟩
  | some distance =>
      refine ⟨Store.assignAt m.env distance name.text value, ?_, fun s => ?_⟩
      · simp only [writeName, distance?, currentEnv, bind, EStateM.bind, get_run, pure, EStateM.pure, recorded]
      · apply ends_mono _ _ _ _ _ _ (Store.writes_assign_at m.env distance name.text value s) fun _ _ done => done
        rintro _ _ ⟨same, missing | ⟨rfl, outside⟩⟩
        · exact ⟨same, .inl missing⟩
        · exact ⟨same, .inr ⟨distance, recorded, outside, rfl⟩⟩

end Names

end TreeWalk
