import TreeWalk.Evaluation
import TreeWalk.Proofs.Bindings
import TreeWalk.Proofs.Spellings

set_option autoImplicit false

namespace TreeWalk

namespace Bindings

variable {α β : Type}

structure Spelled (spell : String → String) (allows : String → Prop) (related : α → β → Prop)
    (b : Bindings α) (other : Bindings β) : Prop where
  allowed : ∀ name, b.contains name = true → allows name
  found : ∀ name a, b.find? name = some a → ∃ a', other.find? (spell name) = some a' ∧ related a a'
  origin : ∀ key, other.contains key = true → ∃ name, b.contains name = true ∧ spell name = key

variable {spell : String → String} {allows : String → Prop} {related : α → β → Prop}
  {b : Bindings α} {other : Bindings β}

theorem contains_of_find (name : String) (a : α) (found : b.find? name = some a) : b.contains name = true := by
  simp [contains, found]

theorem spelled_empty : (empty : Bindings α).Spelled spell allows related (empty : Bindings β) :=
  ⟨fun _ known => (by cases known), fun _ _ found => (by cases found), fun _ known => (by cases known)⟩

theorem spelled_mono {wider : α → β → Prop} (weaker : ∀ a a', related a a' → wider a a')
    (spelled : b.Spelled spell allows related other) : b.Spelled spell allows wider other where
  allowed := spelled.allowed
  found name a found := by
    obtain ⟨a', there, pair⟩ := spelled.found name a found
    exact ⟨a', there, weaker a a' pair⟩
  origin := spelled.origin

theorem spelled_contains (spelled : b.Spelled spell allows related other) (name : String)
    (known : b.contains name = true) : other.contains (spell name) = true := by
  obtain ⟨a, found⟩ := Option.isSome_iff_exists.mp known
  obtain ⟨a', there, _⟩ := spelled.found name a found
  exact contains_of_find _ a' there

variable (distinct : ∀ a b, allows a → allows b → spell a = spell b → a = b)
include distinct

theorem spelled_absent (spelled : b.Spelled spell allows related other) (name : String) (allowed : allows name)
    (absent : b.contains name = false) : other.contains (spell name) = false := by
  rw [← Bool.not_eq_true]
  intro known
  obtain ⟨before, inside, same⟩ := spelled.origin _ known
  rw [distinct before name (spelled.allowed before inside) allowed same, absent] at inside
  cases inside

theorem spelled_insert (spelled : b.Spelled spell allows related other) (name : String) (a : α) (a' : β)
    (allowed : allows name) (pair : related a a') :
    (b.insert name a).Spelled spell allows related (other.insert (spell name) a') where
  allowed key known := by
    rcases (contains_insert name key a).mp known with rfl | before
    · exact allowed
    · exact spelled.allowed key before
  found key result found := by
    rcases find_insert_cases b name key a result found with ⟨rfl, rfl⟩ | before
    · exact ⟨a', find_insert_self _ _ _, pair⟩
    · by_cases same : key = name
      · subst same
        rw [find_insert_self] at found
        cases found
        exact ⟨a', find_insert_self _ _ _, pair⟩
      · obtain ⟨result', there, pair'⟩ := spelled.found key result before
        have known := spelled.allowed key (contains_of_find key result before)
        refine ⟨result', ?_, pair'⟩
        rw [find_insert_other _ _ _ _ fun equal => same (distinct key name known allowed equal)]
        exact there
  origin key known := by
    rcases (contains_insert (spell name) key a').mp known with rfl | before
    · exact ⟨name, (contains_insert name name a).mpr (.inl rfl), rfl⟩
    · obtain ⟨old, inside, same⟩ := spelled.origin key before
      exact ⟨old, (contains_insert name old a).mpr (.inr inside), same⟩

end Bindings

namespace Bindings

variable {α β : Type} {related : α → β → Prop}

def Paired (related : α → β → Prop) (b : Bindings α) (other : Bindings β) : Prop :=
  ∀ name, Option.Rel related (b.find? name) (other.find? name)

theorem paired_empty : (empty : Bindings α).Paired related (empty : Bindings β) :=
  fun _ => .none

theorem paired_found {wider : α → β → Prop} {b : Bindings α} {other : Bindings β}
    (weaker : ∀ name a a', b.find? name = some a → other.find? name = some a' → related a a' → wider a a')
    (paired : b.Paired related other) : b.Paired wider other := by
  intro name
  have pair := paired name
  have weaker := weaker name
  revert pair weaker
  generalize b.find? name = here
  generalize other.find? name = there
  rintro (pair | _) weaker
  · exact .some (weaker _ _ rfl rfl pair)
  · exact .none

theorem paired_mono {wider : α → β → Prop} (weaker : ∀ a a', related a a' → wider a a') {b : Bindings α}
    {other : Bindings β} (paired : b.Paired related other) : b.Paired wider other :=
  paired_found (fun _ a a' _ _ => weaker a a') paired

theorem paired_insert {b : Bindings α} {other : Bindings β} (paired : b.Paired related other) (name : String)
    (a : α) (a' : β) (pair : related a a') : (b.insert name a).Paired related (other.insert name a') := by
  intro key
  by_cases same : key = name
  · subst same
    rw [find_insert_self, find_insert_self]
    exact .some pair
  · rw [find_insert_other _ _ _ _ same, find_insert_other _ _ _ _ same]
    exact paired key

end Bindings

def Views {Mark : Type} (world : List Mark) : List (Frame × Mark) → List Nat → Prop
  | [], layers => layers = [0]
  | _ :: _, [] => False
  | (_, mark) :: outer, layer :: rest => world[layer]? = some mark ∧ Views world outer rest

theorem get_longer {α : Type} {first second : List α} (wider : first <+: second) (place : Nat) (a : α)
    (found : first[place]? = some a) : second[place]? = some a := by
  obtain ⟨added, rfl⟩ := wider
  obtain ⟨inside, _⟩ := List.getElem?_eq_some_iff.mp found
  rw [List.getElem?_append_left inside, found]

theorem views_mono {Mark : Type} {world wider : List Mark} (grown : world <+: wider) :
    ∀ (scopes : List (Frame × Mark)) (layers : List Nat), Views world scopes layers → Views wider scopes layers
  | [], _, same => same
  | _ :: outer, layer :: rest, ⟨marked, further⟩ =>
      ⟨get_longer grown layer _ marked, views_mono grown outer rest further⟩

theorem views_declare {Mark : Type} {world : List Mark} (name : Name) (ready : Bool) (scopes : List (Frame × Mark))
    (layers : List Nat) (views : Views world scopes layers) : Views world (declareIn name ready scopes) layers := by
  cases scopes with
  | nil => exact views
  | cons scope outer =>
      cases layers with
      | nil => exact views
      | cons layer rest => exact views

theorem views_behind {Mark : Type} {world : List Mark} (s : Stmt) (scopes : List (Frame × Mark))
    (layers : List Nat) (views : Views world scopes layers) : Views world (s.behind scopes) layers := by
  cases s <;> first | exact views_declare _ _ _ _ views | exact views

section Values

variable (S : Scheme) (seen : Visit → Prop) (world : List S.Mark)

structure Closure.Echoed (above : List (Frame × S.Mark)) (closure echo : Closure) : Prop where
  env : echo.env = closure.env
  constructor : echo.isConstructor = closure.isConstructor
  routine : ∃ scopes, Views world scopes closure.env.chain ∧ S.Fits (above ++ scopes) ∧
    closure.routine.Settled seen ((above ++ scopes).map Prod.fst) ∧ closure.routine.Paired S (above ++ scopes) echo.routine

structure ClassValue.Echoed (c echo : ClassValue) : Prop where
  identity : echo.identity = c.identity
  name : echo.name = c.name
  methods : ∃ name methods,
    c.methods.Paired (Closure.Echoed S seen world [(.receiver name methods, S.receiver)]) echo.methods

structure Instance.Echoed (object echo : Instance) : Prop where
  identity : echo.identity = object.identity
  ofClass : object.ofClass.Echoed S seen world echo.ofClass

def Value.Echoed : Value → Value → Prop
  | .function identity closure, echo =>
      ∃ closure', echo = .function identity closure' ∧ closure.Echoed S seen world [] closure'
  | .class c, echo => ∃ c', echo = .class c' ∧ c.Echoed S seen world c'
  | .object target, echo => ∃ target', echo = .object target' ∧ target.Echoed S seen world target'
  | plain, echo => echo = plain

def Flow.Echoed : Flow → Flow → Prop
  | .normal, echo => echo = .normal
  | .returned value, echo => ∃ value', echo = .returned value' ∧ value.Echoed S seen world value'

end Values

section Mono

variable {S : Scheme} {seen more : Visit → Prop} {world wider : List S.Mark}

theorem closure_echoed_mono (shown : ∀ v, seen v → more v) (grown : world <+: wider) {above : List (Frame × S.Mark)}
    (closure echo : Closure) (echoed : closure.Echoed S seen world above echo) : closure.Echoed S more wider above echo := by
  obtain ⟨scopes, views, fits, settled, paired⟩ := echoed.routine
  exact ⟨echoed.env, echoed.constructor, scopes, views_mono grown scopes _ views, fits,
    routine_settled_mono shown _ _ settled, paired⟩

theorem class_echoed_mono (shown : ∀ v, seen v → more v) (grown : world <+: wider) (c echo : ClassValue)
    (echoed : c.Echoed S seen world echo) : c.Echoed S more wider echo := by
  obtain ⟨name, methods, table⟩ := echoed.methods
  exact ⟨echoed.identity, echoed.name, name, methods, Bindings.paired_mono (closure_echoed_mono shown grown) table⟩

theorem object_echoed_mono (shown : ∀ v, seen v → more v) (grown : world <+: wider) (object echo : Instance)
    (echoed : object.Echoed S seen world echo) : object.Echoed S more wider echo :=
  ⟨echoed.identity, class_echoed_mono shown grown _ _ echoed.ofClass⟩

theorem value_echoed_mono (shown : ∀ v, seen v → more v) (grown : world <+: wider) (value echo : Value)
    (echoed : value.Echoed S seen world echo) : value.Echoed S more wider echo := by
  cases value with
  | function identity closure =>
      obtain ⟨closure', same, pair⟩ := echoed
      exact ⟨closure', same, closure_echoed_mono shown grown closure closure' pair⟩
  | «class» c =>
      obtain ⟨c', same, pair⟩ := echoed
      exact ⟨c', same, class_echoed_mono shown grown c c' pair⟩
  | object object =>
      obtain ⟨object', same, pair⟩ := echoed
      exact ⟨object', same, object_echoed_mono shown grown object object' pair⟩
  | _ => exact echoed

end Mono

section Operators

variable {S : Scheme} {seen : Visit → Prop} {world : List S.Mark} {value echo : Value}

theorem routine_paired_name {scopes : List (Frame × S.Mark)} {routine other : Routine}
    (paired : routine.Paired S scopes other) : other.name = routine.name := by
  obtain ⟨name, parameters, body⟩ := routine
  obtain ⟨_, _, same, _⟩ := paired
  rw [same]

theorem routine_paired_constructor {scopes : List (Frame × S.Mark)} {routine other : Routine}
    (paired : routine.Paired S scopes other) : other.isConstructor = routine.isConstructor := by
  unfold Routine.isConstructor
  rw [routine_paired_name paired]

theorem routine_paired_parameters {scopes : List (Frame × S.Mark)} {routine other : Routine}
    (paired : routine.Paired S scopes other) : other.parameters.length = routine.parameters.length := by
  obtain ⟨name, parameters, body⟩ := routine
  obtain ⟨_, _, same, _⟩ := paired
  rw [same]
  exact List.length_map _

theorem closure_echoed_name {above : List (Frame × S.Mark)} {closure other : Closure}
    (echoed : closure.Echoed S seen world above other) : other.routine.name = closure.routine.name := by
  obtain ⟨_, _, _, _, paired⟩ := echoed.routine
  exact routine_paired_name paired

theorem closure_echoed_arity {above : List (Frame × S.Mark)} {closure other : Closure}
    (echoed : closure.Echoed S seen world above other) : other.arity = closure.arity := by
  obtain ⟨_, _, _, _, paired⟩ := echoed.routine
  exact routine_paired_parameters paired

theorem echoed_text (echoed : value.Echoed S seen world echo) : echo.text = value.text := by
  cases value with
  | function identity closure =>
      obtain ⟨closure', rfl, pair⟩ := echoed
      simp only [Value.text, closure_echoed_name pair]
  | «class» c =>
      obtain ⟨c', rfl, pair⟩ := echoed
      simp only [Value.text, pair.name]
  | object object =>
      obtain ⟨object', rfl, pair⟩ := echoed
      simp only [Value.text, pair.ofClass.name]
  | _ => cases echoed; rfl

theorem echoed_type_name (echoed : value.Echoed S seen world echo) : echo.typeName? = value.typeName? := by
  cases value with
  | function _ _ => obtain ⟨_, rfl, _⟩ := echoed; rfl
  | «class» _ => obtain ⟨_, rfl, _⟩ := echoed; rfl
  | object _ => obtain ⟨_, rfl, _⟩ := echoed; rfl
  | _ => cases echoed; rfl

theorem echoed_arity (echoed : value.Echoed S seen world echo) : echo.arity? = value.arity? := by
  cases value with
  | function identity closure =>
      obtain ⟨closure', rfl, pair⟩ := echoed
      simp only [Value.arity?, closure_echoed_arity pair]
  | «class» c =>
      obtain ⟨c', rfl, pair⟩ := echoed
      obtain ⟨name, methods, table⟩ := pair.methods
      have constructors := table Routine.constructorName
      simp only [Value.arity?, ClassValue.arity, ClassValue.constructor?]
      revert constructors
      generalize c.methods.find? Routine.constructorName = here
      generalize c'.methods.find? Routine.constructorName = there
      rintro (pair | _)
      · exact congrArg some (closure_echoed_arity pair)
      · rfl
  | object _ => obtain ⟨_, rfl, _⟩ := echoed; rfl
  | _ => cases echoed; rfl

def Value.IsPlain : Value → Prop
  | .function _ _ | .class _ | .object _ => False
  | _ => True

theorem echoed_plain (plain : value.IsPlain) : value.Echoed S seen world echo ↔ echo = value := by
  cases value <;> first | exact plain.elim | exact Iff.rfl

theorem none_echoed : Value.none.Echoed S seen world .none :=
  rfl

theorem literal_plain (literal : Literal) : literal.value.IsPlain := by
  cases literal <;> trivial

theorem echoed_equal {left right left' right' : Value} (first : left.Echoed S seen world left')
    (second : right.Echoed S seen world right') : left'.isEqual right' = left.isEqual right := by
  cases left with
  | function _ _ =>
      obtain ⟨_, rfl, _⟩ := first
      cases right with
      | function _ _ | «class» _ | object _ => obtain ⟨_, rfl, _⟩ := second; rfl
      | _ => cases second; rfl
  | «class» c =>
      obtain ⟨c', rfl, pair⟩ := first
      cases right with
      | «class» d =>
          obtain ⟨d', rfl, other⟩ := second
          simp only [Value.isEqual, pair.identity, other.identity]
      | function _ _ | object _ => obtain ⟨_, rfl, _⟩ := second; rfl
      | _ => cases second; rfl
  | object c =>
      obtain ⟨c', rfl, pair⟩ := first
      cases right with
      | object d =>
          obtain ⟨d', rfl, other⟩ := second
          simp only [Value.isEqual, pair.identity, other.identity]
      | function _ _ | «class» _ => obtain ⟨_, rfl, _⟩ := second; rfl
      | _ => cases second; rfl
  | _ =>
      cases first
      cases right with
      | function _ _ | «class» _ | object _ => obtain ⟨_, rfl, _⟩ := second; rfl
      | _ => cases second; rfl

end Operators

end TreeWalk
