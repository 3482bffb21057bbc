import TreeWalk.Proofs.Spellings

set_option autoImplicit false

namespace TreeWalk

-- The names that a statement declares in the scope around it.
def Stmt.own : Stmt → List String
  | .var name _ | .class name _ => [name.text]
  | .function routine => [routine.name.text]
  | _ => []

mutual
-- The names that are declared in the scopes inside a statement.
def Stmt.inner : Stmt → List String
  | .expression _ | .var _ _ | .return _ _ => []
  | .block body | .while _ body => Stmt.declaredAll body
  | .branch _ body alternative => Stmt.declaredAll body ++ alternative.inner
  | .function routine => routine.inner
  | .class _ methods => Routine.innerAll methods

def Alternative.inner : Alternative → List String
  | .none => []
  | .elseIf _ body alternative => Stmt.declaredAll body ++ alternative.inner
  | .block body => Stmt.declaredAll body

def Routine.inner : Routine → List String
  | ⟨_, parameters, body⟩ => parameters.map Name.text ++ Stmt.declaredAll body

def Stmt.declaredAll : List Stmt → List String
  | [] => []
  | s :: rest => s.own ++ s.inner ++ Stmt.declaredAll rest

def Routine.innerAll : List Routine → List String
  | [] => []
  | method :: rest => method.inner ++ Routine.innerAll rest
end

namespace Program

-- All variables, functions, classes and parameters of a program.
def declared (program : Program) : List String :=
  Stmt.declaredAll program

end Program

-- The variables of a program that are called `old` in the scopes at the picked places get the name
-- `new`. The place of a scope is the path to it through the tree.
structure Alpha where
  old : String
  new : String
  picked : List Nat → Bool
  plain : Keyword.ofText? new = none

namespace Alpha

variable (r : Alpha)

def spell (own : Bool) (name : String) : String :=
  if own && name == r.old && name != receiverName then r.new else name

abbrev scheme : Scheme where
  Mark := Bool
  ground := false
  receiver := false
  spell := r.spell
  Allows own name := own = true → name ≠ r.new
  Fits _ := True
  spell_ground _ := rfl
  spell_receiver own := by simp [spell]
  allows_receiver own := nomatch own
  distinct own a b first second same := by
    cases own with
    | false => exact same
    | true =>
        have left := first rfl
        have right := second rfl
        simp only [spell] at same
        split at same <;> split at same
        · simp_all
        · exact (right same.symm).elim
        · exact (left same).elim
        · exact same
  fits_nil := trivial
  fits_declare _ _ _ _ _ := id

def fixes : Stmt → Bool
  | .function routine => routine.name.text == r.old
  | .class name _ => name.text == r.old
  | _ => false

def marks (place : List Nat) (body : List Stmt) : Bool :=
  r.picked place && !body.any r.fixes

mutual
def inStmt (place : List Nat) (scopes : List (Frame × Bool)) : Stmt → Stmt
  | .expression e => .expression (e.respell (r.scheme.reading scopes))
  | .var name none => .var (name.respell (r.scheme.declaring scopes)) none
  | .var name (some e) =>
      .var (name.respell (r.scheme.declaring scopes))
        (some (e.respell (r.scheme.reading (declareIn name false scopes))))
  | .block body => .block (inBody place ((.fresh (.block body), r.marks place body) :: scopes) body)
  | .branch condition body alternative =>
      .branch (condition.respell (r.scheme.reading scopes))
        (inBody (0 :: place) ((.fresh (.branch body), r.marks (0 :: place) body) :: scopes) body)
        (inAlternative (1 :: place) scopes alternative)
  | .while condition body =>
      .while (condition.respell (r.scheme.reading scopes))
        (inBody place ((.fresh (.loop body), r.marks place body) :: scopes) body)
  | .function f => .function (inRoutine place (declareIn f.name true scopes) f)
  | .return line none => .return line none
  | .return line (some e) => .return line (some (e.respell (r.scheme.reading scopes)))
  | .class name methods =>
      .class name (inMethods place ((.receiver name methods, false) :: declareIn name true scopes) methods)

def inAlternative (place : List Nat) (scopes : List (Frame × Bool)) : Alternative → Alternative
  | .none => .none
  | .elseIf condition body alternative =>
      .elseIf (condition.respell (r.scheme.reading scopes))
        (inBody (0 :: place) ((.fresh (.branch body), r.marks (0 :: place) body) :: scopes) body)
        (inAlternative (1 :: place) scopes alternative)
  | .block body => .block (inBody place ((.fresh (.otherwise body), r.marks place body) :: scopes) body)

def inRoutine (place : List Nat) (scopes : List (Frame × Bool)) : Routine → Routine
  | ⟨name, parameters, body⟩ =>
      ⟨name, parameters.map (Name.respell (r.spell (r.marks place body))),
        inBody place (((Routine.mk name parameters body).frame, r.marks place body) :: scopes) body⟩

def inBody (place : List Nat) (scopes : List (Frame × Bool)) : List Stmt → List Stmt
  | [] => []
  | s :: rest => inStmt (0 :: place) scopes s :: inBody (1 :: place) (s.behind scopes) rest

def inMethods (place : List Nat) (scopes : List (Frame × Bool)) : List Routine → List Routine
  | [] => []
  | method :: rest => inRoutine (0 :: place) scopes method :: inMethods (1 :: place) scopes rest
end

def program (p : Program) : Program :=
  r.inBody [] [] p

end Alpha

theorem alpha_receiver (r : Alpha) : receiverName ≠ r.new := by
  intro same
  have keyword := r.plain
  rw [← same] at keyword
  exact nomatch keyword

section Paired

variable {r : Alpha}

theorem keeps_name {scopes : List (Frame × Bool)} (name : Name) (fresh : name.text ≠ r.new)
    (other : r.scheme.innermost scopes = true → (name.text == r.old) = false) : name.Keeps r.scheme scopes := by
  refine ⟨fun _ => fresh, ?_⟩
  show r.spell (r.scheme.innermost scopes) name.text = name.text
  unfold Alpha.spell
  cases mark : r.scheme.innermost scopes with
  | false => rfl
  | true => simp [other mark]

theorem fresh_head {name : String} {names : List String} (fresh : r.new ∉ name :: names) : name ≠ r.new :=
  fun same => fresh (same ▸ List.mem_cons_self)

theorem fresh_tail {name : String} {names : List String} (fresh : r.new ∉ name :: names) : r.new ∉ names :=
  fun member => fresh (List.mem_cons_of_mem _ member)

theorem fresh_left {names others : List String} (fresh : r.new ∉ names ++ others) : r.new ∉ names :=
  fun member => fresh (List.mem_append_left _ member)

theorem fresh_right {names others : List String} (fresh : r.new ∉ names ++ others) : r.new ∉ others :=
  fun member => fresh (List.mem_append_right _ member)

theorem fixes_none {place : List Nat} {body : List Stmt} (marks : r.marks place body = true) :
    ∀ s ∈ body, r.fixes s = false := by
  simpa [Alpha.marks] using (Bool.and_eq_true_iff.mp marks).2

mutual
theorem stmt_alpha : ∀ (s : Stmt) (place : List Nat) (scopes : List (Frame × Bool)), s.Proper →
    r.new ∉ s.own ++ s.inner → (r.scheme.innermost scopes = true → r.fixes s = false) →
    s.Paired r.scheme scopes (r.inStmt place scopes s)
  | .expression _, _, _, proper, _, _ => ⟨_, rfl, rfl, proper⟩
  | .var _ none, _, _, _, fresh, _ => ⟨rfl, fun _ => fresh_head fresh⟩
  | .var _ (some _), _, _, proper, fresh, _ => ⟨_, rfl, fun _ => fresh_head fresh, rfl, proper.2⟩
  | .block body, place, _, proper, fresh, _ =>
      ⟨_, _, rfl, trivial, stmts_alpha body place _ proper fresh fixes_none⟩
  | .branch _ body alternative, place, scopes, proper, fresh, _ =>
      ⟨_, _, _, _, rfl, ⟨rfl, proper.1⟩, trivial,
        stmts_alpha body (0 :: place) _ proper.2.1 (fresh_left fresh) fixes_none,
        alternative_alpha alternative (1 :: place) scopes proper.2.2 (fresh_right fresh)⟩
  | .while _ body, place, _, proper, fresh, _ =>
      ⟨_, _, _, rfl, ⟨rfl, proper.1⟩, trivial, stmts_alpha body place _ proper.2 fresh fixes_none⟩
  | .function routine, place, _, proper, fresh, other =>
      ⟨_, rfl, keeps_name routine.name (fresh_head fresh) other,
        routine_alpha routine place _ proper (fresh_tail fresh)⟩
  | .return _ none, _, _, _, _, _ => rfl
  | .return _ (some _), _, _, proper, _, _ => ⟨_, rfl, rfl, proper⟩
  | .class name methods, place, _, proper, fresh, other =>
      ⟨_, rfl, keeps_name name (fresh_head fresh) other, trivial,
        routines_alpha methods place _ proper.2 (fresh_tail fresh)⟩

theorem alternative_alpha : ∀ (a : Alternative) (place : List Nat) (scopes : List (Frame × Bool)), a.Proper →
    r.new ∉ a.inner → a.Paired r.scheme scopes (r.inAlternative place scopes a)
  | .none, _, _, _, _ => rfl
  | .elseIf _ body alternative, place, scopes, proper, fresh =>
      ⟨_, _, _, _, rfl, ⟨rfl, proper.1⟩, trivial,
        stmts_alpha body (0 :: place) _ proper.2.1 (fresh_left fresh) fixes_none,
        alternative_alpha alternative (1 :: place) scopes proper.2.2 (fresh_right fresh)⟩
  | .block body, place, _, proper, fresh =>
      ⟨_, _, rfl, trivial, stmts_alpha body place _ proper fresh fixes_none⟩

theorem routine_alpha : ∀ (routine : Routine) (place : List Nat) (scopes : List (Frame × Bool)), routine.Proper →
    r.new ∉ routine.inner → routine.Paired r.scheme scopes (r.inRoutine place scopes routine)
  | ⟨_, _, body⟩, place, _, proper, fresh =>
      ⟨_, _, rfl, fun _ member _ same => fresh_left fresh (same ▸ List.mem_map_of_mem member), trivial,
        stmts_alpha body place _ proper.2.2 (fresh_right fresh) fixes_none⟩

theorem stmts_alpha : ∀ (body : List Stmt) (place : List Nat) (scopes : List (Frame × Bool)),
    Stmt.ProperAll body → r.new ∉ Stmt.declaredAll body →
    (r.scheme.innermost scopes = true → ∀ s ∈ body, r.fixes s = false) →
    Stmt.PairedAll r.scheme scopes body (r.inBody place scopes body)
  | [], _, _, _, _, _ => rfl
  | s :: rest, place, scopes, proper, fresh, other =>
      ⟨_, _, rfl, stmt_alpha s (0 :: place) scopes proper.1 (fresh_left fresh)
        (fun mark => other mark s List.mem_cons_self),
        stmts_alpha rest (1 :: place) _ proper.2 (fresh_right fresh) fun mark next member =>
          other (r.scheme.innermost_behind s scopes ▸ mark) next (List.mem_cons_of_mem _ member)⟩

theorem routines_alpha : ∀ (methods : List Routine) (place : List Nat) (scopes : List (Frame × Bool)),
    Routine.ProperAll methods → r.new ∉ Routine.innerAll methods →
    Routine.PairedAll r.scheme scopes methods (r.inMethods place scopes methods)
  | [], _, _, _, _ => rfl
  | method :: rest, place, scopes, proper, fresh =>
      ⟨_, _, rfl, routine_alpha method (0 :: place) scopes proper.1 (fresh_left fresh),
        routines_alpha rest (1 :: place) scopes proper.2 (fresh_right fresh)⟩
end

end Paired

end TreeWalk
