import TreeWalk.Proofs.ReceiverName
import TreeWalk.Proofs.Settled

set_option autoImplicit false

namespace TreeWalk

structure Scheme where
  Mark : Type
  -- The marks of the top level and of the scope around the methods of a class.
  ground : Mark
  receiver : Mark
  spell : Mark → String → String
  -- The names that can be declared under a mark.
  Allows : Mark → String → Prop
  -- What holds of the open scopes and their marks, from the innermost outward.
  Fits : List (Frame × Mark) → Prop
  spell_ground : ∀ name, spell ground name = name
  spell_receiver : ∀ mark, spell mark receiverName = receiverName
  allows_receiver : Allows receiver receiverName
  distinct : ∀ mark a b, Allows mark a → Allows mark b → spell mark a = spell mark b → a = b
  fits_nil : Fits []
  fits_declare : ∀ (frame : Frame) (mark : Mark) (outer : List (Frame × Mark)) (name : String) (ready : Bool),
    Fits ((frame, mark) :: outer) → Fits (({ frame with scope := frame.scope.insert name ready }, mark) :: outer)

def declareIn {Mark : Type} (name : Name) (ready : Bool) : List (Frame × Mark) → List (Frame × Mark)
  | [] => []
  | (frame, mark) :: outer => ({ frame with scope := frame.scope.insert name.text ready }, mark) :: outer

def Stmt.behind {Mark : Type} (scopes : List (Frame × Mark)) : Stmt → List (Frame × Mark)
  | .var name _ | .class name _ => declareIn name true scopes
  | .function routine => declareIn routine.name true scopes
  | _ => scopes

theorem declare_frames {Mark : Type} (name : Name) (ready : Bool) (scopes : List (Frame × Mark)) :
    (declareIn name ready scopes).map Prod.fst = name.markIn ready (scopes.map Prod.fst) := by
  cases scopes <;> rfl

theorem behind_frames {Mark : Type} (scopes : List (Frame × Mark)) (s : Stmt) :
    (s.behind scopes).map Prod.fst = s.leaves (scopes.map Prod.fst) := by
  cases s <;> first | exact declare_frames _ _ _ | rfl

namespace Scheme

variable (S : Scheme)

def innermost : List (Frame × S.Mark) → S.Mark
  | [] => S.ground
  | (_, mark) :: _ => mark

def declaring (scopes : List (Frame × S.Mark)) (name : String) : String :=
  S.spell (S.innermost scopes) name

def reading : List (Frame × S.Mark) → String → String
  | [], name => name
  | (frame, mark) :: outer, name =>
      if frame.scope.contains name then S.spell mark name else reading outer name

theorem innermost_declare (name : Name) (ready : Bool) (scopes : List (Frame × S.Mark)) :
    S.innermost (declareIn name ready scopes) = S.innermost scopes := by
  cases scopes <;> rfl

theorem innermost_behind (s : Stmt) (scopes : List (Frame × S.Mark)) :
    S.innermost (s.behind scopes) = S.innermost scopes := by
  cases s <;> first | exact S.innermost_declare _ _ _ | rfl

theorem fits_declare_in (name : Name) (ready : Bool) (scopes : List (Frame × S.Mark)) (fits : S.Fits scopes) :
    S.Fits (declareIn name ready scopes) := by
  cases scopes with
  | nil => exact fits
  | cons scope outer => exact S.fits_declare scope.1 scope.2 outer name.text ready fits

theorem fits_behind (scopes : List (Frame × S.Mark)) (s : Stmt) (fits : S.Fits scopes) : S.Fits (s.behind scopes) := by
  cases s <;> first | exact S.fits_declare_in _ _ _ fits | exact fits

theorem reading_receiver : ∀ scopes : List (Frame × S.Mark), S.reading scopes receiverName = receiverName
  | [] => rfl
  | (frame, mark) :: outer => by
      unfold reading
      split
      · exact S.spell_receiver mark
      · exact reading_receiver outer

theorem reading_same (plain : ∀ mark name, S.spell mark name = name) :
    ∀ (scopes : List (Frame × S.Mark)) (name : String), S.reading scopes name = name
  | [], _ => rfl
  | (frame, mark) :: outer, name => by
      unfold reading
      split
      · exact plain mark name
      · exact reading_same plain outer name

end Scheme

def Name.respell (f : String → String) (name : Name) : Name :=
  { name with text := f name.text }

mutual
def Expr.respell (f : String → String) : Expr → Expr
  | .literal mark value => .literal mark value
  | .grouping mark inner => .grouping mark (inner.respell f)
  | .unary mark operator right => .unary mark operator (right.respell f)
  | .binary mark left operator right => .binary mark (left.respell f) operator (right.respell f)
  | .logical mark left operator right => .logical mark (left.respell f) operator (right.respell f)
  | .ident mark name => .ident mark (name.respell f)
  | .assign mark name value => .assign mark (name.respell f) (value.respell f)
  | .call mark callee arguments line => .call mark (callee.respell f) (Expr.respellAll f arguments) line
  | .get mark object name => .get mark (object.respell f) name
  | .set mark object name value => .set mark (object.respell f) name (value.respell f)
  | .this mark name => .this mark name

def Expr.respellAll (f : String → String) : List Expr → List Expr
  | [] => []
  | e :: rest => e.respell f :: Expr.respellAll f rest
end

theorem name_respell_same {f : String → String} {name : Name} (same : f name.text = name.text) :
    name.respell f = name := by
  unfold Name.respell
  rw [same]

mutual
theorem expr_respell_same {f : String → String} (same : ∀ name, f name = name) : ∀ e : Expr, e.respell f = e
  | .literal _ _ | .this _ _ => rfl
  | .ident _ name => by simp only [Expr.respell, name_respell_same (same name.text)]
  | .grouping _ inner | .get _ inner _ | .unary _ _ inner => by
      simp only [Expr.respell, expr_respell_same same inner]
  | .assign _ name value => by
      simp only [Expr.respell, name_respell_same (same name.text), expr_respell_same same value]
  | .binary _ left _ right | .logical _ left _ right | .set _ left _ right => by
      simp only [Expr.respell, expr_respell_same same left, expr_respell_same same right]
  | .call _ callee arguments _ => by
      simp only [Expr.respell, expr_respell_same same callee, exprs_respell_same same arguments]

theorem exprs_respell_same {f : String → String} (same : ∀ name, f name = name) : ∀ es : List Expr,
    Expr.respellAll f es = es
  | [] => rfl
  | e :: rest => by simp only [Expr.respellAll, expr_respell_same same e, exprs_respell_same same rest]
end

section Paired

variable (S : Scheme)

structure Expr.Paired (scopes : List (Frame × S.Mark)) (e other : Expr) : Prop where
  spelled : other = e.respell (S.reading scopes)
  proper : e.Proper

structure Name.Keeps (scopes : List (Frame × S.Mark)) (name : Name) : Prop where
  allowed : S.Allows (S.innermost scopes) name.text
  same : S.declaring scopes name.text = name.text

theorem keeps_respell {scopes : List (Frame × S.Mark)} {name : Name} (keeps : name.Keeps S scopes) :
    name.respell (S.declaring scopes) = name :=
  name_respell_same keeps.same

theorem receiver_respell (scopes : List (Frame × S.Mark)) {name : Name} (named : name.text = receiverName) :
    name.respell (S.reading scopes) = name :=
  name_respell_same (by rw [named, S.reading_receiver])

mutual
def Stmt.Paired (scopes : List (Frame × S.Mark)) : Stmt → Stmt → Prop
  | .expression e, other => ∃ e', other = .expression e' ∧ e.Paired S scopes e'
  | .var name none, other =>
      other = .var (name.respell (S.declaring scopes)) none ∧ S.Allows (S.innermost scopes) name.text
  | .var name (some e), other =>
      ∃ e', other = .var (name.respell (S.declaring scopes)) (some e') ∧ S.Allows (S.innermost scopes) name.text ∧
        e.Paired S (declareIn name false scopes) e'
  | .block body, other =>
      ∃ mark body', other = .block body' ∧ S.Fits ((.fresh (.block body), mark) :: scopes) ∧
        Stmt.PairedAll ((.fresh (.block body), mark) :: scopes) body body'
  | .branch condition body alternative, other =>
      ∃ condition' mark body' alternative', other = .branch condition' body' alternative' ∧
        condition.Paired S scopes condition' ∧ S.Fits ((.fresh (.branch body), mark) :: scopes) ∧
        Stmt.PairedAll ((.fresh (.branch body), mark) :: scopes) body body' ∧ alternative.Paired scopes alternative'
  | .while condition body, other =>
      ∃ condition' mark body', other = .while condition' body' ∧ condition.Paired S scopes condition' ∧
        S.Fits ((.fresh (.loop body), mark) :: scopes) ∧
        Stmt.PairedAll ((.fresh (.loop body), mark) :: scopes) body body'
  | .function routine, other =>
      ∃ routine', other = .function routine' ∧ routine.name.Keeps S scopes ∧
        routine.Paired (declareIn routine.name true scopes) routine'
  | .return line none, other => other = .return line none
  | .return line (some e), other => ∃ e', other = .return line (some e') ∧ e.Paired S scopes e'
  | .class name methods, other =>
      ∃ methods', other = .class name methods' ∧ name.Keeps S scopes ∧
        S.Fits ((.receiver name methods, S.receiver) :: declareIn name true scopes) ∧
        Routine.PairedAll ((.receiver name methods, S.receiver) :: declareIn name true scopes) methods methods'
termination_by structural first => first

def Alternative.Paired (scopes : List (Frame × S.Mark)) : Alternative → Alternative → Prop
  | .none, other => other = .none
  | .elseIf condition body alternative, other =>
      ∃ condition' mark body' alternative', other = .elseIf condition' body' alternative' ∧
        condition.Paired S scopes condition' ∧ S.Fits ((.fresh (.branch body), mark) :: scopes) ∧
        Stmt.PairedAll ((.fresh (.branch body), mark) :: scopes) body body' ∧ alternative.Paired scopes alternative'
  | .block body, other =>
      ∃ mark body', other = .block body' ∧ S.Fits ((.fresh (.otherwise body), mark) :: scopes) ∧
        Stmt.PairedAll ((.fresh (.otherwise body), mark) :: scopes) body body'
termination_by structural first => first

def Routine.Paired (scopes : List (Frame × S.Mark)) : Routine → Routine → Prop
  | ⟨name, parameters, body⟩, other =>
      ∃ mark body', other = ⟨name, parameters.map (Name.respell (S.spell mark)), body'⟩ ∧
        (∀ parameter ∈ parameters, S.Allows mark parameter.text) ∧
        S.Fits (((Routine.mk name parameters body).frame, mark) :: scopes) ∧
        Stmt.PairedAll (((Routine.mk name parameters body).frame, mark) :: scopes) body body'
termination_by structural first => first

def Stmt.PairedAll (scopes : List (Frame × S.Mark)) : List Stmt → List Stmt → Prop
  | [], others => others = []
  | s :: rest, others =>
      ∃ s' rest', others = s' :: rest' ∧ s.Paired scopes s' ∧ Stmt.PairedAll (s.behind scopes) rest rest'
termination_by structural first => first

def Routine.PairedAll (scopes : List (Frame × S.Mark)) : List Routine → List Routine → Prop
  | [], others => others = []
  | method :: rest, others =>
      ∃ method' rest', others = method' :: rest' ∧ method.Paired scopes method' ∧ Routine.PairedAll scopes rest rest'
termination_by structural first => first
end

end Paired

end TreeWalk
