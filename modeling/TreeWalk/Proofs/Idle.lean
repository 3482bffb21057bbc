import Mathlib.Data.List.Forall2
import TreeWalk.Proofs.Identities
import TreeWalk.Proofs.Reflected

set_option autoImplicit false

namespace TreeWalk

deriving instance DecidableEq for TokenKind, Token, Literal

section Comparison

mutual
def Expr.restates : Expr → Expr → Bool
  | .literal mark value, .literal mark' value' => mark'.line == mark.line && decide (value' = value)
  | .grouping mark inner, .grouping mark' inner' => mark'.line == mark.line && inner.restates inner'
  | .unary mark operator right, .unary mark' operator' right' =>
      mark'.line == mark.line && decide (operator' = operator) && right.restates right'
  | .binary mark left operator right, .binary mark' left' operator' right' =>
      mark'.line == mark.line && decide (operator' = operator) && left.restates left' && right.restates right'
  | .logical mark left operator right, .logical mark' left' operator' right' =>
      mark'.line == mark.line && decide (operator' = operator) && left.restates left' && right.restates right'
  | .ident mark name, .ident mark' name' => mark'.line == mark.line && name' == name
  | .assign mark name value, .assign mark' name' value' =>
      mark'.line == mark.line && name' == name && value.restates value'
  | .call mark callee arguments line, .call mark' callee' arguments' line' =>
      mark'.line == mark.line && line' == line && callee.restates callee' && Expr.restatesAll arguments arguments'
  | .get mark object name, .get mark' object' name' =>
      mark'.line == mark.line && name' == name && object.restates object'
  | .set mark object name value, .set mark' object' name' value' =>
      mark'.line == mark.line && name' == name && object.restates object' && value.restates value'
  | .this mark name, .this mark' name' => mark'.line == mark.line && name' == name
  | _, _ => false

def Expr.restatesAll : List Expr → List Expr → Bool
  | [], [] => true
  | e :: rest, e' :: rest' => e.restates e' && Expr.restatesAll rest rest'
  | _, _ => false
end

def Stmt.unidle? : List Stmt → Option (List Stmt)
  | [.block body, .expression (.literal _ .none)] => some body
  | _ => none

theorem unidle_some {body inner : List Stmt} (found : Stmt.unidle? body = some inner) :
    ∃ mark, body = [.block inner, .expression (.literal mark .none)] := by
  unfold Stmt.unidle? at found
  split at found
  · cases found
    exact ⟨_, rfl⟩
  · cases found

variable (picked : List Stmt → Bool)

-- The bodies that are picked are those of the loops, in the second program, that an idle action was added to.
mutual
def Stmt.idles : Stmt → Stmt → Bool
  | .expression e, .expression e' => e.restates e'
  | .var name none, .var name' none => name' == name
  | .var name (some e), .var name' (some e') => name' == name && e.restates e'
  | .block body, .block body' => Stmt.idlesAll body body'
  | .branch condition body alternative, .branch condition' body' alternative' =>
      condition.restates condition' && Stmt.idlesAll body body' && alternative.idles alternative'
  | .while condition body, .while condition' body' =>
      condition.restates condition' && (Stmt.idlesAll body body' ||
        picked body' && (Stmt.unidle? body').any fun inner => Stmt.idlesAll body inner)
  | .function routine, .function routine' => routine.idles routine'
  | .return line none, .return line' none => line' == line
  | .return line (some e), .return line' (some e') => line' == line && e.restates e'
  | .class name methods, .class name' methods' => name' == name && Routine.idlesAll methods methods'
  | _, _ => false

def Alternative.idles : Alternative → Alternative → Bool
  | .none, .none => true
  | .elseIf condition body alternative, .elseIf condition' body' alternative' =>
      condition.restates condition' && Stmt.idlesAll body body' && alternative.idles alternative'
  | .block body, .block body' => Stmt.idlesAll body body'
  | _, _ => false

def Routine.idles : Routine → Routine → Bool
  | ⟨name, parameters, body⟩, ⟨name', parameters', body'⟩ =>
      name' == name && parameters' == parameters && Stmt.idlesAll body body'

def Stmt.idlesAll : List Stmt → List Stmt → Bool
  | [], [] => true
  | s :: rest, s' :: rest' => s.idles s' && Stmt.idlesAll rest rest'
  | _, _ => false

def Routine.idlesAll : List Routine → List Routine → Bool
  | [], [] => true
  | method :: rest, method' :: rest' => method.idles method' && Routine.idlesAll rest rest'
  | _, _ => false
end

end Comparison

abbrev Spans := List Bool

section Alignment

-- Which identities of references may stand for each other inside of the scopes.
variable (good : Spans → Nat → Nat → Prop)

mutual
inductive Expr.Aligned : Spans → Expr → Expr → Prop where
  | literal {spans} (mark mark' : Mark) (value : Literal) (line : mark'.line = mark.line) :
      Expr.Aligned spans (.literal mark value) (.literal mark' value)
  | grouping {spans inner inner'} (mark mark' : Mark) (line : mark'.line = mark.line)
      (inside : Expr.Aligned spans inner inner') : Expr.Aligned spans (.grouping mark inner) (.grouping mark' inner')
  | unary {spans right right'} (mark mark' : Mark) (operator : Token) (line : mark'.line = mark.line)
      (operand : Expr.Aligned spans right right') :
      Expr.Aligned spans (.unary mark operator right) (.unary mark' operator right')
  | binary {spans left left' right right'} (mark mark' : Mark) (operator : Token) (line : mark'.line = mark.line)
      (first : Expr.Aligned spans left left') (second : Expr.Aligned spans right right') :
      Expr.Aligned spans (.binary mark left operator right) (.binary mark' left' operator right')
  | logical {spans left left' right right'} (mark mark' : Mark) (operator : Token) (line : mark'.line = mark.line)
      (first : Expr.Aligned spans left left') (second : Expr.Aligned spans right right') :
      Expr.Aligned spans (.logical mark left operator right) (.logical mark' left' operator right')
  | ident {spans} (mark mark' : Mark) (name : Name) (line : mark'.line = mark.line)
      (leads : good spans mark.id mark'.id) : Expr.Aligned spans (.ident mark name) (.ident mark' name)
  | assign {spans value value'} (mark mark' : Mark) (name : Name) (line : mark'.line = mark.line)
      (leads : good spans mark.id mark'.id) (result : Expr.Aligned spans value value') :
      Expr.Aligned spans (.assign mark name value) (.assign mark' name value')
  | call {spans callee callee' arguments arguments'} (mark mark' : Mark) (closing : Nat) (line : mark'.line = mark.line)
      (called : Expr.Aligned spans callee callee') (others : Expr.AlignedAll spans arguments arguments') :
      Expr.Aligned spans (.call mark callee arguments closing) (.call mark' callee' arguments' closing)
  | get {spans object object'} (mark mark' : Mark) (name : Name) (line : mark'.line = mark.line)
      (owner : Expr.Aligned spans object object') : Expr.Aligned spans (.get mark object name) (.get mark' object' name)
  | set {spans object object' value value'} (mark mark' : Mark) (name : Name) (line : mark'.line = mark.line)
      (owner : Expr.Aligned spans object object') (result : Expr.Aligned spans value value') :
      Expr.Aligned spans (.set mark object name value) (.set mark' object' name value')
  | this {spans} (mark mark' : Mark) (name : Name) (line : mark'.line = mark.line)
      (leads : good spans mark.id mark'.id) : Expr.Aligned spans (.this mark name) (.this mark' name)

inductive Expr.AlignedAll : Spans → List Expr → List Expr → Prop where
  | nil {spans} : Expr.AlignedAll spans [] []
  | cons {spans e e' rest rest'} (first : Expr.Aligned spans e e') (others : Expr.AlignedAll spans rest rest') :
      Expr.AlignedAll spans (e :: rest) (e' :: rest')
end

variable (picked : List Stmt → Bool)

mutual
inductive Stmt.Aligned : Spans → Stmt → Stmt → Prop where
  | expression {spans e e'} (value : e.Aligned good spans e') : Stmt.Aligned spans (.expression e) (.expression e')
  | var {spans} (name : Name) : Stmt.Aligned spans (.var name none) (.var name none)
  | initialized {spans e e'} (name : Name) (value : e.Aligned good spans e') :
      Stmt.Aligned spans (.var name (some e)) (.var name (some e'))
  | block {spans body body'} (inside : Stmt.AlignedAll (true :: spans) body body') :
      Stmt.Aligned spans (.block body) (.block body')
  | branch {spans condition condition' body body' alternative alternative'}
      (test : condition.Aligned good spans condition') (inside : Stmt.AlignedAll (true :: spans) body body')
      (other : Alternative.Aligned spans alternative alternative') :
      Stmt.Aligned spans (.branch condition body alternative) (.branch condition' body' alternative')
  | while {spans condition condition' body body'} (test : condition.Aligned good spans condition')
      (inside : Stmt.AlignedAll (true :: spans) body body') :
      Stmt.Aligned spans (.while condition body) (.while condition' body')
  -- The scope of the loop holds nothing any more, and the body has one of its own.
  | idle {spans condition condition' body body'} (mark : Mark) (test : condition.Aligned good spans condition')
      (inside : Stmt.AlignedAll (true :: false :: spans) body body')
      (chosen : picked [.block body', .expression (.literal mark .none)] = true) :
      Stmt.Aligned spans (.while condition body) (.while condition' [.block body', .expression (.literal mark .none)])
  | function {spans routine routine'} (same : Routine.Aligned spans routine routine') :
      Stmt.Aligned spans (.function routine) (.function routine')
  | return {spans} (line : Nat) : Stmt.Aligned spans (.return line none) (.return line none)
  | returned {spans e e'} (line : Nat) (value : e.Aligned good spans e') :
      Stmt.Aligned spans (.return line (some e)) (.return line (some e'))
  | class {spans methods methods'} (name : Name) (inside : Routine.AlignedAll (true :: spans) methods methods') :
      Stmt.Aligned spans (.class name methods) (.class name methods')

inductive Alternative.Aligned : Spans → Alternative → Alternative → Prop where
  | none {spans} : Alternative.Aligned spans .none .none
  | elseIf {spans condition condition' body body' alternative alternative'}
      (test : condition.Aligned good spans condition') (inside : Stmt.AlignedAll (true :: spans) body body')
      (other : Alternative.Aligned spans alternative alternative') :
      Alternative.Aligned spans (.elseIf condition body alternative) (.elseIf condition' body' alternative')
  | block {spans body body'} (inside : Stmt.AlignedAll (true :: spans) body body') :
      Alternative.Aligned spans (.block body) (.block body')
  -- The block holds just the next alternative.
  | nested {spans condition condition' body body' alternative alternative'}
      (test : condition.Aligned good (false :: spans) condition')
      (inside : Stmt.AlignedAll (true :: false :: spans) body body')
      (other : Alternative.Aligned (false :: spans) alternative alternative') :
      Alternative.Aligned spans (.elseIf condition body alternative) (.block [.branch condition' body' alternative'])

inductive Routine.Aligned : Spans → Routine → Routine → Prop where
  | routine {spans body body'} (name : Name) (parameters : List Name)
      (inside : Stmt.AlignedAll (true :: spans) body body') :
      Routine.Aligned spans ⟨name, parameters, body⟩ ⟨name, parameters, body'⟩

inductive Stmt.AlignedAll : Spans → List Stmt → List Stmt → Prop where
  | nil {spans} : Stmt.AlignedAll spans [] []
  | cons {spans s s' rest rest'} (first : Stmt.Aligned spans s s') (others : Stmt.AlignedAll spans rest rest') :
      Stmt.AlignedAll spans (s :: rest) (s' :: rest')

inductive Routine.AlignedAll : Spans → List Routine → List Routine → Prop where
  | nil {spans} : Routine.AlignedAll spans [] []
  | cons {spans method method' rest rest'} (first : Routine.Aligned spans method method')
      (others : Routine.AlignedAll spans rest rest') : Routine.AlignedAll spans (method :: rest) (method' :: rest')
end

end Alignment

section Compared

variable {picked : List Stmt → Bool}

abbrev Expr.Restates (spans : Spans) : Expr → Expr → Prop :=
  Expr.Aligned (fun _ _ _ => True) spans

abbrev Stmt.Idles (picked : List Stmt → Bool) (spans : Spans) : Stmt → Stmt → Prop :=
  Stmt.Aligned (fun _ _ _ => True) picked spans

mutual
theorem restates_aligned (spans : Spans) : ∀ {e e' : Expr}, e.restates e' = true → Expr.Restates spans e e'
  | .literal _ _, e', same => by
      cases e' <;> simp [Expr.restates] at same
      obtain ⟨line, rfl⟩ := same
      exact .literal _ _ _ line
  | .grouping _ _, e', same => by
      cases e' <;> simp [Expr.restates] at same
      exact .grouping _ _ same.1 (restates_aligned spans same.2)
  | .unary _ _ _, e', same => by
      cases e' <;> simp [Expr.restates] at same
      obtain ⟨⟨line, rfl⟩, right⟩ := same
      exact .unary _ _ _ line (restates_aligned spans right)
  | .binary _ _ _ _, e', same => by
      cases e' <;> simp [Expr.restates] at same
      obtain ⟨⟨⟨line, rfl⟩, left⟩, right⟩ := same
      exact .binary _ _ _ line (restates_aligned spans left) (restates_aligned spans right)
  | .logical _ _ _ _, e', same => by
      cases e' <;> simp [Expr.restates] at same
      obtain ⟨⟨⟨line, rfl⟩, left⟩, right⟩ := same
      exact .logical _ _ _ line (restates_aligned spans left) (restates_aligned spans right)
  | .ident _ _, e', same => by
      cases e' <;> simp [Expr.restates] at same
      obtain ⟨line, rfl⟩ := same
      exact .ident _ _ _ line trivial
  | .assign _ _ _, e', same => by
      cases e' <;> simp [Expr.restates] at same
      obtain ⟨⟨line, rfl⟩, value⟩ := same
      exact .assign _ _ _ line trivial (restates_aligned spans value)
  | .call _ _ _ _, e', same => by
      cases e' <;> simp [Expr.restates] at same
      obtain ⟨⟨⟨line, rfl⟩, callee⟩, arguments⟩ := same
      exact .call _ _ _ line (restates_aligned spans callee) (restates_aligned_all spans arguments)
  | .get _ _ _, e', same => by
      cases e' <;> simp [Expr.restates] at same
      obtain ⟨⟨line, rfl⟩, object⟩ := same
      exact .get _ _ _ line (restates_aligned spans object)
  | .set _ _ _ _, e', same => by
      cases e' <;> simp [Expr.restates] at same
      obtain ⟨⟨⟨line, rfl⟩, object⟩, value⟩ := same
      exact .set _ _ _ line (restates_aligned spans object) (restates_aligned spans value)
  | .this _ _, e', same => by
      cases e' <;> simp [Expr.restates] at same
      obtain ⟨line, rfl⟩ := same
      exact .this _ _ _ line trivial

theorem restates_aligned_all (spans : Spans) : ∀ {es es' : List Expr}, Expr.restatesAll es es' = true →
    Expr.AlignedAll (fun _ _ _ => True) spans es es'
  | [], es', same => by
      cases es' <;> simp [Expr.restatesAll] at same
      exact .nil
  | e :: rest, es', same => by
      cases es' <;> simp [Expr.restatesAll] at same
      exact .cons (restates_aligned spans same.1) (restates_aligned_all spans same.2)
end

mutual
theorem idles_aligned (spans : Spans) : ∀ {s s' : Stmt}, s.idles picked s' = true → s.Idles picked spans s'
  | .expression _, s', same => by
      cases s' <;> simp [Stmt.idles] at same
      exact .expression (restates_aligned spans same)
  | .var _ none, s', same => by
      rcases s' with _ | ⟨_, _ | _⟩ | _ | _ | _ | _ | _ | _ <;> simp [Stmt.idles] at same
      obtain rfl := same
      exact .var _
  | .var _ (some _), s', same => by
      rcases s' with _ | ⟨_, _ | _⟩ | _ | _ | _ | _ | _ | _ <;> simp [Stmt.idles] at same
      obtain ⟨rfl, value⟩ := same
      exact .initialized _ (restates_aligned spans value)
  | .block _, s', same => by
      cases s' <;> simp [Stmt.idles] at same
      exact .block (idles_aligned_all _ same)
  | .branch _ _ _, s', same => by
      cases s' <;> simp [Stmt.idles] at same
      obtain ⟨⟨test, inside⟩, other⟩ := same
      exact .branch (restates_aligned spans test) (idles_aligned_all _ inside) (idles_aligned_alternative spans other)
  | .while _ _, s', same => by
      cases s' with
      | «while» condition' body' =>
          rw [Stmt.idles, Bool.and_eq_true, Bool.or_eq_true, Bool.and_eq_true, Option.any_eq_true] at same
          obtain ⟨test, inside | ⟨chosen, inner, found, inside⟩⟩ := same
          · exact .while (restates_aligned spans test) (idles_aligned_all _ inside)
          · obtain ⟨mark, rfl⟩ := unidle_some found
            exact .idle mark (restates_aligned spans test) (idles_aligned_all _ inside) chosen
      | _ => simp [Stmt.idles] at same
  | .function _, s', same => by
      cases s' <;> simp [Stmt.idles] at same
      exact .function (idles_aligned_routine spans same)
  | .return _ none, s', same => by
      rcases s' with _ | _ | _ | _ | _ | _ | ⟨_, _ | _⟩ | _ <;> simp [Stmt.idles] at same
      obtain rfl := same
      exact .return _
  | .return _ (some _), s', same => by
      rcases s' with _ | _ | _ | _ | _ | _ | ⟨_, _ | _⟩ | _ <;> simp [Stmt.idles] at same
      obtain ⟨rfl, value⟩ := same
      exact .returned _ (restates_aligned spans value)
  | .class _ _, s', same => by
      cases s' <;> simp [Stmt.idles] at same
      obtain ⟨rfl, inside⟩ := same
      exact .class _ (idles_aligned_routines _ inside)

theorem idles_aligned_alternative (spans : Spans) : ∀ {a a' : Alternative}, a.idles picked a' = true →
    a.Aligned (fun _ _ _ => True) picked spans a'
  | .none, a', same => by
      cases a' <;> simp [Alternative.idles] at same
      exact .none
  | .elseIf _ _ _, a', same => by
      cases a' <;> simp [Alternative.idles] at same
      obtain ⟨⟨test, inside⟩, other⟩ := same
      exact .elseIf (restates_aligned spans test) (idles_aligned_all _ inside) (idles_aligned_alternative spans other)
  | .block _, a', same => by
      cases a' <;> simp [Alternative.idles] at same
      exact .block (idles_aligned_all _ same)

theorem idles_aligned_routine (spans : Spans) : ∀ {r r' : Routine}, r.idles picked r' = true →
    r.Aligned (fun _ _ _ => True) picked spans r'
  | ⟨_, _, _⟩, ⟨_, _, _⟩, same => by
      simp [Routine.idles] at same
      obtain ⟨⟨rfl, rfl⟩, inside⟩ := same
      exact .routine _ _ (idles_aligned_all _ inside)

theorem idles_aligned_all (spans : Spans) : ∀ {body body' : List Stmt}, Stmt.idlesAll picked body body' = true →
    Stmt.AlignedAll (fun _ _ _ => True) picked spans body body'
  | [], body', same => by
      cases body' <;> simp [Stmt.idlesAll] at same
      exact .nil
  | _ :: _, body', same => by
      cases body' <;> simp [Stmt.idlesAll] at same
      exact .cons (idles_aligned spans same.1) (idles_aligned_all spans same.2)

theorem idles_aligned_routines (spans : Spans) : ∀ {methods methods' : List Routine},
    Routine.idlesAll picked methods methods' = true → Routine.AlignedAll (fun _ _ _ => True) picked spans methods methods'
  | [], methods', same => by
      cases methods' <;> simp [Routine.idlesAll] at same
      exact .nil
  | _ :: _, methods', same => by
      cases methods' <;> simp [Routine.idlesAll] at same
      exact .cons (idles_aligned_routine spans same.1) (idles_aligned_routines spans same.2)
end

end Compared

section Aligned

variable {good : Spans → Nat → Nat → Prop} {picked : List Stmt → Bool} {spans : Spans}

theorem aligned_line {e e' : Expr} (aligned : e.Aligned good spans e') : e'.line = e.line := by
  cases aligned <;> assumption

theorem aligned_routine {r r' : Routine} (aligned : r.Aligned good picked spans r') :
    r'.name = r.name ∧ r'.parameters = r.parameters ∧ Stmt.AlignedAll good picked (true :: spans) r.body r'.body := by
  cases aligned with
  | routine name parameters inside => exact ⟨rfl, rfl, inside⟩

theorem aligned_constructor {r r' : Routine} (aligned : r.Aligned good picked spans r') :
    r'.isConstructor = r.isConstructor := by
  unfold Routine.isConstructor
  rw [(aligned_routine aligned).1]

theorem aligned_own {s s' : Stmt} (aligned : s.Aligned good picked spans s') : s'.own = s.own := by
  cases aligned with
  | function same => exact congrArg (fun name : Name => [name.text]) (aligned_routine same).1
  | _ => rfl

theorem aligned_own_all : ∀ {body body' : List Stmt}, Stmt.AlignedAll good picked spans body body' →
    Stmt.ownAll body' = Stmt.ownAll body
  | _, _, .nil => rfl
  | _, _, .cons first others => congrArg₂ (· ++ ·) (aligned_own first) (aligned_own_all others)

theorem aligned_children {e e' : Expr} (aligned : e.Aligned good spans e') :
    List.Forall₂ (Expr.Aligned good spans) e.children e'.children := by
  have all : ∀ {es es' : List Expr}, Expr.AlignedAll good spans es es' → List.Forall₂ (Expr.Aligned good spans) es es' := by
    intro es
    induction es with
    | nil => intro es' others; cases others; exact .nil
    | cons e rest ih => intro es' others; cases others with | cons first others => exact .cons first (ih others)
  cases aligned with
  | literal => exact .nil
  | ident => exact .nil
  | this => exact .nil
  | grouping _ _ _ inside => exact .cons inside .nil
  | unary _ _ _ _ operand => exact .cons operand .nil
  | binary _ _ _ _ first second => exact .cons first (.cons second .nil)
  | logical _ _ _ _ first second => exact .cons first (.cons second .nil)
  | assign _ _ _ _ _ result => exact .cons result .nil
  | call _ _ _ _ called others => exact .cons called (all others)
  | get _ _ _ _ owner => exact .cons owner .nil
  | set _ _ _ _ owner result => exact .cons owner (.cons result .nil)

theorem aligned_methods : ∀ {methods methods' : List Routine}, Routine.AlignedAll good picked spans methods methods' →
    List.Forall₂ (Routine.Aligned good picked spans) methods methods'
  | _, _, .nil => .nil
  | _, _, .cons first others => .cons first (aligned_methods others)

theorem aligned_method_names : ∀ {methods methods' : List Routine}, Routine.AlignedAll good picked spans methods methods' →
    (methods'.map fun method => method.name.text) = methods.map fun method => method.name.text
  | _, _, .nil => rfl
  | _, _, .cons first others => by rw [List.map_cons, List.map_cons, (aligned_routine first).1, aligned_method_names others]

end Aligned

section Itself

variable {picked : List Stmt → Bool}

mutual
theorem restates_itself (spans : Spans) : ∀ e : Expr, e.Restates spans e
  | .literal _ _ => .literal _ _ _ rfl
  | .grouping _ inner => .grouping _ _ rfl (restates_itself spans inner)
  | .unary _ _ right => .unary _ _ _ rfl (restates_itself spans right)
  | .binary _ left _ right => .binary _ _ _ rfl (restates_itself spans left) (restates_itself spans right)
  | .logical _ left _ right => .logical _ _ _ rfl (restates_itself spans left) (restates_itself spans right)
  | .ident _ _ => .ident _ _ _ rfl trivial
  | .assign _ _ value => .assign _ _ _ rfl trivial (restates_itself spans value)
  | .call _ callee arguments _ => .call _ _ _ rfl (restates_itself spans callee) (restates_itself_all spans arguments)
  | .get _ object _ => .get _ _ _ rfl (restates_itself spans object)
  | .set _ object _ value => .set _ _ _ rfl (restates_itself spans object) (restates_itself spans value)
  | .this _ _ => .this _ _ _ rfl trivial

theorem restates_itself_all (spans : Spans) : ∀ es : List Expr, Expr.AlignedAll (fun _ _ _ => True) spans es es
  | [] => .nil
  | e :: rest => .cons (restates_itself spans e) (restates_itself_all spans rest)
end

mutual
theorem stmt_itself (spans : Spans) : ∀ s : Stmt, s.Idles picked spans s
  | .expression e => .expression (restates_itself spans e)
  | .var _ none => .var _
  | .var _ (some e) => .initialized _ (restates_itself spans e)
  | .block body => .block (stmts_itself _ body)
  | .branch condition body alternative =>
      .branch (restates_itself spans condition) (stmts_itself _ body) (alternative_itself spans alternative)
  | .while condition body => .while (restates_itself spans condition) (stmts_itself _ body)
  | .function routine => .function (routine_itself spans routine)
  | .return _ none => .return _
  | .return _ (some e) => .returned _ (restates_itself spans e)
  | .class _ methods => .class _ (routines_itself _ methods)

theorem alternative_itself (spans : Spans) : ∀ a : Alternative, a.Aligned (fun _ _ _ => True) picked spans a
  | .none => .none
  | .elseIf condition body alternative =>
      .elseIf (restates_itself spans condition) (stmts_itself _ body) (alternative_itself spans alternative)
  | .block body => .block (stmts_itself _ body)

theorem routine_itself (spans : Spans) : ∀ r : Routine, r.Aligned (fun _ _ _ => True) picked spans r
  | ⟨_, _, body⟩ => .routine _ _ (stmts_itself _ body)

theorem stmts_itself (spans : Spans) : ∀ body : List Stmt, Stmt.AlignedAll (fun _ _ _ => True) picked spans body body
  | [] => .nil
  | s :: rest => .cons (stmt_itself spans s) (stmts_itself spans rest)

theorem routines_itself (spans : Spans) : ∀ methods : List Routine,
    Routine.AlignedAll (fun _ _ _ => True) picked spans methods methods
  | [] => .nil
  | method :: rest => .cons (routine_itself spans method) (routines_itself spans rest)
end

end Itself

end TreeWalk
