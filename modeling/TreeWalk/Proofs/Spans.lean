import TreeWalk.Proofs.Idle
import TreeWalk.Proofs.Settled

set_option autoImplicit false

namespace TreeWalk

-- From inside of the scopes, a distance in the first program and the one to the same scope in the second.
inductive Spans.Leads : Spans → Nat → Nat → Prop where
  | here {spans : Spans} : Spans.Leads (true :: spans) 0 0
  | further {spans : Spans} {distance distance' : Nat} (outer : Spans.Leads spans distance distance') :
      Spans.Leads (true :: spans) (distance + 1) (distance' + 1)
  | past {spans : Spans} {distance distance' : Nat} (outer : Spans.Leads spans distance distance') :
      Spans.Leads (false :: spans) distance (distance' + 1)

-- The open scopes around a place in either program. Those that are not there in the first hold nothing.
inductive Stretched : Spans → List Frame → List Frame → Prop where
  | nil : Stretched [] [] []
  | common {spans : Spans} {frame frame' : Frame} {frames frames' : List Frame} (same : frame'.scope = frame.scope)
      (outer : Stretched spans frames frames') : Stretched (true :: spans) (frame :: frames) (frame' :: frames')
  | extra {spans : Spans} {frame' : Frame} {frames frames' : List Frame} (bare : frame'.scope = .empty)
      (outer : Stretched spans frames frames') : Stretched (false :: spans) frames (frame' :: frames')

section Frames

variable {spans : Spans} {frames frames' : List Frame}

-- What is known of the open scopes around two places, where it goes over from the places to what stands there.
structure Placing (placed : Spans → List Frame → List Frame → Prop) : Prop where
  mark : ∀ {spans frames frames'}, placed spans frames frames' → spans.head? ≠ some false → ∀ (name : Name) (ready : Bool),
    placed spans (name.markIn ready frames) (name.markIn ready frames')
  fresh : ∀ {spans frames frames'}, placed spans frames frames' → ∀ site site',
    placed (true :: spans) (.fresh site :: frames) (.fresh site' :: frames')
  bare : ∀ {spans frames frames'}, placed spans frames frames' → ∀ site,
    placed (false :: spans) frames (.fresh site :: frames')
  receiver : ∀ {spans frames frames'}, placed spans frames frames' → ∀ (name : Name) (methods methods' : List Routine),
    placed (true :: spans) (.receiver name methods :: frames) (.receiver name methods' :: frames')
  routine : ∀ {spans frames frames'}, placed spans frames frames' →
    ∀ (name : Name) (parameters : List Name) (body body' : List Stmt),
      placed (true :: spans) ((Routine.mk name parameters body).frame :: frames)
        ((Routine.mk name parameters body').frame :: frames')

theorem placing_anywhere : Placing fun _ _ _ => True :=
  ⟨fun _ _ _ _ => trivial, fun _ _ _ => trivial, fun _ _ => trivial, fun _ _ _ _ => trivial, fun _ _ _ _ _ => trivial⟩

theorem placing_leaves {placed : Spans → List Frame → List Frame → Prop} (placing : Placing placed)
    {good : Spans → Nat → Nat → Prop} {picked : List Stmt → Bool} {spans : Spans} {frames frames' : List Frame} {s s' : Stmt}
    (aligned : s.Aligned good picked spans s') (here : placed spans frames frames') (level : spans.head? ≠ some false) :
    placed spans (s.leaves frames) (s'.leaves frames') := by
  cases aligned with
  | var name => exact placing.mark here level name true
  | initialized name _ => exact placing.mark here level name true
  | «class» name _ => exact placing.mark here level name true
  | function same =>
      simp only [Stmt.leaves, (aligned_routine same).1]
      exact placing.mark here level _ true
  | _ => exact here

theorem stretched_itself : ∀ frames : List Frame, Stretched (frames.map fun _ => true) frames frames
  | [] => .nil
  | _ :: outer => .common rfl (stretched_itself outer)

theorem stretched_mark (stretched : Stretched spans frames frames') (level : spans.head? ≠ some false) (name : Name)
    (ready : Bool) : Stretched spans (name.markIn ready frames) (name.markIn ready frames') := by
  cases stretched with
  | nil => exact .nil
  | common same outer => exact .common (congrArg (·.insert name.text ready) same) outer
  | extra => exact (level rfl).elim

theorem placing_stretched : Placing Stretched where
  mark stretched level name ready := stretched_mark stretched level name ready
  fresh stretched _ _ := .common rfl stretched
  bare stretched _ := .extra rfl stretched
  receiver stretched _ _ _ := .common rfl stretched
  routine stretched _ _ _ _ := .common rfl stretched

theorem rel_map {α β γ δ : Type} {R : α → β → Prop} {S : γ → δ → Prop} {f : α → γ} {g : β → δ}
    (maps : ∀ a b, R a b → S (f a) (g b)) {one : Option α} {other : Option β} (related : Option.Rel R one other) :
    Option.Rel S (one.map f) (other.map g) := by
  cases related with
  | none => exact .none
  | some same => exact .some (maps _ _ same)

theorem found_leads (stretched : Stretched spans frames frames') (name : String) :
    Option.Rel (Spans.Leads spans) ((frames.map Frame.scope).findIdx? fun scope => scope.contains name)
      ((frames'.map Frame.scope).findIdx? fun scope => scope.contains name) := by
  induction stretched with
  | nil => exact .none
  | common same outer ih =>
      simp only [List.map_cons, List.findIdx?_cons, same]
      split
      · exact .some .here
      · exact rel_map (fun _ _ => .further) ih
  | @extra spans frame' frames frames' bare outer ih =>
      have further := rel_map (S := Spans.Leads (false :: spans)) (f := id) (g := (· + 1)) (fun _ _ => .past) ih
      simpa [List.findIdx?_cons, bare, Bindings.contains, Bindings.find?, Bindings.empty] using further

end Frames

section Settled

variable {placed : Spans → List Frame → List Frame → Prop} {seen seen' : Visit → Prop} {picked : List Stmt → Bool}
  {good better : Spans → Nat → Nat → Prop}

-- What was seen of two references of one name, each under its own scopes.
structure Visit.LeadAlike (placed : Spans → List Frame → List Frame → Prop) (seen seen' : Visit → Prop)
    (good better : Spans → Nat → Nat → Prop) : Prop extends Placing placed where
  leads : ∀ (spans : Spans) (frames frames' : List Frame) (node node' : Expr) (name : String) (id id' : Nat),
    placed spans frames frames' → seen (.ofFrames node frames) → seen' (.ofFrames node' frames') →
      node.reference? = some ⟨name, id⟩ → node'.reference? = some ⟨name, id'⟩ → good spans id id' → better spans id id'

mutual
theorem expr_leads (alike : Visit.LeadAlike placed seen seen' good better) : ∀ (e : Expr) {e' : Expr} {spans : Spans}
    {frames frames' : List Frame}, e.Aligned good spans e' → placed spans frames frames' → e.Settled seen frames →
      e'.Settled seen' frames' → e.Aligned better spans e'
  | .literal _ _, _, _, _, _, .literal _ _ _ line, _, _, _ => .literal _ _ _ line
  | .grouping _ inner, _, _, _, _, .grouping _ _ line inside, around, here, there =>
      .grouping _ _ line (expr_leads alike inner inside around here there)
  | .unary _ _ right, _, _, _, _, .unary _ _ _ line operand, around, here, there =>
      .unary _ _ _ line (expr_leads alike right operand around here there)
  | .binary _ left _ right, _, _, _, _, .binary _ _ _ line first second, around, here, there =>
      .binary _ _ _ line (expr_leads alike left first around here.1 there.1)
        (expr_leads alike right second around here.2 there.2)
  | .logical _ left _ right, _, _, _, _, .logical _ _ _ line first second, around, here, there =>
      .logical _ _ _ line (expr_leads alike left first around here.1 there.1)
        (expr_leads alike right second around here.2 there.2)
  | .ident _ _, _, _, _, _, .ident _ _ _ line leads, around, here, there =>
      .ident _ _ _ line (alike.leads _ _ _ _ _ _ _ _ around here.1 there.1 rfl rfl leads)
  | .assign _ _ value, _, _, _, _, .assign _ _ _ line leads result, around, here, there =>
      .assign _ _ _ line (alike.leads _ _ _ _ _ _ _ _ around here.2 there.2 rfl rfl leads)
        (expr_leads alike value result around here.1 there.1)
  | .call _ callee arguments _, _, _, _, _, .call _ _ _ line called others, around, here, there =>
      .call _ _ _ line (expr_leads alike callee called around here.2.1 there.2.1)
        (exprs_lead alike arguments others around here.2.2 there.2.2)
  | .get _ object _, _, _, _, _, .get _ _ _ line owner, around, here, there =>
      .get _ _ _ line (expr_leads alike object owner around here there)
  | .set _ object _ value, _, _, _, _, .set _ _ _ line owner result, around, here, there =>
      .set _ _ _ line (expr_leads alike object owner around here.2 there.2)
        (expr_leads alike value result around here.1 there.1)
  | .this _ _, _, _, _, _, .this _ _ _ line leads, around, here, there =>
      .this _ _ _ line (alike.leads _ _ _ _ _ _ _ _ around here.1 there.1 rfl rfl leads)

theorem exprs_lead (alike : Visit.LeadAlike placed seen seen' good better) : ∀ (es : List Expr) {es' : List Expr}
    {spans : Spans} {frames frames' : List Frame}, Expr.AlignedAll good spans es es' → placed spans frames frames' →
      Expr.SettledAll seen frames es → Expr.SettledAll seen' frames' es' → Expr.AlignedAll better spans es es'
  | [], _, _, _, _, .nil, _, _, _ => .nil
  | e :: rest, _, _, _, _, .cons first others, around, here, there =>
      .cons (expr_leads alike e first around here.1 there.1) (exprs_lead alike rest others around here.2 there.2)
end

mutual
theorem stmt_leads (alike : Visit.LeadAlike placed seen seen' good better) : ∀ (s : Stmt) {s' : Stmt} {spans : Spans}
    {frames frames' : List Frame}, s.Aligned good picked spans s' → placed spans frames frames' →
      spans.head? ≠ some false → s.Settled seen frames → s'.Settled seen' frames' → s.Aligned better picked spans s'
  | .expression e, _, _, _, _, .expression value, around, _, here, there =>
      .expression (expr_leads alike e value around here there)
  | .var _ none, _, _, _, _, .var name, _, _, _, _ => .var name
  | .var _ (some e), _, _, _, _, .initialized name value, around, level, here, there =>
      .initialized name (expr_leads alike e value (alike.mark around level name false) here there)
  | .block body, _, _, _, _, .block inside, around, _, here, there =>
      .block (stmts_lead alike body inside (alike.fresh around _ _) (by simp) here there)
  | .branch condition body alternative, _, _, _, _, .branch test inside other, around, _, here, there =>
      .branch (expr_leads alike condition test around here.1 there.1)
        (stmts_lead alike body inside (alike.fresh around _ _) (by simp) here.2.1 there.2.1)
        (alternative_leads alike alternative other around here.2.2 there.2.2)
  | .while condition body, _, _, _, _, .while test inside, around, _, here, there =>
      .while (expr_leads alike condition test around here.1 there.1)
        (stmts_lead alike body inside (alike.fresh around _ _) (by simp) here.2 there.2)
  | .while condition body, _, _, _, _, .idle mark test inside chosen, around, _, here, there =>
      .idle mark (expr_leads alike condition test around here.1 there.1)
        (stmts_lead alike body inside (alike.fresh (alike.bare around _) _ _) (by simp) here.2 there.2.1) chosen
  | .function routine, _, _, _, _, .function same, around, level, here, there => by
      have name := (aligned_routine same).1
      simp only [Stmt.Settled, name] at there
      exact .function (routine_leads alike routine same (alike.mark around level _ true) here there)
  | .return _ none, _, _, _, _, .return line, _, _, _, _ => .return line
  | .return _ (some e), _, _, _, _, .returned line value, around, _, here, there =>
      .returned line (expr_leads alike e value around here there)
  | .class _ methods, _, _, _, _, .class name inside, around, level, here, there =>
      .class name (routines_lead alike methods inside
        (alike.receiver (alike.mark around level name true) _ _ _) here there)

theorem alternative_leads (alike : Visit.LeadAlike placed seen seen' good better) : ∀ (a : Alternative) {a' : Alternative}
    {spans : Spans} {frames frames' : List Frame}, a.Aligned good picked spans a' → placed spans frames frames' →
      a.Settled seen frames → a'.Settled seen' frames' → a.Aligned better picked spans a'
  | .none, _, _, _, _, .none, _, _, _ => .none
  | .elseIf condition body alternative, _, _, _, _, .elseIf test inside other, around, here, there =>
      .elseIf (expr_leads alike condition test around here.1 there.1)
        (stmts_lead alike body inside (alike.fresh around _ _) (by simp) here.2.1 there.2.1)
        (alternative_leads alike alternative other around here.2.2 there.2.2)
  | .block body, _, _, _, _, .block inside, around, here, there =>
      .block (stmts_lead alike body inside (alike.fresh around _ _) (by simp) here there)
  | .elseIf condition body alternative, _, _, _, _, .nested test inside other, around, here, there =>
      .nested (expr_leads alike condition test (alike.bare around _) here.1 there.1.1)
        (stmts_lead alike body inside (alike.fresh (alike.bare around _) _ _) (by simp) here.2.1 there.1.2.1)
        (alternative_leads alike alternative other (alike.bare around _) here.2.2 there.1.2.2)

theorem routine_leads (alike : Visit.LeadAlike placed seen seen' good better) : ∀ (r : Routine) {r' : Routine}
    {spans : Spans} {frames frames' : List Frame}, r.Aligned good picked spans r' → placed spans frames frames' →
      r.Settled seen frames → r'.Settled seen' frames' → r.Aligned better picked spans r'
  | ⟨_, _, body⟩, _, _, _, _, .routine name parameters inside, around, here, there =>
      .routine name parameters (stmts_lead alike body inside (alike.routine around _ _ _ _) (by simp) here there)

theorem stmts_lead (alike : Visit.LeadAlike placed seen seen' good better) : ∀ (body : List Stmt) {body' : List Stmt}
    {spans : Spans} {frames frames' : List Frame}, Stmt.AlignedAll good picked spans body body' →
      placed spans frames frames' → spans.head? ≠ some false → Stmt.SettledAll seen frames body →
        Stmt.SettledAll seen' frames' body' → Stmt.AlignedAll better picked spans body body'
  | [], _, _, _, _, .nil, _, _, _, _ => .nil
  | s :: rest, _, _, _, _, .cons first others, around, level, here, there =>
      .cons (stmt_leads alike s first around level here.1 there.1)
        (stmts_lead alike rest others (placing_leaves alike.toPlacing first around level) level here.2 there.2)

theorem routines_lead (alike : Visit.LeadAlike placed seen seen' good better) : ∀ (methods : List Routine)
    {methods' : List Routine} {spans : Spans} {frames frames' : List Frame},
    Routine.AlignedAll good picked spans methods methods' → placed spans frames frames' →
      Routine.SettledAll seen frames methods → Routine.SettledAll seen' frames' methods' →
        Routine.AlignedAll better picked spans methods methods'
  | [], _, _, _, _, .nil, _, _, _ => .nil
  | method :: rest, _, _, _, _, .cons first others, around, here, there =>
      .cons (routine_leads alike method first around here.1 there.1)
        (routines_lead alike rest others around here.2 there.2)
end

end Settled

end TreeWalk
