import TreeWalk.Proofs.Events

set_option autoImplicit false

namespace TreeWalk

def Name.markIn (name : Name) (ready : Bool) : List Frame → List Frame
  | [] => []
  | frame :: outer => { frame with scope := frame.scope.insert name.text ready } :: outer

namespace Routine

def frame (r : Routine) : Frame :=
  ⟨.routine r, r.parameters.foldl (fun scope name => scope.insert name.text true) Bindings.empty⟩

end Routine

namespace Frame

def receiver (name : Name) (methods : List Routine) : Frame :=
  ⟨.receiver name methods, Resolving.receiverScope⟩

def fresh (site : Site) : Frame :=
  ⟨site, Bindings.empty⟩

end Frame

def Expr.AccessesConstructor : Expr → Prop
  | .get _ _ name => name.text = Routine.constructorName
  | _ => False

def Stmt.leaves (frames : List Frame) : Stmt → List Frame
  | .var name _ | .class name _ => name.markIn true frames
  | .function routine => routine.name.markIn true frames
  | _ => frames

section Settled

variable (seen : Visit → Prop)

mutual
def Expr.Settled (frames : List Frame) : Expr → Prop
  | .literal _ _ => True
  | .grouping _ inner => inner.Settled frames
  | .unary _ _ right => right.Settled frames
  | .binary _ left _ right | .logical _ left _ right => left.Settled frames ∧ right.Settled frames
  | .ident mark name =>
      seen (.ofFrames (.ident mark name) frames) ∧
        (Visit.ofFrames (.ident mark name) frames).isReady ≠ some false
  | .assign mark name value => value.Settled frames ∧ seen (.ofFrames (.assign mark name value) frames)
  | .call _ callee arguments _ =>
      ¬ callee.AccessesConstructor ∧ callee.Settled frames ∧ Expr.SettledAll frames arguments
  | .get _ object _ => object.Settled frames
  | .set _ object _ value => value.Settled frames ∧ object.Settled frames
  | .this mark name =>
      seen (.ofFrames (.this mark name) frames) ∧
        (Visit.ofFrames (.this mark name) frames).isReady ≠ some false

def Expr.SettledAll (frames : List Frame) : List Expr → Prop
  | [] => True
  | e :: rest => e.Settled frames ∧ Expr.SettledAll frames rest
end

mutual
def Stmt.Settled (frames : List Frame) : Stmt → Prop
  | .expression e => e.Settled seen frames
  | .var _ none => True
  | .var name (some e) => e.Settled seen (name.markIn false frames)
  | .block body => Stmt.SettledAll (.fresh (.block body) :: frames) body
  | .branch condition body alternative =>
      condition.Settled seen frames ∧ Stmt.SettledAll (.fresh (.branch body) :: frames) body ∧
        alternative.Settled frames
  | .while condition body =>
      condition.Settled seen frames ∧ Stmt.SettledAll (.fresh (.loop body) :: frames) body
  | .function routine => routine.Settled (routine.name.markIn true frames)
  | .return _ none => True
  | .return _ (some e) => e.Settled seen frames
  | .class name methods => Routine.SettledAll (.receiver name methods :: name.markIn true frames) methods

def Alternative.Settled (frames : List Frame) : Alternative → Prop
  | .none => True
  | .elseIf condition body alternative =>
      condition.Settled seen frames ∧ Stmt.SettledAll (.fresh (.branch body) :: frames) body ∧
        alternative.Settled frames
  | .block body => Stmt.SettledAll (.fresh (.otherwise body) :: frames) body

def Routine.Settled (frames : List Frame) : Routine → Prop
  | ⟨name, parameters, body⟩ => Stmt.SettledAll ((Routine.mk name parameters body).frame :: frames) body

def Stmt.SettledAll (frames : List Frame) : List Stmt → Prop
  | [] => True
  | s :: rest => s.Settled frames ∧ Stmt.SettledAll (s.leaves frames) rest

def Routine.SettledAll (frames : List Frame) : List Routine → Prop
  | [] => True
  | method :: rest => method.Settled frames ∧ Routine.SettledAll frames rest
end

end Settled

section Mono

variable {seen more : Visit → Prop}

mutual
theorem expr_settled_mono (wider : ∀ v, seen v → more v) :
    ∀ (e : Expr) (frames : List Frame), e.Settled seen frames → e.Settled more frames
  | .literal _ _, _, _ => trivial
  | .grouping _ inner, frames, settled => expr_settled_mono wider inner frames settled
  | .unary _ _ right, frames, settled => expr_settled_mono wider right frames settled
  | .binary _ left _ right, frames, settled | .logical _ left _ right, frames, settled =>
      ⟨expr_settled_mono wider left frames settled.1, expr_settled_mono wider right frames settled.2⟩
  | .ident _ _, _, settled | .this _ _, _, settled => ⟨wider _ settled.1, settled.2⟩
  | .assign _ _ value, frames, settled => ⟨expr_settled_mono wider value frames settled.1, wider _ settled.2⟩
  | .call _ callee arguments _, frames, settled =>
      ⟨settled.1, expr_settled_mono wider callee frames settled.2.1, exprs_settled_mono wider arguments frames settled.2.2⟩
  | .get _ object _, frames, settled => expr_settled_mono wider object frames settled
  | .set _ object _ value, frames, settled =>
      ⟨expr_settled_mono wider value frames settled.1, expr_settled_mono wider object frames settled.2⟩

theorem exprs_settled_mono (wider : ∀ v, seen v → more v) : ∀ (es : List Expr) (frames : List Frame),
    Expr.SettledAll seen frames es → Expr.SettledAll more frames es
  | [], _, _ => trivial
  | e :: rest, frames, settled => ⟨expr_settled_mono wider e frames settled.1, exprs_settled_mono wider rest frames settled.2⟩
end

mutual
theorem stmt_settled_mono (wider : ∀ v, seen v → more v) :
    ∀ (s : Stmt) (frames : List Frame), s.Settled seen frames → s.Settled more frames
  | .expression e, frames, settled => expr_settled_mono wider e frames settled
  | .var _ none, _, _ | .return _ none, _, _ => trivial
  | .var _ (some e), _, settled | .return _ (some e), _, settled => expr_settled_mono wider e _ settled
  | .block body, _, settled => stmts_settled_mono wider body _ settled
  | .branch condition body alternative, frames, settled =>
      ⟨expr_settled_mono wider condition frames settled.1, stmts_settled_mono wider body _ settled.2.1,
        alternative_settled_mono wider alternative frames settled.2.2⟩
  | .while condition body, frames, settled =>
      ⟨expr_settled_mono wider condition frames settled.1, stmts_settled_mono wider body _ settled.2⟩
  | .function routine, _, settled => routine_settled_mono wider routine _ settled
  | .class _ methods, _, settled => routines_settled_mono wider methods _ settled

theorem alternative_settled_mono (wider : ∀ v, seen v → more v) : ∀ (a : Alternative) (frames : List Frame),
    a.Settled seen frames → a.Settled more frames
  | .none, _, _ => trivial
  | .elseIf condition body alternative, frames, settled =>
      ⟨expr_settled_mono wider condition frames settled.1, stmts_settled_mono wider body _ settled.2.1,
        alternative_settled_mono wider alternative frames settled.2.2⟩
  | .block body, _, settled => stmts_settled_mono wider body _ settled

theorem routine_settled_mono (wider : ∀ v, seen v → more v) :
    ∀ (r : Routine) (frames : List Frame), r.Settled seen frames → r.Settled more frames
  | ⟨_, _, body⟩, _, settled => stmts_settled_mono wider body _ settled

theorem stmts_settled_mono (wider : ∀ v, seen v → more v) : ∀ (body : List Stmt) (frames : List Frame),
    Stmt.SettledAll seen frames body → Stmt.SettledAll more frames body
  | [], _, _ => trivial
  | s :: rest, frames, settled => ⟨stmt_settled_mono wider s frames settled.1, stmts_settled_mono wider rest _ settled.2⟩

theorem routines_settled_mono (wider : ∀ v, seen v → more v) : ∀ (methods : List Routine) (frames : List Frame),
    Routine.SettledAll seen frames methods → Routine.SettledAll more frames methods
  | [], _, _ => trivial
  | method :: rest, frames, settled =>
      ⟨routine_settled_mono wider method frames settled.1, routines_settled_mono wider rest frames settled.2⟩
end

end Mono

end TreeWalk
