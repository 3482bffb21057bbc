import TreeWalk.Proofs.Alpha
import TreeWalk.Proofs.Chronicle

set_option autoImplicit false

namespace TreeWalk

mutual
def Stmt.Distinct : Stmt → Prop
  | .expression _ | .var _ _ | .return _ _ => True
  | .block body | .while _ body => Stmt.DistinctIn [] body
  | .branch _ body alternative => Stmt.DistinctIn [] body ∧ alternative.Distinct
  | .function routine => routine.Distinct
  | .class _ methods => Routine.DistinctAll methods

def Alternative.Distinct : Alternative → Prop
  | .none => True
  | .elseIf _ body alternative => Stmt.DistinctIn [] body ∧ alternative.Distinct
  | .block body => Stmt.DistinctIn [] body

def Routine.Distinct : Routine → Prop
  | ⟨_, parameters, body⟩ => (parameters.map Name.text).Nodup ∧ Stmt.DistinctIn (parameters.map Name.text) body

def Stmt.DistinctIn : List String → List Stmt → Prop
  | _, [] => True
  | taken, s :: rest => (s.Distinct ∧ ∀ name ∈ s.own, name ∉ taken) ∧ Stmt.DistinctIn (s.own ++ taken) rest

def Routine.DistinctAll : List Routine → Prop
  | [] => True
  | method :: rest => method.Distinct ∧ Routine.DistinctAll rest
end

theorem routine_distinct_mem (methods : List Routine) (method : Routine) (member : method ∈ methods)
    (distinct : Routine.DistinctAll methods) : method.Distinct := by
  induction methods with
  | nil => cases member
  | cons first rest ih =>
      rcases List.mem_cons.mp member with rfl | later
      · exact distinct.1
      · exact ih later distinct.2

section Demanded

def Requires (frames : List Frame) (p : Surveying Unit) (property : Prop) : Prop :=
  ∀ s, Tracks frames s → Ends p s (fun _ _ => property) fun _ _ => True

variable {frames mid after : List Frame} {p q : Surveying Unit} {references : List Reference} {early late : Prop}
  {settled : (Visit → Prop) → Prop}

theorem requires_nothing (frames : List Frame) (p : Surveying Unit) : Requires frames p True := by
  intro s _
  unfold Ends
  split <;> trivial

theorem requires_both (first : Requires frames p early) (second : Requires frames p late) :
    Requires frames p (early ∧ late) := by
  intro s tracks
  have one := first s tracks
  have two := second s tracks
  unfold Ends at one two ⊢
  split <;> rename_i run <;> rw [run] at one two
  · exact ⟨one, two⟩
  · trivial

theorem requires_weaken (requires : Requires frames p early) (weaker : early → late) : Requires frames p late :=
  fun s tracks => ends_mono _ _ _ _ _ _ (requires s tracks) (fun _ _ => weaker) fun _ _ => id

theorem requires_then (first : Requires frames p early) (settles : Settles frames p mid references settled)
    (second : Requires mid q late) : Requires frames (do p; q) (early ∧ late) := by
  intro s tracks
  have both : Ends p s (fun _ t => early ∧ Tracks mid t) fun _ _ => True := by
    have demanded := first s tracks
    have surveyed := settles s tracks
    unfold Ends at demanded surveyed ⊢
    split <;> rename_i run <;> rw [run] at demanded surveyed
    · exact ⟨demanded, surveyed.tracks⟩
    · trivial
  apply ends_bind p _ s _ _ _ both
  intro _ t ⟨here, tracked⟩
  exact ends_mono _ _ _ _ _ _ (second t tracked) (fun _ _ there => ⟨here, there⟩) fun _ _ => id

theorem requires_behind (settles : Settles frames p mid references settled) (second : Requires mid q late) :
    Requires frames (do p; q) late :=
  requires_weaken (requires_then (requires_nothing frames p) settles second) And.right

theorem requires_first (first : Requires frames p early) : Requires frames (do p; q) early := by
  intro s tracks
  apply ends_bind p _ s _ _ _ (first s tracks)
  intro _ t here
  unfold Ends
  split
  · exact here
  · trivial

theorem requires_in_scope (site : Site) (scope : Scope) (inner : Requires (⟨site, scope⟩ :: frames) p early) :
    Requires frames (Surveying.inScope site scope p) early := by
  intro s tracks
  have opened : Tracks (⟨site, scope⟩ :: frames)
      { s with scoping := { s.scoping with scopes := scope :: s.scoping.scopes }, sites := site :: s.sites } :=
    ⟨congrArg (site :: ·) tracks.sites, congrArg (scope :: ·) tracks.scopes⟩
  apply ends_bind p _ { s with scoping := _, sites := _ } _ _ _ (inner _ opened)
  intro _ t here
  unfold Ends
  split
  · exact here
  · trivial

theorem requires_get {f : Survey → Surveying Unit} (rest : ∀ s, Requires frames (f s) early) :
    Requires frames (get >>= f) early :=
  fun s tracks => rest s s tracks

end Demanded

section Accepted

def Frame.Holds (frame : Frame) (names : List String) : Prop :=
  ∀ name ∈ names, frame.scope.contains name = true

theorem holds_insert (frame : Frame) (names : List String) (name : String) (ready : Bool) (holds : frame.Holds names) :
    Frame.Holds { frame with scope := frame.scope.insert name ready } (name :: names) := by
  intro other member
  by_cases same : other = name
  · subst same
    exact Bindings.contains_insert_self frame.scope other ready
  · rcases List.mem_cons.mp member with here | later
    · exact absurd here same
    · unfold Bindings.contains
      rw [Bindings.find_insert_other frame.scope name other ready same]
      exact holds other later

theorem leaves_holds (s : Stmt) (frame : Frame) (outer : List Frame) (names : List String) (holds : frame.Holds names) :
    ∃ next, s.leaves (frame :: outer) = next :: outer ∧ next.Holds (s.own ++ names) := by
  cases s with
  | var name value => exact ⟨_, rfl, holds_insert frame names name.text true holds⟩
  | function routine => exact ⟨_, rfl, holds_insert frame names routine.name.text true holds⟩
  | «class» name methods => exact ⟨_, rfl, holds_insert frame names name.text true holds⟩
  | _ => exact ⟨frame, rfl, holds⟩

theorem requires_declare (name : Name) (frame : Frame) (outer : List Frame) :
    Requires (frame :: outer) (Surveying.act (Resolving.declare name)) (frame.scope.contains name.text = false) := by
  intro s tracks
  have scopes : s.scoping.scopes = frame.scope :: outer.map Frame.scope := tracks.scopes
  by_cases known : frame.scope.contains name.text
  · simp [Ends, Surveying.act, Resolving.declare, Resolving.visit, modify_run, bind, EStateM.bind, get_run, scopes,
      known, Resolving.refuse, throw_run]
  · simp [Ends, Surveying.act, Resolving.declare, Resolving.visit, modify_run, bind, EStateM.bind, get_run, scopes,
      known, set_run]

theorem requires_free (name : Name) (frame : Frame) (outer : List Frame) (names : List String)
    (holds : frame.Holds names) :
    Requires (frame :: outer) (Surveying.act (Resolving.declare name)) (∀ own ∈ [name.text], own ∉ names) := by
  apply requires_weaken (requires_declare name frame outer)
  intro free own member taken
  rw [List.mem_singleton.mp member] at taken
  rw [holds name.text taken] at free
  cases free

theorem requires_parameters (names : List Name) (frame : Frame) (outer : List Frame) :
    Requires (frame :: outer) (Surveying.act (Resolving.declareAll names))
      ((names.map Name.text).Nodup ∧ ∀ name ∈ names, frame.scope.contains name.text = false) := by
  induction names generalizing frame with
  | nil => exact requires_weaken (requires_nothing _ _) fun _ => ⟨List.nodup_nil, fun _ member => nomatch member⟩
  | cons name rest ih =>
      have behind := requires_behind (settles_define name (frame :: outer)) (ih _)
      have whole := requires_then (requires_declare name frame outer) (settles_declare name (frame :: outer)) behind
      rw [Resolving.declareAll, act_join, act_join]
      apply requires_weaken whole
      rintro ⟨free, nodup, later⟩
      have kept : ∀ other ∈ rest, (frame.scope.insert name.text true).contains other.text = false := later
      constructor
      · rw [List.map_cons, List.nodup_cons]
        refine ⟨fun member => ?_, nodup⟩
        obtain ⟨other, inside, same⟩ := List.mem_map.mp member
        have absent := kept other inside
        rw [same, Bindings.contains_insert_self] at absent
        cases absent
      · intro other member
        rcases List.mem_cons.mp member with rfl | inside
        · exact free
        · by_cases same : other.text = name.text
          · rw [same]
            exact free
          · have absent := kept other inside
            unfold Bindings.contains at absent ⊢
            rwa [Bindings.find_insert_other frame.scope name.text other.text true same] at absent

theorem parameters_hold (r : Routine) : r.frame.Holds (r.parameters.map Name.text) := by
  have folded : ∀ (names : List Name) (scope : Scope) (name : String),
      (scope.contains name = true ∨ name ∈ names.map Name.text) →
        (names.foldl (fun scope name => scope.insert name.text true) scope).contains name = true := by
    intro names
    induction names with
    | nil => exact fun scope name either => either.elim id fun none => nomatch none
    | cons first rest ih =>
        intro scope name either
        apply ih
        by_cases same : name = first.text
        · subst same
          exact .inl (Bindings.contains_insert_self scope _ _)
        · rcases either with before | member
          · left
            unfold Bindings.contains at before ⊢
            rwa [Bindings.find_insert_other scope first.text name true same]
          · exact .inr ((List.mem_cons.mp member).resolve_left same)
  exact fun name member => folded r.parameters Bindings.empty name (.inr member)

theorem requires_own (s : Stmt) (frame : Frame) (outer : List Frame) (names : List String) (holds : frame.Holds names) :
    Requires (frame :: outer) s.survey (∀ name ∈ s.own, name ∉ names) := by
  cases s with
  | var name value =>
      cases value with
      | none => exact requires_first (requires_free name frame outer names holds)
      | some e => exact requires_first (requires_free name frame outer names holds)
  | function routine => exact requires_first (requires_free routine.name frame outer names holds)
  | «class» name methods => exact requires_first (requires_free name frame outer names holds)
  | _ => exact requires_weaken (requires_nothing _ _) fun _ _ none => nomatch none

theorem requires_branch (condition : Expr) (body : List Stmt) (rest : Surveying Unit) (frames : List Frame)
    (ready : ReadyFrames frames) (tested : condition.Proper) (proper : Stmt.ProperAll body) {early late : Prop}
    (inner : Requires (.fresh (.branch body) :: frames) (Stmt.surveyAll body) early)
    (last : Requires frames rest late) :
    Requires frames
      (do condition.survey; Surveying.inScope (.branch body) Bindings.empty (Stmt.surveyAll body); rest)
      (early ∧ late) := by
  have enclosed := settles_body (.branch body) Bindings.empty body frames _ _
    (settles_stmts body _ (ready_fresh _ frames ready) proper)
  exact requires_behind (settles_expr condition frames (orderly_of_ready frames ready) tested)
    (requires_then (requires_in_scope (.branch body) Bindings.empty inner) enclosed last)

mutual
theorem requires_stmt : ∀ (s : Stmt) (frames : List Frame), ReadyFrames frames → s.Proper →
    Requires frames s.survey s.Distinct
  | .expression _, frames, _, _ | .var _ none, frames, _, _ | .var _ (some _), frames, _, _
  | .return _ none, frames, _, _ | .return _ (some _), frames, _, _ => requires_nothing frames _
  | .block body, frames, ready, proper =>
      requires_in_scope _ _ (requires_stmts body _ frames [] (ready_fresh _ frames ready) proper fun _ none => nomatch none)
  | .branch condition body alternative, frames, ready, proper =>
      requires_branch condition body _ frames ready proper.1 proper.2.1
        (requires_stmts body _ frames [] (ready_fresh _ frames ready) proper.2.1 fun _ none => nomatch none)
        (requires_alternative alternative frames ready proper.2.2)
  | .while condition body, frames, ready, proper =>
      requires_behind (settles_expr condition frames (orderly_of_ready frames ready) proper.1)
        (requires_in_scope (.loop body) Bindings.empty
          (requires_stmts body _ frames [] (ready_fresh _ frames ready) proper.2 fun _ none => nomatch none))
  | .function routine, frames, ready, proper =>
      requires_behind (settles_declare routine.name frames) (requires_behind (settles_define routine.name frames)
        (requires_routine .function routine _ (ready_mark routine.name frames ready) proper))
  | .class name methods, frames, ready, proper => by
      have marked := ready_mark name frames ready
      have inner := requires_in_scope (.receiver name methods) Resolving.receiverScope
        (requires_routines methods _ (ready_receiver name methods _ marked) proper.2)
      refine requires_behind (settles_declare name frames) (requires_behind (settles_define name frames) ?_)
      cases Resolving.repeated? [] methods with
      | some method => exact fun _ _ => trivial
      | none =>
          refine requires_get fun s => ?_
          exact requires_behind (settles_modify _ (fun s => { s with inClass := true }) (fun _ => rfl) fun _ => rfl)
            (requires_first inner)

theorem requires_alternative : ∀ (a : Alternative) (frames : List Frame), ReadyFrames frames → a.Proper →
    Requires frames a.survey a.Distinct
  | .none, frames, _, _ => requires_nothing frames _
  | .elseIf condition body alternative, frames, ready, proper =>
      requires_branch condition body _ frames ready proper.1 proper.2.1
        (requires_stmts body _ frames [] (ready_fresh _ frames ready) proper.2.1 fun _ none => nomatch none)
        (requires_alternative alternative frames ready proper.2.2)
  | .block body, frames, ready, proper =>
      requires_in_scope _ _ (requires_stmts body _ frames [] (ready_fresh _ frames ready) proper fun _ none => nomatch none)

theorem requires_routine (kind : Surrounding) : ∀ (r : Routine) (frames : List Frame), ReadyFrames frames → r.Proper →
    Requires frames (r.survey kind) r.Distinct
  | ⟨name, parameters, body⟩, frames, ready, proper => by
      let r : Routine := ⟨name, parameters, body⟩
      refine requires_get fun s => ?_
      have own := requires_weaken (requires_parameters parameters (.fresh (.routine r)) frames) And.left
      have statements := requires_stmts body r.frame frames (parameters.map Name.text) (ready_routine r frames ready)
        proper.2.2 (parameters_hold r)
      have inner := requires_then own (settles_parameters parameters (.fresh (.routine r)) frames) statements
      exact requires_behind (settles_modify frames (fun s => { s with surrounding := kind }) (fun _ => rfl) fun _ => rfl)
        (requires_first (requires_in_scope (.routine r) Bindings.empty inner))

theorem requires_stmts : ∀ (body : List Stmt) (frame : Frame) (outer : List Frame) (names : List String),
    ReadyFrames (frame :: outer) → Stmt.ProperAll body → frame.Holds names →
    Requires (frame :: outer) (Stmt.surveyAll body) (Stmt.DistinctIn names body)
  | [], _, _, _, _, _, _ => requires_nothing _ _
  | s :: rest, frame, outer, names, ready, proper, holds => by
      have first := requires_both (requires_stmt s (frame :: outer) ready proper.1) (requires_own s frame outer names holds)
      have settles := settles_stmt s (frame :: outer) ready proper.1
      have behind := ready_leaves s (frame :: outer) ready
      obtain ⟨next, left, held⟩ := leaves_holds s frame outer names holds
      rw [left] at settles behind
      exact requires_then first settles (requires_stmts rest next outer _ behind proper.2 held)

theorem requires_routines : ∀ (methods : List Routine) (frames : List Frame), ReadyFrames frames →
    Routine.ProperAll methods → Requires frames (Routine.surveyAll methods) (Routine.DistinctAll methods)
  | [], frames, _, _ => requires_nothing frames _
  | method :: rest, frames, ready, proper =>
      requires_then (requires_routine _ method frames ready proper.1)
        (settles_routine _ method frames ready proper.1) (requires_routines rest frames ready proper.2)
end

theorem requires_program (program : Program) (proper : Stmt.ProperAll program) :
    Requires [] (Stmt.surveyAll program) (∀ s ∈ program, s.Distinct) := by
  have ready : ReadyFrames [] := fun _ member => nomatch member
  induction program with
  | nil => exact requires_weaken (requires_nothing _ _) fun _ _ none => nomatch none
  | cons s rest ih =>
      have settles := settles_stmt s [] ready proper.1
      have empty : s.leaves [] = [] := by cases s <;> rfl
      rw [empty] at settles
      apply requires_weaken (requires_then (requires_stmt s [] ready proper.1) settles (ih proper.2))
      rintro ⟨first, later⟩ t member
      rcases List.mem_cons.mp member with rfl | inside
      · exact first
      · exact later t inside

theorem accepted_distinct (program : Program) (proper : Stmt.ProperAll program) (m n : Machine)
    (accepted : Session.resolve program m = .ok () n) :
    (∀ s ∈ program, s.Distinct) ∧ n = { m with distances := n.distances } := by
  have required := requires_program program proper ⟨.start m.distances, [], []⟩ ⟨rfl, rfl⟩
  unfold Ends at required
  unfold Session.resolve Program.resolve EStateM.run at accepted
  rcases agree_cases _ _ _ _ _ (erases_stmts program ⟨.start m.distances, [], []⟩ (.start m.distances) rfl) with
    ⟨_, _, s, t, left, right, _, same⟩ | ⟨e, _, s, t, left, right, _, same⟩
  · rw [left] at required
    rw [right] at accepted
    cases accepted
    exact ⟨required, rfl⟩
  · rw [right] at accepted
    cases accepted

end Accepted

end TreeWalk
