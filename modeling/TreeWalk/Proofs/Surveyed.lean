import TreeWalk.Proofs.Bindings
import TreeWalk.Proofs.ReceiverName
import TreeWalk.Proofs.Settled
import TreeWalk.Proofs.Survey

set_option autoImplicit false

namespace TreeWalk

def Scope.Ready (scope : Scope) : Prop :=
  ∀ name, scope.find? name ≠ some false

theorem ready_empty : Scope.Ready Bindings.empty := by
  intro name found
  cases found

theorem ready_insert (scope : Scope) (name : String) (ready : scope.Ready) :
    Scope.Ready (Bindings.insert scope name true) := by
  intro other found
  rcases Bindings.find_insert_cases scope name other true false found with ⟨_, same⟩ | before
  · contradiction
  · exact ready other before

theorem ready_parameters (names : List Name) (scope : Scope) (ready : scope.Ready) :
    Scope.Ready (names.foldl (fun scope name => Bindings.insert scope name.text true) scope) := by
  induction names generalizing scope with
  | nil => exact ready
  | cons name rest ih => exact ih _ (ready_insert scope name.text ready)

def ReadyFrames (frames : List Frame) : Prop :=
  ∀ frame ∈ frames, frame.scope.Ready

structure OrderlyFrames (frames : List Frame) : Prop where
  outer : ReadyFrames frames.tail
  receiver : ∀ frame ∈ frames, frame.scope.find? receiverName ≠ some false

theorem orderly_of_ready (frames : List Frame) (ready : ReadyFrames frames) : OrderlyFrames frames :=
  ⟨fun frame member => ready frame (List.mem_of_mem_tail member), fun frame member => ready frame member _⟩

theorem ready_mark (name : Name) (frames : List Frame) (ready : ReadyFrames frames) :
    ReadyFrames (name.markIn true frames) := by
  cases frames with
  | nil => exact ready
  | cons frame outer =>
      intro other member
      rcases List.mem_cons.mp member with rfl | later
      · exact ready_insert frame.scope name.text (ready frame List.mem_cons_self)
      · exact ready other (List.mem_cons_of_mem _ later)

theorem orderly_mark (name : Name) (frames : List Frame) (ready : ReadyFrames frames) (proper : name.Proper) :
    OrderlyFrames (name.markIn false frames) := by
  cases frames with
  | nil => exact orderly_of_ready [] ready
  | cons frame outer =>
      refine ⟨fun other member => ready other (List.mem_cons_of_mem _ member), ?_⟩
      intro other member
      rcases List.mem_cons.mp member with rfl | later
      · have kept := Bindings.find_insert_other frame.scope name.text receiverName false (Ne.symm proper)
        exact kept ▸ ready frame List.mem_cons_self receiverName
      · exact ready other (List.mem_cons_of_mem _ later) receiverName

theorem ready_cons (frame : Frame) (frames : List Frame) (head : frame.scope.Ready) (ready : ReadyFrames frames) :
    ReadyFrames (frame :: frames) := by
  intro other member
  rcases List.mem_cons.mp member with rfl | later
  · exact head
  · exact ready other later

theorem ready_leaves (s : Stmt) (frames : List Frame) (ready : ReadyFrames frames) : ReadyFrames (s.leaves frames) := by
  cases s <;> first | exact ready_mark _ frames ready | exact ready

theorem mark_tail (name : Name) (ready : Bool) (frame : Frame) (outer : List Frame) :
    ∃ next, name.markIn ready (frame :: outer) = next :: outer :=
  ⟨_, rfl⟩

theorem leaves_tail (s : Stmt) (frame : Frame) (outer : List Frame) :
    ∃ next, s.leaves (frame :: outer) = next :: outer := by
  cases s <;> first | exact mark_tail _ _ _ _ | exact ⟨frame, rfl⟩

def Stmt.leavesAll (frames : List Frame) (body : List Stmt) : List Frame :=
  body.foldl (fun frames s => s.leaves frames) frames

theorem leaves_all_tail (body : List Stmt) (frame : Frame) (outer : List Frame) :
    ∃ next, Stmt.leavesAll (frame :: outer) body = next :: outer := by
  induction body generalizing frame with
  | nil => exact ⟨frame, rfl⟩
  | cons s rest ih =>
      obtain ⟨next, left⟩ := leaves_tail s frame outer
      obtain ⟨last, right⟩ := ih next
      exact ⟨last, by simpa only [Stmt.leavesAll, List.foldl_cons, left] using right⟩

namespace Visit

def keep (v : Visit) (distances : Distances) : Distances :=
  match v.node.reference?, v.found with
  | some r, some distance => distances.insert r.id distance
  | _, _ => distances

end Visit

structure Tracks (frames : List Frame) (s : Survey) : Prop where
  sites : s.sites = frames.map Frame.site
  scopes : s.scoping.scopes = frames.map Frame.scope

structure Surveyed (s : Survey) (after : List Frame) (references : List Reference)
    (settled : (Visit → Prop) → Prop) (t : Survey) : Prop where
  tracks : Tracks after t
  visits : ∃ later, t.visits = later ++ s.visits ∧
    (later.filterMap Visit.reference?).Perm references ∧
    t.scoping.distances = later.foldr Visit.keep s.scoping.distances
  settled : ∀ seen, (∀ v ∈ t.visits, seen v) → settled seen

def Settles (frames : List Frame) (p : Surveying Unit) (after : List Frame) (references : List Reference)
    (settled : (Visit → Prop) → Prop) : Prop :=
  ∀ s, Tracks frames s → Ends p s (fun _ t => Surveyed s after references settled t) fun _ _ => True

section Rules

variable {frames mid after : List Frame} {p q : Surveying Unit} {references others : List Reference}
  {settled further : (Visit → Prop) → Prop}

theorem settles_then (first : Settles frames p mid references settled) (second : Settles mid q after others further) :
    Settles frames (do p; q) after (references ++ others) fun seen => settled seen ∧ further seen := by
  intro s tracks
  apply ends_bind p _ s _ _ _ (first s tracks)
  rintro _ t begun
  apply ends_mono _ _ _ _ _ _ (second t begun.tracks)
  · rintro _ u ended
    obtain ⟨early, before, found, noted⟩ := begun.visits
    obtain ⟨later, behind, others, more⟩ := ended.visits
    refine ⟨ended.tracks, ⟨later ++ early, ?_, ?_, ?_⟩, ?_⟩
    · rw [behind, before, List.append_assoc]
    · rw [List.filterMap_append]
      exact (List.perm_append_comm).trans (found.append others)
    · rw [more, noted, List.foldr_append]
    · intro seen all
      refine ⟨begun.settled seen fun v member => all v ?_, ended.settled seen all⟩
      rw [behind]
      exact List.mem_append_right _ member
  · exact fun _ _ stopped => stopped

theorem settles_weaken (settles : Settles frames p after references settled) (same : references.Perm others)
    (weaker : ∀ seen, settled seen → further seen) : Settles frames p after others further := by
  intro s tracks
  apply ends_mono _ _ _ _ _ _ (settles s tracks)
  · rintro _ t surveyed
    obtain ⟨later, visits, found, noted⟩ := surveyed.visits
    exact ⟨surveyed.tracks, ⟨later, visits, found.trans same, noted⟩,
      fun seen all => weaker seen (surveyed.settled seen all)⟩
  · exact fun _ _ stopped => stopped

theorem settles_act (resolving : Resolving Unit) (known : Prop)
    (steps : ∀ s, s.scopes = frames.map Frame.scope → Ends resolving s
      (fun _ t => t.scopes = after.map Frame.scope ∧ t.distances = s.distances ∧ known) fun _ _ => True)
    (kept : after.map Frame.site = frames.map Frame.site) :
    Settles frames (Surveying.act resolving) after [] fun _ => known := by
  intro s tracks
  apply ends_mono _ _ _ _ _ _ (act_ends (steps s.scoping tracks.scopes))
  · rintro _ t ⟨sites, visits, scopes, distances, fact⟩
    exact ⟨⟨sites.trans (tracks.sites.trans kept.symm), scopes⟩, ⟨[], visits, List.Perm.refl _, distances⟩,
      fun _ _ => fact⟩
  · exact fun _ _ stopped => stopped

theorem settles_pure : Settles frames (return ()) frames [] fun _ => True := by
  intro s tracks
  exact ends_pure _ _ _ _ ⟨tracks, ⟨[], rfl, List.Perm.refl _, rfl⟩, fun _ _ => trivial⟩

theorem settles_visit (line : Nat) : Settles frames (Surveying.act (Resolving.visit line)) frames [] fun _ => True :=
  settles_act _ True (fun _ scopes => ⟨scopes, rfl, trivial⟩) rfl

theorem settles_behind (line : Nat) (settles : Settles frames p after references settled) :
    Settles frames (do Surveying.act (Resolving.visit line); p) after references settled :=
  settles_weaken (settles_then (settles_visit line) settles) (List.Perm.refl _) fun _ both => both.2

theorem settles_get {f : Survey → Surveying Unit} (rest : ∀ s, Settles frames (f s) after references settled) :
    Settles frames (get >>= f) after references settled := by
  intro s tracks
  exact rest s s tracks

theorem settles_modify (frames : List Frame) (f : Scoping → Scoping) (scopes : ∀ s, (f s).scopes = s.scopes)
    (distances : ∀ s, (f s).distances = s.distances) :
    Settles frames (Surveying.act (modify f)) frames [] fun _ => True :=
  settles_act _ True (fun s tracked => ⟨(scopes s).trans tracked, distances s, trivial⟩) rfl

theorem settles_note (node : Expr) (id : Nat) (name : Name) (reference : node.reference? = some ⟨name.text, id⟩) :
    Settles frames (do Surveying.note node; Surveying.act (Resolving.locate id name)) frames [⟨name.text, id⟩]
      fun seen => seen (.ofFrames node frames) := by
  intro s tracks
  let v : Visit := ⟨node, s.sites, s.scoping.scopes⟩
  have here : v = .ofFrames node frames := by simp only [v, Visit.ofFrames, tracks.sites, tracks.scopes]
  have found : v.found = s.scoping.scopes.findIdx? fun scope => scope.contains name.text := by
    simp only [v, Visit.found, reference, Option.bind_some]
  have ended : ∀ t, Surveying.act (Resolving.locate id name) { s with visits := v :: s.visits } = .ok () t →
      Surveyed s frames [⟨name.text, id⟩] (fun seen => seen (.ofFrames node frames)) t := by
    intro t run
    have kept : t.scoping.distances = v.keep s.scoping.distances ∧ t.sites = s.sites ∧
        t.scoping.scopes = s.scoping.scopes ∧ t.visits = v :: s.visits := by
      simp only [Surveying.act, Resolving.locate, get_run, bind, EStateM.bind,
        ← found, Distances.note] at run
      simp only [Visit.keep, show v.node = node from rfl, reference]
      cases place : v.found with
      | none =>
          simp only [place, pure, EStateM.pure] at run
          cases run
          exact ⟨rfl, rfl, rfl, rfl⟩
      | some distance =>
          simp only [place] at run
          by_cases known : s.scoping.distances.contains id
          · simp [known, throw_run] at run
          · simp only [known, set, MonadStateOf.set] at run
            cases run
            exact ⟨rfl, rfl, rfl, rfl⟩
    obtain ⟨distances, sites, scopes, visits⟩ := kept
    refine ⟨⟨sites.trans tracks.sites, scopes.trans tracks.scopes⟩, ⟨[v], visits, ?_, distances⟩, ?_⟩
    · simp [v, Visit.reference?, reference]
    · intro seen all
      exact here ▸ all v (by rw [visits]; exact List.mem_cons_self)
  unfold Ends
  have unfolded : (do Surveying.note node; Surveying.act (Resolving.locate id name) : Surveying Unit) s =
      Surveying.act (Resolving.locate id name) { s with visits := v :: s.visits } := rfl
  rw [unfolded]
  cases run : Surveying.act (Resolving.locate id name) { s with visits := v :: s.visits } with
  | ok a t => exact ended t run
  | error e t => trivial

theorem settles_in_scope (site : Site) (scope : Scope) (next : Frame)
    (settles : Settles (⟨site, scope⟩ :: frames) p (next :: frames) references settled) :
    Settles frames (Surveying.inScope site scope p) frames references settled := by
  intro s tracks
  unfold Surveying.inScope
  have opened : Tracks (⟨site, scope⟩ :: frames)
      { s with scoping := { s.scoping with scopes := scope :: s.scoping.scopes }, sites := site :: s.sites } :=
    ⟨congrArg (site :: ·) tracks.sites, congrArg (scope :: ·) tracks.scopes⟩
  have inner := settles _ opened
  have run : Ends (do p; Surveying.act Resolving.closeScope; Surveying.leave)
      { s with scoping := { s.scoping with scopes := scope :: s.scoping.scopes }, sites := site :: s.sites }
      (fun _ t => Surveyed s frames references settled t) fun _ _ => True := by
    apply ends_bind _ _ _ _ _ _ inner
    rintro _ t ⟨⟨sites, scopes⟩, visits, facts⟩
    have closed : (do Surveying.act Resolving.closeScope; Surveying.leave : Surveying Unit) t =
        .ok () { t with scoping := { t.scoping with scopes := frames.map Frame.scope }, sites := t.sites.tail } := by
      simp only [Surveying.act, Resolving.closeScope, Surveying.leave, bind, EStateM.bind, get_run, scopes, List.map_cons]
      rfl
    unfold Ends
    rw [closed]
    refine ⟨⟨?_, rfl⟩, visits, facts⟩
    simp only [sites, List.map_cons, List.tail_cons]
  exact run

end Rules

theorem settles_declare (name : Name) (frames : List Frame) :
    Settles frames (Surveying.act (Resolving.declare name)) (name.markIn false frames) [] fun _ => True := by
  apply settles_act
  · intro s scopes
    cases frames with
    | nil =>
        simp only [List.map_nil] at scopes
        simp [Ends, Resolving.declare, Resolving.visit, modify_run,
          bind, EStateM.bind, get_run, scopes, pure, EStateM.pure, Name.markIn]
    | cons frame outer =>
        simp only [List.map_cons] at scopes
        by_cases known : frame.scope.contains name.text
        · simp [Ends, Resolving.declare, Resolving.visit, modify_run, bind, EStateM.bind, get_run, scopes, known,
            Resolving.refuse, throw_run]
        · simp [Ends, Resolving.declare, Resolving.visit, modify_run, bind, EStateM.bind, get_run, scopes, known,
            set_run, Name.markIn]
  · cases frames <;> rfl

theorem settles_define (name : Name) (frames : List Frame) :
    Settles (name.markIn false frames) (Surveying.act (Resolving.define name)) (name.markIn true frames) []
      fun _ => True := by
  apply settles_act
  · intro s scopes
    cases frames with
    | nil =>
        simp only [Name.markIn, List.map_nil] at scopes
        simp [Ends, Resolving.define, bind, EStateM.bind, get_run, scopes, pure,
          EStateM.pure, Name.markIn]
    | cons frame outer =>
        simp only [Name.markIn, List.map_cons] at scopes
        simp [Ends, Resolving.define, bind, EStateM.bind, get_run, scopes,
          Bindings.contains_insert_self, set_run, Name.markIn, Bindings.insert_insert]
  · cases frames <;> rfl

theorem settles_declared (name : Name) (frames : List Frame) :
    Settles frames (do Surveying.act (Resolving.declare name); Surveying.act (Resolving.define name))
      (name.markIn true frames) [] fun _ => True :=
  settles_weaken (settles_then (settles_declare name frames) (settles_define name frames)) (List.Perm.refl _)
    fun _ _ => trivial

theorem settles_parameters (names : List Name) (frame : Frame) (outer : List Frame) :
    Settles (frame :: outer) (Surveying.act (Resolving.declareAll names))
      ({ frame with scope := names.foldl (fun scope name => scope.insert name.text true) frame.scope } :: outer) []
      fun _ => True := by
  induction names generalizing frame with
  | nil => exact settles_act _ True (fun _ scopes => ⟨scopes, rfl, trivial⟩) rfl
  | cons name rest ih =>
      have behind := settles_then (settles_define name (frame :: outer)) (ih _)
      have whole := settles_then (settles_declare name (frame :: outer)) behind
      rw [Resolving.declareAll, act_join, act_join]
      exact settles_weaken whole (List.Perm.refl _) fun _ _ => trivial

theorem ready_of_scopes (node : Expr) (r : Reference) (frames : List Frame) (reference : node.reference? = some r)
    (ready : ∀ frame ∈ frames, frame.scope.find? r.name ≠ some false) :
    (Visit.ofFrames node frames).isReady ≠ some false := by
  intro waiting
  have found : (frames.map Frame.scope).findSome? (fun scope => scope.find? r.name) = some false := by
    simpa only [Visit.isReady, Visit.ofFrames, reference, Option.bind_some] using waiting
  obtain ⟨scope, member, same⟩ := List.exists_of_findSome?_eq_some found
  obtain ⟨frame, inside, rfl⟩ := List.mem_map.mp member
  exact ready frame inside same

theorem settles_check_read (name : Name) (frames : List Frame) (orderly : OrderlyFrames frames) :
    Settles frames (Surveying.act (Resolving.checkRead name)) frames []
      fun _ => ∀ frame ∈ frames, frame.scope.find? name.text ≠ some false := by
  apply settles_act
  · intro s scopes
    cases frames with
    | nil =>
        simp only [List.map_nil] at scopes
        simp [Ends, Resolving.checkRead, bind, EStateM.bind, get_run, scopes, pure,
          EStateM.pure]
    | cons frame outer =>
        simp only [List.map_cons] at scopes
        by_cases waiting : frame.scope.find? name.text = some false
        · simp [Ends, Resolving.checkRead, bind, EStateM.bind, get_run, scopes,
            waiting, Resolving.refuse, throw_run]
        · have outside := orderly.outer
          simp only [Ends, Resolving.checkRead, bind, EStateM.bind, get_run,
            scopes, beq_iff_eq, waiting, if_false, pure, EStateM.pure, List.map_cons]
          refine ⟨trivial, trivial, ?_⟩
          intro other member
          rcases List.mem_cons.mp member with rfl | later
          · exact waiting
          · exact outside other later name.text
  · rfl

theorem settles_check_callee (callee : Expr) (frames : List Frame) :
    Settles frames (Surveying.act (Resolving.checkCallee callee)) frames [] fun _ => ¬ callee.AccessesConstructor := by
  apply settles_act
  · intro s scopes
    cases callee with
    | get mark object name =>
        by_cases constructor : name.text = Routine.constructorName
        · simp [Ends, Resolving.checkCallee, constructor, Resolving.refuse, throw_run]
        · simp [Ends, Resolving.checkCallee, constructor, pure, EStateM.pure, scopes, Expr.AccessesConstructor]
    | _ => simp [Ends, Resolving.checkCallee, pure, EStateM.pure, scopes, Expr.AccessesConstructor]
  · rfl

theorem settles_check_this (name : Name) (frames : List Frame) :
    Settles frames (Surveying.act (Resolving.checkThis name)) frames [] fun _ => True := by
  apply settles_act
  · intro s scopes
    cases inside : s.inClass <;>
      simp [Ends, Resolving.checkThis, bind, EStateM.bind, get_run, inside, pure,
        EStateM.pure, scopes, Resolving.refuse, throw_run]
  · rfl

theorem settles_check_return (line : Nat) (hasValue : Bool) (frames : List Frame) :
    Settles frames (Surveying.act (Resolving.checkReturn line hasValue)) frames [] fun _ => True := by
  apply settles_act
  · intro s scopes
    cases around : s.surrounding <;> cases hasValue <;>
      simp [Ends, Resolving.checkReturn, bind, EStateM.bind, get_run, around, pure,
        EStateM.pure, scopes, Resolving.refuse, throw_run]
  · rfl

mutual
theorem settles_expr : ∀ (e : Expr) (frames : List Frame), OrderlyFrames frames → e.Proper →
    Settles frames e.survey frames e.references fun seen => e.Settled seen frames
  | .literal mark _, _, _, _ => settles_visit mark.line
  | .grouping mark inner, frames, orderly, proper =>
      settles_behind mark.line (settles_expr inner frames orderly proper)
  | .unary mark _ right, frames, orderly, proper =>
      settles_behind mark.line (settles_expr right frames orderly proper)
  | .binary mark left _ right, frames, orderly, proper | .logical mark left _ right, frames, orderly, proper =>
      settles_behind mark.line
        (settles_then (settles_expr left frames orderly proper.1) (settles_expr right frames orderly proper.2))
  | .ident mark name, frames, orderly, _ => by
      apply settles_behind mark.line
      apply settles_weaken (settles_then (settles_check_read name frames orderly)
        (settles_note (.ident mark name) mark.id name rfl)) (List.Perm.refl _)
      rintro seen ⟨ready, visited⟩
      exact ⟨visited, ready_of_scopes _ ⟨name.text, mark.id⟩ frames rfl ready⟩
  | .assign mark name value, frames, orderly, proper => by
      apply settles_behind mark.line
      exact settles_weaken (settles_then (settles_expr value frames orderly proper.2)
        (settles_note (.assign mark name value) mark.id name rfl)) (List.perm_append_singleton _ _) fun _ both => both
  | .call mark callee arguments _, frames, orderly, proper =>
      settles_behind mark.line (settles_weaken (settles_then (settles_check_callee callee frames)
        (settles_then (settles_expr callee frames orderly proper.1) (settles_exprs arguments frames orderly proper.2)))
        (List.Perm.refl _) fun _ all => all)
  | .get mark object _, frames, orderly, proper =>
      settles_behind mark.line (settles_expr object frames orderly proper)
  | .set mark object _ value, frames, orderly, proper =>
      settles_behind mark.line
        (settles_weaken (settles_then (settles_expr value frames orderly proper.2)
          (settles_expr object frames orderly proper.1)) List.perm_append_comm fun _ both => both)
  | .this mark name, frames, orderly, proper => by
      apply settles_behind mark.line
      apply settles_weaken (settles_then (settles_check_this name frames)
        (settles_note (.this mark name) mark.id name rfl)) (List.Perm.refl _)
      rintro seen ⟨_, visited⟩
      refine ⟨visited, ready_of_scopes _ ⟨name.text, mark.id⟩ frames rfl ?_⟩
      intro frame member
      have named : name.text = receiverName := proper
      exact named ▸ orderly.receiver frame member

theorem settles_exprs : ∀ (es : List Expr) (frames : List Frame), OrderlyFrames frames → Expr.ProperAll es →
    Settles frames (Expr.surveyAll es) frames (Expr.referencesAll es) fun seen => Expr.SettledAll seen frames es
  | [], _, _, _ => settles_pure
  | e :: rest, frames, orderly, proper =>
      settles_then (settles_expr e frames orderly proper.1) (settles_exprs rest frames orderly proper.2)
end

theorem settles_body (site : Site) (scope : Scope) (body : List Stmt) (frames : List Frame)
    (references : List Reference) (settled : (Visit → Prop) → Prop)
    (inner : Settles (⟨site, scope⟩ :: frames) (Stmt.surveyAll body) (Stmt.leavesAll (⟨site, scope⟩ :: frames) body)
      references settled) :
    Settles frames (Surveying.inScope site scope (Stmt.surveyAll body)) frames references settled := by
  obtain ⟨next, left⟩ := leaves_all_tail body ⟨site, scope⟩ frames
  exact settles_in_scope site scope next (left ▸ inner)

theorem ready_fresh (site : Site) (frames : List Frame) (ready : ReadyFrames frames) :
    ReadyFrames (.fresh site :: frames) :=
  ready_cons _ frames ready_empty ready

theorem ready_receiver (name : Name) (methods : List Routine) (frames : List Frame) (ready : ReadyFrames frames) :
    ReadyFrames (.receiver name methods :: frames) :=
  ready_cons _ frames (ready_insert _ _ ready_empty) ready

theorem ready_routine (r : Routine) (frames : List Frame) (ready : ReadyFrames frames) :
    ReadyFrames (r.frame :: frames) :=
  ready_cons _ frames (ready_parameters _ _ ready_empty) ready

mutual
theorem settles_stmt : ∀ (s : Stmt) (frames : List Frame), ReadyFrames frames → s.Proper →
    Settles frames s.survey (s.leaves frames) s.references fun seen => s.Settled seen frames
  | .expression e, frames, ready, proper => settles_expr e frames (orderly_of_ready frames ready) proper
  | .var name none, frames, _, _ => settles_declared name frames
  | .var name (some e), frames, ready, proper => by
      have value := settles_expr e _ (orderly_mark name frames ready proper.1) proper.2
      have whole := settles_then (settles_declare name frames) (settles_then value (settles_define name frames))
      apply settles_weaken whole
      · simp [Stmt.references]
      · exact fun _ all => all.2.1
  | .block body, frames, ready, proper =>
      settles_body _ _ body frames _ _ (settles_stmts body _ (ready_fresh _ frames ready) proper)
  | .branch condition body alternative, frames, ready, proper =>
      settles_weaken (settles_then (settles_expr condition frames (orderly_of_ready frames ready) proper.1)
        (settles_then (settles_body _ _ body frames _ _ (settles_stmts body _ (ready_fresh _ frames ready) proper.2.1))
          (settles_alternative alternative frames ready proper.2.2)))
        (by simp [Stmt.references]) fun _ all => all
  | .while condition body, frames, ready, proper =>
      settles_then (settles_expr condition frames (orderly_of_ready frames ready) proper.1)
        (settles_body _ _ body frames _ _ (settles_stmts body _ (ready_fresh _ frames ready) proper.2))
  | .function routine, frames, ready, proper => by
      have whole := settles_then (settles_declared routine.name frames)
        (settles_routine .function routine _ (ready_mark routine.name frames ready) proper)
      rw [bind_assoc] at whole
      exact settles_weaken whole (List.Perm.refl _) fun _ both => both.2
  | .return line none, frames, _, _ => settles_check_return line false frames
  | .return line (some e), frames, ready, proper =>
      settles_weaken (settles_then (settles_check_return line true frames)
        (settles_expr e frames (orderly_of_ready frames ready) proper)) (List.Perm.refl _) fun _ both => both.2
  | .class name methods, frames, ready, proper => by
      have marked := ready_mark name frames ready
      have inner : Settles (name.markIn true frames)
          (Surveying.inScope (.receiver name methods) Resolving.receiverScope (Routine.surveyAll methods))
          (name.markIn true frames) (Routine.referencesAll methods)
          fun seen => Routine.SettledAll seen (.receiver name methods :: name.markIn true frames) methods :=
        settles_in_scope _ _ _ (settles_routines methods _ (ready_receiver name methods _ marked) proper.2)
      have whole : Settles (name.markIn true frames)
          (match Resolving.repeated? [] methods with
            | some method =>
                Surveying.act (Resolving.refuse method.line (.methodRepeated method.text name.text))
            | none => do
                let outside := (← get).scoping.inClass
                Surveying.act (modify fun s => { s with inClass := true })
                Surveying.inScope (.receiver name methods) Resolving.receiverScope (Routine.surveyAll methods)
                Surveying.act (modify fun s => { s with inClass := outside }))
          (name.markIn true frames) (Routine.referencesAll methods)
          fun seen => Routine.SettledAll seen (.receiver name methods :: name.markIn true frames) methods := by
        cases Resolving.repeated? [] methods with
        | some method => exact fun _ _ => trivial
        | none =>
            apply settles_get
            intro s
            have parts := settles_then (settles_modify (name.markIn true frames)
              (fun s => { s with inClass := true }) (fun _ => rfl) (fun _ => rfl))
              (settles_then inner (settles_modify _ (fun t => { t with inClass := s.scoping.inClass })
                (fun _ => rfl) (fun _ => rfl)))
            apply settles_weaken parts
            · simp
            · exact fun _ all => all.2.1
      have declared := settles_then (settles_declared name frames) whole
      rw [bind_assoc] at declared
      exact settles_weaken declared (List.Perm.refl _) fun _ both => both.2

theorem settles_alternative : ∀ (a : Alternative) (frames : List Frame), ReadyFrames frames → a.Proper →
    Settles frames a.survey frames a.references fun seen => a.Settled seen frames
  | .none, _, _, _ => settles_pure
  | .elseIf condition body alternative, frames, ready, proper =>
      settles_weaken (settles_then (settles_expr condition frames (orderly_of_ready frames ready) proper.1)
        (settles_then (settles_body _ _ body frames _ _ (settles_stmts body _ (ready_fresh _ frames ready) proper.2.1))
          (settles_alternative alternative frames ready proper.2.2)))
        (by simp [Alternative.references]) fun _ all => all
  | .block body, frames, ready, proper =>
      settles_body _ _ body frames _ _ (settles_stmts body _ (ready_fresh _ frames ready) proper)

theorem settles_routine (kind : Surrounding) : ∀ (r : Routine) (frames : List Frame), ReadyFrames frames → r.Proper →
    Settles frames (r.survey kind) frames r.references fun seen => r.Settled seen frames
  | ⟨name, parameters, body⟩, frames, ready, proper => by
      let r : Routine := ⟨name, parameters, body⟩
      apply settles_get
      intro s
      have statements := settles_stmts body (r.frame :: frames) (ready_routine r frames ready) proper.2.2
      have inner := settles_then (settles_parameters parameters (.fresh (.routine r)) frames) statements
      obtain ⟨next, left⟩ := leaves_all_tail body r.frame frames
      have enclosed := settles_in_scope (.routine r) Bindings.empty next (left ▸ inner)
      have parts := settles_then (settles_modify frames
        (fun s => { s with surrounding := kind }) (fun _ => rfl) (fun _ => rfl))
        (settles_then enclosed (settles_modify _ (fun t => { t with surrounding := s.scoping.surrounding })
          (fun _ => rfl) (fun _ => rfl)))
      apply settles_weaken parts
      · simp [Routine.references]
      · exact fun _ all => all.2.1.2

theorem settles_stmts : ∀ (body : List Stmt) (frames : List Frame), ReadyFrames frames → Stmt.ProperAll body →
    Settles frames (Stmt.surveyAll body) (Stmt.leavesAll frames body) (Stmt.referencesAll body)
      fun seen => Stmt.SettledAll seen frames body
  | [], _, _, _ => settles_pure
  | s :: rest, frames, ready, proper =>
      settles_then (settles_stmt s frames ready proper.1)
        (settles_stmts rest _ (ready_leaves s frames ready) proper.2)

theorem settles_routines : ∀ (methods : List Routine) (frames : List Frame), ReadyFrames frames →
    Routine.ProperAll methods → Settles frames (Routine.surveyAll methods) frames (Routine.referencesAll methods)
      fun seen => Routine.SettledAll seen frames methods
  | [], _, _, _ => settles_pure
  | method :: rest, frames, ready, proper =>
      settles_then (settles_routine _ method frames ready proper.1) (settles_routines rest frames ready proper.2)
end

end TreeWalk
