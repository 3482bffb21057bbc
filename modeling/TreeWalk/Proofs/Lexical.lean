import Mathlib.Data.List.Forall2
import Mathlib.Data.List.Nodup
import TreeWalk.Proofs.Nodes
import TreeWalk.Proofs.Sequence

set_option autoImplicit false

namespace TreeWalk

open Enclosure (declare)

-- The scopes inside the nearest one that declares the name in front of a part.
def LexicalDistance (scopes : List Enclosure) (name : String) (distance : Nat) : Prop :=
  ∃ inner scope outer, scopes = inner ++ scope :: outer ∧ distance = inner.length ∧ name ∈ scope.earlier ∧
    ∀ nearer ∈ inner, name ∉ nearer.earlier

theorem lexical_nil (name : String) (distance : Nat) : ¬ LexicalDistance [] name distance := by
  rintro ⟨inner, scope, outer, split, _⟩
  simp at split

theorem lexical_here {scope : Enclosure} {name : String} (outer : List Enclosure) (distance : Nat)
    (here : name ∈ scope.earlier) : LexicalDistance (scope :: outer) name distance ↔ distance = 0 := by
  constructor
  · rintro ⟨inner, found, further, split, rfl, _, free⟩
    cases inner with
    | nil => rfl
    | cons nearer inner =>
        obtain ⟨rfl, _⟩ := List.cons.inj split
        exact absurd here (free scope List.mem_cons_self)
  · rintro rfl
    exact ⟨[], scope, outer, rfl, rfl, here, nofun⟩

theorem lexical_outward {scope : Enclosure} {name : String} (outer : List Enclosure) (distance : Nat)
    (absent : name ∉ scope.earlier) :
    LexicalDistance (scope :: outer) name distance ↔ ∃ rest, distance = rest + 1 ∧ LexicalDistance outer name rest := by
  constructor
  · rintro ⟨inner, found, further, split, rfl, declared, free⟩
    cases inner with
    | nil =>
        obtain ⟨rfl, _⟩ := List.cons.inj split
        exact absurd declared absent
    | cons nearer inner =>
        obtain ⟨rfl, rest⟩ := List.cons.inj split
        exact ⟨inner.length, rfl, inner, found, further, rest, rfl, declared,
          fun other member => free other (List.mem_cons_of_mem _ member)⟩
  · rintro ⟨rest, rfl, inner, found, further, rfl, rfl, declared, free⟩
    exact ⟨scope :: inner, found, further, rfl, rfl, declared, List.forall_mem_cons.mpr ⟨absent, free⟩⟩

theorem lexical_exists (scopes : List Enclosure) (name : String) :
    (∃ distance, LexicalDistance scopes name distance) ↔ ∃ scope ∈ scopes, name ∈ scope.earlier := by
  induction scopes with
  | nil => simp [lexical_nil]
  | cons scope outer ih =>
      by_cases here : name ∈ scope.earlier
      · simp [lexical_here outer _ here, here]
      · have outside : (∃ found ∈ scope :: outer, name ∈ found.earlier) ↔ ∃ found ∈ outer, name ∈ found.earlier := by
          simp [here]
        simp only [lexical_outward outer _ here, outside, ← ih]
        constructor
        · rintro ⟨_, rest, rfl, found⟩
          exact ⟨rest, found⟩
        · rintro ⟨rest, found⟩
          exact ⟨rest + 1, rest, rfl, found⟩

def Enclosure.Framed (frame : Frame) (scope : Enclosure) : Prop :=
  ∀ name, frame.scope.contains name = true ↔ name ∈ scope.earlier

def Site.frame : Site → Frame
  | .routine r => r.frame
  | .receiver name methods => .receiver name methods
  | site => .fresh site

section Framed

variable {frames : List Frame} {scopes : List Enclosure}

theorem found_lexical (framed : List.Forall₂ Enclosure.Framed frames scopes) (name : String) (distance : Nat) :
    (frames.map Frame.scope).findIdx? (fun scope => scope.contains name) = some distance ↔
      LexicalDistance scopes name distance := by
  induction framed generalizing distance with
  | nil => simp [lexical_nil]
  | @cons frame scope frames outer head _ ih =>
      rw [List.map_cons, List.findIdx?_cons]
      by_cases here : name ∈ scope.earlier
      · rw [if_pos ((head name).mpr here), lexical_here outer distance here, Option.some_inj, eq_comm]
      · rw [if_neg fun found => here ((head name).mp found), lexical_outward outer distance here,
          Option.map_eq_some_iff]
        exact exists_congr fun rest => by rw [ih, and_comm, eq_comm]

theorem contains_parameters (names : List Name) (scope : Scope) (other : String) :
    Bindings.contains (names.foldl (fun scope name => scope.insert name.text true) scope) other = true ↔
      other ∈ names.map Name.text ∨ scope.contains other = true := by
  induction names generalizing scope with
  | nil => simp
  | cons name rest ih =>
      rw [List.foldl_cons, ih, Bindings.contains_insert, List.map_cons, List.mem_cons, or_left_comm, or_assoc]

theorem framed_site (site : Site) : Enclosure.Framed site.frame ⟨site, site.given⟩ := by
  intro name
  have empty : ¬ Bindings.contains (Bindings.empty : Scope) name = true := nofun
  cases site with
  | routine r => exact (contains_parameters r.parameters Bindings.empty name).trans (or_iff_left empty)
  | receiver _ _ =>
      refine (Bindings.contains_insert receiverName name true).trans ((or_iff_left empty).trans ?_)
      exact List.mem_singleton.symm
  | _ => exact ⟨nofun, nofun⟩

theorem framed_mark (name : Name) (ready : Bool) (framed : List.Forall₂ Enclosure.Framed frames scopes) :
    List.Forall₂ Enclosure.Framed (name.markIn ready frames) (declare [name.text] scopes) := by
  cases framed with
  | nil => exact .nil
  | @cons frame scope _ _ head outer =>
      refine .cons (fun other => ?_) outer
      rw [Bindings.contains_insert, head other, List.mem_append, List.mem_singleton, or_comm]

theorem framed_leaves (s : Stmt) (framed : List.Forall₂ Enclosure.Framed frames scopes) :
    List.Forall₂ Enclosure.Framed (s.leaves frames) (declare s.own scopes) := by
  cases s with
  | var name _ | «class» name _ => exact framed_mark name true framed
  | function routine => exact framed_mark routine.name true framed
  | _ => exact (Enclosure.declare_nil scopes).symm ▸ framed

theorem framed_leaves_all (body : List Stmt) (framed : List.Forall₂ Enclosure.Framed frames scopes) :
    List.Forall₂ Enclosure.Framed (Stmt.leavesAll frames body) (declare (Stmt.ownAll body) scopes) := by
  induction body generalizing frames scopes with
  | nil => exact (Enclosure.declare_nil scopes).symm ▸ framed
  | cons s rest ih =>
      rw [show Stmt.ownAll (s :: rest) = s.own ++ Stmt.ownAll rest from rfl, Enclosure.declare_append]
      exact ih (framed_leaves s framed)

end Framed

namespace Part

def Settled (seen : Visit → Prop) (frames : List Frame) : Part → Prop
  | statement s => s.Settled seen frames
  | alternative a => a.Settled seen frames
  | expression e => e.Settled seen frames
  | scope (.routine r) => r.Settled seen frames
  | scope (.receiver name methods) => Routine.SettledAll seen (.receiver name methods :: frames) methods
  | scope site => Stmt.SettledAll seen (site.frame :: frames) site.statements

end Part

def Position.Settled (seen : Visit → Prop) (p : Position) : Prop :=
  ∃ frames, List.Forall₂ Enclosure.Framed frames p.scopes ∧ p.part.Settled seen frames

section Settled

variable {seen : Visit → Prop} {frames : List Frame}

theorem exprs_settled_mem {e : Expr} {es : List Expr} (settled : Expr.SettledAll seen frames es) (member : e ∈ es) :
    e.Settled seen frames := by
  induction member with
  | head rest => exact settled.1
  | tail first _ ih => exact ih settled.2

theorem child_settled {e child : Expr} (settled : e.Settled seen frames) (member : child ∈ e.children) :
    child.Settled seen frames := by
  have all : Expr.SettledAll seen frames e.children := by
    cases e with
    | literal | ident | this => exact trivial
    | grouping | unary | get => exact ⟨settled, trivial⟩
    | binary | logical => exact ⟨settled.1, settled.2, trivial⟩
    | assign => exact ⟨settled.1, trivial⟩
    | call => exact settled.2
    | set => exact ⟨settled.2, settled.1, trivial⟩
  exact exprs_settled_mem all member

theorem reference_seen {e : Expr} {r : Reference} (settled : e.Settled seen frames) (reference : e.reference? = some r) :
    seen (.ofFrames e frames) := by
  cases e with
  | ident | this => exact settled.1
  | assign => exact settled.2
  | _ => cases reference

theorem statement_settled (before : List Stmt) (s : Stmt) (after : List Stmt)
    (settled : Stmt.SettledAll seen frames (before ++ s :: after)) :
    s.Settled seen (Stmt.leavesAll frames before) := by
  induction before generalizing frames with
  | nil => exact settled.1
  | cons first rest ih => exact ih settled.2

theorem site_settled (site : Site) (settled : (Part.scope site).Settled seen frames) :
    Stmt.SettledAll seen (site.frame :: frames) site.statements := by
  cases site with
  | routine r =>
      obtain ⟨name, parameters, body⟩ := r
      exact settled
  | receiver _ _ => exact trivial
  | _ => exact settled

theorem has_settled (p q : Position) (has : p.Has q) (before : p.Settled seen) : q.Settled seen := by
  obtain ⟨frames, framed, settled⟩ := before
  cases has with
  | expression | returned | block | branch | otherwise => exact ⟨frames, framed, settled⟩
  | initializer _ name e => exact ⟨_, framed_mark name false framed, settled⟩
  | function _ r => exact ⟨_, framed_mark r.name true framed, settled⟩
  | «class» _ name methods => exact ⟨_, framed_mark name true framed, settled⟩
  | repeated | condition => exact ⟨frames, framed, settled.1⟩
  | loop => exact ⟨frames, framed, settled.2⟩
  | chosen => exact ⟨frames, framed, settled.2.1⟩
  | further => exact ⟨frames, framed, settled.2.2⟩
  | child _ _ _ member => exact ⟨frames, framed, child_settled settled member⟩
  | statement _ site before s after split =>
      exact ⟨_, framed_leaves_all before (.cons (framed_site site) framed),
        statement_settled before s after (split ▸ site_settled site settled)⟩
  | method _ name methods method member =>
      exact ⟨_, .cons (framed_site (.receiver name methods)) framed,
        routine_settled_mem _ _ methods method settled member⟩

end Settled

theorem keep_fold_self (visits : List Visit) (distances : Distances)
    (nodup : ((visits.filterMap Visit.reference?).map Reference.id).Nodup)
    (fresh : ∀ r ∈ visits.filterMap Visit.reference?, distances[r.id]? = none) (v : Visit) (r : Reference)
    (member : v ∈ visits) (reference : v.node.reference? = some r) :
    (visits.foldr Visit.keep distances)[r.id]? = v.found := by
  induction visits with
  | nil => cases member
  | cons first rest ih =>
      have later : rest.filterMap Visit.reference? ⊆ (first :: rest).filterMap Visit.reference? := fun _ =>
        (((List.sublist_cons_self first rest).filterMap Visit.reference?).subset ·)
      have behind : ((rest.filterMap Visit.reference?).map Reference.id).Nodup :=
        nodup.sublist (((List.sublist_cons_self first rest).filterMap _).map _)
      have apart : ∀ r, first.node.reference? = some r → ∀ s ∈ rest.filterMap Visit.reference?, s.id ≠ r.id := by
        intro r reference s member same
        have joined : (first :: rest).filterMap Visit.reference? = r :: rest.filterMap Visit.reference? :=
          List.filterMap_cons_some reference
        rw [joined, List.map_cons, List.nodup_cons] at nodup
        exact nodup.1 (List.mem_map.mpr ⟨s, member, same⟩)
      rw [List.foldr_cons]
      rcases List.mem_cons.mp member with rfl | inside
      · apply Visit.keep_self v r _ reference
        rw [Visit.keep_fold_other rest _ r.id (apart r reference)]
        exact fresh r (List.mem_filterMap.mpr ⟨v, List.mem_cons_self, reference⟩)
      · rw [Visit.keep_other]
        · exact ih behind (fun r listed => fresh r (later listed)) inside
        · intro s other same
          exact apart s other r (List.mem_filterMap.mpr ⟨v, inside, reference⟩) same.symm

section Checked

variable {first next : Nat} {text : String} {program : Program} {distances recorded : Distances}

theorem accepted_visits (reads : ReadsAs first text program next)
    (accepted : program.resolve distances = (.ok (), recorded)) :
    ∃ visits : List Visit, (visits.filterMap Visit.reference?).Perm program.references ∧
      recorded = visits.foldr Visit.keep distances ∧
      ∀ seen : Visit → Prop, (∀ v ∈ visits, seen v) → Stmt.SettledAll seen [] program := by
  obtain ⟨tokens, read, parsed⟩ := reads
  obtain ⟨_, _, proper⟩ := parse_built first next tokens program (tokenize_proper text tokens read) parsed
  have surveyed := settles_stmts program [] (fun _ member => nomatch member) proper
    ⟨.start distances, [], []⟩ ⟨rfl, rfl⟩
  unfold Program.resolve EStateM.run at accepted
  unfold Ends at surveyed
  rcases agree_cases _ _ _ _ _ (erases_stmts program ⟨.start distances, [], []⟩ (.start distances) rfl) with
    ⟨_, _, s, t, left, right, _, same⟩ | ⟨_, _, _, _, _, right, _, _⟩
  · rw [left] at surveyed
    rw [right] at accepted
    obtain ⟨visits, gathered, found, kept⟩ := surveyed.visits
    refine ⟨visits, found, ?_, fun seen all => surveyed.settled seen fun v member => all v ?_⟩
    · rw [← (Prod.mk.inj accepted).2, ← show s.scoping = t from same]
      exact kept
    · simpa [gathered] using member
  · rw [right] at accepted
    cases accepted

theorem shown_unique (nodup : (Stmt.idsAll program).Nodup) {d e : Expr} {scopes others : List Enclosure}
    (one : program.Shows ⟨scopes, .expression d⟩) (other : program.Shows ⟨others, .expression e⟩) (same : d.id = e.id) :
    d = e := by
  rw [← stmts_nodes_ids] at nodup
  exact List.inj_on_of_nodup_map nodup ((Program.nodes_iff_shows program d).mpr ⟨scopes, one⟩)
    ((Program.nodes_iff_shows program e).mpr ⟨others, other⟩) same

theorem shown_id {e : Expr} {scopes : List Enclosure} (shown : program.Shows ⟨scopes, .expression e⟩) :
    e.id ∈ Stmt.idsAll program := by
  rw [← stmts_nodes_ids]
  exact List.mem_map_of_mem ((Program.nodes_iff_shows program e).mpr ⟨scopes, shown⟩)

theorem reference_id {e : Expr} {r : Reference} (reference : e.reference? = some r) : r.id = e.id := by
  cases e with
  | ident | this | assign => exact congrArg Reference.id (Option.some.inj reference).symm
  | _ => cases reference

theorem reference_shown {r : Reference} (member : r ∈ program.references) :
    ∃ scopes e, program.Shows ⟨scopes, .expression e⟩ ∧ e.reference? = some r ∧ e.id = r.id := by
  rw [show program.references = Stmt.referencesAll program from rfl, ← stmts_nodes_references] at member
  obtain ⟨e, listed, reference⟩ := List.mem_filterMap.mp member
  obtain ⟨scopes, shown⟩ := (Program.nodes_iff_shows program e).mp listed
  exact ⟨scopes, e, shown, reference, (reference_id reference).symm⟩

theorem shown_settled {seen : Visit → Prop} (settled : Stmt.SettledAll seen [] program) (p : Position)
    (shown : program.Shows p) : p.Settled seen := by
  refine shows_induction (fun s member => ?_) has_settled p shown
  obtain ⟨before, after, rfl⟩ := List.append_of_mem member
  exact ⟨_, framed_leaves_all before .nil, statement_settled before s after settled⟩

theorem distances_lexical (first next : Nat) (text : String) (program : Program) (distances recorded : Distances)
    (reads : ReadsAs first text program next) (fresh : ∀ id, first ≤ id → id < next → distances[id]? = none)
    (accepted : program.resolve distances = (.ok (), recorded)) :
    (∀ scopes e r, program.Shows ⟨scopes, .expression e⟩ → e.reference? = some r →
      (∀ distance, recorded[e.id]? = some distance ↔ LexicalDistance scopes r.name distance) ∧
        ((∃ distance, recorded[e.id]? = some distance) ↔ ∃ scope ∈ scopes, r.name ∈ scope.earlier)) ∧
      (∀ scopes e, program.Shows ⟨scopes, .expression e⟩ → e.reference? = none → recorded[e.id]? = none) ∧
      ∀ id, (∀ scopes e, program.Shows ⟨scopes, .expression e⟩ → e.id ≠ id) → recorded[id]? = distances[id]? := by
  obtain ⟨visits, found, rfl, settles⟩ := accepted_visits reads accepted
  obtain ⟨_, spread⟩ := reads_spread reads
  have inside : ∀ scopes e, program.Shows ⟨scopes, .expression e⟩ → distances[e.id]? = none := by
    intro scopes e shown
    have bounds := spread.within e.id (shown_id shown)
    exact fresh e.id bounds.1 bounds.2
  have shown : ∀ r ∈ visits.filterMap Visit.reference?,
      ∃ scopes e, program.Shows ⟨scopes, .expression e⟩ ∧ e.reference? = some r ∧ e.id = r.id := by
    intro r member
    exact reference_shown (found.mem_iff.mp member)
  refine ⟨?_, ?_, ?_⟩
  · intro scopes e r here reference
    have nodup : ((visits.filterMap Visit.reference?).map Reference.id).Nodup :=
      (found.map Reference.id).nodup_iff.mpr (spread.nodup.sublist (stmts_references_ids program))
    have unseen : ∀ r ∈ visits.filterMap Visit.reference?, distances[r.id]? = none := by
      intro r member
      obtain ⟨scopes, e, there, _, same⟩ := shown r member
      exact same ▸ inside scopes e there
    have settled := settles (fun v => ∀ r, v.node.reference? = some r → (visits.foldr Visit.keep distances)[r.id]? = v.found)
      fun v member r reference => keep_fold_self visits distances nodup unseen v r member reference
    obtain ⟨frames, framed, checked⟩ := shown_settled settled _ here
    have place : (visits.foldr Visit.keep distances)[e.id]? =
        (frames.map Frame.scope).findIdx? fun scope => scope.contains r.name := by
      rw [← reference_id reference, reference_seen checked reference r reference]
      simp only [Visit.found, Visit.ofFrames, reference, Option.bind_some]
    have lexical : ∀ distance, (visits.foldr Visit.keep distances)[e.id]? = some distance ↔
        LexicalDistance scopes r.name distance := fun distance => place ▸ found_lexical framed r.name distance
    exact ⟨lexical, (exists_congr lexical).trans (lexical_exists scopes r.name)⟩
  · intro scopes e here plain
    rw [Visit.keep_fold_other visits distances e.id]
    · exact inside scopes e here
    · intro r member same
      obtain ⟨others, d, there, reference, equal⟩ := shown r member
      have only := shown_unique spread.nodup there here (equal.trans same)
      rw [only, plain] at reference
      cases reference
  · intro id outside
    apply Visit.keep_fold_other
    intro r member same
    obtain ⟨others, d, there, _, equal⟩ := shown r member
    exact outside others d there (equal.trans same)

end Checked

theorem distances_lexical_nested :
    ∃ program next, ReadsAs 0 "\x7b var x = 1; func f(y) \x7b return x + y; \x7d \x7d" program next ∧
      (∀ id, 0 ≤ id → id < next → (∅ : Distances)[id]? = none) ∧
      program.resolve ∅ = (.ok (), (program.resolve ∅).2) ∧
      ∀ scopes e r, program.Shows ⟨scopes, .expression e⟩ → e.reference? = some r →
        ∀ distance, (program.resolve ∅).2[e.id]? = some distance ↔ LexicalDistance scopes r.name distance := by
  obtain ⟨program, next, reads, accepted⟩ :=
    accepted_reads "\x7b var x = 1; func f(y) \x7b return x + y; \x7d \x7d" (by decide +kernel)
  have fresh : ∀ id, 0 ≤ id → id < next → (∅ : Distances)[id]? = none :=
    fun _ _ _ => Std.TreeMap.getElem?_emptyc
  have whole : program.resolve ∅ = (.ok (), (program.resolve ∅).2) := Prod.ext accepted rfl
  have lexical := distances_lexical 0 next _ program ∅ _ reads fresh whole
  exact ⟨program, next, reads, fresh, whole, fun scopes e r shown reference => (lexical.1 scopes e r shown reference).1⟩

end TreeWalk
