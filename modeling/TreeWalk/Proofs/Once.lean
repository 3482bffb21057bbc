import TreeWalk.Proofs.Apart
import TreeWalk.Proofs.Reflected

set_option autoImplicit false

namespace TreeWalk

mutual
theorem stmt_variable : ∀ s : Stmt, s.Proper → receiverName ∉ s.own ++ s.inner
  | .expression _, _, member | .return _ _, _, member => nomatch member
  | .var _ none, proper, member => proper (List.mem_singleton.mp member).symm
  | .var _ (some _), proper, member => proper.1 (List.mem_singleton.mp member).symm
  | .block body, proper, member => stmts_variable body proper member
  | .branch _ body alternative, proper, member => by
      rcases List.mem_append.mp (show receiverName ∈ Stmt.declaredAll body ++ alternative.inner from member) with
        here | later
      · exact stmts_variable body proper.2.1 here
      · exact alternative_variable alternative proper.2.2 later
  | .while _ body, proper, member => stmts_variable body proper.2 member
  | .function ⟨name, parameters, body⟩, proper, member =>
      (List.mem_cons.mp member).elim (fun same => proper.1 same.symm) (routine_variable ⟨name, parameters, body⟩ proper)
  | .class _ methods, proper, member =>
      (List.mem_cons.mp member).elim (fun same => proper.1 same.symm) (routines_variable methods proper.2)

theorem alternative_variable : ∀ a : Alternative, a.Proper → receiverName ∉ a.inner
  | .none, _, member => nomatch member
  | .elseIf _ body alternative, proper, member =>
      (List.mem_append.mp member).elim (stmts_variable body proper.2.1) (alternative_variable alternative proper.2.2)
  | .block body, proper, member => stmts_variable body proper member

theorem routine_variable : ∀ routine : Routine, routine.Proper → receiverName ∉ routine.inner
  | ⟨_, _, body⟩, proper, member => by
      rcases List.mem_append.mp member with parameter | inside
      · obtain ⟨name, declared, same⟩ := List.mem_map.mp parameter
        exact proper.2.1 name declared same
      · exact stmts_variable body proper.2.2 inside

theorem stmts_variable : ∀ body : List Stmt, Stmt.ProperAll body → receiverName ∉ Stmt.declaredAll body
  | [], _, member => nomatch member
  | s :: rest, proper, member =>
      (List.mem_append.mp member).elim (stmt_variable s proper.1) (stmts_variable rest proper.2)

theorem routines_variable : ∀ methods : List Routine, Routine.ProperAll methods → receiverName ∉ Routine.innerAll methods
  | [], _, member => nomatch member
  | method :: rest, proper, member =>
      (List.mem_append.mp member).elim (routine_variable method proper.1) (routines_variable rest proper.2)
end

structure Once (ground : List String) (scopes : List (Frame × List String)) (names : List String) : Prop where
  distinct : names.Nodup
  plain : receiverName ∉ names
  outside : ∀ mark ∈ scopes.map Prod.snd ++ [ground], ∀ name ∈ names, name ∉ mark

section Scopes

variable {ground names others : List String} {scopes : List (Frame × List String)}

theorem once_perm (same : names.Perm others) (once : Once ground scopes names) : Once ground scopes others :=
  ⟨same.nodup_iff.mp once.distinct, fun member => once.plain (same.mem_iff.mpr member),
    fun mark around name member => once.outside mark around name (same.mem_iff.mpr member)⟩

theorem once_left (once : Once ground scopes (names ++ others)) : Once ground scopes names :=
  ⟨(List.nodup_append.mp once.distinct).1, fun member => once.plain (List.mem_append_left _ member),
    fun mark around name member => once.outside mark around name (List.mem_append_left _ member)⟩

theorem once_right (once : Once ground scopes (names ++ others)) : Once ground scopes others :=
  ⟨(List.nodup_append.mp once.distinct).2.1, fun member => once.plain (List.mem_append_right _ member),
    fun mark around name member => once.outside mark around name (List.mem_append_right _ member)⟩

theorem declare_marks (name : Name) (ready : Bool) (scopes : List (Frame × List String)) :
    (declareIn name ready scopes).map Prod.snd = scopes.map Prod.snd := by
  cases scopes <;> rfl

theorem once_declare (name : Name) (ready : Bool) (once : Once ground scopes names) :
    Once ground (declareIn name ready scopes) names :=
  ⟨once.distinct, once.plain, (declare_marks name ready scopes).symm ▸ once.outside⟩

theorem once_scope (frame : Frame) (fits : (Scheme.disjoint ground).Fits scopes)
    (once : Once ground scopes (names ++ others)) :
    (Scheme.disjoint ground).Fits ((frame, names) :: scopes) ∧ Once ground ((frame, names) :: scopes) others := by
  have apart := (List.nodup_append.mp once.distinct).2.2
  refine ⟨⟨fun scope member named => ?_, List.pairwise_cons.mpr ⟨fun mark around name own also => ?_, fits.2⟩⟩,
    (once_right once).distinct, (once_right once).plain, fun mark around name member => ?_⟩
  · rcases List.mem_cons.mp member with rfl | later
    · exact ((once_left once).plain named).elim
    · exact fits.1 scope later named
  · exact ((once_left once).outside mark around name own also).elim
  · rcases List.mem_cons.mp around with rfl | outer
    · exact fun own => apart name own name member rfl
    · exact (once_right once).outside mark outer name member

theorem once_receiver (name : Name) (methods : List Routine) (fits : (Scheme.disjoint ground).Fits scopes)
    (once : Once ground scopes names) :
    (Scheme.disjoint ground).Fits ((.receiver name methods, [receiverName]) :: scopes) ∧
      Once ground ((.receiver name methods, [receiverName]) :: scopes) names := by
  refine ⟨⟨fun scope member named => ?_, List.pairwise_cons.mpr ⟨fun mark around name own _ => ?_, fits.2⟩⟩,
    once.distinct, once.plain, fun mark around name member => ?_⟩
  · rcases List.mem_cons.mp member with rfl | later
    · rfl
    · exact fits.1 scope later named
  · exact List.mem_singleton.mp own
  · rcases List.mem_cons.mp around with rfl | outer
    · exact fun own => once.plain (List.mem_singleton.mp own ▸ member)
    · exact once.outside mark outer name member

end Scopes

theorem once_reflects (ground : List String) : (Scheme.disjoint ground).Reflects fun scopes names =>
    (Scheme.disjoint ground).Fits scopes ∧ Once ground scopes names where
  reading scopes _ _ name := disjoint_reading scopes name
  declare scopes _ name ready free :=
    ⟨(Scheme.disjoint ground).fits_declare_in name ready scopes free.1, once_declare name ready free.2⟩
  left _ _ _ free := ⟨free.1, once_left free.2⟩
  right _ _ _ free := ⟨free.1, once_right free.2⟩
  scope _ _ own _ frame same free :=
    have inside := once_scope frame free.1 (once_perm same free.2)
    ⟨own, inside.1, fun _ member => ⟨member, rfl⟩, inside⟩
  receiver _ _ name methods free :=
    have inside := once_receiver name methods free.1 free.2
    ⟨inside.1, inside⟩

end TreeWalk
