import TreeWalk.Proofs.Alike

set_option autoImplicit false

namespace TreeWalk

theorem reads_spread {first next : Nat} {text : String} {program : Program} (reads : ReadsAs first text program next) :
    first ≤ next ∧ Spread first next (Stmt.idsAll program) := by
  obtain ⟨tokens, read, parsed⟩ := reads
  obtain ⟨later, ids, _⟩ := parse_built first next tokens program (tokenize_proper text tokens read) parsed
  exact ⟨later, ids⟩

theorem parse_reads {s : Session} {text : String} {program : Program} {next : Nat}
    (reads : ReadsAs s.nextId text program next) : Session.parse text s = .ok program { s with nextId := next } := by
  obtain ⟨tokens, read, parsed⟩ := reads
  unfold Session.parse
  rw [read]
  dsimp only
  rw [bind_ok _ (get_run s), parsed]
  rfl

theorem reads_of_parse {s t : Session} {text : String} {program : Program}
    (run : Session.parse text s = .ok program t) : ReadsAs s.nextId text program t.nextId := by
  unfold Session.parse at run
  cases read : tokenize text with
  | error e =>
      rw [read] at run
      cases run
  | ok tokens =>
      rw [read] at run
      dsimp only at run
      rw [bind_ok _ (get_run s)] at run
      refine ⟨tokens, read, ?_⟩
      cases parsed : TreeWalk.parse s.nextId tokens with
      | error e =>
          rw [parsed] at run
          cases run
      | ok result =>
          rw [parsed] at run
          cases run
          rfl

def Session.check (text : String) : SessionM Unit := do
  onMachine (resolve (← parse text))

def Accepted (text : String) : Prop :=
  (observe (Session.check text (.start ⟨[]⟩ .unlimited))).ending.isOk = true

instance (text : String) : Decidable (Accepted text) :=
  inferInstanceAs (Decidable (_ = true))

theorem accepted_reads (text : String) (accepted : Accepted text) :
    ∃ program next, ReadsAs 0 text program next ∧ (Program.resolve program ∅).1 = .ok () := by
  unfold Accepted Session.check at accepted
  cases run : Session.parse text (.start ⟨[]⟩ .unlimited) with
  | error halt s =>
      rw [bind_error _ run] at accepted
      cases accepted
  | ok program s =>
      have reads := reads_of_parse run
      refine ⟨program, s.nextId, reads, ?_⟩
      rw [bind_ok _ (parse_reads reads)] at accepted
      unfold Session.onMachine Session.resolve at accepted
      dsimp only [Session.start, Machine.start] at accepted
      cases outcome : Program.resolve program ∅ with
      | mk checked distances =>
          cases checked with
          | ok _ => rfl
          | error e =>
              rw [outcome] at accepted
              cases accepted

end TreeWalk
