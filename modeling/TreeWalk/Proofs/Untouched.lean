import TreeWalk.Proofs.Environments

set_option autoImplicit false

namespace TreeWalk

open Eval

structure Machine.Aside {γ : Type} (view : Machine → γ) : Prop where
  store : ∀ m store, view { m with store } = view m
  env : ∀ m env, view { m with env } = view m
  source : ∀ m source, view { m with source } = view m
  written : ∀ m octets, view { m with sink := m.sink.append octets } = view m

def Leaves {γ α : Type} (view : Machine → γ) (p : Eval α) : Prop :=
  ∀ m, view (endState (p m)) = view m

section Steps

variable {γ α β : Type} {view : Machine → γ}

theorem leaves_bind (p : Eval α) (f : α → Eval β) (first : Leaves view p) (rest : ∀ a, Leaves view (f a)) :
    Leaves view (p >>= f) := by
  intro m
  have before := first m
  cases run : p m with
  | ok a next =>
      rw [run] at before
      rw [bind_ok f run]
      exact (rest a next).trans before
  | error halt next =>
      rw [run] at before
      rw [bind_error f run]
      exact before

theorem leaves_write (aside : Machine.Aside view) (report : StreamError → Error) (text : String) :
    Leaves view (onSink report (Sink.write text)) := by
  intro m
  unfold onSink Sink.write
  dsimp only
  by_cases fits : m.sink.room text.toUTF8.size = text.toUTF8.size
  · simp only [fits, if_true]
    exact aside.written m _
  · simp only [fits, if_false]
    exact aside.written m _

theorem leaves_flush (report : StreamError → Error) : Leaves view (onSink report Sink.flush) := by
  intro m
  unfold onSink Sink.flush
  dsimp only
  cases refuses : m.sink.refusesFlush <;> rfl

theorem leaves_source (aside : Machine.Aside view) (report : StreamError → Error) (act : EStateM StreamError Source α) :
    Leaves view (onSource report act) := by
  intro m
  unfold onSource
  cases act m.source <;> exact aside.source m _

theorem leaves (aside : Machine.Aside view) : Throughout (Leaves view) where
  done _ _ := rfl
  follow := leaves_bind
  env _ := rfl
  distance _ _ := rfl
  exhausted _ := rfl
  failed _ _ _ := rfl
  store line act m := by
    unfold onStore
    cases run : act m.store <;> simp only [run] <;> exact aside.store m _
  print native line text := leaves_write aside _ _
  input _ _ := leaves_bind _ _ (leaves_flush _) fun _ => leaves_bind _ _ (leaves_source aside _ _) fun _ _ => rfl
  flushed := leaves_flush _
  inside env p inner m := by
    have before := (inner { m with env }).trans (aside.env m env)
    unfold within
    cases run : p { m with env } <;> rw [run] at before <;> exact (aside.env _ _).trans before

theorem interpret_leaves (aside : Machine.Aside view) (steps : Nat) (program : Program) :
    Leaves view (Regime.standard.interpret steps program) :=
  throughout_interpret (throughout_standard (leaves aside)) steps program

end Steps

section Output

variable {α β : Type}

def Appends (p : Eval α) : Prop :=
  ∀ m, ∃ octets, (endState (p m)).sink.written = m.sink.written ++ octets

theorem appends_none {p : Eval α} (kept : ∀ m, (endState (p m)).sink = m.sink) : Appends p := by
  intro m
  rw [kept m]
  exact ⟨.empty, ByteArray.append_empty.symm⟩

theorem appends_bind (p : Eval α) (f : α → Eval β) (first : Appends p) (rest : ∀ a, Appends (f a)) : Appends (p >>= f) := by
  intro m
  obtain ⟨octets, written⟩ := first m
  cases run : p m with
  | ok a next =>
      obtain ⟨more, behind⟩ := rest a next
      rw [run] at written
      rw [bind_ok f run]
      exact ⟨octets ++ more, by rw [behind, show next.sink.written = _ from written, ByteArray.append_assoc]⟩
  | error halt next =>
      rw [run] at written
      rw [bind_error f run]
      exact ⟨octets, written⟩

theorem appends_write (report : StreamError → Error) (text : String) : Appends (onSink report (Sink.write text)) := by
  intro m
  unfold onSink Sink.write
  dsimp only
  by_cases fits : m.sink.room text.toUTF8.size = text.toUTF8.size
  · simp only [fits, if_true]
    exact ⟨_, rfl⟩
  · simp only [fits, if_false]
    exact ⟨_, rfl⟩

theorem appends_flush (report : StreamError → Error) : Appends (onSink report Sink.flush) := by
  refine appends_none fun m => ?_
  unfold onSink Sink.flush
  dsimp only
  cases refuses : m.sink.refusesFlush <;> rfl

theorem appends_source (report : StreamError → Error) (act : EStateM StreamError Source α) : Appends (onSource report act) := by
  refine appends_none fun m => ?_
  unfold onSource
  cases act m.source <;> rfl

theorem appends : Throughout Appends where
  done _ := appends_none fun _ => rfl
  follow := appends_bind
  env := appends_none fun _ => rfl
  distance _ := appends_none fun _ => rfl
  exhausted := appends_none fun _ => rfl
  failed _ _ := appends_none fun _ => rfl
  store line act := by
    refine appends_none fun m => ?_
    unfold onStore
    cases run : act m.store <;> simp only [run] <;> rfl
  print native line text := appends_write _ _
  input _ _ := appends_bind _ _ (appends_flush _) fun _ => appends_bind _ _ (appends_source _ _) fun _ => appends_none fun _ => rfl
  flushed := appends_flush _
  inside env p inner m := by
    obtain ⟨octets, written⟩ := inner { m with env }
    unfold within
    cases run : p { m with env } <;> rw [run] at written <;> exact ⟨octets, written⟩

theorem interpret_appends (steps : Nat) (program : Program) : Appends (Regime.standard.interpret steps program) :=
  throughout_interpret (throughout_standard appends) steps program

end Output

theorem distances_aside : Machine.Aside Machine.distances :=
  ⟨fun _ _ => rfl, fun _ _ => rfl, fun _ _ => rfl, fun _ _ => rfl⟩

def Sink.manner (sink : Sink) : Option Nat × Bool :=
  (sink.limit, sink.refusesFlush)

theorem manner_aside : Machine.Aside fun m => m.sink.manner :=
  ⟨fun _ _ => rfl, fun _ _ => rfl, fun _ _ => rfl, fun _ _ => rfl⟩

end TreeWalk
