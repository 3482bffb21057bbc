import TreeWalk.Proofs.Careful

set_option autoImplicit false

namespace TreeWalk

namespace Parser

variable {α : Type}

def Lasts (c : Cursor) (p : Parser α) (bound : Nat) : Prop :=
  Ends p c (fun _ next => next.rest.length < bound) fun stop _ => stop ≠ .exhausted

theorem careful_lasts {n limit fewer : Nat} {s : Script α} {c : Cursor} (careful : s.Careful limit fewer c)
    (rules : ∀ (task : Task) (c : Cursor), task.Proper → 16 * c.rest.length + task.rank < limit →
      Lasts c (task.read n) (c.rest.length + task.spare)) : Lasts c (s.play n) fewer := by
  induction s generalizing c with
  | done a => exact careful
  | refused token expected => exact nofun
  | looks next ih => exact ih _ careful
  | advances next ih => exact ih careful
  | counts next ih => exact ih _ careful
  | marks line next ih => exact ih _ careful
  | calls task next ih =>
      obtain ⟨proper, below, behind⟩ := careful
      exact ends_bind _ _ _ _ _ _ (rules task c proper below) fun answer after less =>
        ih answer (behind answer after less)

theorem rank_pos (task : Task) : 0 < task.rank := by
  cases task <;> simp [Task.rank]

theorem read_lasts (n : Nat) (task : Task) (proper : task.Proper) (c : Cursor)
    (enough : 16 * c.rest.length + task.rank ≤ n) : Lasts c (task.read n) (c.rest.length + task.spare) := by
  induction n generalizing task c with
  | zero =>
      have some := rank_pos task
      omega
  | succ n ih =>
      rw [← Script.play_script]
      exact careful_lasts (script_careful task proper c) fun called c proper below => ih called proper c (by omega)

theorem program_never_exhausted {n firstId : Nat} {tokens : List Token} (enough : stepBound tokens ≤ n) (next : Cursor) :
    program n ⟨tokens, firstId⟩ ≠ .error .exhausted next := by
  intro run
  have bound : 16 * tokens.length + 12 ≤ n := by
    unfold stepBound at enough
    omega
  exact ends_error _ _ _ _ _ _ (read_lasts n .program trivial ⟨tokens, firstId⟩ bound) run rfl

end Parser

end TreeWalk
