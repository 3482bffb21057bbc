set_option autoImplicit false

namespace TreeWalk

section Steps

variable {ε σ α β : Type}

theorem get_run (s : σ) : (get : EStateM ε σ σ) s = .ok s s :=
  rfl

theorem get_the_run (s : σ) : (getThe σ : EStateM ε σ σ) s = .ok s s :=
  rfl

theorem set_run (s t : σ) : (set t : EStateM ε σ PUnit) s = .ok ⟨⟩ t :=
  rfl

theorem modify_run (f : σ → σ) (s : σ) : (modify f : EStateM ε σ PUnit) s = .ok ⟨⟩ (f s) :=
  rfl

theorem throw_run (e : ε) (s : σ) : (throw e : EStateM ε σ α) s = .error e s :=
  rfl

theorem bind_ok {p : EStateM ε σ α} {s t : σ} {a : α} (f : α → EStateM ε σ β) (run : p s = .ok a t) :
    (p >>= f) s = f a t := by
  simp only [bind, EStateM.bind, run]

theorem bind_error {p : EStateM ε σ α} {s t : σ} {e : ε} (f : α → EStateM ε σ β) (run : p s = .error e t) :
    (p >>= f) s = .error e t := by
  simp only [bind, EStateM.bind, run]

end Steps

section Ends

variable {ε σ α β : Type}

def Ends (p : EStateM ε σ α) (s : σ) (done : α → σ → Prop) (stopped : ε → σ → Prop) : Prop :=
  match p s with
  | .ok a t => done a t
  | .error e t => stopped e t

theorem ends_pure (a : α) (s : σ) (done : α → σ → Prop) (stopped : ε → σ → Prop) (here : done a s) :
    Ends (pure a) s done stopped :=
  here

theorem ends_get (f : σ → EStateM ε σ α) (s : σ) (done : α → σ → Prop) (stopped : ε → σ → Prop)
    (rest : Ends (f s) s done stopped) : Ends (get >>= f) s done stopped :=
  rest

theorem ends_bind (p : EStateM ε σ α) (f : α → EStateM ε σ β) (s : σ) (mid : α → σ → Prop)
    (done : β → σ → Prop) (stopped : ε → σ → Prop) (first : Ends p s mid stopped)
    (rest : ∀ a t, mid a t → Ends (f a) t done stopped) : Ends (p >>= f) s done stopped := by
  unfold Ends at first ⊢
  cases run : p s with
  | ok a t =>
      rw [run] at first
      rw [bind_ok f run]
      exact rest a t first
  | error e t =>
      rw [run] at first
      rw [bind_error f run]
      exact first

theorem ends_mono (p : EStateM ε σ α) (s : σ) (done weak : α → σ → Prop) (stopped halted : ε → σ → Prop)
    (ended : Ends p s done stopped) (weaker : ∀ a t, done a t → weak a t)
    (failing : ∀ e t, stopped e t → halted e t) : Ends p s weak halted := by
  unfold Ends at ended ⊢
  cases run : p s with
  | ok a t => rw [run] at ended; exact weaker a t ended
  | error e t => rw [run] at ended; exact failing e t ended

theorem ends_and {p : EStateM ε σ α} {s : σ} {done also : α → σ → Prop} {stopped halted : ε → σ → Prop}
    (ended : Ends p s done stopped) (too : Ends p s also halted) :
    Ends p s (fun a t => done a t ∧ also a t) fun e t => stopped e t ∧ halted e t := by
  unfold Ends at ended too ⊢
  cases run : p s with
  | ok a t => rw [run] at ended too; exact ⟨ended, too⟩
  | error e t => rw [run] at ended too; exact ⟨ended, too⟩

theorem ends_congr {p q : EStateM ε σ α} {s : σ} {done : α → σ → Prop} {stopped : ε → σ → Prop} (same : p s = q s)
    (ended : Ends q s done stopped) : Ends p s done stopped := by
  unfold Ends at *
  rwa [same]

theorem ends_ok (p : EStateM ε σ α) (s t : σ) (a : α) (done : α → σ → Prop) (stopped : ε → σ → Prop)
    (ended : Ends p s done stopped) (run : p s = .ok a t) : done a t := by
  unfold Ends at ended
  rwa [run] at ended

theorem ends_error (p : EStateM ε σ α) (s t : σ) (e : ε) (done : α → σ → Prop) (stopped : ε → σ → Prop)
    (ended : Ends p s done stopped) (run : p s = .error e t) : stopped e t := by
  unfold Ends at ended
  rwa [run] at ended

end Ends

section Matched

variable {ε ζ σ τ α β γ δ : Type}

inductive Agree (states : σ → τ → Prop) (errors : ε → ζ → Prop) (values : α → β → Prop) :
    EStateM.Result ε σ α → EStateM.Result ζ τ β → Prop where
  | ok (a : α) (b : β) (s : σ) (t : τ) (value : values a b) (state : states s t) :
      Agree states errors values (.ok a s) (.ok b t)
  | error (e : ε) (f : ζ) (s : σ) (t : τ) (failure : errors e f) (state : states s t) :
      Agree states errors values (.error e s) (.error f t)

theorem agree_cases (states : σ → τ → Prop) (errors : ε → ζ → Prop) (values : α → β → Prop)
    (left : EStateM.Result ε σ α) (right : EStateM.Result ζ τ β) (agree : Agree states errors values left right) :
    (∃ a b s t, left = .ok a s ∧ right = .ok b t ∧ values a b ∧ states s t) ∨
      ∃ e f s t, left = .error e s ∧ right = .error f t ∧ errors e f ∧ states s t := by
  cases agree with
  | ok a b s t value state => exact .inl ⟨a, b, s, t, rfl, rfl, value, state⟩
  | error e f s t failure state => exact .inr ⟨e, f, s, t, rfl, rfl, failure, state⟩

theorem agree_if (states : σ → τ → Prop) (errors : ε → ζ → Prop) (values : α → β → Prop) (condition : Prop)
    [Decidable condition] {p p' : EStateM ε σ α} {q q' : EStateM ζ τ β} {s : σ} {t : τ}
    (yes : condition → Agree states errors values (p s) (q t))
    (no : ¬ condition → Agree states errors values (p' s) (q' t)) :
    Agree states errors values ((if condition then p else p') s) ((if condition then q else q') t) := by
  by_cases holds : condition
  · simpa only [holds, if_true] using yes holds
  · simpa only [holds, if_false] using no holds

def Matched (states : σ → τ → Prop) (errors : ε → ζ → Prop) (values : α → β → Prop)
    (p : EStateM ε σ α) (q : EStateM ζ τ β) : Prop :=
  ∀ s t, states s t → Agree states errors values (p s) (q t)

theorem matched_pure (states : σ → τ → Prop) (errors : ε → ζ → Prop) (values : α → β → Prop)
    (a : α) (b : β) (value : values a b) : Matched states errors values (pure a) (pure b) :=
  fun s t state => .ok a b s t value state

theorem matched_throw (states : σ → τ → Prop) (errors : ε → ζ → Prop) (values : α → β → Prop)
    (e : ε) (f : ζ) (failure : errors e f) :
    Matched states errors values (throw e : EStateM ε σ α) (throw f : EStateM ζ τ β) :=
  fun s t state => .error e f s t failure state

theorem matched_bind (states : σ → τ → Prop) (errors : ε → ζ → Prop) (values : α → β → Prop)
    (results : γ → δ → Prop) (p : EStateM ε σ α) (q : EStateM ζ τ β)
    (f : α → EStateM ε σ γ) (g : β → EStateM ζ τ δ) (first : Matched states errors values p q)
    (rest : ∀ a b, values a b → Matched states errors results (f a) (g b)) :
    Matched states errors results (p >>= f) (q >>= g) := by
  intro s t state
  rcases agree_cases _ _ _ _ _ (first s t state) with
    ⟨a, b, s', t', left, right, value, next⟩ | ⟨_, _, s', t', left, right, failure, next⟩
  · rw [bind_ok f left, bind_ok g right]
    exact rest a b value s' t' next
  · rw [bind_error f left, bind_error g right]
    exact .error _ _ s' t' failure next

end Matched

end TreeWalk
