import TreeWalk.Proofs.Grammar
import TreeWalk.Proofs.Runs

set_option autoImplicit false

namespace TreeWalk

open Grammar

def Expr.Assignable : Expr → Prop
  | .ident .. | .get .. => True
  | _ => False

namespace Grammar

def aSymbol (symbol : Symbol) : SymbolToken symbol :=
  ⟨⟨.symbol symbol, symbol.text, 0⟩, rfl⟩

def aName : NameToken :=
  ⟨⟨.identifier, "x", 0⟩, rfl⟩

def Untargeted (ts : List Token) : Prop :=
  ∃ outer inner target, ts = outer ++ inner ∧ Derives (.operation precedence) inner target ∧ ¬ target.Assignable

theorem untargeted_append {more : List Token} (ts : List Token) (untargeted : Untargeted more) :
    Untargeted (ts ++ more) := by
  obtain ⟨outer, inner, target, rfl, derives, not⟩ := untargeted
  exact ⟨ts ++ outer, inner, target, (List.append_assoc _ _ _).symm, derives, not⟩

end Grammar

def Cursor.Ended (c : Cursor) : Prop :=
  ∃ token ∈ c.rest, token.kind.isFinish = true

namespace Parser

variable {α β : Type}

def valueStop (equals : Token) : EStateM.Result Stop Cursor Expr → Stop
  | .ok _ _ => .refused (.ofToken equals .assignmentTarget)
  | .error stop _ => stop

inductive Fault (taken : List Token) (token : Token) (after : List Token) :
    Stop → (Nat → List Token → Stop) → Prop where
  | here (expected : Expectation) :
      Fault taken token after (.refused (.ofToken token expected)) fun _ _ => .refused (.ofToken token expected)
  | target (steps id : Nat) (equal : token.kind = .symbol .equal) (untargeted : Untargeted taken) :
      Fault taken token after (valueStop token (expression steps ⟨after, id⟩)) fun more other =>
        valueStop token (expression (more + steps) ⟨other, id⟩)

def Passes (c : Cursor) (q : Nat → Parser α) (good : List Token → α → Prop) (a : α) (next : Cursor) : Prop :=
  ∃ taken token after, c.rest = taken ++ token :: after ∧ next.rest = token :: after ∧
    (∀ token ∈ taken, token.kind.isFinish = false) ∧ good taken a ∧
      ∀ more other, q more ⟨taken ++ token :: other, c.nextId⟩ = .ok a ⟨token :: other, next.nextId⟩

def Refuses (before : List Token) (c : Cursor) (q : Nat → Parser α) (good : List Token → α → Prop)
    (stop : Stop) : Prop :=
  ∃ taken token after reason, c.rest = taken ++ token :: after ∧ (∀ token ∈ taken, token.kind.isFinish = false) ∧
    (∃ ts a, good (taken ++ ts) a) ∧ Fault (before ++ taken) token after stop reason ∧
      ∀ more other, ∃ next, q more ⟨taken ++ token :: other, c.nextId⟩ = .error (reason more other) next

structure ReadsBehind (before : List Token) (c : Cursor) (p : Parser α) (q : Nat → Parser α)
    (good : List Token → α → Prop) : Prop where
  some : ∃ ts a, good ts a
  run : c.Ended → Ends p c (Passes c q good) fun stop _ => stop = .exhausted ∨ Refuses before c q good stop

def Reads (c : Cursor) (p : Parser α) (q : Nat → Parser α) (good : List Token → α → Prop) : Prop :=
  ReadsBehind [] c p q good

section Rules

variable {c : Cursor} {p : Parser α} {q : Nat → Parser α} {good : List Token → α → Prop}
  {result : List Token → β → Prop}

theorem reads_behind (before : List Token) (reads : Reads c p q good) : ReadsBehind before c p q good := by
  refine ⟨reads.some, fun ended => ?_⟩
  apply ends_mono _ _ _ _ _ _ (reads.run ended) fun _ _ passes => passes
  rintro stop _ (rfl | ⟨taken, token, after, reason, tokens, plain, some, fault, same⟩)
  · exact .inl rfl
  · refine .inr ⟨taken, token, after, reason, tokens, plain, some, ?_, same⟩
    cases fault with
    | here expected => exact .here expected
    | target steps id equal untargeted => exact .target steps id equal (untargeted_append before untargeted)

theorem ended_cons (ended : c.Ended) : ∃ token after, c.rest = token :: after := by
  obtain ⟨token, member, _⟩ := ended
  exact List.exists_cons_of_ne_nil (List.ne_nil_of_mem member)

theorem ended_behind {next : Cursor} {taken : List Token} (ended : c.Ended) (tokens : c.rest = taken ++ next.rest)
    (plain : ∀ token ∈ taken, token.kind.isFinish = false) : next.Ended := by
  obtain ⟨last, member, finish⟩ := ended
  rw [tokens, List.mem_append] at member
  rcases member with inside | behind
  · rw [plain last inside] at finish
    cases finish
  · exact ⟨last, behind, finish⟩

theorem reads_pure (c : Cursor) (a : α) (good : List Token → α → Prop) (here : good [] a) :
    Reads c (pure a) (fun _ => pure a) good := by
  refine ⟨⟨[], a, here⟩, fun ended => ?_⟩
  obtain ⟨token, after, tokens⟩ := ended_cons ended
  exact ⟨[], token, after, tokens, tokens, by simp, here, fun _ _ => rfl⟩

theorem reads_exhausted (c : Cursor) (q : Nat → Parser α) (good : List Token → α → Prop)
    (some : ∃ ts a, good ts a) :
    Reads c (throw .exhausted) q good :=
  ⟨some, fun _ => .inl rfl⟩

theorem reads_refuse (c : Cursor) (expected : Expectation) (good : List Token → α → Prop) (some : ∃ ts a, good ts a) :
    Reads c (refuse c.peek expected) (fun _ => refuse c.peek expected) good := by
  refine ⟨some, fun ended => .inr ?_⟩
  obtain ⟨token, after, tokens⟩ := ended_cons ended
  have peeked : c.peek = token := by simp [Cursor.peek, tokens]
  rw [peeked]
  exact ⟨[], token, after, _, tokens, by simp, some, .here expected, fun _ _ => ⟨_, rfl⟩⟩

theorem reads_bind_behind {before : List Token} {f : α → Parser β} {g : Nat → α → Parser β}
    (mid : List Token → α → Prop) (first : ReadsBehind before c p q mid)
    (rest : ∀ next taken a, mid taken a →
      ReadsBehind (before ++ taken) next (f a) (g · a) fun ts => result (taken ++ ts)) :
    ReadsBehind before c (p >>= f) (fun k => q k >>= g k) result := by
  -- Whatever the first part has taken, the second one can go on from there.
  have completed : ∀ taken, (∃ us a, mid (taken ++ us) a) → ∃ us b, result (taken ++ us) b := by
    rintro taken ⟨us, a, middle⟩
    obtain ⟨ts, b, here⟩ := (rest c _ a middle).some
    exact ⟨us ++ ts, b, by rwa [← List.append_assoc]⟩
  refine ⟨completed [] first.some, fun ended => ?_⟩
  apply ends_bind p f c (Passes c q mid)
  · apply ends_mono _ _ _ _ _ _ (first.run ended) fun _ _ passes => passes
    rintro stop _ (rfl | ⟨taken, token, after, reason, tokens, plain, some, fault, same⟩)
    · exact .inl rfl
    · refine .inr ⟨taken, token, after, reason, tokens, plain, completed taken some, fault, fun more other => ?_⟩
      obtain ⟨next, run⟩ := same more other
      exact ⟨next, bind_error (g more) run⟩
  · rintro a next ⟨taken, token, after, tokens, left, plain, middle, same⟩
    have behind : c.rest = taken ++ next.rest := by rw [tokens, left]
    -- The first part has seen at most the first token of the second one.
    have ahead : ∀ ts first behind, next.rest = ts ++ first :: behind → ∀ more other,
        q more ⟨taken ++ (ts ++ first :: other), c.nextId⟩ = .ok a ⟨ts ++ first :: other, next.nextId⟩ := by
      intro ts first behind split more other
      rw [left] at split
      cases ts with
      | nil =>
          obtain ⟨rfl, -⟩ := List.cons.inj split
          exact same more other
      | cons one ts =>
          obtain ⟨rfl, -⟩ := List.cons.inj split
          exact same more (ts ++ first :: other)
    apply ends_mono _ _ _ _ _ _ ((rest next taken a middle).run (ended_behind ended behind plain))
    · rintro b last ⟨ts, first, rear, split, final, inner, here, further⟩
      refine ⟨taken ++ ts, first, rear, by rw [behind, split, List.append_assoc], final,
        List.forall_mem_append.mpr ⟨plain, inner⟩, here, fun more other => ?_⟩
      rw [List.append_assoc]
      exact (bind_ok (g more) (ahead ts first rear split more other)).trans (further more other)
    · rintro stop last (rfl | ⟨ts, first, rear, reason, split, inner, ⟨us, b, here⟩, fault, further⟩)
      · exact .inl rfl
      · refine .inr ⟨taken ++ ts, first, rear, reason, by rw [behind, split, List.append_assoc],
          List.forall_mem_append.mpr ⟨plain, inner⟩, ⟨us, b, by rwa [List.append_assoc]⟩, by rwa [← List.append_assoc],
          fun more other => ?_⟩
        obtain ⟨stopped, run⟩ := further more other
        rw [List.append_assoc]
        exact ⟨stopped, (bind_ok (g more) (ahead ts first rear split more other)).trans run⟩

theorem reads_bind {f : α → Parser β} {g : Nat → α → Parser β} (mid : List Token → α → Prop)
    (first : Reads c p q mid)
    (rest : ∀ next taken a, mid taken a → Reads next (f a) (g · a) fun ts => result (taken ++ ts)) :
    Reads c (p >>= f) (fun k => q k >>= g k) result :=
  reads_bind_behind mid first fun next taken a middle => reads_behind taken (rest next taken a middle)

theorem reads_mono {strong weak : List Token → α → Prop} (reads : Reads c p q strong)
    (weaker : ∀ ts a, strong ts a → weak ts a) : Reads c p q weak := by
  obtain ⟨⟨ts, a, here⟩, run⟩ := reads
  refine ⟨⟨ts, a, weaker ts a here⟩, fun ended => ?_⟩
  apply ends_mono _ _ _ _ _ _ (run ended)
  · exact fun a _ ⟨taken, token, after, tokens, left, plain, here, same⟩ =>
      ⟨taken, token, after, tokens, left, plain, weaker taken a here, same⟩
  · rintro stop _ (rfl | ⟨taken, token, after, reason, tokens, plain, ⟨us, a, here⟩, fault, same⟩)
    · exact .inl rfl
    · exact .inr ⟨taken, token, after, reason, tokens, plain, ⟨us, a, weaker _ a here⟩, fault, same⟩

theorem reads_map {f : α → β} (reads : Reads c p q fun ts a => result ts (f a)) :
    Reads c (p >>= fun a => pure (f a)) (fun k => q k >>= fun a => pure (f a)) result :=
  reads_bind _ reads fun next taken a here => reads_pure next _ _ (by rwa [List.append_nil])

theorem reads_congr {p' : Parser α} {q' : Nat → Parser α} (reads : Reads c p' q' good)
    (left : p c = p' c)
    (right : ∀ more taken token after other, c.rest = taken ++ token :: after →
      q more ⟨taken ++ token :: other, c.nextId⟩ = q' more ⟨taken ++ token :: other, c.nextId⟩) :
    Reads c p q good := by
  refine ⟨reads.some, fun ended => ?_⟩
  apply ends_congr left
  apply ends_mono _ _ _ _ _ _ (reads.run ended)
  · exact fun a _ ⟨taken, token, after, tokens, behind, plain, here, run⟩ =>
      ⟨taken, token, after, tokens, behind, plain, here, fun more other =>
        (right more taken token after other tokens).trans (run more other)⟩
  · rintro stop _ (rfl | ⟨taken, token, after, reason, tokens, plain, some, fault, run⟩)
    · exact .inl rfl
    · refine .inr ⟨taken, token, after, reason, tokens, plain, some, fault, fun more other => ?_⟩
      rw [right more taken token after other tokens]
      exact run more other

theorem peek_seen {taken after : List Token} {token : Token} (tokens : c.rest = taken ++ token :: after)
    (other : List Token) (id : Nat) : Cursor.peek ⟨taken ++ token :: other, id⟩ = c.peek := by
  cases taken <;> simp [Cursor.peek, tokens]

theorem reads_peek {f : Token → Parser α} {g : Nat → Token → Parser α}
    (rest : Reads c (f c.peek) (g · c.peek) good) : Reads c (peek >>= f) (fun k => peek >>= g k) good := by
  refine reads_congr rest rfl fun _ taken token after other tokens => ?_
  rw [← peek_seen tokens other c.nextId]
  rfl

theorem reads_get {f : Cursor → Parser α} {g : Nat → Cursor → Parser α}
    (same : ∀ more (d : Cursor), d.nextId = c.nextId → g more d = g more c) (rest : Reads c (f c) (g · c) good) :
    Reads c (get >>= f) (fun k => get >>= g k) good :=
  reads_congr rest rfl fun more taken token _ other _ =>
    congrFun (same more ⟨taken ++ token :: other, c.nextId⟩ rfl) _

theorem reads_mark (line : Nat) {f : Mark → Parser α} {g : Nat → Mark → Parser α}
    (rest : ∀ given next, Reads next (f given) (g · given) good) :
    Reads c (mark line >>= f) (fun k => mark line >>= g k) good := by
  refine reads_bind (fun ts _ => ts = []) ⟨⟨[], ⟨0, 0⟩, rfl⟩, fun ended => ?_⟩
    fun next _ given none => none ▸ rest given next
  obtain ⟨token, after, tokens⟩ := ended_cons ended
  exact ⟨[], token, after, tokens, tokens, by simp, rfl, fun _ _ => rfl⟩

theorem reads_advance {kind : TokenKind} (here : c.peek.kind = kind) (more : kind.isFinish = false)
    (rest : ∀ next, Reads next p q fun ts => good (c.peek :: ts)) :
    Reads c (do advance; p) (fun k => do advance; q k) good := by
  refine reads_bind (fun ts _ => ts = [c.peek]) ⟨⟨[c.peek], ⟨⟩, rfl⟩, fun ended => ?_⟩
    fun next _ _ one => one ▸ rest next
  obtain ⟨first, behind, tokens⟩ := ended_cons ended
  have peeked : c.peek = first := by simp [Cursor.peek, tokens]
  have going : ∀ token ∈ [first], token.kind.isFinish = false := by simpa [← peeked, here] using more
  have step : ∀ ts, advance ⟨first :: ts, c.nextId⟩ = .ok ⟨⟩ ⟨ts, c.nextId⟩ := by
    intro ts
    show EStateM.Result.ok _ (Cursor.advance _) = _
    simp [Cursor.advance, Cursor.peek, going first]
  have last : Cursor.Ended ⟨behind, c.nextId⟩ := ended_behind ended tokens going
  obtain ⟨token, after, rfl⟩ := ended_cons last
  have run : advance c = .ok ⟨⟩ ⟨token :: after, c.nextId⟩ := by
    have whole : c = ⟨c.rest, c.nextId⟩ := rfl
    rw [whole, tokens]
    exact step _
  unfold Ends
  rw [run]
  exact ⟨[first], token, after, tokens, rfl, going, by rw [peeked], fun _ _ => step _⟩

theorem symbol_kind {kind : TokenKind} {symbol : Symbol} : kind.isSymbol symbol = true ↔ kind = .symbol symbol := by
  cases kind <;> simp [TokenKind.isSymbol]

theorem keyword_kind {kind : TokenKind} {keyword : Keyword} : kind.isKeyword keyword = true ↔ kind = .keyword keyword := by
  cases kind <;> simp [TokenKind.isKeyword]

theorem reads_symbol (symbol : Symbol) (expected : Expectation) {f : Nat → Parser α} {g : Nat → Nat → Parser α}
    (rest : ∀ (token : SymbolToken symbol) line next, Reads next (f line) (g · line) fun ts => good (token.1 :: ts)) :
    Reads c (expectSymbol symbol expected >>= f) (fun k => expectSymbol symbol expected >>= g k) good := by
  refine reads_bind (fun ts _ => ∃ token : SymbolToken symbol, ts = [token.1]) ?_
    fun next _ line ⟨token, one⟩ => one ▸ rest token line next
  apply reads_peek
  split
  · rename_i here
    have kind := symbol_kind.mp here
    exact reads_advance kind rfl fun next => reads_pure next _ _ ⟨⟨c.peek, kind⟩, rfl⟩
  · exact reads_refuse c expected _ ⟨_, 0, aSymbol symbol, rfl⟩

theorem reads_name (expected : Expectation) {f : Name → Parser α} {g : Nat → Name → Parser α}
    (rest : ∀ (token : NameToken) name next, name.rename .blank = token.name →
      Reads next (f name) (g · name) fun ts => good (token.1 :: ts)) :
    Reads c (expectName expected >>= f) (fun k => expectName expected >>= g k) good := by
  refine reads_bind (fun ts name => ∃ token : NameToken, ts = [token.1] ∧ name.rename .blank = token.name) ?_
    fun next _ name ⟨token, one, same⟩ => one ▸ rest token name next same
  apply reads_peek
  split
  · rename_i kind
    exact reads_advance kind rfl fun next => reads_pure next _ _ ⟨⟨c.peek, kind⟩, rfl, rfl⟩
  · exact reads_refuse c expected _ ⟨_, aName.name, aName, rfl, rfl⟩

theorem reads_accept (is : TokenKind → Bool) {f : Bool → Parser α} {g : Nat → Bool → Parser α}
    (more : is c.peek.kind = true → c.peek.kind.isFinish = false)
    (yes : is c.peek.kind = true → ∀ next, Reads next (f true) (g · true) fun ts => good (c.peek :: ts))
    (no : ∀ next, Reads next (f false) (g · false) good) :
    let accept : Parser Bool := do if is (← peek).kind then advance; return true else return false
    Reads c (accept >>= f) (fun k => accept >>= g k) good := by
  refine reads_bind (fun ts accepted =>
    (accepted = true ∧ is c.peek.kind = true ∧ ts = [c.peek]) ∨ (accepted = false ∧ ts = [])) ?_ ?_
  · apply reads_peek
    split
    · rename_i here
      exact reads_advance rfl (more here) fun next => reads_pure next _ _ (.inl ⟨rfl, here, rfl⟩)
    · exact reads_pure c _ _ (.inr ⟨rfl, rfl⟩)
  · rintro next _ _ (⟨rfl, here, rfl⟩ | ⟨rfl, rfl⟩)
    · exact yes here next
    · exact no next

theorem reads_accept_symbol (symbol : Symbol) {f : Bool → Parser α} {g : Nat → Bool → Parser α}
    (yes : ∀ (token : SymbolToken symbol) next, Reads next (f true) (g · true) fun ts => good (token.1 :: ts))
    (no : ∀ next, Reads next (f false) (g · false) good) :
    Reads c (acceptSymbol symbol >>= f) (fun k => acceptSymbol symbol >>= g k) good :=
  reads_accept (·.isSymbol symbol) (fun is => by rw [symbol_kind.mp is]; rfl)
    (fun is => yes ⟨c.peek, symbol_kind.mp is⟩) no

theorem reads_accept_keyword (keyword : Keyword) {f : Bool → Parser α} {g : Nat → Bool → Parser α}
    (yes : ∀ (token : KeywordToken keyword) next, Reads next (f true) (g · true) fun ts => good (token.1 :: ts))
    (no : ∀ next, Reads next (f false) (g · false) good) :
    Reads c (acceptKeyword keyword >>= f) (fun k => acceptKeyword keyword >>= g k) good :=
  reads_accept (·.isKeyword keyword) (fun is => by rw [keyword_kind.mp is]; rfl)
    (fun is => yes ⟨c.peek, keyword_kind.mp is⟩) no

end Rules

end Parser

end TreeWalk
