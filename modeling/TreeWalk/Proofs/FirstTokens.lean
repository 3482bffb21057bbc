import TreeWalk.Proofs.Derived
import TreeWalk.Proofs.Origins
import TreeWalk.Proofs.Recognized

set_option autoImplicit false

namespace TreeWalk

open Grammar Sourced

-- The tokens are those of the tree, and its expressions have the lines of their tokens.
def Placed (ts : List Token) (tree : Tree) : Prop :=
  ∃ sourced, Spells ts tree sourced ∧ ∀ one ∈ sourced, one.Lined

abbrev PlacedExpr (ts : List Token) (e : Expr) : Prop :=
  Placed ts (.expression e)

def StartsOn (ts : List Token) (line : Nat) : Prop :=
  ∃ token, ts.head? = some token ∧ line = token.line

section Parts

variable {ts us vs : List Token} {tree other whole : Tree} {e : Expr} {sourced more : List Sourced}

theorem lined_append (left : ∀ one ∈ sourced, one.Lined) (right : ∀ one ∈ more, one.Lined) :
    ∀ one ∈ sourced ++ more, one.Lined :=
  List.forall_mem_append.mpr ⟨left, right⟩

theorem placed_plain (spells : Spells ts tree []) : Placed ts tree :=
  ⟨[], spells, nofun⟩

theorem placed_as (spelled : ∀ {ps}, Spells ts tree ps → Spells us other ps) : Placed ts tree → Placed us other
  | ⟨ps, spells, lined⟩ => ⟨ps, spelled spells, lined⟩

theorem placed_both (spelled : ∀ {ps qs}, Spells ts tree ps → Spells us other qs → Spells vs whole (ps ++ qs)) :
    Placed ts tree → Placed us other → Placed vs whole
  | ⟨_, spells, lined⟩, ⟨_, others, more⟩ => ⟨_, spelled spells others, lined_append lined more⟩

theorem placed_starts (placed : PlacedExpr ts e) (us : List Token) : StartsOn (ts ++ us) e.line := by
  obtain ⟨sourced, spells, lined⟩ := placed
  obtain ⟨filled, below, rfl⟩ := spells_root spells
  obtain ⟨token, first, same⟩ := lined ⟨e, .span ts⟩ (by simp [above])
  exact ⟨token, by rw [List.head?_append, show ts.head? = some token from first]; rfl, same⟩

theorem placed_above (spells : Spells ts (.expression e) (above ts e sourced)) (starts : StartsOn ts e.line)
    (parts : ∀ one ∈ sourced, one.Lined) : PlacedExpr ts e :=
  ⟨_, spells, List.forall_mem_cons.mpr ⟨starts, parts⟩⟩

theorem placed_grouping {given : Mark} (opened : SymbolToken .leftParen) (closed : SymbolToken .rightParen)
    (line : given.line = opened.1.line) : PlacedExpr ts e →
      PlacedExpr (opened.1 :: (ts ++ [closed.1])) (.grouping given e)
  | ⟨_, spells, lined⟩ => placed_above (.grouping given opened closed spells) ⟨opened.1, rfl, line⟩ lined

theorem placed_unary {given : Mark} {operator : Token} (one : operator.kind ∈ prefixes)
    (line : given.line = operator.line) : PlacedExpr ts e → PlacedExpr (operator :: ts) (.unary given operator e)
  | ⟨_, spells, lined⟩ => placed_above (.unary given operator one spells) ⟨operator, rfl, line⟩ lined

theorem placed_operation {given : Mark} (level : Parser.Level) {operator : Token}
    (one : operator.kind ∈ operators level) {left right : Expr} (line : given.line = left.line)
    (first : PlacedExpr ts left) (second : PlacedExpr us right) :
    PlacedExpr (ts ++ operator :: us) (level.node given left operator right) := by
  have starts : StartsOn (ts ++ operator :: us) given.line := line ▸ placed_starts first _
  obtain ⟨ps, spells, lined⟩ := first
  obtain ⟨qs, others, rest⟩ := second
  unfold Parser.Level.node
  split
  · rename_i logical
    exact placed_above (.logical given level logical operator one spells others) starts (lined_append lined rest)
  · rename_i plain
    exact placed_above (.binary given level (eq_false_of_ne_true plain) operator one spells others) starts
      (lined_append lined rest)

theorem placed_call {given : Mark} {list : List Expr} (opened : SymbolToken .leftParen)
    (closed : SymbolToken .rightParen) (line : given.line = e.line) (callee : PlacedExpr ts e)
    (arguments : Placed us (.arguments list)) :
    PlacedExpr (ts ++ opened.1 :: (us ++ [closed.1])) (.call given e list closed.1.line) := by
  have starts : StartsOn (ts ++ opened.1 :: (us ++ [closed.1])) given.line := line ▸ placed_starts callee _
  obtain ⟨ps, spells, lined⟩ := callee
  obtain ⟨qs, others, rest⟩ := arguments
  exact placed_above (.call given opened closed spells others) starts (lined_append lined rest)

theorem placed_get {given : Mark} (dot : SymbolToken .dot) (name : NameToken) (line : given.line = e.line)
    (object : PlacedExpr ts e) : PlacedExpr (ts ++ [dot.1, name.1]) (.get given e name.named) := by
  have starts : StartsOn (ts ++ [dot.1, name.1]) given.line := line ▸ placed_starts object _
  obtain ⟨ps, spells, lined⟩ := object
  exact placed_above (.get given dot name spells) starts lined

theorem placed_atom {token : Token} {given : Mark} (line : given.line = token.line)
    (single : Parser.atom? token given = some e) : token.kind.isFinish = false ∧ PlacedExpr [token] e := by
  have starts {given : Mark} (line : given.line = token.line) : StartsOn [token] given.line := ⟨token, rfl, line⟩
  obtain ⟨kind, lexeme, on⟩ := token
  cases kind with
  | keyword keyword =>
      cases keyword <;> cases single
      · exact ⟨rfl, placed_above (.literal _ _ rfl) (starts line) nofun⟩
      · exact ⟨rfl, placed_above (.literal _ _ rfl) (starts line) nofun⟩
      · exact ⟨rfl, placed_above (.this _ ⟨_, rfl⟩) (starts line) nofun⟩
      · exact ⟨rfl, placed_above (.literal _ _ rfl) (starts line) nofun⟩
  | identifier =>
      cases single
      exact ⟨rfl, placed_above (.ident _ ⟨_, rfl⟩) (starts line) nofun⟩
  | number | string =>
      cases single
      exact ⟨rfl, placed_above (.literal _ _ rfl) (starts line) nofun⟩
  | _ => cases single

theorem placed_assign {given mark : Mark} {name : Name} (equal : SymbolToken .equal) (line : given.line = mark.line)
    (target : PlacedExpr ts (.ident mark name)) (value : PlacedExpr us e) :
    PlacedExpr (ts ++ equal.1 :: us) (.assign given name e) := by
  have starts : StartsOn (ts ++ equal.1 :: us) given.line := line ▸ placed_starts target _
  obtain ⟨ps, spells, lined⟩ := target
  obtain ⟨qs, right, rest⟩ := value
  cases spells with
  | ident mark token => exact placed_above (.assign given token equal right) starts rest

theorem placed_set {given mark : Mark} {object : Expr} {name : Name} (equal : SymbolToken .equal)
    (line : given.line = mark.line) (target : PlacedExpr ts (.get mark object name)) (value : PlacedExpr us e) :
    PlacedExpr (ts ++ equal.1 :: us) (.set given object name e) := by
  have starts : StartsOn (ts ++ equal.1 :: us) given.line := line ▸ placed_starts target _
  obtain ⟨ps, spells, lined⟩ := target
  obtain ⟨qs, right, rest⟩ := value
  cases spells with
  | @get os _ below mark dot token owner =>
      rw [List.append_assoc] at starts ⊢
      exact placed_above (.set given dot token equal owner right) starts
        (lined_append (fun one member => lined one (List.mem_cons_of_mem _ member)) rest)

end Parts

namespace Parser

variable {α β : Type}

def Covers (c : Cursor) (p : Parser α) (good : List Token → α → Prop) : Prop :=
  Ends p c (fun a next => ∃ ts, c.rest = ts ++ next.rest ∧ good ts a) fun _ _ => True

section Rules

variable {c : Cursor} {p : Parser α} {good : List Token → α → Prop} {result : List Token → β → Prop}

theorem covers_pure (c : Cursor) (a : α) (here : good [] a) : Covers c (pure a) good :=
  ⟨[], rfl, here⟩

theorem covers_stop (c : Cursor) (stop : Stop) : Covers c (throw stop : Parser α) good :=
  trivial

theorem covers_bind {f : α → Parser β} (mid : List Token → α → Prop) (first : Covers c p mid)
    (rest : ∀ next ts a, mid ts a → Covers next (f a) fun us => result (ts ++ us)) : Covers c (p >>= f) result := by
  apply ends_bind p f c _ _ _ first
  rintro a next ⟨ts, tokens, middle⟩
  apply ends_mono _ _ _ _ _ _ (rest next ts a middle) _ fun _ _ => id
  rintro b last ⟨us, further, here⟩
  exact ⟨ts ++ us, by rw [tokens, further, List.append_assoc], here⟩

theorem covers_mono {weak : List Token → α → Prop} (covers : Covers c p good) (weaker : ∀ ts a, good ts a → weak ts a) :
    Covers c p weak :=
  ends_mono _ _ _ _ _ _ covers (fun a _ ⟨ts, tokens, here⟩ => ⟨ts, tokens, weaker ts a here⟩) fun _ _ => id

theorem covers_map {f : α → β} (covers : Covers c p fun ts a => result ts (f a)) :
    Covers c (p >>= fun a => pure (f a)) result :=
  covers_bind _ covers fun next ts a here => covers_pure next (f a) (by rwa [List.append_nil])

theorem covers_get {f : Cursor → Parser α} (rest : Covers c (f c) good) : Covers c (get >>= f) good :=
  rest

theorem covers_peek {f : Token → Parser α} (rest : Covers c (f c.peek) good) : Covers c (peek >>= f) good :=
  rest

theorem covers_mark (line : Nat) {f : Mark → Parser α}
    (rest : ∀ given next, given.line = line → Covers next (f given) good) : Covers c (mark line >>= f) good :=
  rest ⟨c.nextId, line⟩ { c with nextId := c.nextId + 1 } rfl

theorem covers_advance {kind : TokenKind} (here : c.peek.kind = kind) (more : kind.isFinish = false)
    (rest : ∀ next, Covers next p fun ts => good (c.peek :: ts)) : Covers c (do advance; p) good := by
  subst here
  obtain ⟨tokens, id⟩ := c
  cases tokens with
  | nil => cases more
  | cons token tokens =>
      have run : advance ⟨token :: tokens, id⟩ = .ok ⟨⟩ ⟨tokens, id⟩ := by
        show EStateM.Result.ok _ (Cursor.advance _) = _
        rw [Cursor.advance, more]
        rfl
      have behind := rest ⟨tokens, id⟩
      unfold Covers Ends at behind ⊢
      rw [bind_ok _ run]
      cases result : p ⟨tokens, id⟩ with
      | ok a last =>
          rw [result] at behind
          obtain ⟨ts, split, here⟩ := behind
          exact ⟨token :: ts, congrArg (token :: ·) split, here⟩
      | error stop last => trivial

theorem covers_symbol (symbol : Symbol) (expected : Expectation) {f : Nat → Parser α}
    (rest : ∀ (token : SymbolToken symbol) next, Covers next (f token.1.line) fun ts => good (token.1 :: ts)) :
    Covers c (expectSymbol symbol expected >>= f) good := by
  refine covers_bind (fun ts line => ∃ token : SymbolToken symbol, ts = [token.1] ∧ line = token.1.line) ?_ ?_
  · apply covers_peek
    split
    · rename_i here
      have kind := symbol_kind.mp here
      exact covers_advance kind rfl fun next => covers_pure next _ ⟨⟨c.peek, kind⟩, rfl, rfl⟩
    · exact covers_stop c _
  · rintro next _ _ ⟨token, rfl, rfl⟩
    exact rest token next

theorem covers_name (expected : Expectation) {f : Name → Parser α}
    (rest : ∀ (token : NameToken) next, Covers next (f token.named) fun ts => good (token.1 :: ts)) :
    Covers c (expectName expected >>= f) good := by
  refine covers_bind (fun ts name => ∃ token : NameToken, ts = [token.1] ∧ name = token.named) ?_ ?_
  · apply covers_peek
    split
    · rename_i kind
      exact covers_advance kind rfl fun next => covers_pure next _ ⟨⟨c.peek, kind⟩, rfl, rfl⟩
    · exact covers_stop c _
  · rintro next _ _ ⟨token, rfl, rfl⟩
    exact rest token next

theorem covers_accept_symbol (symbol : Symbol) {f : Bool → Parser α}
    (yes : ∀ (token : SymbolToken symbol) next, Covers next (f true) fun ts => good (token.1 :: ts))
    (no : Covers c (f false) good) : Covers c (acceptSymbol symbol >>= f) good := by
  unfold acceptSymbol
  rw [bind_assoc]
  apply covers_peek
  split
  · rename_i here
    have kind := symbol_kind.mp here
    rw [bind_assoc]
    exact covers_advance kind rfl fun next => yes ⟨c.peek, kind⟩ next
  · exact no

theorem covers_accept_keyword (keyword : Keyword) {f : Bool → Parser α}
    (yes : ∀ (token : KeywordToken keyword) next, Covers next (f true) fun ts => good (token.1 :: ts))
    (no : Covers c (f false) good) : Covers c (acceptKeyword keyword >>= f) good := by
  unfold acceptKeyword
  rw [bind_assoc]
  apply covers_peek
  split
  · rename_i here
    have kind := keyword_kind.mp here
    rw [bind_assoc]
    exact covers_advance kind rfl fun next => yes ⟨c.peek, kind⟩ next
  · exact no

end Rules

theorem covers_atom (c : Cursor) : Covers c (atom c.peek) PlacedExpr := by
  apply covers_get
  split
  · rename_i e single
    obtain ⟨more, placed⟩ := placed_atom rfl single
    exact covers_advance rfl more fun next => covers_mark _ fun _ last _ => covers_pure last e placed
  · exact covers_stop c _

theorem covers_assign_to (c : Cursor) (equal : SymbolToken .equal) (equals : Token) {ls rs : List Token}
    {target value : Expr} (left : PlacedExpr ls target) (right : PlacedExpr rs value) :
    Covers c (assignTo target equals value) fun ts => PlacedExpr (ls ++ equal.1 :: (rs ++ ts)) := by
  unfold assignTo
  split
  · refine covers_mark _ fun given next line => covers_pure next _ ?_
    rw [List.append_nil]
    exact placed_assign equal line left right
  · refine covers_mark _ fun given next line => covers_pure next _ ?_
    rw [List.append_nil]
    exact placed_set equal line left right
  · exact covers_stop c _

structure ExpressionsCovered (n : Nat) : Prop where
  expression : ∀ c, Covers c (expression n) PlacedExpr
  operation : ∀ c levels, Covers c (operation n levels) PlacedExpr
  operands : ∀ c level tighter ls left, PlacedExpr ls left →
    Covers c (operands n level tighter left) fun ts => PlacedExpr (ls ++ ts)
  unary : ∀ c, Covers c (unary n) PlacedExpr
  suffixes : ∀ c cs callee, PlacedExpr cs callee → Covers c (suffixes n callee) fun ts => PlacedExpr (cs ++ ts)
  arguments : ∀ c, Covers c (arguments n) fun ts read => ∃ us, ∃ closed : SymbolToken .rightParen,
    ts = us ++ [closed.1] ∧ read.2 = closed.1.line ∧ Placed us (.arguments read.1)
  expressions : ∀ c, Covers c (expressions n) fun ts es => ∃ e rest, es = e :: rest ∧ Placed ts (.arguments es)
  primary : ∀ c, Covers c (primary n) PlacedExpr

section Step

variable {n : Nat} (ih : ExpressionsCovered n)
include ih

theorem expression_covers (c : Cursor) : Covers c (expression (n + 1)) PlacedExpr := by
  apply covers_bind _ (ih.operation c Level.ladder)
  intro mid ls target left
  apply covers_peek
  apply covers_accept_symbol
  · intro equal next
    exact covers_bind _ (ih.expression next) fun last rs value right => covers_assign_to last equal mid.peek left right
  · exact covers_pure mid target (by rwa [List.append_nil])

theorem operation_covers (c : Cursor) (levels : List Level) : Covers c (operation (n + 1) levels) PlacedExpr := by
  cases levels with
  | nil => exact ih.unary c
  | cons level tighter =>
      exact covers_bind _ (ih.operation c tighter) fun mid taken left first =>
        ih.operands mid level tighter taken left first

theorem operands_covers (c : Cursor) (level : Level) (tighter : List Level) (ls : List Token) (left : Expr)
    (first : PlacedExpr ls left) : Covers c (operands (n + 1) level tighter left) fun ts => PlacedExpr (ls ++ ts) := by
  apply covers_peek
  split
  · rename_i holds
    have one := (holds_operator _ _).mp holds
    refine covers_advance rfl (operator_kind_plain one) fun next => ?_
    apply covers_bind _ (ih.operation next tighter)
    intro last rs right second
    refine covers_mark _ fun given final line => ?_
    have whole := placed_operation level one line first second
    refine covers_mono (ih.operands final level tighter _ _ whole) fun ts e placed => ?_
    rwa [List.append_assoc, List.cons_append] at placed
  · exact covers_pure c left (by rwa [List.append_nil])

theorem unary_covers (c : Cursor) : Covers c (unary (n + 1)) PlacedExpr := by
  apply covers_peek
  split
  · rename_i either
    rw [Bool.or_eq_true, symbol_kind, symbol_kind] at either
    have one : c.peek.kind ∈ prefixes := by simpa [prefixes] using either
    refine covers_advance rfl (prefix_kind_plain one) fun next => ?_
    apply covers_bind _ (ih.unary next)
    intro last ts right inner
    refine covers_mark _ fun given final line => covers_pure final _ ?_
    rw [List.append_nil]
    exact placed_unary one line inner
  · exact covers_bind _ (ih.primary c) fun next cs callee first => ih.suffixes next cs callee first

theorem suffixes_covers (c : Cursor) (cs : List Token) (callee : Expr) (first : PlacedExpr cs callee) :
    Covers c (suffixes (n + 1) callee) fun ts => PlacedExpr (cs ++ ts) := by
  apply covers_accept_symbol
  · intro opened next
    apply covers_bind _ (ih.arguments next)
    rintro mid _ ⟨list, _⟩ ⟨us, closed, rfl, rfl, arguments⟩
    refine covers_mark _ fun given last line => ?_
    have whole := placed_call opened closed line first arguments
    refine covers_mono (ih.suffixes last _ _ whole) fun ts e placed => ?_
    rwa [List.append_assoc, List.cons_append] at placed
  · apply covers_accept_symbol
    · intro dot next
      refine covers_name _ fun name last => covers_mark _ fun given final line => ?_
      have whole := placed_get dot name line first
      refine covers_mono (ih.suffixes final _ _ whole) fun ts e placed => ?_
      rwa [List.append_assoc] at placed
    · exact covers_pure c callee (by rwa [List.append_nil])

theorem arguments_covers (c : Cursor) : Covers c (arguments (n + 1)) fun ts read =>
    ∃ us, ∃ closed : SymbolToken .rightParen,
      ts = us ++ [closed.1] ∧ read.2 = closed.1.line ∧ Placed us (.arguments read.1) := by
  have closing : ∀ next us list, Placed us (.arguments list) →
      Covers next (do return (list, ← expectSymbol .rightParen .argumentsClose)) fun ts (read : List Expr × Nat) =>
        ∃ vs, ∃ closed : SymbolToken .rightParen,
          us ++ ts = vs ++ [closed.1] ∧ read.2 = closed.1.line ∧ Placed vs (.arguments read.1) :=
    fun next us list first => covers_symbol _ _ fun closed last => covers_pure last _ ⟨us, closed, rfl, rfl, first⟩
  apply covers_peek
  dsimp only
  split
  · exact covers_bind _ (covers_pure c _ (placed_plain .arguments_none)) closing
  · exact covers_bind _ (covers_mono (ih.expressions c) fun _ _ ⟨_, _, _, placed⟩ => placed) closing

theorem expressions_covers (c : Cursor) :
    Covers c (expressions (n + 1)) fun ts es => ∃ e rest, es = e :: rest ∧ Placed ts (.arguments es) := by
  apply covers_bind _ (ih.expression c)
  intro mid ts e first
  apply covers_accept_symbol
  · intro comma next
    refine covers_map (covers_mono (ih.expressions next) ?_)
    rintro us _ ⟨second, rest, rfl, others⟩
    exact ⟨e, _, rfl, placed_both (.arguments_more comma) first others⟩
  · refine covers_pure mid _ ⟨e, [], rfl, ?_⟩
    rw [List.append_nil]
    exact placed_as .arguments_last first

theorem primary_covers (c : Cursor) : Covers c (primary (n + 1)) PlacedExpr := by
  apply covers_peek
  split
  · rename_i here
    have kind := symbol_kind.mp here
    refine covers_advance kind rfl fun next => ?_
    apply covers_bind _ (ih.expression next)
    intro last ts inner placed
    refine covers_symbol _ _ fun closed final => covers_mark _ fun given end_ line => covers_pure end_ _ ?_
    exact placed_grouping ⟨c.peek, kind⟩ closed line placed
  · exact covers_atom c

end Step

theorem expressions_covered : ∀ n, ExpressionsCovered n
  | 0 => ⟨fun c => covers_stop c _, fun c _ => covers_stop c _, fun c _ _ _ _ _ => covers_stop c _,
      fun c => covers_stop c _, fun c _ _ _ => covers_stop c _, fun c => covers_stop c _, fun c => covers_stop c _,
      fun c => covers_stop c _⟩
  | n + 1 => by
      have ih := expressions_covered n
      exact ⟨expression_covers ih, operation_covers ih, operands_covers ih, unary_covers ih, suffixes_covers ih,
        arguments_covers ih, expressions_covers ih, primary_covers ih⟩

section Statements

theorem parameters_cover : ∀ n c, Covers c (parameters n) fun ts names =>
    ∃ name rest, names = name :: rest ∧ Placed ts (.parameters names)
  | 0, c => covers_stop c _
  | n + 1, c => by
      refine covers_name _ fun name mid => ?_
      apply covers_accept_symbol
      · intro comma next
        refine covers_map (covers_mono (parameters_cover n next) ?_)
        rintro ts _ ⟨second, rest, rfl, others⟩
        exact ⟨_, _, rfl, placed_as (.parameters_more name comma) others⟩
      · exact covers_pure mid _ ⟨_, _, rfl, placed_plain (.parameters_last name)⟩

variable (n : Nat)

theorem expression_unless_covers (c : Cursor) (symbol : Symbol) :
    Covers c (expressionUnless n symbol) fun ts value => Placed ts (.optional value) := by
  apply covers_peek
  split
  · exact covers_pure c none (placed_plain .optional_none)
  · exact covers_map (covers_mono ((expressions_covered n).expression c) fun _ _ => placed_as .optional_some)

theorem expression_statement_covers (c : Cursor) :
    Covers c (expressionStatement n) fun ts s => Placed ts (.statement s) := by
  apply covers_bind _ ((expressions_covered n).expression c)
  intro next ts e placed
  exact covers_symbol _ _ fun ended last => covers_pure last _ (placed_as (.expression_statement ended) placed)

theorem var_declaration_covers (c : Cursor) (keyword : KeywordToken .var) :
    Covers c (varDeclaration n) fun ts s => Placed (keyword.1 :: ts) (.statement s) := by
  refine covers_name _ fun name mid => ?_
  apply covers_accept_symbol
  · intro equal next
    refine covers_bind (fun ts value => ∃ e, value = some e ∧ PlacedExpr ts e)
      (covers_map (covers_mono ((expressions_covered n).expression next) fun ts e placed => ⟨e, rfl, placed⟩)) ?_
    rintro last ts _ ⟨e, rfl, placed⟩
    exact covers_symbol _ _ fun ended final =>
      covers_pure final _ (placed_as (.var_some keyword name equal ended) placed)
  · refine covers_bind (fun ts value => ts = [] ∧ value = none) (covers_pure mid none ⟨rfl, rfl⟩) ?_
    rintro last _ _ ⟨rfl, rfl⟩
    exact covers_symbol _ _ fun ended final => covers_pure final _ (placed_plain (.var_none keyword name ended))

theorem returned_covers (c : Cursor) (keyword : KeywordToken .return) :
    Covers c (returned n keyword.1.line) fun ts s => Placed (keyword.1 :: ts) (.statement s) := by
  apply covers_bind _ (expression_unless_covers n c .semicolon)
  intro next ts value placed
  exact covers_symbol _ _ fun ended last => covers_pure last _ (placed_as (.returned keyword ended) placed)

theorem condition_covers (c : Cursor) (opened closed braced : Expectation) :
    Covers c (condition n opened closed braced) fun ts e =>
      ∃ (es : List Token) (opened : SymbolToken .leftParen) (closed : SymbolToken .rightParen)
        (brace : SymbolToken .leftBrace), ts = opened.1 :: (es ++ [closed.1, brace.1]) ∧ PlacedExpr es e := by
  refine covers_symbol _ _ fun opened mid => ?_
  apply covers_bind _ ((expressions_covered n).expression mid)
  intro next es e placed
  refine covers_symbol _ _ fun closed last => covers_symbol _ _ fun brace final => ?_
  exact covers_pure final e ⟨es, opened, closed, brace, rfl, placed⟩

theorem loop_start_covers (c : Cursor) : Covers c (loopStart n) fun ts start => Placed ts (.start start) := by
  apply covers_accept_symbol
  · exact fun ended next => covers_pure next none (placed_plain (.start_none ended))
  · apply covers_accept_keyword
    · intro keyword next
      exact covers_map (covers_mono (var_declaration_covers n next keyword) fun _ _ => placed_as .start_some)
    · exact covers_map (covers_mono (expression_statement_covers n c) fun _ _ => placed_as .start_some)

theorem loop_condition_covers (c : Cursor) (keyword : KeywordToken .for) :
    Covers c (loopCondition n keyword.1.line) fun ts e => Placed ts (.test keyword e) := by
  apply covers_bind _ (expression_unless_covers n c .semicolon)
  rintro next ts value ⟨ps, spells, lined⟩
  cases spells with
  | optional_none =>
      refine covers_mark _ fun given last line => covers_pure last _ ?_
      exact ⟨_, .test_implied keyword given, List.forall_mem_singleton.mpr ⟨keyword.1, rfl, line⟩⟩
  | optional_some spells =>
      refine covers_pure next _ ?_
      rw [List.append_nil]
      exact ⟨ps, .test_given keyword spells, lined⟩

end Statements

structure StatementsCovered (n : Nat) : Prop where
  declaration : ∀ c, Covers c (declaration n) fun ts s => Placed ts (.statement s)
  body : ∀ c, Covers c (body n) fun ts list =>
    ∃ us, ∃ closed : SymbolToken .rightBrace, ts = us ++ [closed.1] ∧ Placed us (.statements list)
  routine : ∀ c, Covers c (routine n) fun ts r => Placed ts (.routine r)
  classDeclaration : ∀ c (keyword : KeywordToken .class),
    Covers c (classDeclaration n) fun ts s => Placed (keyword.1 :: ts) (.statement s)
  methods : ∀ c, Covers c (methods n) fun ts list =>
    ∃ us, ∃ closed : SymbolToken .rightBrace, ts = us ++ [closed.1] ∧ Placed us (.routines list)
  ifStatement : ∀ c (keyword : KeywordToken .if),
    Covers c (ifStatement n) fun ts s => Placed (keyword.1 :: ts) (.statement s)
  alternative : ∀ c, Covers c (alternative n) fun ts a => Placed ts (.alternative a)
  whileStatement : ∀ c (keyword : KeywordToken .while),
    Covers c (whileStatement n) fun ts s => Placed (keyword.1 :: ts) (.statement s)
  forStatement : ∀ c (keyword : KeywordToken .for),
    Covers c (forStatement n keyword.1.line) fun ts s => Placed (keyword.1 :: ts) (.statement s)

section Step

variable {n : Nat} (ih : StatementsCovered n)
include ih

theorem block_covers (c : Cursor) (opened : SymbolToken .leftBrace) :
    Covers c (body n) fun ts list => Placed (opened.1 :: ts) (.braced list) := by
  apply covers_mono (ih.body c)
  rintro ts list ⟨us, closed, rfl, placed⟩
  exact placed_as (.braced opened closed) placed

theorem declaration_covers (c : Cursor) : Covers c (declaration (n + 1)) fun ts s => Placed ts (.statement s) := by
  apply covers_peek
  split
  · rename_i kind
    exact covers_advance kind rfl fun next => var_declaration_covers n next ⟨c.peek, kind⟩
  · rename_i kind
    exact covers_advance kind rfl fun next =>
      covers_map (covers_mono (ih.routine next) fun _ _ => placed_as (.function ⟨c.peek, kind⟩))
  · rename_i kind
    exact covers_advance kind rfl fun next => ih.classDeclaration next ⟨c.peek, kind⟩
  · rename_i kind
    exact covers_advance kind rfl fun next => ih.ifStatement next ⟨c.peek, kind⟩
  · rename_i kind
    exact covers_advance kind rfl fun next => ih.whileStatement next ⟨c.peek, kind⟩
  · rename_i kind
    exact covers_advance kind rfl fun next => ih.forStatement next ⟨c.peek, kind⟩
  · rename_i kind
    exact covers_advance kind rfl fun next => returned_covers n next ⟨c.peek, kind⟩
  · rename_i kind
    exact covers_advance kind rfl fun next =>
      covers_map (covers_mono (block_covers ih next ⟨c.peek, kind⟩) fun _ _ => placed_as .block)
  · exact expression_statement_covers n c

theorem body_covers (c : Cursor) : Covers c (body (n + 1)) fun ts list =>
    ∃ us, ∃ closed : SymbolToken .rightBrace, ts = us ++ [closed.1] ∧ Placed us (.statements list) := by
  apply covers_peek
  split
  · exact covers_symbol _ _ fun closed next => covers_pure next [] ⟨[], closed, rfl, placed_plain .statements_none⟩
  · apply covers_bind _ (ih.declaration c)
    intro next taken s first
    refine covers_map (covers_mono (ih.body next) ?_)
    rintro ts list ⟨us, closed, rfl, others⟩
    exact ⟨taken ++ us, closed, (List.append_assoc _ _ _).symm, placed_both .statements_more first others⟩

theorem routine_covers (c : Cursor) : Covers c (routine (n + 1)) fun ts r => Placed ts (.routine r) := by
  refine covers_name _ fun name mid => covers_symbol _ _ fun opened next => ?_
  have closing : ∀ next ns (parameters : List Name), Placed ns (.parameters parameters) →
      Covers next (do
        let _ ← expectSymbol .rightParen .parametersClose
        let _ ← expectSymbol .leftBrace .functionBody
        return ⟨name.named, parameters, ← body n⟩) fun ts r =>
          Placed (name.1 :: opened.1 :: (ns ++ ts)) (.routine r) := by
    intro next ns parameters names
    refine covers_symbol _ _ fun closed last => covers_symbol _ _ fun brace final => ?_
    exact covers_map (covers_mono (block_covers ih final brace) fun _ _ =>
      placed_both (.routine name opened closed) names)
  apply covers_peek
  dsimp only
  split
  · exact covers_bind _ (covers_pure next [] (placed_plain .parameters_none)) closing
  · exact covers_bind _ (covers_mono (parameters_cover n next) fun _ _ ⟨_, _, _, placed⟩ => placed) closing

theorem class_covers (c : Cursor) (keyword : KeywordToken .class) :
    Covers c (classDeclaration (n + 1)) fun ts s => Placed (keyword.1 :: ts) (.statement s) := by
  refine covers_name _ fun name mid => covers_symbol _ _ fun opened next => ?_
  refine covers_map (covers_mono (ih.methods next) ?_)
  rintro _ list ⟨us, closed, rfl, functions⟩
  exact placed_as (.classOf keyword name opened closed) functions

theorem methods_cover (c : Cursor) : Covers c (methods (n + 1)) fun ts list =>
    ∃ us, ∃ closed : SymbolToken .rightBrace, ts = us ++ [closed.1] ∧ Placed us (.routines list) := by
  apply covers_peek
  split
  · exact covers_symbol _ _ fun closed next => covers_pure next [] ⟨[], closed, rfl, placed_plain .routines_none⟩
  · apply covers_bind _ (ih.routine c)
    intro next taken r first
    refine covers_map (covers_mono (ih.methods next) ?_)
    rintro ts list ⟨us, closed, rfl, others⟩
    exact ⟨taken ++ us, closed, (List.append_assoc _ _ _).symm, placed_both .routines_more first others⟩

theorem conditional_covers (c : Cursor) (make : Expr → List Stmt → Alternative → α) (good : List Token → α → Prop)
    (rest : ∀ ts e list a, Placed ts (.conditional e list a) → good ts (make e list a)) :
    Covers c (do
      let e ← condition n .ifOpen .ifClose .ifBody
      let body ← body n
      return make e body (← alternative n)) good := by
  apply covers_bind _ (condition_covers n c _ _ _)
  rintro mid _ e ⟨es, opened, closed, brace, rfl, ps, test, lined⟩
  apply covers_bind _ (block_covers ih mid brace)
  rintro next bs list ⟨qs, block, more⟩
  refine covers_map (covers_mono (ih.alternative next) ?_)
  rintro ls a ⟨rs, others, last⟩
  have placed : Placed _ (.conditional e list a) :=
    ⟨_, .conditional opened closed test block others, lined_append (lined_append lined more) last⟩
  apply rest
  simpa only [List.cons_append, List.append_assoc, List.nil_append] using placed

theorem if_covers (c : Cursor) (keyword : KeywordToken .if) :
    Covers c (ifStatement (n + 1)) fun ts s => Placed (keyword.1 :: ts) (.statement s) :=
  conditional_covers ih c Stmt.branch _ fun _ _ _ _ => placed_as (.branch keyword)

theorem alternative_covers (c : Cursor) : Covers c (alternative (n + 1)) fun ts a => Placed ts (.alternative a) := by
  apply covers_accept_keyword
  · intro other mid
    apply covers_accept_keyword
    · intro keyword next
      exact conditional_covers ih next Alternative.elseIf _ fun _ _ _ _ => placed_as (.alternative_if other keyword)
    · refine covers_symbol _ _ fun brace last => ?_
      exact covers_map (covers_mono (block_covers ih last brace) fun _ _ => placed_as (.alternative_block other))
  · exact covers_pure c _ (placed_plain .alternative_none)

theorem while_covers (c : Cursor) (keyword : KeywordToken .while) :
    Covers c (whileStatement (n + 1)) fun ts s => Placed (keyword.1 :: ts) (.statement s) := by
  apply covers_bind _ (condition_covers n c _ _ _)
  rintro next _ e ⟨es, opened, closed, brace, rfl, test⟩
  refine covers_map (covers_mono (block_covers ih next brace) fun bs list block => ?_)
  have placed := placed_both (.whileLoop keyword opened closed) test block
  simpa only [List.cons_append, List.append_assoc, List.nil_append] using placed

theorem for_covers (c : Cursor) (keyword : KeywordToken .for) :
    Covers c (forStatement (n + 1) keyword.1.line) fun ts s => Placed (keyword.1 :: ts) (.statement s) := by
  refine covers_symbol _ _ fun opened mid => ?_
  apply covers_bind _ (loop_start_covers n mid)
  rintro mid ss start ⟨ps, first, lined⟩
  apply covers_bind _ (loop_condition_covers n mid keyword)
  rintro mid cs e ⟨qs, test, tested⟩
  refine covers_symbol _ _ fun ended mid => ?_
  apply covers_bind _ (expression_unless_covers n mid .rightParen)
  rintro mid ls action ⟨rs, last, acted⟩
  refine covers_symbol _ _ fun closed mid => covers_symbol _ _ fun brace mid => ?_
  refine covers_map (covers_mono (block_covers ih mid brace) ?_)
  rintro bs list ⟨us, block, more⟩
  exact ⟨_, .forLoop keyword opened ended closed first test last block,
    lined_append lined (lined_append tested (lined_append more acted))⟩

end Step

theorem statements_covered : ∀ n, StatementsCovered n
  | 0 => ⟨fun c => covers_stop c _, fun c => covers_stop c _, fun c => covers_stop c _, fun c _ => covers_stop c _,
      fun c => covers_stop c _, fun c _ => covers_stop c _, fun c => covers_stop c _, fun c _ => covers_stop c _,
      fun c _ => covers_stop c _⟩
  | n + 1 => by
      have ih := statements_covered n
      exact ⟨declaration_covers ih, body_covers ih, routine_covers ih, class_covers ih, methods_cover ih, if_covers ih,
        alternative_covers ih, while_covers ih, for_covers ih⟩

theorem program_covers : ∀ n c, Covers c (program n) fun ts list => Placed ts (.statements list)
  | 0, c => covers_stop c _
  | n + 1, c => by
      apply covers_peek
      split
      · exact covers_pure c [] (placed_plain .statements_none)
      · apply covers_bind _ ((statements_covered n).declaration c)
        intro next taken s first
        exact covers_map (covers_mono (program_covers n next) fun _ _ => placed_both .statements_more first)

end Parser

def upToEnd (tokens : List Token) : List Token :=
  tokens.takeWhile fun token => !token.kind.isFinish

theorem upToEnd_append {ahead behind : List Token} (plain : ∀ token ∈ ahead, token.kind.isFinish = false)
    (finished : (Cursor.peek ⟨behind, 0⟩).kind.isFinish = true) : upToEnd (ahead ++ behind) = ahead := by
  unfold upToEnd
  rw [List.takeWhile_append_of_pos (by simpa using plain)]
  cases behind with
  | nil => exact List.append_nil ahead
  | cons token others => rw [List.takeWhile_cons_of_neg (by simpa [Cursor.peek] using finished), List.append_nil]

theorem parse_placed {first next : Nat} {tokens : List Token} {program : Program}
    (parsed : parse first tokens = .ok (program, next)) : Placed (upToEnd tokens) (.statements program) := by
  obtain ⟨last, run, rfl⟩ := (parse_ok _ _ _ _).mp parsed
  obtain ⟨ahead, all, placed⟩ := ends_ok _ _ _ _ _ _ (Parser.program_covers _ _) run
  have finished := ends_ok _ _ _ _ _ _ (Parser.program_ends _ _) run
  obtain ⟨sourced, spells, lined⟩ := placed
  rw [show tokens = ahead ++ last.rest from all, upToEnd_append (spells_plain spells) finished]
  exact ⟨sourced, spells, lined⟩

theorem nodes_begin_on_their_lines {first next : Nat} {tokens : List Token} {program : Program}
    (parsed : parse first tokens = .ok (program, next)) :
    ∃ sourced : List Sourced, Spells (upToEnd tokens) (.statements program) sourced ∧
      sourced.map Sourced.node = Stmt.nodesAll program ∧
      ∀ one ∈ sourced, one.Lined ∧ one.Opened sourced ∧
        (∀ span, one.origin = .span span → span <:+: upToEnd tokens) ∧
        ∀ keyword, one.origin = .implied keyword →
          keyword.1 ∈ upToEnd tokens ∧ ∃ mark, one.node = .literal mark (.bool true) := by
  obtain ⟨sourced, spells, lined⟩ := parse_placed parsed
  refine ⟨sourced, spells, spells_nodes spells, fun one member => ⟨lined one member,
    spells_opening spells one member, spells_inside spells one member, fun keyword implied => ?_⟩⟩
  obtain ⟨whole, here | other⟩ := spells_implied spells one member keyword.1 (congrArg Origin.keyword? implied)
  · exact ⟨here, whole⟩
  · cases other

def Grammar.spread : List Token :=
  [⟨.keyword .for, "for", 1⟩, ⟨.symbol .leftParen, "(", 2⟩, ⟨.symbol .semicolon, ";", 2⟩,
    ⟨.symbol .semicolon, ";", 2⟩, ⟨.symbol .rightParen, ")", 2⟩, ⟨.symbol .leftBrace, "\x7b", 2⟩,
    ⟨.identifier, "a", 3⟩, ⟨.symbol .dot, ".", 4⟩, ⟨.identifier, "b", 4⟩, ⟨.symbol .equal, "=", 5⟩,
    ⟨.symbol .minus, "-", 6⟩, ⟨.symbol .leftParen, "(", 7⟩, ⟨.identifier, "c", 8⟩, ⟨.symbol .rightParen, ")", 8⟩,
    ⟨.symbol .semicolon, ";", 8⟩, ⟨.symbol .rightBrace, "\x7d", 9⟩, Token.finish 9]

theorem nodes_begin_on_their_lines_spread :
    ∃ program next, parse 0 spread = .ok (program, next) ∧
      (Stmt.nodesAll program).map Expr.line = [1, 3, 3, 6, 7, 8] ∧
      ∃ sourced : List Sourced, Spells (upToEnd spread) (.statements program) sourced ∧
        sourced.map Sourced.node = Stmt.nodesAll program ∧
        ∀ one ∈ sourced, one.Lined ∧ one.Opened sourced ∧
          (∀ span, one.origin = .span span → span <:+: upToEnd spread) ∧
          ∀ keyword, one.origin = .implied keyword →
            keyword.1 ∈ upToEnd spread ∧ ∃ mark, one.node = .literal mark (.bool true) :=
  ⟨_, _, rfl, rfl, @nodes_begin_on_their_lines 0 _ spread _ rfl⟩

end TreeWalk
