import TreeWalk.Proofs.Followed
import TreeWalk.Proofs.Lines

set_option autoImplicit false

namespace TreeWalk

theorem tokenize_lines (source : String) (ahead : List Token)
    (items : Lexer.itemsFrom 1 (Text.lines source.toList) = ahead.map .ok) :
    tokenize source = .ok (ahead ++ [.finish (Text.lines source.toList).length]) := by
  unfold tokenize Lexer.items
  rw [Lexer.scan_lines_items 0, items, Nat.zero_add]
  exact (congrArg (List.mapM id) (by simp)).trans (map_id_oks (ahead ++ [Token.finish _]))

theorem tokens_of_items {lines : List (List Char)} {tokens : List Token}
    (read : (Lexer.items lines).mapM id = .ok tokens) :
    ∃ ahead, Lexer.itemsFrom 1 lines = ahead.map .ok ∧ tokens = ahead ++ [.finish lines.length] := by
  have items := oks_of_map_id _ _ read
  unfold Lexer.items at items
  rw [Lexer.scan_lines_items 0, Nat.zero_add] at items
  obtain ⟨ahead, ended, whole, first, last⟩ := List.append_eq_map_iff.mp items
  exact ⟨ahead, first.symm, whole.trans (congrArg (ahead ++ ·) (by simpa using last))⟩

theorem lines_of_tokenize (source : String) (tokens : List Token) (read : tokenize source = .ok tokens) :
    ∃ ahead, Lexer.itemsFrom 1 (Text.lines source.toList) = ahead.map .ok ∧
      tokens = ahead ++ [.finish (Text.lines source.toList).length] :=
  tokens_of_items read

theorem parse_ok (first next : Nat) (tokens : List Token) (program : Program) :
    parse first tokens = .ok (program, next) ↔
      ∃ c, Parser.program (Parser.stepBound tokens) ⟨tokens, first⟩ = .ok program c ∧ c.nextId = next := by
  unfold parse EStateM.run
  constructor
  · intro parsed
    cases run : Parser.program (Parser.stepBound tokens) ⟨tokens, first⟩ with
    | ok read c =>
        obtain ⟨rfl, rfl⟩ : read = program ∧ c.nextId = next := by simpa [run] using parsed
        exact ⟨c, rfl, rfl⟩
    | error stop c => cases stop <;> simp [run] at parsed
  · intro ⟨c, run, same⟩
    simp only [run, same]

section Renamed

variable (r : Renaming) (first : Nat) (ahead : List Token) (last : Token)

theorem finish_not_else (token : Token) (finished : token.kind.isFinish = true) :
    token.kind.isKeyword .else = false := by
  cases kind : token.kind with
  | finish => rfl
  | _ => simp [kind, TokenKind.isFinish] at finished

variable (successive : ∀ id, first ≤ id → r.id (id + 1) = r.id id + 1) (finished : last.kind.isFinish = true)

def closedSeam : Seam where
  change := r
  firstId := first
  last
  further := [last.rename r]
  closed := True
  successive
  finished
  ended _ := rfl
  apart := finish_not_else last finished

include successive finished

theorem program_renamed (steps : Nat) :
    Ends (Parser.program steps) ⟨ahead ++ [last], first⟩
      (fun program next => ∃ other, Parser.program steps ⟨(ahead ++ [last]).map (Token.rename r), r.id first⟩ =
        .ok (Stmt.renameAll r program) other ∧ other.nextId = r.id next.nextId)
      fun stop next => ∃ other, Parser.program steps ⟨(ahead ++ [last]).map (Token.rename r), r.id first⟩ =
        .error (stop.rename r) other ∧ other.peek = next.peek.rename r := by
  let seam := closedSeam r first last successive finished
  have inside : seam.Inside ⟨ahead ++ [last], first⟩ ⟨(ahead ++ [last]).map (Token.rename r), r.id first⟩ :=
    ⟨ahead, ⟨rfl, by simp [seam, closedSeam], rfl, Nat.le_refl _⟩, .inl trivial⟩
  apply ends_mono _ _ _ _ _ _ (program_follows seam steps steps (fun _ => rfl) (Nat.le_refl _) _ _ (.inl inside))
  · intro program next ⟨_, outcome⟩
    rcases outcome with ⟨other, run, _, both, _⟩ | ⟨opened, _⟩
    · exact ⟨other, run, both.id⟩
    · exact (opened trivial).elim
  · exact fun stop next stops => stops trivial

theorem parse_renamed (next : Nat) (program : Program) (parsed : parse first (ahead ++ [last]) = .ok (program, next)) :
    parse (r.id first) ((ahead ++ [last]).map (Token.rename r)) = .ok (Stmt.renameAll r program, r.id next) := by
  obtain ⟨c, run, same⟩ := (parse_ok _ _ _ _).mp parsed
  have renamed := program_renamed r first ahead last successive finished (Parser.stepBound (ahead ++ [last]))
  obtain ⟨other, second, id⟩ := ends_ok _ _ _ _ _ _ renamed run
  refine (parse_ok _ _ _ _).mpr ⟨other, ?_, id.trans (congrArg r.id same)⟩
  simpa only [Parser.stepBound, List.length_map] using second

theorem parse_renamed_error (e : ParseError) (refused : parse first (ahead ++ [last]) = .error e) :
    parse (r.id first) ((ahead ++ [last]).map (Token.rename r)) = .error { e with line := r.line e.line } := by
  have renamed := program_renamed r first ahead last successive finished (Parser.stepBound (ahead ++ [last]))
  unfold parse EStateM.run at refused ⊢
  rw [show Parser.stepBound ((ahead ++ [last]).map (Token.rename r)) = Parser.stepBound (ahead ++ [last]) by
    simp only [Parser.stepBound, List.length_map]]
  unfold Ends at renamed
  cases run : Parser.program (Parser.stepBound (ahead ++ [last])) ⟨ahead ++ [last], first⟩ with
  | ok program c => simp [run] at refused
  | error stop c =>
      rw [run] at renamed refused
      obtain ⟨other, second, seen⟩ := renamed
      rw [second]
      cases stop with
      | refused error =>
          cases refused
          rfl
      | exhausted =>
          cases refused
          simp only [Parser.Stop.rename, seen]
          rfl

end Renamed

section Joined

def openSeam (last : Token) (further : List Token) (finished : last.kind.isFinish = true)
    (apart : (Cursor.peek ⟨further, 0⟩).kind.isKeyword .else = false) : Seam where
  change := .ofIds fun id => id
  firstId := 0
  last
  further
  closed := False
  successive _ _ := rfl
  finished
  ended := False.elim
  apart

theorem tokens_rename_ids (tokens : List Token) : tokens.map (Token.rename (.ofIds fun id => id)) = tokens :=
  List.map_id'' (fun _ => rfl) tokens

theorem stmts_rename_same (body : List Stmt) : Stmt.renameAll (.ofIds fun id => id) body = body :=
  stmts_rename_fixed body fun _ _ => rfl

theorem program_joined (steps more : Nat) (ahead further : List Token) (last : Token) (first : Nat) (next : Cursor)
    (read : Program) (plain : ∀ token ∈ ahead, token.kind.isFinish = false) (finished : last.kind.isFinish = true)
    (apart : (Cursor.peek ⟨further, 0⟩).kind.isKeyword .else = false) (bound : steps ≤ more)
    (run : Parser.program steps ⟨ahead ++ [last], first⟩ = .ok read next) :
    ∃ taken, taken ≤ ahead.length ∧ taken < more ∧
      Parser.program more ⟨ahead ++ further, first⟩ =
        (do return read ++ (← Parser.program (more - taken)) : Parser Program) ⟨further, next.nextId⟩ := by
  let seam := openSeam last further finished apart
  have both : seam.Ahead ahead ⟨ahead ++ [last], first⟩ ⟨ahead ++ further, first⟩ :=
    ⟨rfl, congrArg (· ++ further) (tokens_rename_ids ahead).symm, rfl, Nat.zero_le _⟩
  obtain ⟨taken, ⟨rest, id⟩, few, within, final, same⟩ :=
    program_continues seam not_false steps more _ _ next ahead read bound both plain run
  obtain rfl : rest = further := final.second
  obtain rfl : id = next.nextId := final.id
  rw [show Stmt.renameAll seam.change read = read from stmts_rename_same read] at same
  exact ⟨taken, few, within, same⟩

theorem program_steps (steps more : Nat) (ahead : List Token) (last : Token) (first : Nat) (next : Cursor)
    (read : Program) (plain : ∀ token ∈ ahead, token.kind.isFinish = false) (finished : last.kind.isFinish = true)
    (bound : steps ≤ more) (run : Parser.program steps ⟨ahead ++ [last], first⟩ = .ok read next) :
    ∃ other, Parser.program more ⟨ahead ++ [last], first⟩ = .ok read other ∧ other.nextId = next.nextId := by
  obtain ⟨taken, _, within, same⟩ := program_joined steps more ahead [last] last first next read plain finished
    (finish_not_else last finished) bound run
  have left : more - taken = (more - taken - 1) + 1 := by omega
  refine ⟨⟨[last], next.nextId⟩, ?_, rfl⟩
  rw [same, left]
  rw [bind_ok _ (program_stops _ ⟨[last], next.nextId⟩ finished), List.append_nil]
  rfl

section Else

variable {c : Cursor} {α β : Type}

def Refuses (c : Cursor) (p : Parser α) : Prop :=
  Ends p c (fun _ _ => False) fun _ _ => True

theorem refuses_bind {p : Parser α} (f : α → Parser β) (refuses : Refuses c p) : Refuses c (p >>= f) :=
  ends_bind p f c (fun _ _ => False) _ _ refuses fun _ _ never => never.elim

theorem refuses_peek {f : Token → Parser α} (refuses : Refuses c (f c.peek)) : Refuses c (Parser.peek >>= f) :=
  refuses

variable (seen : c.peek.kind = .keyword .else)

include seen

theorem primary_refuses : ∀ steps, Refuses c (Parser.primary steps)
  | 0 => trivial
  | steps + 1 => by
      unfold Parser.primary
      apply refuses_peek
      simp [seen, TokenKind.isSymbol, Refuses, Ends, atom_none, Parser.atom?, Parser.refuse, throw_run]

theorem unary_refuses : ∀ steps, Refuses c (Parser.unary steps)
  | 0 => trivial
  | steps + 1 => by
      unfold Parser.unary
      apply refuses_peek
      simp only [seen, TokenKind.isSymbol, Bool.or_self, Bool.false_eq_true, if_false]
      exact refuses_bind _ (primary_refuses seen steps)

theorem operation_refuses : ∀ steps levels, Refuses c (Parser.operation steps levels)
  | 0, _ => trivial
  | steps + 1, [] => unary_refuses seen steps
  | steps + 1, _ :: tighter => refuses_bind _ (operation_refuses steps tighter)

theorem expression_refuses : ∀ steps, Refuses c (Parser.expression steps)
  | 0 => trivial
  | steps + 1 => refuses_bind _ (operation_refuses seen steps _)

theorem declaration_refuses : ∀ steps, Refuses c (Parser.declaration steps)
  | 0 => trivial
  | steps + 1 => by
      unfold Parser.declaration
      apply refuses_peek
      simp only [seen]
      exact refuses_bind _ (expression_refuses seen steps)

theorem program_refuses : ∀ steps, Refuses c (Parser.program steps)
  | 0 => trivial
  | steps + 1 => by
      unfold Parser.program
      apply refuses_peek
      simp only [seen, TokenKind.isFinish, Bool.false_eq_true, if_false]
      exact refuses_bind _ (declaration_refuses seen steps)

end Else

theorem parse_joined (first mid next : Nat) (ahead more : List Token) (last final : Token) (read others : Program)
    (plain : ∀ token ∈ ahead, token.kind.isFinish = false) (rest : ∀ token ∈ more, token.kind.isFinish = false)
    (finished : last.kind.isFinish = true) (ended : final.kind.isFinish = true)
    (one : parse first (ahead ++ [last]) = .ok (read, mid)) (two : parse mid (more ++ [final]) = .ok (others, next)) :
    parse first (ahead ++ (more ++ [final])) = .ok (read ++ others, next) := by
  obtain ⟨c, run, rfl⟩ := (parse_ok _ _ _ _).mp one
  obtain ⟨d, second, rfl⟩ := (parse_ok _ _ _ _).mp two
  have apart : (Cursor.peek ⟨more ++ [final], 0⟩).kind.isKeyword .else = false := by
    cases kind : (Cursor.peek ⟨more ++ [final], 0⟩).kind with
    | keyword keyword =>
        by_cases same : keyword = .else
        · subst same
          exact (ends_ok _ _ _ _ _ _ (program_refuses (c := ⟨more ++ [final], c.nextId⟩) kind _) second).elim
        · simpa [TokenKind.isKeyword] using same
    | _ => rfl
  have bound : Parser.stepBound (ahead ++ [last]) ≤ Parser.stepBound (ahead ++ (more ++ [final])) := by
    simp only [Parser.stepBound, List.length_append, List.length_singleton]
    omega
  obtain ⟨taken, few, _, same⟩ := program_joined _ _ ahead (more ++ [final]) last first c read plain finished apart bound run
  have left : Parser.stepBound (more ++ [final]) ≤ Parser.stepBound (ahead ++ (more ++ [final])) - taken := by
    simp only [Parser.stepBound, List.length_append, List.length_singleton]
    omega
  obtain ⟨other, third, id⟩ := program_steps _ _ more final c.nextId d others rest ended left second
  refine (parse_ok _ _ _ _).mpr ⟨other, ?_, id⟩
  rw [same, bind_ok _ third]
  rfl

end Joined

def ReadsAs (first : Nat) (text : String) (program : Program) (next : Nat) : Prop :=
  ∃ tokens, tokenize text = .ok tokens ∧ parse first tokens = .ok (program, next)

theorem items_plain (line : Nat) (texts : List (List Char)) (ahead : List Token)
    (items : Lexer.itemsFrom line texts = ahead.map .ok) (token : Token) (member : token ∈ ahead) :
    token.kind.isFinish = false := by
  apply Lexer.items_from_kind line texts
  rw [items]
  exact List.mem_map_of_mem member

theorem reads_behind (first next count distance : Nat) (text behind : String) (program : Program)
    (lines : Text.lines behind.toList = List.replicate count [] ++ Text.lines text.toList)
    (reads : ReadsAs first text program next) :
    ReadsAs (first + distance) behind (Stmt.renameAll ⟨(· + distance), (· + count)⟩ program) (next + distance) := by
  obtain ⟨tokens, read, parsed⟩ := reads
  obtain ⟨ahead, items, rfl⟩ := lines_of_tokenize text tokens read
  let r : Renaming := ⟨(· + distance), (· + count)⟩
  have moved : Lexer.itemsFrom 1 (Text.lines behind.toList) = (ahead.map (Token.rename r)).map .ok := by
    rw [lines, Lexer.items_from_append, Lexer.items_from_blank, List.length_replicate, List.nil_append,
      Lexer.items_from_relocated, items, List.map_map, List.map_map]
    rfl
  have ended : [Token.finish (Text.lines behind.toList).length] =
      [Token.finish (Text.lines text.toList).length].map (Token.rename r) := by
    rw [lines, List.length_append, List.length_replicate, Nat.add_comm]
    rfl
  refine ⟨_, tokenize_lines behind _ moved, ?_⟩
  rw [ended, ← List.map_append]
  exact parse_renamed r first ahead _ (fun id _ => Nat.add_right_comm id 1 distance) rfl next program parsed

theorem reads_joined (first mid next : Nat) (text other behind whole : String) (read others : Program)
    (later : Text.lines behind.toList =
      List.replicate (Text.lines text.toList).length [] ++ Text.lines other.toList)
    (lines : Text.lines whole.toList = Text.lines text.toList ++ Text.lines other.toList)
    (one : ReadsAs first text read mid) (two : ReadsAs mid behind others next) :
    ReadsAs first whole (read ++ others) next := by
  obtain ⟨tokens, scanned, parsed⟩ := one
  obtain ⟨ahead, items, rfl⟩ := lines_of_tokenize text tokens scanned
  obtain ⟨tokens, scanned, second⟩ := two
  obtain ⟨more, further, rfl⟩ := lines_of_tokenize behind tokens scanned
  have both : Lexer.itemsFrom 1 (Text.lines whole.toList) = (ahead ++ more).map .ok := by
    rw [later, Lexer.items_from_append, Lexer.items_from_blank, List.length_replicate, List.nil_append] at further
    rw [lines, Lexer.items_from_append, items, further, List.map_append]
  have ended : (Text.lines whole.toList).length = (Text.lines behind.toList).length := by
    rw [lines, later, List.length_append, List.length_append, List.length_replicate]
  refine ⟨_, tokenize_lines whole _ both, ?_⟩
  rw [ended, List.append_assoc]
  exact parse_joined first mid next ahead more _ _ read others (items_plain 1 _ ahead items)
    (items_plain 1 _ more further) rfl rfl parsed second

end TreeWalk
