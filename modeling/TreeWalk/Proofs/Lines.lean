import TreeWalk.Token.Lexer

set_option autoImplicit false

namespace TreeWalk

theorem map_id_oks {α ε : Type} (found : List α) : (found.map (Except.ok (ε := ε))).mapM id = .ok found := by
  induction found with
  | nil => rfl
  | cons first rest ih => simp [List.mapM_cons, bind, Except.bind, ih, pure, Except.pure]

theorem oks_of_map_id {α ε : Type} (items : List (Except ε α)) (found : List α) (read : items.mapM id = .ok found) :
    items = found.map .ok := by
  induction items generalizing found with
  | nil =>
      have empty : found = [] := by simpa [pure, Except.pure] using read.symm
      simp [empty]
  | cons item rest ih =>
      cases item with
      | error e => simp [List.mapM_cons, bind, Except.bind] at read
      | ok first =>
          cases tail : rest.mapM id with
          | error e => simp [List.mapM_cons, bind, Except.bind, tail] at read
          | ok later =>
              have same : found = first :: later := by
                simpa [List.mapM_cons, bind, Except.bind, tail, pure, Except.pure] using read.symm
              rw [same, ih later tail, List.map_cons]

namespace Lexer

def itemsFrom (line : Nat) : List (List Char) → List (Except LexError Token)
  | [] => []
  | text :: rest => scan line 0 (cutComment text) ++ itemsFrom (line + 1) rest

theorem scan_lines_items (line : Nat) (texts : List (List Char)) :
    scanLines (line + 1) texts = itemsFrom (line + 1) texts ++ [.ok (.finish (line + texts.length))] := by
  induction texts generalizing line with
  | nil => rfl
  | cons text rest ih =>
      rw [scanLines, itemsFrom, ih (line + 1), List.append_assoc, List.length_cons, Nat.add_right_comm line 1 rest.length]
      rfl

theorem items_from_append (line : Nat) (texts more : List (List Char)) :
    itemsFrom line (texts ++ more) = itemsFrom line texts ++ itemsFrom (line + texts.length) more := by
  induction texts generalizing line with
  | nil => rfl
  | cons text rest ih =>
      rw [List.cons_append, itemsFrom, itemsFrom, ih (line + 1), List.append_assoc, List.length_cons,
        Nat.add_right_comm line 1 rest.length]
      rfl

theorem items_from_blank (line count : Nat) : itemsFrom line (List.replicate count []) = [] := by
  induction count generalizing line with
  | zero => rfl
  | succ count ih => exact ih (line + 1)

def relocate (line : Nat → Nat) : Except LexError Token → Except LexError Token
  | .ok token => .ok { token with line := line token.line }
  | .error e => .error { e with line := line e.line }

theorem scan_relocated (line : Nat → Nat) (from_ skip : Nat) (text : List Char) :
    scan (line from_) skip text = (scan from_ skip text).map (relocate line) := by
  induction text generalizing skip with
  | nil => rfl
  | cons c rest ih =>
      cases skip with
      | succ skip => exact ih skip
      | zero =>
          simp only [scan]
          split
          · exact ih 0
          · rw [List.map_cons, ih]
            cases matchAt c rest <;> rfl

theorem items_from_relocated (distance line : Nat) (texts : List (List Char)) :
    itemsFrom (line + distance) texts = (itemsFrom line texts).map (relocate (· + distance)) := by
  induction texts generalizing line with
  | nil => rfl
  | cons text rest ih =>
      rw [itemsFrom, itemsFrom, List.map_append, ← ih (line + 1), Nat.add_right_comm line 1 distance]
      rw [← scan_relocated (· + distance) line]

theorem match_at_kind (first : Char) (rest : List Char) (kind : TokenKind) (width : Nat)
    (matched : matchAt first rest = .token kind width) : kind.isFinish = false := by
  unfold matchAt matchString matchNumber matchWord matchSymbol wordKind at matched
  dsimp only at matched
  repeat' split at matched
  all_goals cases matched
  all_goals rfl

section Tokens

-- What holds of the token of every match holds of all the tokens of a text.
variable {good : Token → Prop} (each : ∀ (line : Nat) (first : Char) (rest : List Char) (token : Token),
  item line (first :: rest) (matchAt first rest) = .ok token → good token)

include each

theorem scan_tokens (line skip : Nat) (text : List Char) (token : Token) (member : .ok token ∈ scan line skip text) :
    good token := by
  induction text generalizing skip with
  | nil => simp [scan] at member
  | cons c rest ih =>
      cases skip with
      | succ skip => exact ih skip member
      | zero =>
          simp only [scan] at member
          split at member
          · exact ih 0 member
          · rcases List.mem_cons.mp member with here | later
            · exact each line c rest token here.symm
            · exact ih _ later

theorem items_from_tokens (line : Nat) (texts : List (List Char)) (token : Token)
    (member : .ok token ∈ itemsFrom line texts) : good token := by
  induction texts generalizing line with
  | nil => simp [itemsFrom] at member
  | cons text rest ih =>
      rcases List.mem_append.mp member with here | later
      · exact scan_tokens each line 0 _ token here
      · exact ih (line + 1) later

end Tokens

theorem item_kind (line : Nat) (first : Char) (rest : List Char) (token : Token)
    (read : item line (first :: rest) (matchAt first rest) = .ok token) : token.kind.isFinish = false := by
  cases matched : matchAt first rest with
  | nothing width => simp [matched, item] at read
  | token kind width =>
      simp only [matched, item, Except.ok.injEq] at read
      rw [← read]
      exact match_at_kind first rest kind width matched

theorem items_from_kind (line : Nat) (texts : List (List Char)) (token : Token)
    (member : .ok token ∈ itemsFrom line texts) : token.kind.isFinish = false :=
  items_from_tokens item_kind line texts token member

end Lexer

end TreeWalk
