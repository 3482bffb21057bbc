import TreeWalk.Proofs.Lexemes

set_option autoImplicit false

namespace TreeWalk

namespace Lexer

-- A line without its comment, which begins at the first two slashes.
def Cut (text cut : List Char) : Prop :=
  (cut = text ∧ ¬ ['/', '/'] <:+: text) ∨
    ∃ comment, text = cut ++ '/' :: '/' :: comment ∧
      ∀ before after, text = before ++ '/' :: '/' :: after → cut.length ≤ before.length

section Comments

theorem cut_comment_cuts (text : List Char) : Cut text (cutComment text) := by
  induction text using cutComment.induct with
  | case1 comment =>
      exact .inr ⟨comment, rfl, fun before after _ => Nat.zero_le _⟩
  | case2 c rest plain ih =>
      have here : cutComment (c :: rest) = c :: cutComment rest := by
        rw [cutComment]
        exact plain
      have apart : ∀ after, c :: rest ≠ '/' :: '/' :: after := by
        rintro after same
        obtain ⟨rfl, rfl⟩ := List.cons.inj same
        exact plain after rfl rfl
      rw [here]
      rcases ih with ⟨whole, none⟩ | ⟨comment, same, first⟩
      · refine .inl ⟨by rw [whole], fun inside => ?_⟩
        rcases List.infix_cons_iff.mp inside with ⟨after, starts⟩ | later
        · exact apart after starts.symm
        · exact none later
      · refine .inr ⟨comment, by rw [List.cons_append, ← same], fun before after other => ?_⟩
        cases before with
        | nil => exact absurd other (apart after)
        | cons d earlier => exact Nat.succ_le_succ (first earlier after (List.cons.inj other).2)
  | case3 => exact .inl ⟨rfl, by simp⟩

theorem cut_unique (text cut other : List Char) (here : Cut text cut) (there : Cut text other) : cut = other := by
  have infix_of : ∀ (before comment : List Char), text = before ++ '/' :: '/' :: comment → ['/', '/'] <:+: text :=
    fun before comment same => ⟨before, comment, by rw [same]; simp⟩
  rcases here with ⟨whole, none⟩ | ⟨comment, same, first⟩ <;>
    rcases there with ⟨whole', none'⟩ | ⟨comment', same', first'⟩
  · exact whole.trans whole'.symm
  · exact absurd (infix_of _ _ same') none
  · exact absurd (infix_of _ _ same) none'
  · have length := Nat.le_antisymm (first other comment' same') (first' cut comment same)
    exact List.append_inj_left (same.symm.trans same') length

end Comments

-- A part of a line and what it stands for.
inductive Piece where
  | blank (c : Char)
  | token (t : Token)
  | skipped (error : LexError) (text : List Char)

namespace Piece

def text : Piece → List Char
  | blank c => [c]
  | token t => t.lexeme.toList
  | skipped _ text => text

def item? : Piece → Option (Except LexError Token)
  | blank _ => none
  | token t => some (.ok t)
  | skipped error _ => some (.error error)

-- What a piece has to be at the start of `rest`, the end of a line. An error names all of it, and
-- steps over one character only, unless that is a quote.
def Fits (line : Nat) (rest : List Char) : Piece → Prop
  | blank c => isSpace c = true
  | token t => t.line = line ∧ Longest rest t.lexeme.toList t.kind
  | skipped error text =>
      error = ⟨line, String.ofList rest⟩ ∧
        (∀ lexeme kind, lexeme <+: rest → ¬ Lexeme lexeme kind) ∧
        ∃ first behind, rest = first :: behind ∧ isSpace first = false ∧
          text = if first = '"' then rest else [first]

end Piece

-- Nothing of the text is left out, and every piece fits where it stands.
structure Laid (line : Nat) (text : List Char) (pieces : List Piece) : Prop where
  whole : pieces.flatMap Piece.text = text
  fits : ∀ before piece after, pieces = before ++ piece :: after →
    piece.Fits line ((piece :: after).flatMap Piece.text)

section Line

theorem laid_nil (line : Nat) (text : List Char) : Laid line text [] ↔ text = [] := by
  constructor
  · exact fun laid => laid.whole.symm
  · rintro rfl
    exact ⟨rfl, fun before piece after same => by simp at same⟩

theorem laid_cons (line : Nat) (text : List Char) (piece : Piece) (pieces : List Piece) :
    Laid line text (piece :: pieces) ↔
      ∃ rest, text = piece.text ++ rest ∧ piece.Fits line text ∧ Laid line rest pieces := by
  constructor
  · rintro ⟨rfl, fits⟩
    refine ⟨pieces.flatMap Piece.text, List.flatMap_cons, fits [] piece pieces rfl, rfl, ?_⟩
    rintro before other after rfl
    exact fits (piece :: before) other after rfl
  · rintro ⟨rest, rfl, here, ⟨rfl, fits⟩⟩
    refine ⟨List.flatMap_cons, fun before other after same => ?_⟩
    cases before with
    | nil =>
        obtain ⟨rfl, rfl⟩ := List.cons.inj same
        exact here
    | cons first earlier =>
        obtain ⟨rfl, rfl⟩ := List.cons.inj same
        exact fits earlier other after rfl

theorem scan_drop (line skip : Nat) (text : List Char) : scan line skip text = scan line 0 (text.drop skip) := by
  induction text generalizing skip with
  | nil => simp [scan]
  | cons c rest ih =>
      cases skip with
      | zero => rfl
      | succ skip => exact ih skip

theorem scan_space (line : Nat) (c : Char) (rest : List Char) (space : isSpace c = true) :
    scan line 0 (c :: rest) = scan line 0 rest := by
  rw [scan, if_pos space]

theorem scan_match (line : Nat) (c : Char) (rest : List Char) (found : Match) (visible : isSpace c = false)
    (matched : matchAt c rest = found) (some : 0 < found.width) :
    scan line 0 (c :: rest) = item line (c :: rest) found :: scan line 0 ((c :: rest).drop found.width) := by
  rw [scan, if_neg (by simp [visible])]
  dsimp only
  rw [matched, scan_drop line (found.width - 1), ← List.drop_succ_cons, Nat.sub_add_cancel some]

theorem scan_token (line : Nat) (text : List Char) (token : Token) (rest : List Char)
    (same : text = token.lexeme.toList ++ rest) (here : token.line = line)
    (longest : Longest text token.lexeme.toList token.kind) :
    scan line 0 text = .ok token :: scan line 0 rest := by
  cases spelt : token.lexeme.toList with
  | nil => exact absurd (spelt ▸ longest.2.1) (lexeme_nonempty token.kind)
  | cons c later =>
      have visible := lexeme_first c later token.kind (spelt ▸ longest.2.1)
      rw [spelt, List.cons_append] at same
      subst same
      have matched := ((match_at_longest c (later ++ rest) _ _).mp longest).2
      rw [scan_match line c _ _ visible matched (by simp [Match.width, spelt])]
      have lexeme : String.ofList ((c :: (later ++ rest)).take token.lexeme.toList.length) = token.lexeme := by
        rw [spelt, ← List.cons_append, List.take_left, ← spelt, String.ofList_toList]
      have behind : (c :: (later ++ rest)).drop token.lexeme.toList.length = rest := by
        rw [spelt, ← List.cons_append, List.drop_left]
      simp only [item, Match.width, lexeme, behind, ← here]

theorem scan_skipped (line : Nat) (first : Char) (behind : List Char) (visible : isSpace first = false)
    (none : ∀ lexeme kind, lexeme <+: first :: behind → ¬ Lexeme lexeme kind) (rest : List Char)
    (same : first :: behind = (if first = '"' then first :: behind else [first]) ++ rest) :
    scan line 0 (first :: behind) = .error ⟨line, String.ofList (first :: behind)⟩ :: scan line 0 rest := by
  obtain ⟨width, matched⟩ := (match_at_nothing first behind).mpr none
  have wide := match_at_nothing_width first behind width matched
  have some : 0 < width := by
    rw [wide]
    split <;> simp
  have left : (first :: behind).drop width = rest := by
    rw [wide]
    split
    · rename_i quote
      rw [if_pos quote] at same
      have empty : rest = [] := by simpa using same
      rw [empty, List.drop_length]
    · rename_i unquoted
      rw [if_neg unquoted] at same
      simpa using same
  rw [scan_match line first behind _ visible matched some]
  simp only [item, Match.width, left]

-- A line has one reading at most.
theorem scan_laid (line : Nat) (pieces : List Piece) (text : List Char) (laid : Laid line text pieces) :
    scan line 0 text = pieces.filterMap Piece.item? := by
  induction pieces generalizing text with
  | nil =>
      rw [(laid_nil line text).mp laid]
      rfl
  | cons piece pieces ih =>
      obtain ⟨rest, same, fits, behind⟩ := (laid_cons line text piece pieces).mp laid
      have later := ih rest behind
      cases piece with
      | blank c =>
          subst same
          exact (scan_space line c rest fits).trans later
      | token token =>
          rw [scan_token line text token rest same fits.1 fits.2, later]
          rfl
      | skipped error stepped =>
          obtain ⟨rfl, none, first, behind, rfl, visible, rfl⟩ := fits
          rw [scan_skipped line first behind visible none rest same, later]
          rfl

-- A line has a reading, however long it is and whatever stands in it.
theorem laid_exists (line length : Nat) : ∀ text : List Char, text.length = length → ∃ pieces, Laid line text pieces := by
  induction length using Nat.strongRecOn with
  | ind length ih =>
      intro text size
      cases text with
      | nil => exact ⟨[], (laid_nil line []).mpr rfl⟩
      | cons c rest =>
          have extend : ∀ (piece : Piece) (left : List Char), c :: rest = piece.text ++ left → piece.text ≠ [] →
              piece.Fits line (c :: rest) → ∃ pieces, Laid line (c :: rest) pieces := by
            intro piece left same some fits
            have shorter : left.length < length := by
              rw [← size, same, List.length_append]
              exact Nat.lt_add_of_pos_left (List.length_pos_iff.mpr some)
            obtain ⟨pieces, laid⟩ := ih left.length shorter left rfl
            exact ⟨piece :: pieces, (laid_cons line _ piece pieces).mpr ⟨left, same, fits, laid⟩⟩
          cases space : isSpace c with
          | true => exact extend (.blank c) rest rfl (by simp [Piece.text]) space
          | false =>
              have finds := match_at_finds c rest
              cases matched : matchAt c rest with
              | token kind width =>
                  rw [matched] at finds
                  obtain ⟨lexeme, ⟨left, same⟩, rfl, is⟩ := finds
                  have longest := (match_at_longest c rest lexeme kind).mpr ⟨⟨left, same⟩, matched⟩
                  refine extend (.token ⟨kind, String.ofList lexeme, line⟩) left ?_ ?_ ⟨rfl, ?_⟩
                  · simp [Piece.text, same]
                  · rintro empty
                    simp only [Piece.text, String.toList_ofList] at empty
                    exact lexeme_nonempty kind (empty ▸ is)
                  · simpa using longest
              | nothing width =>
                  have none := (match_at_nothing c rest).mp ⟨width, matched⟩
                  refine extend (.skipped ⟨line, String.ofList (c :: rest)⟩ (if c = '"' then c :: rest else [c]))
                    (if c = '"' then [] else rest) ?_ ?_ ⟨rfl, none, c, rest, rfl, space, rfl⟩
                  · by_cases quote : c = '"' <;> simp [Piece.text, quote]
                  · by_cases quote : c = '"' <;> simp [Piece.text, quote]

end Line

-- The lines from the one numbered `line` on, each without its comment.
structure LaidOut (line : Nat) (texts : List (List Char)) (layout : List (List Piece)) : Prop where
  lines : layout.length = texts.length
  laid : ∀ (i : Nat) (text : List Char) (pieces : List Piece), texts[i]? = some text → layout[i]? = some pieces →
    ∃ cut, Cut text cut ∧ Laid (line + i) cut pieces

section Text

theorem laid_out_cons (line : Nat) (text : List Char) (texts : List (List Char)) (pieces : List Piece)
    (layout : List (List Piece)) : LaidOut line (text :: texts) (pieces :: layout) ↔
      (∃ cut, Cut text cut ∧ Laid line cut pieces) ∧ LaidOut (line + 1) texts layout := by
  constructor
  · rintro ⟨lines, laid⟩
    refine ⟨laid 0 text pieces rfl rfl, Nat.succ.inj lines, fun i other also here there => ?_⟩
    rw [Nat.add_assoc, Nat.add_comm 1 i]
    exact laid (i + 1) other also here there
  · rintro ⟨first, ⟨lines, laid⟩⟩
    refine ⟨congrArg Nat.succ lines, fun i other also here there => ?_⟩
    cases i with
    | zero =>
        cases here
        cases there
        exact first
    | succ i =>
        rw [Nat.add_comm i 1, ← Nat.add_assoc]
        exact laid i other also here there

theorem laid_out_exists (line : Nat) (texts : List (List Char)) : ∃ layout, LaidOut line texts layout := by
  induction texts generalizing line with
  | nil => exact ⟨[], rfl, fun i text pieces none => by simp at none⟩
  | cons text texts ih =>
      obtain ⟨pieces, laid⟩ := laid_exists line _ (cutComment text) rfl
      obtain ⟨layout, later⟩ := ih (line + 1)
      exact ⟨pieces :: layout,
        (laid_out_cons line text texts pieces layout).mpr ⟨⟨_, cut_comment_cuts text, laid⟩, later⟩⟩

theorem items_from_laid (line : Nat) (texts : List (List Char)) (layout : List (List Piece))
    (laid : LaidOut line texts layout) : itemsFrom line texts = layout.flatten.filterMap Piece.item? := by
  induction texts generalizing line layout with
  | nil =>
      rw [List.eq_nil_of_length_eq_zero laid.lines]
      rfl
  | cons text texts ih =>
      cases layout with
      | nil => exact absurd laid.lines (by simp)
      | cons pieces layout =>
          obtain ⟨⟨cut, first, here⟩, later⟩ := (laid_out_cons line text texts pieces layout).mp laid
          rw [cut_unique text cut _ first (cut_comment_cuts text)] at here
          rw [itemsFrom, scan_laid line pieces _ here, ih (line + 1) layout later, List.flatten_cons,
            List.filterMap_append]

end Text

theorem items_grammatical (lines : List (List Char)) (found : List (Except LexError Token)) :
    items lines = found ↔ ∃ layout, LaidOut 1 lines layout ∧
      found = layout.flatten.filterMap Piece.item? ++ [.ok (.finish lines.length)] := by
  have whole : items lines = itemsFrom 1 lines ++ [.ok (.finish lines.length)] := by
    have parts := scan_lines_items 0 lines
    rwa [Nat.zero_add, Nat.zero_add] at parts
  constructor
  · rintro rfl
    obtain ⟨layout, laid⟩ := laid_out_exists 1 lines
    exact ⟨layout, laid, by rw [whole, items_from_laid 1 lines layout laid]⟩
  · rintro ⟨layout, laid, rfl⟩
    rw [whole, items_from_laid 1 lines layout laid]

end Lexer

end TreeWalk
