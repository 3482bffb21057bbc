import TreeWalk.Proofs.Pieces
import TreeWalk.Proofs.Programs

set_option autoImplicit false

namespace TreeWalk

namespace Lexer

def spaced (tokens : List Token) : List Char :=
  [' '].intercalate (tokens.map fun token => token.lexeme.toList)

def onLine (line : Nat) (tokens : List Token) : List Token :=
  tokens.filter fun token => token.line == line && !token.kind.isFinish

def respacedFrom (first count : Nat) (tokens : List Token) : List (List Char) :=
  (List.range count).map fun i => spaced (onLine (first + i) tokens)

def respaced (count : Nat) (tokens : List Token) : List (List Char) :=
  respacedFrom 1 count tokens

section Spaces

theorem spaced_cons (token next : Token) (rest : List Token) :
    spaced (token :: next :: rest) = token.lexeme.toList ++ ' ' :: spaced (next :: rest) := by
  simp [spaced, List.intercalate]

theorem lexeme_space (text : List Char) (kind : TokenKind) (is : Lexeme text kind) (inside : ' ' ∈ text) :
    ∃ contents, text = '"' :: contents ++ ['"'] ∧ '"' ∉ contents := by
  cases is with
  | symbol s => cases s <;> simp [Symbol.text] at inside
  | keyword k => cases k <;> simp [Keyword.text] at inside
  | identifier first parts letter word _ =>
      rcases List.mem_cons.mp inside with rfl | part
      · cases letter
      · cases word ' ' part
  | string contents unquoted => exact ⟨contents, rfl, unquoted⟩
  | whole digits _ decimal => cases decimal ' ' inside
  | fraction whole fraction _ _ decimal =>
      rcases List.mem_append.mp inside with before | behind
      · cases decimal ' ' (List.mem_append_left _ before)
      · cases decimal ' ' (List.mem_append_right _ (by simpa using behind))

theorem lexeme_quote (later : List Char) (kind : TokenKind) (is : Lexeme ('"' :: later) kind) :
    ∃ contents, later = contents ++ ['"'] := by
  generalize spelt : '"' :: later = text at is
  cases is with
  | symbol s => exact absurd rfl (symbol_first s '"' later spelt.symm).1
  | keyword k =>
      obtain ⟨first, parts, same, letter, _⟩ := keyword_word k
      rw [same] at spelt
      cases spelt
      cases letter
  | identifier first parts letter _ _ =>
      cases spelt
      cases letter
  | string contents _ => exact ⟨contents, (List.cons.inj spelt).2⟩
  | whole digits _ decimal => cases decimal '"' (spelt ▸ List.mem_cons_self)
  | fraction whole fraction nonempty _ decimal =>
      cases whole with
      | nil => exact absurd rfl nonempty
      | cons first more =>
          cases spelt
          cases decimal '"' List.mem_cons_self

theorem longest_spaced (lexeme rest : List Char) (kind : TokenKind) (is : Lexeme lexeme kind)
    (behind : rest = [] ∨ ∃ later, rest = ' ' :: later) : Longest (lexeme ++ rest) lexeme kind := by
  refine ⟨List.prefix_append lexeme rest, is, fun other kind' begins also => ?_⟩
  apply Nat.le_of_not_lt
  intro longer
  obtain ⟨more, same⟩ : lexeme <+: other :=
    List.prefix_of_prefix_length_le (List.prefix_append lexeme rest) begins (Nat.le_of_lt longer)
  subst same
  have further : more <+: rest := (List.prefix_append_right_inj lexeme).mp begins
  rcases behind with rfl | ⟨later, rfl⟩
  · rw [List.prefix_nil.mp further, List.append_nil] at longer
    exact absurd longer (Nat.lt_irrefl _)
  · cases more with
    | nil => simp at longer
    | cons c more =>
        obtain rfl : c = ' ' := prefix_first further
        obtain ⟨contents, string, unquoted⟩ := lexeme_space _ kind' also (by simp)
        cases lexeme with
        | nil => exact lexeme_nonempty kind is
        | cons first parts =>
            obtain ⟨rfl, tail⟩ := List.cons.inj string
            obtain ⟨short, rfl⟩ := lexeme_quote parts kind is
            have inner : contents ++ ['"'] = short ++ ['"'] ++ ' ' :: more := tail.symm
            -- The quote that ends the lexeme would stand inside the longer string.
            apply unquoted
            have contained := congrArg List.dropLast inner
            rw [List.dropLast_concat, List.dropLast_append_of_ne_nil (by simp)] at contained
            rw [contained]
            simp

theorem scan_spaced (line : Nat) (tokens : List Token)
    (spelt : ∀ token ∈ tokens, token.line = line ∧ Lexeme token.lexeme.toList token.kind) :
    scan line 0 (spaced tokens) = tokens.map .ok := by
  induction tokens with
  | nil => rfl
  | cons token rest ih =>
      obtain ⟨here, is⟩ := spelt token List.mem_cons_self
      have later := ih fun other member => spelt other (List.mem_cons_of_mem _ member)
      cases rest with
      | nil =>
          have alone : spaced [token] = token.lexeme.toList ++ [] := by simp [spaced, List.intercalate]
          have longest := longest_spaced token.lexeme.toList [] token.kind is (.inl rfl)
          exact scan_token line _ token [] alone here (alone ▸ longest)
      | cons next rest =>
          have longest := longest_spaced token.lexeme.toList _ token.kind is (.inr ⟨spaced (next :: rest), rfl⟩)
          rw [spaced_cons, scan_token line _ token _ rfl here longest, scan_space line ' ' _ rfl, later]
          rfl

end Spaces

section Comments

theorem cut_plain (text : List Char) : ¬ ['/', '/'] <:+: cutComment text := by
  rcases cut_comment_cuts text with ⟨whole, none⟩ | ⟨comment, same, first⟩
  · rwa [whole]
  · rintro ⟨before, after, inside⟩
    have shorter := first before (after ++ '/' :: '/' :: comment) (by rw [same, ← inside]; simp)
    rw [← inside, List.length_append, List.length_append, List.length_cons] at shorter
    omega

theorem cut_nothing (text : List Char) (plain : ¬ ['/', '/'] <:+: text) : cutComment text = text :=
  cut_unique text _ _ (cut_comment_cuts text) (.inl ⟨rfl, plain⟩)

theorem slashes_apart (before after : List Char) (inside : ['/', '/'] <:+: before ++ ' ' :: after) :
    ['/', '/'] <:+: before ∨ ['/', '/'] <:+: after := by
  induction before with
  | nil =>
      rcases List.infix_cons_iff.mp inside with starts | later
      · cases prefix_first starts
      · exact .inr later
  | cons c before ih =>
      rcases List.infix_cons_iff.mp inside with starts | later
      · obtain ⟨rfl, second⟩ := List.cons_prefix_cons.mp starts
        cases before with
        | nil => cases prefix_first second
        | cons d before =>
            obtain rfl := prefix_first second
            exact .inl ⟨[], before, rfl⟩
      · rcases ih later with before | after
        · exact .inl (List.infix_cons before)
        · exact .inr after

theorem spaced_plain (tokens : List Token) (plain : ∀ token ∈ tokens, ¬ ['/', '/'] <:+: token.lexeme.toList) :
    ¬ ['/', '/'] <:+: spaced tokens := by
  induction tokens with
  | nil => simp [spaced, List.intercalate]
  | cons token rest ih =>
      have here := plain token List.mem_cons_self
      have later := ih fun other member => plain other (List.mem_cons_of_mem _ member)
      cases rest with
      | nil => simpa [spaced, List.intercalate] using here
      | cons next rest =>
          rw [spaced_cons]
          exact fun inside => (slashes_apart _ _ inside).elim here later

end Comments

section Lines

theorem line_tokens (line : Nat) (text : List Char) (tokens : List Token)
    (read : scan line 0 (cutComment text) = tokens.map .ok) : ∀ token ∈ tokens, token.line = line ∧
      Lexeme token.lexeme.toList token.kind ∧ token.lexeme.toList <:+: cutComment text := by
  obtain ⟨pieces, laid⟩ := laid_exists line _ (cutComment text) rfl
  intro token member
  have shown : Except.ok token ∈ pieces.filterMap Piece.item? := by
    rw [← scan_laid line pieces _ laid, read]
    exact List.mem_map_of_mem member
  obtain ⟨piece, among, item⟩ := List.mem_filterMap.mp shown
  cases piece with
  | blank c => cases item
  | skipped error stepped => cases item
  | token other =>
      cases item
      obtain ⟨before, after, rfl⟩ := List.append_of_mem among
      obtain ⟨here, begins, is, _⟩ := laid.fits before _ after rfl
      refine ⟨here, is, begins.isInfix.trans ?_⟩
      rw [← laid.whole, List.flatMap_append]
      exact (List.suffix_append _ _).isInfix

theorem respaced_line (line : Nat) (text : List Char) (tokens : List Token)
    (read : scan line 0 (cutComment text) = tokens.map .ok) :
    scan line 0 (cutComment (spaced tokens)) = tokens.map .ok := by
  have parts := line_tokens line text tokens read
  rw [cut_nothing, scan_spaced line tokens fun token member => ⟨(parts token member).1, (parts token member).2.1⟩]
  exact spaced_plain tokens fun token member slashes => cut_plain text (slashes.trans (parts token member).2.2)

theorem items_from_lines (line : Nat) (texts : List (List Char)) (tokens : List Token)
    (read : itemsFrom line texts = tokens.map .ok) : ∀ token ∈ tokens, line ≤ token.line := by
  induction texts generalizing line tokens with
  | nil =>
      obtain rfl := List.map_eq_nil_iff.mp read.symm
      simp
  | cons text texts ih =>
      obtain ⟨first, later, rfl, here, behind⟩ := List.map_eq_append_iff.mp read.symm
      intro token member
      rcases List.mem_append.mp member with inside | below
      · exact Nat.le_of_eq (line_tokens line text first here.symm token inside).1.symm
      · exact Nat.le_of_succ_le (ih (line + 1) later behind.symm token below)

theorem on_line_all {line : Nat} {tokens : List Token}
    (each : ∀ token ∈ tokens, token.line = line ∧ token.kind.isFinish = false) : onLine line tokens = tokens :=
  List.filter_eq_self.mpr fun token member => by simp [each token member]

theorem on_line_none {line : Nat} {tokens : List Token} (each : ∀ token ∈ tokens, token.line ≠ line) :
    onLine line tokens = [] :=
  List.filter_eq_nil_iff.mpr fun token member => by simp [each token member]

theorem on_line_append (line : Nat) (before after : List Token) :
    onLine line (before ++ after) = onLine line before ++ onLine line after :=
  List.filter_append _ _

theorem respaced_cons (first count : Nat) (tokens : List Token) :
    respacedFrom first (count + 1) tokens = spaced (onLine first tokens) :: respacedFrom (first + 1) count tokens := by
  simp [respacedFrom, List.range_succ_eq_map, Function.comp_def, Nat.add_assoc, Nat.add_comm 1]

theorem respaced_below {line : Nat} {above : List Token} (each : ∀ token ∈ above, token.line < line) (count : Nat)
    (tokens : List Token) : respacedFrom line count (above ++ tokens) = respacedFrom line count tokens := by
  unfold respacedFrom
  apply List.map_congr_left
  intro i _
  rw [on_line_append, on_line_none fun token member => Nat.ne_of_lt (Nat.lt_of_lt_of_le (each token member) (Nat.le_add_right _ i)),
    List.nil_append]

theorem respaced_lines (line : Nat) (texts : List (List Char)) (tokens : List Token)
    (read : itemsFrom line texts = tokens.map .ok) :
    itemsFrom line (respacedFrom line texts.length tokens) = tokens.map .ok := by
  induction texts generalizing line tokens with
  | nil => exact read
  | cons text texts ih =>
      have plain : ∀ token ∈ tokens, token.kind.isFinish = false := fun token member =>
        items_from_kind line (text :: texts) token (read ▸ List.mem_map_of_mem member)
      obtain ⟨first, later, rfl, here, behind⟩ := List.map_eq_append_iff.mp read.symm
      have placed : ∀ token ∈ first, token.line = line := fun token member =>
        (line_tokens line text first here.symm token member).1
      have below : ∀ token ∈ later, line + 1 ≤ token.line := items_from_lines (line + 1) texts later behind.symm
      have own : onLine line (first ++ later) = first := by
        rw [on_line_append, on_line_all fun token member => ⟨placed token member, plain token (List.mem_append_left _ member)⟩,
          on_line_none fun token member => Nat.ne_of_gt (below token member), List.append_nil]
      rw [List.length_cons, respaced_cons, own, respaced_below fun token member => by rw [placed token member]; exact Nat.lt_succ_self line]
      rw [itemsFrom, respaced_line line text first here.symm, ih (line + 1) later behind.symm, List.map_append]

end Lines

theorem tokens_respaced (lines : List (List Char)) (tokens : List Token) (read : items lines = tokens.map .ok) :
    items (respaced lines.length tokens) = tokens.map .ok := by
  obtain ⟨ahead, here, rfl⟩ := tokens_of_items (read ▸ map_id_oks tokens)
  have same : respaced lines.length (ahead ++ [.finish lines.length]) = respacedFrom 1 lines.length ahead := by
    unfold respaced respacedFrom
    apply List.map_congr_left
    intro i _
    have ended : onLine (1 + i) [Token.finish lines.length] = [] := by simp [onLine, Token.finish, TokenKind.isFinish]
    rw [on_line_append, ended, List.append_nil]
  have count : (respacedFrom 1 lines.length ahead).length = lines.length := by simp [respacedFrom]
  have whole := scan_lines_items 0 (respacedFrom 1 lines.length ahead)
  rw [same, items, whole, respaced_lines 1 lines ahead here, count, Nat.zero_add, List.map_append]
  rfl

theorem tokens_respaced_condition :
    items ["if(a!=\"b c\")//d".toList, [], [' ', 'x']] =
      [⟨.keyword .if, "if", 1⟩, ⟨.symbol .leftParen, "(", 1⟩, ⟨.identifier, "a", 1⟩, ⟨.symbol .bangEqual, "!=", 1⟩,
        ⟨.string "b c", "\"b c\"", 1⟩, ⟨.symbol .rightParen, ")", 1⟩, ⟨.identifier, "x", 3⟩, Token.finish 3].map .ok ∧
    items ["if ( a != \"b c\" )".toList, [], ['x']] =
      [⟨.keyword .if, "if", 1⟩, ⟨.symbol .leftParen, "(", 1⟩, ⟨.identifier, "a", 1⟩, ⟨.symbol .bangEqual, "!=", 1⟩,
        ⟨.string "b c", "\"b c\"", 1⟩, ⟨.symbol .rightParen, ")", 1⟩, ⟨.identifier, "x", 3⟩, Token.finish 3].map .ok := by
  refine (and_iff_left_of_imp fun read => ?_).mpr rfl
  exact tokens_respaced _ _ read

end Lexer

end TreeWalk
