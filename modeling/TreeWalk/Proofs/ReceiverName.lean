import TreeWalk.Proofs.Lines
import TreeWalk.Syntax.Basic

set_option autoImplicit false

namespace TreeWalk

def receiverName : String :=
  "this"

structure Token.Proper (token : Token) : Prop where
  identifier : token.kind = .identifier → token.lexeme ≠ receiverName
  keyword : token.kind = .keyword .this → token.lexeme = receiverName

def Name.Proper (name : Name) : Prop :=
  name.text ≠ receiverName

mutual
def Expr.Proper : Expr → Prop
  | .literal _ _ => True
  | .grouping _ inner => inner.Proper
  | .unary _ _ right => right.Proper
  | .binary _ left _ right | .logical _ left _ right => left.Proper ∧ right.Proper
  | .ident _ name => name.Proper
  | .assign _ name value => name.Proper ∧ value.Proper
  | .call _ callee arguments _ => callee.Proper ∧ Expr.ProperAll arguments
  | .get _ object _ => object.Proper
  | .set _ object _ value => object.Proper ∧ value.Proper
  | .this _ name => name.text = receiverName

def Expr.ProperAll : List Expr → Prop
  | [] => True
  | e :: rest => e.Proper ∧ Expr.ProperAll rest
end

mutual
def Stmt.Proper : Stmt → Prop
  | .expression e => e.Proper
  | .var name none => name.Proper
  | .var name (some e) => name.Proper ∧ e.Proper
  | .block body => Stmt.ProperAll body
  | .branch condition body alternative => condition.Proper ∧ Stmt.ProperAll body ∧ alternative.Proper
  | .while condition body => condition.Proper ∧ Stmt.ProperAll body
  | .function routine => routine.Proper
  | .return _ none => True
  | .return _ (some e) => e.Proper
  | .class name methods => name.Proper ∧ Routine.ProperAll methods

def Alternative.Proper : Alternative → Prop
  | .none => True
  | .elseIf condition body alternative => condition.Proper ∧ Stmt.ProperAll body ∧ alternative.Proper
  | .block body => Stmt.ProperAll body

def Routine.Proper : Routine → Prop
  | ⟨name, parameters, body⟩ => name.Proper ∧ (∀ parameter ∈ parameters, parameter.Proper) ∧ Stmt.ProperAll body

def Stmt.ProperAll : List Stmt → Prop
  | [] => True
  | s :: rest => s.Proper ∧ Stmt.ProperAll rest

def Routine.ProperAll : List Routine → Prop
  | [] => True
  | method :: rest => method.Proper ∧ Routine.ProperAll rest
end

namespace Lexer

theorem word_kind_identifier (word : String) (plain : wordKind word = .identifier) : word ≠ receiverName := by
  rintro rfl
  have keyword : wordKind receiverName = .keyword .this := rfl
  rw [keyword] at plain
  contradiction

theorem word_kind_this (word : String) (keyword : wordKind word = .keyword .this) : word = receiverName := by
  unfold wordKind at keyword
  cases found : Keyword.ofText? word with
  | none => simp [found] at keyword
  | some k =>
      have same : k = .this := by simpa [found] using keyword
      have spelt := List.find?_some found
      subst same
      exact (beq_iff_eq.mp spelt).symm

theorem match_at_word (first : Char) (rest : List Char) (kind : TokenKind) (width : Nat)
    (matched : matchAt first rest = .token kind width)
    (wordly : kind = .identifier ∨ ∃ keyword, kind = .keyword keyword) :
    matchWord (first :: rest) = .token kind width := by
  unfold matchAt at matched
  split at matched
  · simp only [matchString] at matched
    split at matched
    · cases matched; rcases wordly with plain | ⟨_, keyword⟩ <;> contradiction
    · cases matched
  · split at matched
    · simp only [matchNumber] at matched
      split at matched
      · split at matched <;> cases matched <;> rcases wordly with plain | ⟨_, keyword⟩ <;> contradiction
      · cases matched; rcases wordly with plain | ⟨_, keyword⟩ <;> contradiction
    · split at matched
      · exact matched
      · unfold matchSymbol at matched
        split at matched
        · cases matched; rcases wordly with plain | ⟨_, keyword⟩ <;> contradiction
        · split at matched
          · cases matched; rcases wordly with plain | ⟨_, keyword⟩ <;> contradiction
          · cases matched

theorem take_take_while (p : Char → Bool) (text : List Char) :
    text.take (text.takeWhile p).length = text.takeWhile p :=
  (List.prefix_iff_eq_take.mp (List.takeWhile_prefix p)).symm

theorem item_proper (line : Nat) (first : Char) (rest : List Char) (token : Token)
    (read : item line (first :: rest) (matchAt first rest) = .ok token) : token.Proper := by
  cases matched : matchAt first rest with
  | nothing width => simp [matched, item] at read
  | token kind width =>
      have spelt : ∀ wordly : kind = .identifier ∨ ∃ keyword, kind = .keyword keyword,
          ∃ word, kind = wordKind word ∧ token.lexeme = word := by
        intro wordly
        have word := match_at_word first rest kind width matched wordly
        simp only [matchWord, Match.token.injEq] at word
        rw [matched] at read
        simp only [item, Except.ok.injEq] at read
        refine ⟨_, word.1.symm, ?_⟩
        rw [← read, ← word.2, take_take_while]
      have kinds : token.kind = kind := by
        rw [matched] at read
        simp only [item, Except.ok.injEq] at read
        rw [← read]
      constructor
      · intro plain
        rw [kinds] at plain
        obtain ⟨word, named, lexeme⟩ := spelt (.inl plain)
        rw [lexeme]
        exact word_kind_identifier word (named.symm.trans plain)
      · intro keyword
        rw [kinds] at keyword
        obtain ⟨word, named, lexeme⟩ := spelt (.inr ⟨.this, keyword⟩)
        rw [lexeme]
        exact word_kind_this word (named.symm.trans keyword)

theorem scan_proper (line skip : Nat) (text : List Char) (token : Token)
    (member : .ok token ∈ scan line skip text) : token.Proper :=
  scan_tokens item_proper line skip text token member

theorem scan_lines_proper (line : Nat) (texts : List (List Char)) (token : Token)
    (member : .ok token ∈ scanLines line texts) : token.Proper := by
  induction texts generalizing line with
  | nil =>
      have ended : token = .finish (line - 1) := by simpa [scanLines] using member
      subst ended
      exact ⟨by simp [Token.finish], by simp [Token.finish]⟩
  | cons text rest ih =>
      rcases List.mem_append.mp (by simpa only [scanLines] using member) with here | later
      · exact scan_proper line 0 _ token here
      · exact ih (line + 1) later

end Lexer

theorem tokenize_proper (source : String) (tokens : List Token) (read : tokenize source = .ok tokens)
    (token : Token) (member : token ∈ tokens) : token.Proper := by
  apply Lexer.scan_lines_proper 1 (Text.lines source.toList) token
  rw [show Lexer.scanLines 1 (Text.lines source.toList) = _ from oks_of_map_id _ tokens read]
  exact List.mem_map_of_mem member

end TreeWalk
