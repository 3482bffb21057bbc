import Mathlib.Data.List.TakeWhile
import TreeWalk.Proofs.ReceiverName

set_option autoImplicit false

namespace TreeWalk

namespace Lexer

-- A word is an identifier unless it is spelt like a keyword as a whole.
inductive Lexeme : List Char → TokenKind → Prop where
  | symbol (s : Symbol) : Lexeme s.text.toList (.symbol s)
  | keyword (k : Keyword) : Lexeme k.text.toList (.keyword k)
  | identifier (first : Char) (parts : List Char) (letter : first.isAlpha = true)
      (word : ∀ c ∈ parts, isWordPart c = true) (plain : ∀ k : Keyword, k.text.toList ≠ first :: parts) :
      Lexeme (first :: parts) .identifier
  | string (contents : List Char) (unquoted : '"' ∉ contents) :
      Lexeme ('"' :: contents ++ ['"']) (.string (String.ofList contents))
  | whole (digits : List Char) (nonempty : digits ≠ []) (decimal : ∀ c ∈ digits, c.isDigit = true) :
      Lexeme digits (.number (numberValue digits []))
  | fraction (whole fraction : List Char) (nonempty : whole ≠ []) (behind : fraction ≠ [])
      (decimal : ∀ c ∈ whole ++ fraction, c.isDigit = true) :
      Lexeme (whole ++ '.' :: fraction) (.number (numberValue whole fraction))

-- Among all the lexemes that `rest` begins with.
def Longest (rest lexeme : List Char) (kind : TokenKind) : Prop :=
  lexeme <+: rest ∧ Lexeme lexeme kind ∧
    ∀ other kind', other <+: rest → Lexeme other kind' → other.length ≤ lexeme.length

section Spelling

theorem single_text (c : Char) (s : Symbol) : Symbol.single? c = some s ↔ s.text.toList = [c] := by
  constructor
  · intro found
    unfold Symbol.single? at found
    split at found <;> cases found <;> rfl
  · intro spelt
    cases s <;> simp [Symbol.text] at spelt <;> subst spelt <;> rfl

theorem double_text (c d : Char) (s : Symbol) : Symbol.double? c d = some s ↔ s.text.toList = [c, d] := by
  constructor
  · intro found
    unfold Symbol.double? at found
    split at found <;> cases found <;> rfl
  · intro spelt
    cases s <;> simp [Symbol.text] at spelt <;> obtain ⟨rfl, rfl⟩ := spelt <;> rfl

theorem symbol_characters (s : Symbol) :
    (∃ c, s.text.toList = [c]) ∨ ∃ c d, s.text.toList = [c, d] := by
  cases s <;> first | exact .inl ⟨_, rfl⟩ | exact .inr ⟨_, _, rfl⟩

theorem symbol_first (s : Symbol) (first : Char) (rest : List Char) (spelt : s.text.toList = first :: rest) :
    first ≠ '"' ∧ first.isDigit = false ∧ first.isAlpha = false ∧ isSpace first = false := by
  cases s <;> simp only [Symbol.text] at spelt <;> cases spelt <;> decide

theorem keyword_word (k : Keyword) : ∃ first parts, k.text.toList = first :: parts ∧ first.isAlpha = true ∧
    ∀ c ∈ parts, isWordPart c = true := by
  cases k <;> exact ⟨_, _, rfl, by decide, List.all_eq_true.mp (by decide)⟩

theorem space_first (c : Char) (space : isSpace c = true) :
    c.isAlpha = false ∧ c.isDigit = false ∧ c ≠ '"' := by
  simp only [isSpace, Bool.or_eq_true, beq_iff_eq] at space
  rcases space with (((rfl | rfl) | rfl) | rfl) | rfl <;> decide

theorem letter_code (c : Char) (letter : c.isAlpha = true) : 65 ≤ c.val.toNat := by
  rcases Bool.or_eq_true_iff.mp letter with upper | lower
  · exact UInt32.le_iff_toNat_le.mp (of_decide_eq_true upper).1
  · exact Nat.le_trans (by decide) (UInt32.le_iff_toNat_le.mp (of_decide_eq_true (Bool.and_eq_true_iff.mp lower).1))

theorem digit_code (c : Char) (digit : c.isDigit = true) : c.val.toNat ≤ 57 :=
  UInt32.le_iff_toNat_le.mp (of_decide_eq_true (Bool.and_eq_true_iff.mp digit).2)

theorem letter_first (c : Char) (letter : c.isAlpha = true) :
    c ≠ '"' ∧ c.isDigit = false ∧ isSpace c = false ∧ isWordPart c = true := by
  refine ⟨?_, ?_, ?_, ?_⟩
  · rintro rfl
    simp at letter
  · cases digit : c.isDigit with
    | false => rfl
    | true =>
        have above := letter_code c letter
        have below := digit_code c digit
        omega
  · cases space : isSpace c with
    | false => rfl
    | true => exact absurd letter (by simp [(space_first c space).1])
  · simp [isWordPart, Char.isAlphanum, letter]

theorem digit_first (c : Char) (digit : c.isDigit = true) : c ≠ '"' ∧ isSpace c = false := by
  constructor
  · rintro rfl
    simp at digit
  · cases space : isSpace c with
    | false => rfl
    | true => exact absurd digit (by simp [(space_first c space).2.1])

theorem word_kind_keyword (k : Keyword) : wordKind k.text = .keyword k := by
  cases k <;> rfl

theorem word_kind_plain (word : List Char) (plain : ∀ k : Keyword, k.text.toList ≠ word) :
    wordKind (String.ofList word) = .identifier := by
  unfold wordKind
  cases found : Keyword.ofText? (String.ofList word) with
  | none => rfl
  | some k =>
      have same := List.find?_some found
      have spelt : k.text = String.ofList word := beq_iff_eq.mp same
      exact absurd (by rw [spelt, String.toList_ofList]) (plain k)

theorem word_kind_lexeme (first : Char) (parts : List Char) (letter : first.isAlpha = true)
    (word : ∀ c ∈ parts, isWordPart c = true) :
    Lexeme (first :: parts) (wordKind (String.ofList (first :: parts))) := by
  by_cases reserved : ∃ k : Keyword, k.text.toList = first :: parts
  · obtain ⟨k, spelt⟩ := reserved
    rw [← spelt, String.ofList_toList, word_kind_keyword]
    exact .keyword k
  · have plain : ∀ k : Keyword, k.text.toList ≠ first :: parts := fun k spelt => reserved ⟨k, spelt⟩
    rw [word_kind_plain _ plain]
    exact .identifier first parts letter word plain

end Spelling

section Rules

def Match.Finds (text : List Char) : Match → Prop
  | token kind width => ∃ lexeme, lexeme <+: text ∧ lexeme.length = width ∧ Lexeme lexeme kind
  | nothing _ => True

def Match.Takes (lexeme : List Char) (kind : TokenKind) : Match → Prop
  | token found width => lexeme.length ≤ width ∧ (lexeme.length = width → kind = found)
  | nothing _ => False

theorem take_while_stops {p : Char → Bool} (taken : List Char) (c : Char) (rest : List Char)
    (all : ∀ d ∈ taken, p d = true) (stop : p c = false) : (taken ++ c :: rest).takeWhile p = taken := by
  rw [List.takeWhile_append_of_pos all, List.takeWhile_cons_of_neg (by simp [stop]), List.append_nil]

theorem take_while_longest {p : Char → Bool} (taken text : List Char) (begins : taken <+: text)
    (all : ∀ d ∈ taken, p d = true) : taken <+: text.takeWhile p := by
  obtain ⟨rest, rfl⟩ := begins
  rw [List.takeWhile_append_of_pos all]
  exact List.prefix_append taken _

theorem take_while_all {p : Char → Bool} (text : List Char) : ∀ c ∈ text.takeWhile p, p c = true :=
  fun _ member => List.mem_takeWhile_imp member

theorem take_while_split (p : Char → Bool) (text : List Char) :
    text.takeWhile p = text ∨ ∃ c rest, text = text.takeWhile p ++ c :: rest ∧ p c = false := by
  induction text with
  | nil => exact .inl rfl
  | cons c rest ih =>
      cases here : p c with
      | false => exact .inr ⟨c, rest, by rw [List.takeWhile_cons_of_neg (by simp [here]), List.nil_append], here⟩
      | true =>
          rw [List.takeWhile_cons_of_pos here]
          rcases ih with all | ⟨d, later, same, stop⟩
          · exact .inl (by rw [all])
          · exact .inr ⟨d, later, by rw [List.cons_append, ← same], stop⟩

theorem match_string_finds (rest : List Char) : (matchString rest).Finds ('"' :: rest) := by
  unfold matchString
  dsimp only
  split
  · rename_i shorter
    rcases take_while_split (· != '"') rest with all | ⟨c, later, same, stop⟩
    · rw [all] at shorter
      exact absurd shorter (Nat.lt_irrefl _)
    · have quote : c = '"' := by simpa using stop
      subst quote
      refine ⟨'"' :: rest.takeWhile (· != '"') ++ ['"'], ⟨later, ?_⟩, by simp, .string _ fun inside => ?_⟩
      · rw [List.append_assoc, List.singleton_append, List.cons_append, ← same]
      · simpa using take_while_all rest _ inside
  · trivial

theorem match_string_takes (rest contents : List Char) (begins : contents ++ ['"'] <+: rest)
    (unquoted : '"' ∉ contents) :
    (matchString rest).Takes ('"' :: contents ++ ['"']) (.string (String.ofList contents)) := by
  obtain ⟨later, rfl⟩ := begins
  have read : (contents ++ '"' :: later).takeWhile (· != '"') = contents := by
    refine take_while_stops contents '"' later (fun d member => ?_) (by simp)
    simpa using fun (same : d = '"') => unquoted (same ▸ member)
  unfold matchString
  rw [List.append_assoc, List.singleton_append]
  dsimp only
  rw [read, if_pos (by simp)]
  exact ⟨by simp, fun _ => rfl⟩

theorem match_number_finds (first : Char) (rest : List Char) (digit : first.isDigit = true) :
    (matchNumber (first :: rest)).Finds (first :: rest) := by
  have nonempty : (first :: rest).takeWhile Char.isDigit ≠ [] := by simp [List.takeWhile_cons_of_pos digit]
  have whole := Lexeme.whole _ nonempty (take_while_all (first :: rest))
  have begins := List.takeWhile_prefix (l := first :: rest) Char.isDigit
  unfold matchNumber
  dsimp only
  split
  · rename_i later point
    split
    · exact ⟨_, begins, rfl, whole⟩
    · rename_i behind
      have parts := List.prefix_iff_eq_append.mp begins
      rw [point] at parts
      refine ⟨(first :: rest).takeWhile Char.isDigit ++ '.' :: later.takeWhile Char.isDigit, ?_, ?_, ?_⟩
      · rw [← parts, take_while_stops _ '.' later (take_while_all _) rfl, List.prefix_append_right_inj]
        exact List.cons_prefix_cons.mpr ⟨rfl, List.takeWhile_prefix _⟩
      · rw [List.length_append, List.length_cons, Nat.add_assoc, Nat.add_comm 1]
      · refine .fraction _ _ nonempty (by simpa using behind) fun c member => ?_
        rcases List.mem_append.mp member with inside | inside
        · exact take_while_all _ c inside
        · exact take_while_all _ c inside
  · exact ⟨_, begins, rfl, whole⟩

theorem match_number_takes_whole (text digits : List Char) (begins : digits <+: text)
    (decimal : ∀ c ∈ digits, c.isDigit = true) :
    (matchNumber text).Takes digits (.number (numberValue digits [])) := by
  have longest := take_while_longest digits text begins decimal
  have bound := longest.length_le
  have alone : ∀ width, width = (text.takeWhile Char.isDigit).length →
      Match.Takes digits (.number (numberValue digits []))
        (.token (.number (numberValue (text.takeWhile Char.isDigit) [])) width) := by
    rintro width rfl
    exact ⟨bound, fun same => by rw [← longest.eq_of_length same]⟩
  unfold matchNumber
  dsimp only
  split
  · split
    · exact alone _ rfl
    · exact ⟨by omega, fun same => by omega⟩
  · exact alone _ rfl

theorem match_number_takes_fraction (text whole fraction : List Char) (begins : whole ++ '.' :: fraction <+: text)
    (behind : fraction ≠ []) (decimal : ∀ c ∈ whole ++ fraction, c.isDigit = true) :
    (matchNumber text).Takes (whole ++ '.' :: fraction) (.number (numberValue whole fraction)) := by
  obtain ⟨later, rfl⟩ := begins
  rw [List.append_assoc, List.cons_append]
  have read : (whole ++ '.' :: (fraction ++ later)).takeWhile Char.isDigit = whole :=
    take_while_stops whole '.' _ (fun c member => decimal c (List.mem_append_left _ member)) rfl
  have longest := take_while_longest fraction (fraction ++ later) (List.prefix_append _ _)
    fun c member => decimal c (List.mem_append_right _ member)
  have bound := longest.length_le
  have some : (fraction ++ later).takeWhile Char.isDigit ≠ [] := fun none =>
    behind (List.prefix_nil.mp (none ▸ longest))
  unfold matchNumber
  dsimp only
  rw [read, List.drop_left]
  show Match.Takes _ _ (if _ then _ else _)
  rw [if_neg (by simpa using some)]
  refine ⟨by simp; omega, fun same => ?_⟩
  have equal : fraction.length = ((fraction ++ later).takeWhile Char.isDigit).length := by simp at same; omega
  rw [← longest.eq_of_length equal]

theorem match_word_finds (first : Char) (rest : List Char) (letter : first.isAlpha = true) :
    (matchWord (first :: rest)).Finds (first :: rest) := by
  have word : (first :: rest).takeWhile isWordPart = first :: rest.takeWhile isWordPart :=
    List.takeWhile_cons_of_pos (letter_first first letter).2.2.2
  have begins := List.takeWhile_prefix (l := first :: rest) isWordPart
  unfold matchWord
  refine ⟨_, begins, rfl, ?_⟩
  rw [word]
  exact word_kind_lexeme first _ letter (take_while_all rest)

theorem match_word_takes (text : List Char) (first : Char) (parts : List Char) (begins : first :: parts <+: text)
    (letter : first.isAlpha = true) (word : ∀ c ∈ parts, isWordPart c = true) :
    (matchWord text).Takes (first :: parts) (wordKind (String.ofList (first :: parts))) := by
  have longest := take_while_longest (p := isWordPart) (first :: parts) text begins fun c member => by
    rcases List.mem_cons.mp member with rfl | inside
    · exact (letter_first _ letter).2.2.2
    · exact word c inside
  unfold matchWord
  exact ⟨longest.length_le, fun same => by rw [longest.eq_of_length same]⟩

theorem match_symbol_finds (first : Char) (rest : List Char) : (matchSymbol first rest).Finds (first :: rest) := by
  unfold matchSymbol
  split
  · rename_i s found
    cases rest with
    | nil => simp at found
    | cons second later =>
        have spelt := (double_text first second s).mp (by simpa using found)
        exact ⟨_, ⟨later, by rw [spelt]; rfl⟩, by rw [spelt]; rfl, .symbol s⟩
  · split
    · rename_i s found
      have spelt := (single_text first s).mp found
      exact ⟨_, ⟨rest, by rw [spelt]; rfl⟩, by rw [spelt]; rfl, .symbol s⟩
    · trivial

theorem match_symbol_takes (first : Char) (rest : List Char) (s : Symbol) (begins : s.text.toList <+: first :: rest) :
    (matchSymbol first rest).Takes s.text.toList (.symbol s) := by
  obtain ⟨later, same⟩ := begins
  rcases symbol_characters s with ⟨c, spelt⟩ | ⟨c, d, spelt⟩
  · rw [spelt, List.cons_append] at same
    obtain ⟨rfl, -⟩ := List.cons.inj same
    have single := (single_text c s).mpr spelt
    unfold matchSymbol
    rw [spelt, single]
    split
    · exact ⟨by simp, fun same => by simp at same⟩
    · exact ⟨by simp, fun _ => rfl⟩
  · rw [spelt, List.cons_append, List.cons_append, List.nil_append] at same
    obtain ⟨rfl, rfl⟩ := List.cons.inj same
    have double := (double_text c d s).mpr spelt
    unfold matchSymbol
    simp only [spelt, List.head?_cons, Option.bind_some, double]
    exact ⟨by simp, fun _ => rfl⟩

end Rules

section Position

theorem match_at_finds (first : Char) (rest : List Char) : (matchAt first rest).Finds (first :: rest) := by
  unfold matchAt
  split
  · rename_i quote
    rw [beq_iff_eq.mp quote]
    exact match_string_finds rest
  · split
    · rename_i digit
      exact match_number_finds first rest digit
    · split
      · rename_i letter
        exact match_word_finds first rest letter
      · exact match_symbol_finds first rest

theorem match_at_digit (first : Char) (rest : List Char) (digit : first.isDigit = true) :
    matchAt first rest = matchNumber (first :: rest) := by
  simp [matchAt, (digit_first first digit).1, digit]

theorem match_at_letter (first : Char) (rest : List Char) (letter : first.isAlpha = true) :
    matchAt first rest = matchWord (first :: rest) := by
  obtain ⟨unquoted, nondigit, _⟩ := letter_first first letter
  simp [matchAt, unquoted, nondigit, letter]

theorem prefix_first {c first : Char} {later rest : List Char} (begins : c :: later <+: first :: rest) : c = first :=
  (List.cons_prefix_cons.mp begins).1

theorem match_at_takes (first : Char) (rest lexeme : List Char) (kind : TokenKind) (begins : lexeme <+: first :: rest)
    (is : Lexeme lexeme kind) : (matchAt first rest).Takes lexeme kind := by
  cases is with
  | symbol s =>
      obtain ⟨c, later, spelt⟩ : ∃ c later, s.text.toList = c :: later := by
        rcases symbol_characters s with ⟨c, spelt⟩ | ⟨c, d, spelt⟩ <;> exact ⟨_, _, spelt⟩
      have same := prefix_first (spelt ▸ begins)
      obtain ⟨unquoted, nondigit, nonletter, _⟩ := symbol_first s first later (same ▸ spelt)
      have rule : matchAt first rest = matchSymbol first rest := by simp [matchAt, unquoted, nondigit, nonletter]
      rw [rule]
      exact match_symbol_takes first rest s begins
  | keyword k =>
      obtain ⟨c, parts, spelt, letter, word⟩ := keyword_word k
      have same := prefix_first (spelt ▸ begins)
      have kind : TokenKind.keyword k = wordKind (String.ofList (c :: parts)) := by
        rw [← spelt, String.ofList_toList, word_kind_keyword]
      rw [match_at_letter first rest (same ▸ letter), spelt, kind]
      exact match_word_takes _ c parts (spelt ▸ begins) letter word
  | identifier c parts letter word plain =>
      have same := prefix_first begins
      rw [match_at_letter first rest (same ▸ letter), ← word_kind_plain _ plain]
      exact match_word_takes _ c parts begins letter word
  | string contents unquoted =>
      have same := prefix_first begins
      subst same
      have rule : matchAt '"' rest = matchString rest := by simp [matchAt]
      rw [rule]
      exact match_string_takes rest contents (List.cons_prefix_cons.mp begins).2 unquoted
  | whole digits nonempty decimal =>
      cases lexeme with
      | nil => exact absurd rfl nonempty
      | cons c later =>
          have same := prefix_first begins
          rw [match_at_digit first rest (same ▸ decimal c List.mem_cons_self)]
          exact match_number_takes_whole _ _ begins decimal
  | fraction whole fraction nonempty behind decimal =>
      cases whole with
      | nil => exact absurd rfl nonempty
      | cons c later =>
          have same := prefix_first begins
          rw [match_at_digit first rest (same ▸ decimal c List.mem_cons_self)]
          exact match_number_takes_fraction _ _ _ begins behind decimal

theorem lexeme_first (c : Char) (rest : List Char) (kind : TokenKind) (is : Lexeme (c :: rest) kind) :
    isSpace c = false := by
  generalize spelt : c :: rest = lexeme at is
  cases is with
  | symbol s => exact (symbol_first s c rest spelt.symm).2.2.2
  | keyword k =>
      obtain ⟨first, parts, same, letter, _⟩ := keyword_word k
      rw [same] at spelt
      cases spelt
      exact (letter_first c letter).2.2.1
  | identifier first parts letter _ _ =>
      cases spelt
      exact (letter_first c letter).2.2.1
  | string contents _ =>
      cases spelt
      rfl
  | whole digits _ decimal => exact (digit_first c (decimal c (spelt ▸ List.mem_cons_self))).2
  | fraction whole fraction nonempty _ decimal =>
      cases whole with
      | nil => exact absurd rfl nonempty
      | cons first later =>
          cases spelt
          exact (digit_first c (decimal c List.mem_cons_self)).2

theorem lexeme_nonempty (kind : TokenKind) : ¬ Lexeme [] kind := by
  intro is
  generalize spelt : ([] : List Char) = lexeme at is
  cases is with
  | symbol s => rcases symbol_characters s with ⟨_, same⟩ | ⟨_, _, same⟩ <;> rw [same] at spelt <;> cases spelt
  | keyword k =>
      obtain ⟨_, _, same, _⟩ := keyword_word k
      rw [same] at spelt
      cases spelt
  | identifier _ _ _ _ _ => cases spelt
  | string _ _ => cases spelt
  | whole digits nonempty _ => exact nonempty spelt.symm
  | fraction whole fraction _ _ _ => simp at spelt

theorem match_at_longest (first : Char) (rest lexeme : List Char) (kind : TokenKind) :
    Longest (first :: rest) lexeme kind ↔
      lexeme <+: first :: rest ∧ matchAt first rest = .token kind lexeme.length := by
  have finds := match_at_finds first rest
  constructor
  · rintro ⟨begins, is, longest⟩
    refine ⟨begins, ?_⟩
    have takes := match_at_takes first rest lexeme kind begins is
    cases matched : matchAt first rest with
    | nothing width => rw [matched] at takes; exact takes.elim
    | token found width =>
        rw [matched] at takes finds
        obtain ⟨other, stands, rfl, also⟩ := finds
        have same := Nat.le_antisymm takes.1 (longest other found stands also)
        rw [same, takes.2 same]
  · rintro ⟨begins, matched⟩
    rw [matched] at finds
    obtain ⟨other, stands, same, also⟩ := finds
    have equal : other = lexeme :=
      (List.prefix_of_prefix_length_le stands begins (Nat.le_of_eq same)).eq_of_length same
    subst equal
    refine ⟨begins, also, fun longer kind' here is => ?_⟩
    have takes := match_at_takes first rest longer kind' here is
    rw [matched] at takes
    exact takes.1

theorem match_at_nothing (first : Char) (rest : List Char) :
    (∃ width, matchAt first rest = .nothing width) ↔
      ∀ lexeme kind, lexeme <+: first :: rest → ¬ Lexeme lexeme kind := by
  constructor
  · rintro ⟨width, matched⟩ lexeme kind begins is
    have takes := match_at_takes first rest lexeme kind begins is
    rw [matched] at takes
    exact takes
  · intro none
    have finds := match_at_finds first rest
    cases matched : matchAt first rest with
    | nothing width => exact ⟨width, rfl⟩
    | token kind width =>
        rw [matched] at finds
        obtain ⟨lexeme, begins, _, is⟩ := finds
        exact absurd is (none lexeme kind begins)

theorem match_at_nothing_width (first : Char) (rest : List Char) (width : Nat)
    (matched : matchAt first rest = .nothing width) :
    width = if first = '"' then (first :: rest).length else 1 := by
  unfold matchAt at matched
  split at matched
  · rename_i quote
    rw [if_pos (beq_iff_eq.mp quote)]
    unfold matchString at matched
    dsimp only at matched
    split at matched <;> cases matched
    rfl
  · rename_i unquoted
    rw [if_neg (by simpa using unquoted)]
    split at matched
    · simp only [matchNumber] at matched
      split at matched
      · split at matched <;> cases matched
      · cases matched
    · split at matched
      · cases matched
      · unfold matchSymbol at matched
        split at matched
        · cases matched
        · split at matched <;> cases matched
          rfl

end Position

end Lexer

end TreeWalk
