import TreeWalk.Proofs.Octets
import TreeWalk.Proofs.Pieces

set_option autoImplicit false

namespace TreeWalk

namespace Octets

open String (utf8Len utf8EncodeChar)

section Characters

theorem octets_of_list (text : List Char) : octets (String.ofList text) = text.flatMap utf8EncodeChar := by
  simp [octets, String.toByteArray_ofList, List.utf8Encode]

theorem flat_map_length (text : List Char) : (text.flatMap utf8EncodeChar).length = utf8Len text := by
  induction text with
  | nil => rfl
  | cons c rest ih => simp [String.length_utf8EncodeChar, ih, Nat.add_comm]

theorem character_code (octet : UInt8) : (character octet).toNat = octet.toNat := by
  have valid : octet.toNat.isValidChar := .inl (by have := octet.toNat_lt; omega)
  unfold character Char.ofNat
  rw [dif_pos valid]
  rfl

theorem low_octets (c : Char) (low : c.toNat < 128) : ∃ octet, utf8EncodeChar c = [octet] ∧ character octet = c := by
  have code : c.val.toNat ≤ 127 := Nat.le_of_lt_succ low
  refine ⟨UInt8.ofNat c.toNat, ?_, ?_⟩
  · unfold utf8EncodeChar
    exact if_pos code
  · have kept : (UInt8.ofNat c.toNat).toNat = c.toNat := by simp; omega
    unfold character
    rw [kept, Char.ofNat_toNat]

theorem high_octets (c : Char) (high : 128 ≤ c.toNat) :
    utf8EncodeChar c ≠ [] ∧ ∀ octet ∈ utf8EncodeChar c, 128 ≤ (character octet).toNat := by
  have code : ¬ c.val.toNat ≤ 127 := Nat.not_le_of_lt high
  have bound : ∀ n, 128 ≤ n → n < 256 → 128 ≤ (character (UInt8.ofNat n)).toNat := by
    intro n above below
    rw [character_code]
    simp
    omega
  unfold utf8EncodeChar
  dsimp only
  rw [if_neg code]
  split
  · simp only [List.forall_mem_cons]
    refine ⟨by simp, bound _ (by omega) (by omega), bound _ (by omega) (by omega), by simp⟩
  · split
    · simp only [List.forall_mem_cons]
      refine ⟨by simp, bound _ (by omega) (by omega), bound _ (by omega) (by omega), bound _ (by omega) (by omega),
        by simp⟩
    · simp only [List.forall_mem_cons]
      refine ⟨by simp, bound _ (by omega) (by omega), bound _ (by omega) (by omega), bound _ (by omega) (by omega),
        bound _ (by omega) (by omega), by simp⟩

def Low (is : Char → Bool) : Prop :=
  ∀ c, is c = true → c.toNat < 128

theorem low_fails {is : Char → Bool} (low : Low is) (c : Char) (high : 128 ≤ c.toNat) : is c = false := by
  cases holds : is c with
  | false => rfl
  | true => exact absurd (low c holds) (Nat.not_lt_of_le high)

theorem low_first {is : Char → Bool} (low : Low is) (c : Char) :
    ∃ octet more, utf8EncodeChar c = octet :: more ∧ is (character octet) = is c := by
  by_cases ascii : c.toNat < 128
  · obtain ⟨octet, alone, same⟩ := low_octets c ascii
    exact ⟨octet, [], alone, by rw [same]⟩
  · obtain ⟨some, high⟩ := high_octets c (Nat.le_of_not_lt ascii)
    obtain ⟨octet, more, parts⟩ := List.exists_cons_of_ne_nil some
    refine ⟨octet, more, parts, ?_⟩
    rw [low_fails low c (Nat.le_of_not_lt ascii), low_fails low _ (high octet (by rw [parts]; exact List.mem_cons_self))]

theorem low_char (c : Char) (low : c.toNat < 128) : Low (· == c) := by
  intro d same
  rwa [beq_iff_eq.mp same]

theorem low_digit : Low Char.isDigit := fun c digit =>
  Nat.lt_of_le_of_lt (Lexer.digit_code c digit) (by decide)

theorem low_alpha : Low Char.isAlpha := by
  intro c letter
  rcases Bool.or_eq_true_iff.mp letter with upper | lower
  · exact Nat.lt_of_le_of_lt (UInt32.le_iff_toNat_le.mp (of_decide_eq_true upper).2) (by decide)
  · exact Nat.lt_of_le_of_lt (UInt32.le_iff_toNat_le.mp (of_decide_eq_true (Bool.and_eq_true_iff.mp lower).2)) (by decide)

theorem low_word : Low Lexer.isWordPart := by
  intro c part
  rcases Bool.or_eq_true_iff.mp part with alphanumeric | underscore
  · rcases Bool.or_eq_true_iff.mp alphanumeric with letter | digit
    · exact low_alpha c letter
    · exact low_digit c digit
  · exact low_char '_' (by decide) c underscore

theorem low_space : Low Lexer.isSpace := by
  intro c space
  simp only [Lexer.isSpace, Bool.or_eq_true, beq_iff_eq] at space
  rcases space with (((rfl | rfl) | rfl) | rfl) | rfl <;> decide

end Characters

section Texts

theorem between_list (before after : List Char) : Between (String.ofList (before ++ after)) (utf8Len before) := by
  refine String.Pos.Raw.isValid_iff_exists_append.mpr ⟨String.ofList before, String.ofList after, ?_, ?_⟩
  · rw [String.ofList_append]
  · exact String.Pos.Raw.ext (String.utf8ByteSize_ofList before).symm

theorem slice_list (before text after : List Char) :
    slice (String.ofList (before ++ text ++ after)) (utf8Len before) (utf8Len (before ++ text)) =
      .ok (String.ofList text) := by
  have first : Between (String.ofList (before ++ text ++ after)) (utf8Len before) := by
    rw [List.append_assoc]
    exact between_list before (text ++ after)
  unfold slice
  rw [if_pos ⟨by rw [String.utf8Len_append]; omega, first, between_list (before ++ text) after⟩, String.utf8Len_append,
    String.extract_of_valid]

theorem octets_length (text : List Char) : (octets (String.ofList text)).length = utf8Len text := by
  rw [octets_of_list, flat_map_length]

theorem octets_drop (before after : List Char) :
    (octets (String.ofList (before ++ after))).drop (utf8Len before) = after.flatMap utf8EncodeChar := by
  rw [octets_of_list, List.flatMap_append, ← flat_map_length, List.drop_left]

theorem octets_get (before after : List Char) (i : Nat) :
    (octets (String.ofList (before ++ after)))[utf8Len before + i]? = (after.flatMap utf8EncodeChar)[i]? := by
  rw [← octets_drop before after, List.getElem?_drop]

end Texts

def placed (before taken rest : List Char) : Place :=
  ⟨String.ofList (before ++ taken ++ rest), utf8Len before, utf8Len (before ++ taken)⟩

section Places

variable (before taken rest : List Char)

theorem size_placed : (placed before taken rest).size = utf8Len (before ++ taken ++ rest) :=
  octets_length _

theorem slice_placed : slice (placed before taken rest).text (placed before taken rest).start (placed before taken rest).curr =
    .ok (String.ofList taken) :=
  slice_list before taken rest

theorem move_placed (more : List Char) :
    (placed before taken (more ++ rest)).moveTo (utf8Len (before ++ (taken ++ more))) =
      .ok (placed before (taken ++ more) rest) := by
  unfold Place.moveTo
  rw [if_pos]
  · simp [placed, List.append_assoc]
  · rw [size_placed]
    simp only [placed, String.utf8Len_append]
    omega

theorem peek_placed {is : Char → Bool} (low : Low is) (no : is (character 0) = false) :
    is (placed before taken rest).peek = rest.head?.any is := by
  have there : (octets (placed before taken rest).text)[(placed before taken rest).curr]? =
      (rest.flatMap utf8EncodeChar)[0]? := octets_get (before ++ taken) rest 0
  unfold Place.peek
  rw [there]
  cases rest with
  | nil => exact no
  | cons c rest =>
      obtain ⟨octet, more, parts, same⟩ := low_first low c
      simpa [parts] using same

theorem peek_next_placed {is : Char → Bool} (low : Low is) (no : is (character 0) = false) (c : Char) (ascii : c.toNat < 128) :
    is (placed before taken (c :: rest)).peekNext = rest.head?.any is := by
  obtain ⟨octet, alone, -⟩ := low_octets c ascii
  have there : (octets (placed before taken (c :: rest)).text)[(placed before taken (c :: rest)).curr + 1]? =
      (rest.flatMap utf8EncodeChar)[0]? := by
    refine (octets_get (before ++ taken) (c :: rest) 1).trans ?_
    simp [alone]
  unfold Place.peekNext
  rw [there]
  cases rest with
  | nil => exact no
  | cons c rest =>
      obtain ⟨octet, more, parts, same⟩ := low_first low c
      simpa [parts] using same

theorem advance_placed (c : Char) (ascii : c.toNat < 128) :
    (placed before taken (c :: rest)).advance = .ok (c, placed before (taken ++ [c]) rest) := by
  obtain ⟨octet, alone, same⟩ := low_octets c ascii
  have there : (octets (placed before taken (c :: rest)).text)[(placed before taken (c :: rest)).curr]? = some octet := by
    refine (octets_get (before ++ taken) (c :: rest) 0).trans ?_
    simp [alone]
  have next : (placed before taken (c :: rest)).curr + 1 = utf8Len (before ++ (taken ++ [c])) := by
    have one : c.utf8Size = 1 := by rw [← String.length_utf8EncodeChar, alone]; rfl
    simp [placed, String.utf8Len_append, one, Nat.add_assoc]
  unfold Place.advance
  rw [there]
  dsimp only
  rw [next, show c :: rest = [c] ++ rest from rfl, move_placed, same]
  rfl

theorem advance_while_placed {is : Char → Bool} (low : Low is) (no : is (character 0) = false) :
    (placed before taken rest).advanceWhile is =
      .ok (placed before (taken ++ rest.takeWhile is) (rest.dropWhile is)) := by
  induction rest generalizing taken with
  | nil =>
      rw [Place.advance_while_stop (peek_placed before taken [] low no)]
      simp
  | cons c rest ih =>
      have peeked := peek_placed before taken (c :: rest) low no
      rw [List.head?_cons, Option.any_some] at peeked
      cases holds : is c with
      | false =>
          rw [Place.advance_while_stop (peeked.trans holds), List.takeWhile_cons_of_neg (by simp [holds]),
            List.dropWhile_cons_of_neg (by simp [holds]), List.append_nil]
      | true =>
          rw [Place.advance_while_step (peeked.trans holds) (advance_placed before taken rest c (low c holds)), ih,
            List.takeWhile_cons_of_pos holds, List.dropWhile_cons_of_pos holds, List.append_assoc]
          rfl

theorem unmatched_list {p : Place} (c : Char) (text : p.text = String.ofList (before ++ c :: rest))
    (start : p.start = utf8Len before) :
    p.unmatched = .ok (.error (String.ofList (c :: rest)), placed before [c] rest) := by
  have size : p.size = utf8Len (before ++ c :: rest) := by rw [Place.size, text, octets_length]
  have sliced : slice p.text p.start p.size = .ok (String.ofList (c :: rest)) := by
    have whole := slice_list before (c :: rest) []
    rwa [List.append_nil, ← text, ← start, ← size] at whole
  have moved : p.moveTo (p.start + c.utf8Size) = .ok (placed before [c] rest) := by
    unfold Place.moveTo
    rw [if_pos]
    · simp [placed, ← start, text, String.utf8Len_append]
    · rw [size, String.utf8Len_append, String.utf8Len_cons, start]
      omega
  unfold Place.unmatched
  rw [sliced]
  simp only [bind, Except.bind, String.toList_ofList, moved]
  rfl

end Places

def answered (before text : List Char) (found : Lexer.Match) : Place.Answer :=
  (match found with
    | .token kind _ => .ok kind
    | .nothing _ => .error (String.ofList text),
    placed before (text.take found.width) (text.drop found.width))

section Rules

variable (before : List Char)

theorem answered_token (taken rest : List Char) (kind : TokenKind) :
    answered before (taken ++ rest) (.token kind taken.length) = (.ok kind, placed before taken rest) := by
  simp [answered, Lexer.Match.width]

theorem answered_nothing (taken rest : List Char) :
    answered before (taken ++ rest) (.nothing taken.length) =
      (.error (String.ofList (taken ++ rest)), placed before taken rest) := by
  simp [answered, Lexer.Match.width]

theorem octet_of_char {text : List Char} {octet : UInt8} (c : Char) (ascii : c.toNat < 128)
    (member : octet ∈ text.flatMap utf8EncodeChar) (same : character octet = c) : c ∈ text := by
  obtain ⟨d, among, part⟩ := List.mem_flatMap.mp member
  by_cases low : d.toNat < 128
  · obtain ⟨only, alone, is⟩ := low_octets d low
    rw [alone, List.mem_singleton] at part
    rw [← same, part, is]
    exact among
  · have high := (high_octets d (Nat.le_of_not_lt low)).2 octet part
    rw [same] at high
    omega

theorem quote_missing (text : List Char) (unquoted : '"' ∉ text) :
    (text.flatMap utf8EncodeChar).findIdx? (character · == '"') = none :=
  List.findIdx?_eq_none_iff.mpr fun octet member =>
    beq_false_of_ne fun same => unquoted (octet_of_char '"' (by decide) member same)

theorem quote_found (contents later : List Char) (unquoted : '"' ∉ contents) :
    ((contents ++ '"' :: later).flatMap utf8EncodeChar).findIdx? (character · == '"') = some (utf8Len contents) := by
  rw [List.flatMap_append, List.findIdx?_append, quote_missing contents unquoted, Option.none_or, ← flat_map_length,
    List.flatMap_cons]
  simp [utf8EncodeChar, List.findIdx?_cons, character]

section Strings

variable (rest : List Char)

theorem behind_quote :
    (octets (placed before ['"'] rest).text).drop (placed before ['"'] rest).curr = rest.flatMap utf8EncodeChar :=
  octets_drop (before ++ ['"']) rest

theorem stays_behind_quote :
    (placed before ['"'] rest).moveTo (placed before ['"'] rest).curr = .ok (placed before ['"'] rest) := by
  simpa [placed] using move_placed before ['"'] rest []

theorem string_unclosed (unquoted : '"' ∉ rest) :
    (placed before ['"'] rest).string = .ok (answered before ('"' :: rest) (.nothing (rest.length + 1))) := by
  have unmatched := unmatched_list before rest (p := placed before ['"'] rest) '"' (by simp [placed]) rfl
  have moved : (placed before ['"'] rest).moveTo (placed before ['"'] rest).size = .ok (placed before ('"' :: rest) []) := by
    have ended := move_placed before ['"'] [] rest
    rw [List.append_nil] at ended
    rw [size_placed, List.append_assoc]
    exact ended
  have answer := answered_nothing before ('"' :: rest) []
  rw [List.append_nil] at answer
  unfold Place.string
  rw [stays_behind_quote]
  simp only [bind, Except.bind]
  rw [behind_quote, quote_missing rest unquoted]
  simp only [unmatched, moved]
  exact congrArg Except.ok answer.symm

theorem string_closed (contents later : List Char) (unquoted : '"' ∉ contents) :
    (placed before ['"'] (contents ++ '"' :: later)).string =
      .ok (answered before ('"' :: (contents ++ '"' :: later))
        (.token (.string (String.ofList contents)) (contents.length + 2))) := by
  have size : utf8Len (before ++ (['"'] ++ (contents ++ ['"']))) = utf8Len (before ++ ['"']) + utf8Len contents + 1 := by
    simp only [String.utf8Len_append, String.utf8Len_cons, String.utf8Len_nil, Nat.add_assoc]
    rfl
  have sliced : slice (placed before ['"'] (contents ++ '"' :: later)).text (utf8Len (before ++ ['"']))
      (utf8Len (before ++ ['"']) + utf8Len contents) = .ok (String.ofList contents) := by
    have whole := slice_list (before ++ ['"']) contents ('"' :: later)
    rwa [String.utf8Len_append (before ++ ['"']), List.append_assoc] at whole
  have moved : (placed before ['"'] (contents ++ '"' :: later)).moveTo (utf8Len (before ++ ['"']) + utf8Len contents + 1) =
      .ok (placed before (['"'] ++ (contents ++ ['"'])) later) := by
    have behind := move_placed before ['"'] later (contents ++ ['"'])
    rwa [size, List.append_assoc] at behind
  have answer := answered_token before (['"'] ++ (contents ++ ['"'])) later (.string (String.ofList contents))
  have wide : (['"'] ++ (contents ++ ['"'])).length = contents.length + 2 := by simp
  rw [wide, List.append_assoc, List.append_assoc] at answer
  have curr : (placed before ['"'] (contents ++ '"' :: later)).curr = utf8Len (before ++ ['"']) := rfl
  unfold Place.string
  rw [stays_behind_quote]
  simp only [bind, Except.bind]
  rw [behind_quote, quote_found contents later unquoted]
  simp only [curr, sliced, moved]
  exact congrArg Except.ok answer.symm

theorem string_placed :
    (placed before ['"'] rest).string = .ok (answered before ('"' :: rest) (Lexer.matchString rest)) := by
  have unquoted : '"' ∉ rest.takeWhile (· != '"') := fun inside => by
    have other := Lexer.take_while_all (p := (· != '"')) rest '"' inside
    simp at other
  unfold Lexer.matchString
  rcases Lexer.take_while_split (· != '"') rest with all | ⟨c, later, parts, stop⟩
  · rw [all] at unquoted ⊢
    rw [if_neg (Nat.lt_irrefl _)]
    exact string_unclosed before rest unquoted
  · obtain rfl : c = '"' := by simpa using stop
    generalize rest.takeWhile (· != '"') = contents at unquoted parts
    subst parts
    rw [if_pos (by simp)]
    exact string_closed before contents later unquoted

end Strings

theorem numeral_whole (digits : List Char) (some : digits ≠ []) (decimal : ∀ c ∈ digits, c.isDigit = true) :
    numeral? (String.ofList digits) = .some (Lexer.numberValue digits []) := by
  have all : digits.takeWhile Char.isDigit = digits := List.takeWhile_eq_self_iff.mpr decimal
  unfold numeral?
  dsimp only
  rw [String.toList_ofList, all, if_neg (by simpa using some), List.drop_length]

theorem numeral_fraction (whole fraction : List Char) (some : whole ≠ []) (behind : fraction ≠ [])
    (decimal : ∀ c ∈ whole ++ fraction, c.isDigit = true) :
    numeral? (String.ofList (whole ++ '.' :: fraction)) = .some (Lexer.numberValue whole fraction) := by
  have read : (whole ++ '.' :: fraction).takeWhile Char.isDigit = whole :=
    Lexer.take_while_stops whole '.' fraction (fun c member => decimal c (List.mem_append_left _ member)) rfl
  have digits : fraction.all Char.isDigit = true :=
    List.all_eq_true.mpr fun c member => decimal c (List.mem_append_right _ member)
  unfold numeral?
  dsimp only
  rw [String.toList_ofList, read, if_neg (by simpa using some), List.drop_left]
  simp [behind, digits]

theorem take_while_empty (is : Char → Bool) (text : List Char) :
    (text.takeWhile is).isEmpty = !(text.head?.any is) := by
  cases text with
  | nil => rfl
  | cons c rest => cases holds : is c <;> simp [holds]

theorem number_whole (p : Place) (whole rest : List Char) (some : whole ≠ []) (decimal : ∀ c ∈ whole, c.isDigit = true)
    (read : p.advanceWhile Char.isDigit = .ok (placed before whole rest))
    (ends : ∀ later, rest = '.' :: later → later.head?.any Char.isDigit = false) :
    p.number = .ok (answered before (whole ++ rest) (.token (.number (Lexer.numberValue whole [])) whole.length)) := by
  have point := peek_placed before whole rest (low_char '.' (by decide)) rfl
  have alone : ((placed before whole rest).peek == '.' && (placed before whole rest).peekNext.isDigit) = false := by
    rw [point]
    cases rest with
    | nil => rfl
    | cons c later =>
        by_cases dot : c = '.'
        · subst dot
          rw [peek_next_placed before whole later low_digit rfl '.' (by decide), ends later rfl, Bool.and_false]
        · simp [dot]
  unfold Place.number
  simp only [bind, Except.bind, read, alone, Bool.false_eq_true, if_false, pure, Except.pure, slice_placed,
    numeral_whole whole some decimal]
  rw [answered_token]

theorem number_fraction (p : Place) (whole later : List Char) (some : whole ≠ [])
    (decimal : ∀ c ∈ whole, c.isDigit = true)
    (read : p.advanceWhile Char.isDigit = .ok (placed before whole ('.' :: later)))
    (behind : later.head?.any Char.isDigit = true) :
    p.number = .ok (answered before (whole ++ '.' :: later)
      (.token (.number (Lexer.numberValue whole (later.takeWhile Char.isDigit)))
        (whole.length + 1 + (later.takeWhile Char.isDigit).length))) := by
  have point := peek_placed before whole ('.' :: later) (low_char '.' (by decide)) rfl
  have digit := peek_next_placed before whole later low_digit rfl '.' (by decide)
  have fraction := advance_while_placed before (whole ++ ['.']) later low_digit rfl
  have split := List.takeWhile_append_dropWhile (p := Char.isDigit) (l := later)
  have nonempty : later.takeWhile Char.isDigit ≠ [] := fun none => by
    have empty := take_while_empty Char.isDigit later
    rw [none, behind] at empty
    cases empty
  have all (c : Char) (member : c ∈ whole ++ later.takeWhile Char.isDigit) : c.isDigit = true := by
    rcases List.mem_append.mp member with inside | inside
    · exact decimal c inside
    · exact Lexer.take_while_all later c inside
  have value := numeral_fraction whole (later.takeWhile Char.isDigit) some nonempty all
  have answer := answered_token before (whole ++ ['.'] ++ later.takeWhile Char.isDigit) (later.dropWhile Char.isDigit)
    (.number (Lexer.numberValue whole (later.takeWhile Char.isDigit)))
  have wide : (whole ++ ['.'] ++ later.takeWhile Char.isDigit).length =
      whole.length + 1 + (later.takeWhile Char.isDigit).length := by rw [List.length_append, List.length_append]; rfl
  rw [wide, List.append_assoc _ (later.takeWhile Char.isDigit), split, List.append_assoc, List.append_assoc,
    List.singleton_append, List.singleton_append] at answer
  rw [behind] at digit
  unfold Place.number
  simp only [bind, Except.bind, read, point, digit, List.head?_cons, Option.any_some, beq_self_eq_true, Bool.and_self,
    if_true, advance_placed before whole later '.' (by decide), fraction, pure, Except.pure, slice_placed]
  rw [List.append_assoc, List.singleton_append, value]
  exact congrArg Except.ok answer.symm

theorem number_placed (first : Char) (digit : first.isDigit = true) (rest : List Char) :
    (placed before [first] rest).number = .ok (answered before (first :: rest) (Lexer.matchNumber (first :: rest))) := by
  have read := advance_while_placed before [first] rest low_digit rfl
  have digits : (first :: rest).takeWhile Char.isDigit = [first] ++ rest.takeWhile Char.isDigit :=
    List.takeWhile_cons_of_pos digit
  have decimal : ∀ c ∈ [first] ++ rest.takeWhile Char.isDigit, c.isDigit = true :=
    digits ▸ Lexer.take_while_all (first :: rest)
  have parts : first :: rest = [first] ++ rest.takeWhile Char.isDigit ++ rest.dropWhile Char.isDigit := by
    rw [List.append_assoc, List.takeWhile_append_dropWhile]
    rfl
  have some : [first] ++ rest.takeWhile Char.isDigit ≠ [] := List.cons_ne_nil _ _
  unfold Lexer.matchNumber
  rw [digits]
  generalize [first] ++ rest.takeWhile Char.isDigit = whole at read decimal parts some
  generalize rest.dropWhile Char.isDigit = left at read parts
  rw [parts]
  dsimp only
  rw [List.drop_left]
  split
  · rename_i later
    split
    · rename_i none
      refine number_whole before _ whole _ some decimal read fun others same => ?_
      cases same
      rwa [take_while_empty, Bool.not_eq_true'] at none
    · rename_i behind
      refine number_fraction before _ whole later some decimal read ?_
      rwa [take_while_empty, Bool.not_eq_true', Bool.not_eq_false] at behind
  · rename_i other
    refine number_whole before _ whole left some decimal read fun later same => ?_
    exact absurd same (other later)

theorem word_placed (first : Char) (letter : first.isAlpha = true) (rest : List Char) :
    (placed before [first] rest).word = .ok (answered before (first :: rest) (Lexer.matchWord (first :: rest))) := by
  have word : (first :: rest).takeWhile Lexer.isWordPart = [first] ++ rest.takeWhile Lexer.isWordPart :=
    List.takeWhile_cons_of_pos (Lexer.letter_first first letter).2.2.2
  have answer := answered_token before ([first] ++ rest.takeWhile Lexer.isWordPart) (rest.dropWhile Lexer.isWordPart)
    (Lexer.wordKind (String.ofList ([first] ++ rest.takeWhile Lexer.isWordPart)))
  rw [List.append_assoc, List.takeWhile_append_dropWhile] at answer
  unfold Place.word Lexer.matchWord
  rw [advance_while_placed before [first] rest low_word rfl]
  simp only [bind, Except.bind, slice_placed, word]
  exact congrArg Except.ok answer.symm

theorem no_double (first second : Char) (high : 128 ≤ first.toNat) : Symbol.double? first second = none := by
  unfold Symbol.double?
  split <;> first | rfl | exact absurd high (by decide)

theorem no_single (first : Char) (high : 128 ≤ first.toNat) : Symbol.single? first = none := by
  unfold Symbol.single?
  split <;> first | rfl | exact absurd high (by decide)

theorem second_equals (first second : Char) :
    Symbol.double? first second = if second == '=' then Symbol.double? first '=' else none := by
  by_cases same : second = '='
  · subst same
    rfl
  · rw [if_neg (by simpa using same)]
    unfold Symbol.double?
    split <;> first | rfl | exact absurd rfl same

theorem symbol_single (first : Char) (rest : List Char)
    (alone : Symbol.double? first (placed before [first] rest).peek = none) :
    (placed before [first] rest).symbol first =
      .ok (answered before (first :: rest)
        (match Symbol.single? first with
          | some s => .token (.symbol s) 1
          | none => .nothing 1)) := by
  unfold Place.symbol
  rw [alone]
  dsimp only
  cases Symbol.single? first with
  | some s => exact congrArg Except.ok (answered_token before [first] rest (.symbol s)).symm
  | none =>
      exact (unmatched_list before rest first (by simp [placed]) rfl).trans
        (congrArg Except.ok (answered_nothing before [first] rest).symm)

theorem symbol_double (first : Char) (later : List Char) (s : Symbol)
    (double : Symbol.double? first (placed before [first] ('=' :: later)).peek = some s) :
    (placed before [first] ('=' :: later)).symbol first =
      .ok (answered before (first :: '=' :: later) (.token (.symbol s) 2)) := by
  have moved : (placed before [first] ('=' :: later)).moveTo ((placed before [first] ('=' :: later)).curr + 1) =
      .ok (placed before [first, '='] later) := by
    have behind := move_placed before [first] later ['=']
    have one : utf8Len (before ++ ([first] ++ ['='])) = (placed before [first] ('=' :: later)).curr + 1 := by
      rw [← List.append_assoc, String.utf8Len_append]
      rfl
    rwa [one] at behind
  unfold Place.symbol
  rw [double]
  simp only [bind, Except.bind, moved]
  exact congrArg Except.ok (answered_token before [first, '='] later (.symbol s)).symm

theorem symbol_placed (first : Char) (rest : List Char) :
    (placed before [first] rest).symbol first = .ok (answered before (first :: rest) (Lexer.matchSymbol first rest)) := by
  have equals := peek_placed before [first] rest (low_char '=' (by decide)) rfl
  have second : Symbol.double? first (placed before [first] rest).peek = rest.head?.bind (Symbol.double? first) := by
    rw [second_equals, equals]
    cases rest with
    | nil => rfl
    | cons c later => exact (second_equals first c).symm
  unfold Lexer.matchSymbol
  cases found : rest.head?.bind (Symbol.double? first) with
  | none => exact symbol_single before first rest (second.trans found)
  | some s =>
      obtain ⟨c, head, double⟩ := Option.bind_eq_some_iff.mp found
      obtain ⟨later, rfl⟩ := List.head?_eq_some_iff.mp head
      have same : c = '=' := by
        rw [second_equals] at double
        by_contra other
        rw [if_neg (by simpa using other)] at double
        cases double
      subst same
      exact symbol_double before first later s (second.trans found)

theorem scan_high (first : Char) (high : 128 ≤ first.toNat) (rest : List Char) :
    (placed before [] (first :: rest)).scan = .ok (.error (String.ofList (first :: rest)), placed before [first] rest) := by
  obtain ⟨some, all⟩ := high_octets first high
  obtain ⟨octet, more, parts⟩ := List.exists_cons_of_ne_nil some
  have above := all octet (by rw [parts]; exact List.mem_cons_self)
  have there : (octets (placed before [] (first :: rest)).text)[(placed before [] (first :: rest)).curr]? = .some octet := by
    refine (octets_get (before ++ []) (first :: rest) 0).trans ?_
    simp [parts]
  -- Inside the character, when it has more octets.
  have moved : (placed before [] (first :: rest)).moveTo ((placed before [] (first :: rest)).curr + 1) =
      .ok { placed before [] (first :: rest) with curr := (placed before [] (first :: rest)).curr + 1 } := by
    have inside := (List.getElem?_eq_some_iff.mp there).1
    unfold Place.moveTo
    rw [if_pos ⟨by simp [placed], inside⟩]
  have unquoted : (character octet == '"') = false := low_fails (low_char '"' (by decide)) _ above
  unfold Place.scan Place.advance
  rw [there]
  simp only [bind, Except.bind, moved, pure, Except.pure, unquoted, low_fails low_digit _ above,
    low_fails low_alpha _ above, Bool.false_eq_true, if_false]
  unfold Place.symbol
  rw [no_double _ _ above, no_single _ above]
  exact unmatched_list before rest first (by simp [placed]) rfl

theorem match_at_high (first : Char) (high : 128 ≤ first.toNat) (rest : List Char) :
    Lexer.matchAt first rest = .nothing 1 := by
  have unquoted : (first == '"') = false := low_fails (low_char '"' (by decide)) _ high
  have double : rest.head?.bind (Symbol.double? first) = none := by
    cases rest with
    | nil => rfl
    | cons c later => exact no_double first c high
  unfold Lexer.matchAt Lexer.matchSymbol
  rw [if_neg (by simp [unquoted]), if_neg (by simp [low_fails low_digit _ high]),
    if_neg (by simp [low_fails low_alpha _ high]), double, no_single first high]

theorem scan_placed (first : Char) (rest : List Char) :
    (placed before [] (first :: rest)).scan = .ok (answered before (first :: rest) (Lexer.matchAt first rest)) := by
  by_cases ascii : first.toNat < 128
  · have moved := advance_placed before [] rest first ascii
    unfold Place.scan Lexer.matchAt
    simp only [bind, Except.bind, moved]
    rw [List.nil_append]
    split
    · rename_i quote
      cases beq_iff_eq.mp quote
      exact string_placed before rest
    · split
      · rename_i digit
        exact number_placed before first digit rest
      · split
        · rename_i letter
          exact word_placed before first letter rest
        · exact symbol_placed before first rest
  · have high := Nat.le_of_not_lt ascii
    rw [scan_high before first high rest, match_at_high first high rest]
    exact congrArg Except.ok (answered_nothing before [first] rest).symm

theorem item_placed (first : Char) (rest : List Char) (line : Nat) :
    (placed before [] (first :: rest)).item line =
      .ok (Lexer.item line (first :: rest) (Lexer.matchAt first rest),
        placed before ((first :: rest).take (Lexer.matchAt first rest).width)
          ((first :: rest).drop (Lexer.matchAt first rest).width)) := by
  unfold Place.item
  rw [scan_placed before first rest]
  simp only [bind, Except.bind, answered]
  cases Lexer.matchAt first rest with
  | token kind width =>
      simp only [Lexer.Match.width, slice_placed]
      rfl
  | nothing width => rfl

end Rules

section Comments

theorem slashes_skip (part more : List UInt8) (none : ∀ octet ∈ part, (character octet == '/') = false) :
    slashes? (part ++ more) = (slashes? more).map (· + part.length) := by
  induction part with
  | nil => simp
  | cons octet part ih =>
      have later := ih fun other member => none other (List.mem_cons_of_mem _ member)
      rw [List.cons_append, slashes?, none octet List.mem_cons_self, Bool.false_and, if_neg Bool.false_ne_true, later,
        Option.map_map]
      rfl

theorem slashes_cut (text : List Char) :
    (slashes? (text.flatMap utf8EncodeChar) = none ∧ Lexer.cutComment text = text) ∨
      ∃ comment, text = Lexer.cutComment text ++ '/' :: '/' :: comment ∧
        slashes? (text.flatMap utf8EncodeChar) = some (utf8Len (Lexer.cutComment text)) := by
  induction text using Lexer.cutComment.induct with
  | case1 comment =>
      exact .inr ⟨comment, rfl, by simp [slashes?, utf8EncodeChar, character, Lexer.cutComment]⟩
  | case2 c rest plain ih =>
      have here : Lexer.cutComment (c :: rest) = c :: Lexer.cutComment rest := by
        rw [Lexer.cutComment]
        exact plain
      have later : slashes? ((c :: rest).flatMap utf8EncodeChar) =
          (slashes? (rest.flatMap utf8EncodeChar)).map (· + c.utf8Size) := by
        rw [List.flatMap_cons, ← String.length_utf8EncodeChar]
        by_cases slash : c = '/'
        · subst slash
          have single : (rest.flatMap utf8EncodeChar).head?.any (character · == '/') = false := by
            cases rest with
            | nil => rfl
            | cons d rest =>
                obtain ⟨octet, more, parts, same⟩ := low_first (low_char '/' (by decide)) d
                have other : d ≠ '/' := fun again => plain rest rfl (by rw [again])
                rw [List.flatMap_cons, parts]
                exact same.trans (beq_false_of_ne other)
          obtain ⟨octet, alone, -⟩ := low_octets '/' (by decide)
          rw [alone, List.singleton_append, slashes?, single, Bool.and_false, if_neg Bool.false_ne_true]
          rfl
        · refine slashes_skip _ _ fun octet member => beq_false_of_ne fun same => slash ?_
          have among : '/' ∈ [c] := octet_of_char '/' (by decide) (by simpa using member) same
          exact (List.mem_singleton.mp among).symm
      rw [later, here]
      rcases ih with ⟨none, whole⟩ | ⟨comment, same, found⟩
      · exact .inl ⟨by rw [none]; rfl, by rw [whole]⟩
      · refine .inr ⟨comment, by rw [List.cons_append, ← same], ?_⟩
        rw [found, String.utf8Len_cons]
        rfl
  | case3 => exact .inl ⟨rfl, rfl⟩

theorem cut_comment_list (text : List Char) :
    cutComment (String.ofList text) = .ok (String.ofList (Lexer.cutComment text)) := by
  unfold cutComment
  rw [octets_of_list]
  rcases slashes_cut text with ⟨none, whole⟩ | ⟨comment, same, found⟩
  · rw [none, whole]
  · have sliced := slice_list [] (Lexer.cutComment text) ('/' :: '/' :: comment)
    rw [List.nil_append, ← same] at sliced
    rw [found]
    exact sliced

end Comments

end Octets

end TreeWalk
