import TreeWalk.Proofs.Offsets

set_option autoImplicit false

namespace TreeWalk

namespace Lexer

theorem match_at_wide (first : Char) (rest : List Char) : 0 < (matchAt first rest).width := by
  have finds := match_at_finds first rest
  cases matched : matchAt first rest with
  | token kind width =>
      rw [matched] at finds
      obtain ⟨lexeme, -, rfl, is⟩ := finds
      exact List.length_pos_iff.mpr fun none => lexeme_nonempty kind (none ▸ is)
  | nothing width =>
      rw [match_at_nothing_width first rest width matched]
      show 0 < if first = '"' then (first :: rest).length else 1
      split <;> simp

theorem scan_blank (line : Nat) (text : List Char) : scan line 0 text = scan line 0 (text.dropWhile isSpace) := by
  induction text with
  | nil => rfl
  | cons c rest ih =>
      cases space : isSpace c with
      | true => rw [scan_space line c rest space, ih, List.dropWhile_cons_of_pos space]
      | false => rw [List.dropWhile_cons_of_neg (by simp [space])]

theorem scan_length (line skip : Nat) (text : List Char) : (scan line skip text).length ≤ text.length := by
  induction text generalizing skip with
  | nil => exact Nat.zero_le _
  | cons c rest ih =>
      cases skip with
      | succ skip => exact Nat.le_succ_of_le (ih skip)
      | zero =>
          rw [scan]
          split
          · exact Nat.le_succ_of_le (ih 0)
          · exact Nat.succ_le_succ (ih _)

theorem cut_comment_length (text : List Char) : (cutComment text).length ≤ text.length := by
  induction text using cutComment.induct with
  | case1 comment => exact Nat.zero_le _
  | case2 c rest plain ih =>
      rw [cutComment]
      · exact Nat.succ_le_succ ih
      · exact plain
  | case3 => exact Nat.le_refl _

end Lexer

namespace Octets

open String (utf8Len)

namespace Scanner

def Inside (s : Scanner) : Prop :=
  ∀ text, s.lines[s.line]? = some text →
    s.start ≤ s.curr ∧ s.curr ≤ (octets text).length ∧ Between text s.start ∧ Between text s.curr

def Forward (s t : Scanner) : Prop :=
  t.start < t.curr ∧ (s.line < t.line ∨ s.line = t.line ∧ s.curr ≤ t.start)

def uncommented (texts : List (List Char)) : List String :=
  texts.map fun text => String.ofList (Lexer.cutComment text)

inductive Reads (texts : List (List Char)) (s : Scanner) : List (Except LexError Token) → Prop where
  | finished (ended : s.finished = true) (last : s.line = texts.length) : Reads texts s []
  | ending (going : s.finished = false) (last : s.line = texts.length) :
      Reads texts s [.ok (.finish texts.length)]
  | within (text before rest : List Char) (going : s.finished = false) (here : texts[s.line]? = some text)
      (cut : Lexer.cutComment text = before ++ rest) (curr : s.curr = utf8Len before) :
      Reads texts s (Lexer.scan (s.line + 1) 0 rest ++ Lexer.scanLines (s.line + 2) (texts.drop (s.line + 1)))

section Calls

variable {texts : List (List Char)}

theorem reads_line {s : Scanner} (going : s.finished = false) (inside : s.line ≤ texts.length) (curr : s.curr = 0) :
    Reads texts s (Lexer.scanLines (s.line + 1) (texts.drop s.line)) := by
  rcases Nat.lt_or_eq_of_le inside with more | last
  · have here : texts[s.line]? = some texts[s.line] := List.getElem?_eq_getElem more
    rw [List.drop_eq_getElem_cons more, Lexer.scanLines]
    exact .within texts[s.line] [] (Lexer.cutComment texts[s.line]) going here rfl curr
  · rw [last, List.drop_length]
    exact .ending going last

theorem uncommented_get (texts : List (List Char)) (i : Nat) (text : List Char) (here : texts[i]? = some text) :
    (uncommented texts)[i]? = some (String.ofList (Lexer.cutComment text)) := by
  rw [uncommented, List.getElem?_map, here]
  rfl

theorem uncommented_beyond (texts : List (List Char)) : (uncommented texts)[texts.length]? = none := by
  rw [uncommented, List.getElem?_map, List.getElem?_eq_none (Nat.le_refl _)]
  rfl

theorem forward_of_line {s next t : Scanner} (later : s.line < next.line) (forward : Forward next t) : Forward s t := by
  refine ⟨forward.1, .inl ?_⟩
  rcases forward.2 with further | ⟨same, -⟩
  · exact Nat.lt_trans later further
  · exact same ▸ later

theorem skip_blank (before rest : List Char) :
    (⟨String.ofList (before ++ rest), utf8Len before, utf8Len before⟩ : Place).advanceWhile Lexer.isSpace =
      .ok (placed before (rest.takeWhile Lexer.isSpace) (rest.dropWhile Lexer.isSpace)) := by
  have start : (⟨String.ofList (before ++ rest), utf8Len before, utf8Len before⟩ : Place) = placed before [] rest := by
    simp [placed]
  rw [start, advance_while_placed before [] rest low_space rfl, List.nil_append]

section Within

variable {s : Scanner} {before rest : List Char} (going : s.finished = false)
  (there : s.lines[s.line]? = some (String.ofList (before ++ rest))) (curr : s.curr = utf8Len before)

include going there curr

theorem next_within_blank (none : rest.dropWhile Lexer.isSpace = []) :
    s.next = Scanner.next { s with line := s.line + 1, curr := 0 } := by
  refine next_blank going there (curr ▸ skip_blank before rest) ?_
  rw [none, size_placed, List.append_nil]
  exact Nat.le_refl _

theorem next_within_item (spaces : List Char) (c : Char) (later : List Char) (parts : rest = spaces ++ c :: later)
    (skipped : rest.takeWhile Lexer.isSpace = spaces) (more : rest.dropWhile Lexer.isSpace = c :: later) :
    s.next = .ok (some (Lexer.item (s.line + 1) (c :: later) (Lexer.matchAt c later)),
      { s with
        start := utf8Len (before ++ spaces)
        curr := utf8Len (before ++ spaces ++ (c :: later).take (Lexer.matchAt c later).width) }) := by
  have blank := skip_blank before rest
  rw [skipped, more] at blank
  have start : (⟨String.ofList (before ++ rest), utf8Len (before ++ spaces), utf8Len (before ++ spaces)⟩ : Place) =
      placed (before ++ spaces) [] (c :: later) := by
    rw [placed, List.append_nil, List.append_assoc, ← parts]
  refine next_item going there (curr ▸ blank) ?_ (start ▸ item_placed (before ++ spaces) c later (s.line + 1))
  rw [size_placed, String.utf8Len_append _ (c :: later), String.utf8Len_cons]
  exact Nat.lt_add_of_pos_right (Nat.lt_of_lt_of_le c.utf8Size_pos (Nat.le_add_left _ _))

end Within

section Offsets

variable {s : Scanner} {before taken rest : List Char}
  (there : s.lines[s.line]? = some (String.ofList (before ++ taken ++ rest))) (start : s.start = utf8Len before)
  (curr : s.curr = utf8Len (before ++ taken))

include there start curr

theorem inside_of_parts : s.Inside := by
  intro text same
  obtain rfl : String.ofList (before ++ taken ++ rest) = text := Option.some.inj (there.symm.trans same)
  rw [octets_length, start, curr, String.utf8Len_append _ rest, String.utf8Len_append before taken]
  refine ⟨Nat.le_add_right _ _, Nat.le_add_right _ _, ?_, ?_⟩
  · rw [List.append_assoc]
    exact between_list before (taken ++ rest)
  · rw [← String.utf8Len_append]
    exact between_list (before ++ taken) rest

end Offsets

theorem taken_some (before taken : List Char) (some : taken ≠ []) : utf8Len before < utf8Len (before ++ taken) := by
  obtain ⟨c, later, rfl⟩ := List.exists_cons_of_ne_nil some
  rw [String.utf8Len_append, String.utf8Len_cons]
  exact Nat.lt_add_of_pos_right (Nat.lt_of_lt_of_le c.utf8Size_pos (Nat.le_add_left _ _))

theorem next_found {s : Scanner} (kept : s.lines = uncommented texts) (text before rest : List Char)
    (going : s.finished = false) (here : texts[s.line]? = some text) (cut : Lexer.cutComment text = before ++ rest)
    (curr : s.curr = utf8Len before) (c : Char) (later : List Char) (more : rest.dropWhile Lexer.isSpace = c :: later) :
    ∃ item left t, Lexer.scan (s.line + 1) 0 (c :: later) = item :: Lexer.scan (s.line + 1) 0 left ∧
      s.next = .ok (some item, t) ∧ t.lines = s.lines ∧
      Reads texts t (Lexer.scan (s.line + 1) 0 left ++ Lexer.scanLines (s.line + 2) (texts.drop (s.line + 1))) ∧
      t.Inside ∧ Forward s t := by
  have there : s.lines[s.line]? = some (String.ofList (before ++ rest)) := by
    rw [kept, uncommented_get texts s.line text here, cut]
  have visible : Lexer.isSpace c = false := by
    have first := List.head?_dropWhile_not Lexer.isSpace rest
    rw [more] at first
    exact first
  have parts : rest = rest.takeWhile Lexer.isSpace ++ c :: later := by rw [← more, List.takeWhile_append_dropWhile]
  have moved := next_within_item going there curr _ c later parts rfl more
  have wide := Lexer.match_at_wide c later
  have scanned := Lexer.scan_match (s.line + 1) c later _ visible rfl wide
  generalize rest.takeWhile Lexer.isSpace = spaces at parts moved
  generalize (Lexer.matchAt c later).width = width at moved wide scanned
  have whole : before ++ rest = before ++ spaces ++ (c :: later).take width ++ (c :: later).drop width := by
    rw [List.append_assoc _ ((c :: later).take width), List.take_append_drop, List.append_assoc, ← parts]
  have taken : (c :: later).take width ≠ [] := by simp [Nat.ne_of_gt wide]
  refine ⟨_, _, _, scanned, moved, rfl, ?_, ?_, taken_some _ _ taken, .inr ⟨rfl, ?_⟩⟩
  · exact .within text (before ++ spaces ++ (c :: later).take width) _ going here (by rw [cut, whole]) rfl
  · exact inside_of_parts (there.trans (by rw [whole])) rfl rfl
  · rw [curr, String.utf8Len_append before spaces]
    exact Nat.le_add_right _ _

theorem next_reads (s : Scanner) (kept : s.lines = uncommented texts) (ahead : List (Except LexError Token))
    (reads : Reads texts s ahead) :
    ∃ t, s.next = .ok (ahead.head?, t) ∧ t.lines = s.lines ∧ Reads texts t ahead.tail ∧ t.Inside ∧
      (ahead.head? = none ∨ ahead.head? = some (.ok (.finish texts.length)) ∨ Forward s t) := by
  induction far : texts.length - s.line using Nat.strongRecOn generalizing s ahead with
  | ind n ih =>
      have ends (t : Scanner) (same : t.lines = s.lines) (last : t.line = texts.length) : t.Inside := by
        intro text there
        rw [same, kept, last, uncommented_beyond] at there
        cases there
      cases reads with
      | finished ended last =>
          exact ⟨s, next_finished ended, rfl, .finished ended last, ends s rfl last, .inl rfl⟩
      | ending going last =>
          have beyond : s.lines[s.line]? = none := by rw [kept, last, uncommented_beyond]
          have size : s.lines.length = texts.length := by rw [kept, uncommented, List.length_map]
          refine ⟨{ s with finished := true }, ?_, rfl, .finished rfl last, ends _ rfl last, .inr (.inl rfl)⟩
          rw [next_end going beyond, size]
          rfl
      | within text before rest going here cut curr =>
          have inside := (List.getElem?_eq_some_iff.mp here).1
          rw [Lexer.scan_blank]
          cases more : rest.dropWhile Lexer.isSpace with
          | nil =>
              have there : s.lines[s.line]? = some (String.ofList (before ++ rest)) := by
                rw [kept, uncommented_get texts s.line text here, cut]
              have reads := reads_line (s := { s with line := s.line + 1, curr := 0 }) going inside rfl
              have shorter : texts.length - (s.line + 1) < n := far ▸ Nat.sub_lt_sub_left inside (Nat.lt_succ_self _)
              obtain ⟨t, moved, same, reads, offsets, forward⟩ :=
                ih _ shorter { s with line := s.line + 1, curr := 0 } kept _ reads rfl
              exact ⟨t, (next_within_blank going there curr more).trans moved, same, reads, offsets,
                forward.imp_right (.imp_right (forward_of_line (Nat.lt_succ_self _)))⟩
          | cons c later =>
              obtain ⟨item, left, t, scanned, moved, same, reads, offsets, forward⟩ :=
                next_found kept text before rest going here cut curr c later more
              rw [scanned]
              exact ⟨t, moved, same, reads, offsets, .inr (.inr forward)⟩

theorem calls_read (start : Scanner) (kept : start.lines = uncommented texts) (ahead : List (Except LexError Token))
    (reads : Reads texts start ahead) (inside : start.Inside) (n : Nat) :
    ∃ s, start.calls n = .ok ((List.range n).map (ahead[·]?), s) ∧ s.lines = start.lines ∧
      Reads texts s (ahead.drop n) ∧ s.Inside := by
  induction n with
  | zero => exact ⟨start, rfl, rfl, reads, inside⟩
  | succ n ih =>
      obtain ⟨s, called, same, reads, -⟩ := ih
      obtain ⟨t, moved, also, later, inside, -⟩ := next_reads s (same.trans kept) _ reads
      refine ⟨t, ?_, also.trans same, ?_, inside⟩
      · rw [calls, called]
        simp only [bind, Except.bind, moved, pure, Except.pure]
        rw [List.range_succ, List.map_append, List.head?_drop]
        rfl
      · rw [← List.tail_drop]
        exact later

end Calls

theorem of_lines_kept (lines : List String) :
    ofLines lines = .ok ⟨uncommented (lines.map String.toList), 0, 0, 0, false⟩ := by
  have cut : lines.mapM cutComment = .ok (uncommented (lines.map String.toList)) := by
    induction lines with
    | nil => rfl
    | cons text lines ih =>
        have here := cut_comment_list text.toList
        rw [String.ofList_toList] at here
        rw [List.mapM_cons, here, ih]
        rfl
  unfold ofLines
  rw [cut]
  rfl

end Scanner

def Numeral (text : List Char) : Prop :=
  ∃ whole, whole ≠ [] ∧ (∀ c ∈ whole, c.isDigit = true) ∧
    (text = whole ∨
      ∃ fraction, fraction ≠ [] ∧ (∀ c ∈ fraction, c.isDigit = true) ∧ text = whole ++ '.' :: fraction)

section Numerals

theorem numeral_of_lexeme (text : List Char) (value : Float) (is : Lexer.Lexeme text (.number value)) : Numeral text := by
  generalize number : TokenKind.number value = kind at is
  cases is with
  | whole digits nonempty decimal => exact ⟨text, nonempty, decimal, .inl rfl⟩
  | fraction whole fraction nonempty behind decimal =>
      exact ⟨whole, nonempty, fun c member => decimal c (List.mem_append_left _ member),
        .inr ⟨fraction, behind, fun c member => decimal c (List.mem_append_right _ member), rfl⟩⟩
  | _ => cases number

theorem numeral_iff (text : String) : (numeral? text).isSome = true ↔ Numeral text.toList := by
  constructor
  · intro taken
    unfold numeral? at taken
    dsimp only at taken
    split at taken
    · cases taken
    · rename_i some
      have parts := List.prefix_iff_eq_append.mp (List.takeWhile_prefix (l := text.toList) Char.isDigit)
      refine ⟨text.toList.takeWhile Char.isDigit, by simpa using some, Lexer.take_while_all text.toList, ?_⟩
      split at taken
      · rename_i none
        rw [none, List.append_nil] at parts
        exact .inl parts.symm
      · rename_i fraction point
        rw [point] at parts
        split at taken
        · rename_i behind
          obtain ⟨nonempty, decimal⟩ := Bool.and_eq_true_iff.mp behind
          exact .inr ⟨fraction, by simpa using nonempty, List.all_eq_true.mp decimal, parts.symm⟩
        · cases taken
      · cases taken
  · rintro ⟨whole, some, decimal, same | ⟨fraction, behind, also, same⟩⟩
    · rw [← String.ofList_toList (s := text), same, numeral_whole whole some decimal]
      rfl
    · have digits (c : Char) (member : c ∈ whole ++ fraction) : c.isDigit = true :=
        (List.mem_append.mp member).elim (decimal c) (also c)
      rw [← String.ofList_toList (s := text), same, numeral_fraction whole fraction some behind digits]
      rfl

theorem number_tokens (lines : List (List Char)) (token : Token) (value : Float)
    (member : .ok token ∈ Lexer.items lines) (number : token.kind = .number value) : Numeral token.lexeme.toList := by
  rw [Lexer.items, Lexer.scan_lines_items 0] at member
  rcases List.mem_append.mp member with inside | last
  · suffices each : ∀ (line : Nat) (first : Char) (rest : List Char) (token : Token),
        Lexer.item line (first :: rest) (Lexer.matchAt first rest) = .ok token →
          token.kind = .number value → Numeral token.lexeme.toList from
      Lexer.items_from_tokens each _ _ token inside number
    intro line first rest token read number
    have finds := Lexer.match_at_finds first rest
    cases matched : Lexer.matchAt first rest with
    | nothing width =>
        rw [matched] at read
        cases read
    | token kind width =>
        rw [matched] at finds read
        cases read
        obtain ⟨lexeme, begins, rfl, is⟩ := finds
        rw [← List.prefix_iff_eq_take.mp begins, String.toList_ofList]
        exact numeral_of_lexeme lexeme value (number ▸ is)
  · cases List.mem_singleton.mp last
    cases number

end Numerals

theorem length_le_octets (text : List Char) : text.length ≤ utf8Len text := by
  induction text with
  | nil => exact Nat.le_refl 0
  | cons c rest ih => exact Nat.add_le_add ih c.utf8Size_pos

theorem items_bound (lines : List String) :
    (Lexer.items (lines.map String.toList)).length ≤ (lines.flatMap octets).length + 1 := by
  have lines_bound (line : Nat) :
      (Lexer.itemsFrom line (lines.map String.toList)).length ≤ (lines.flatMap octets).length := by
    induction lines generalizing line with
    | nil => exact Nat.le_refl 0
    | cons text lines ih =>
        have here := Lexer.scan_length line 0 (Lexer.cutComment text.toList)
        have cut := Lexer.cut_comment_length text.toList
        have wide : text.toList.length ≤ (octets text).length := by
          have long := length_le_octets text.toList
          rwa [← octets_length, String.ofList_toList] at long
        have later := ih (line + 1)
        rw [List.map_cons, Lexer.itemsFrom, List.length_append, List.flatMap_cons, List.length_append]
        omega
  rw [Lexer.items, Lexer.scan_lines_items 0, List.length_append, List.length_singleton]
  exact Nat.succ_le_succ (lines_bound 1)

theorem scans_safely (lines : List String) :
    (∃ start, Scanner.ofLines lines = .ok start ∧
      start.lines = lines.map (fun text => String.ofList (Lexer.cutComment text.toList)) ∧
      ∀ n, ∃ s, start.calls n = .ok ((List.range n).map ((Lexer.items (lines.map String.toList))[·]?), s) ∧
        s.lines = start.lines ∧ s.Inside ∧
        ∃ item t, s.next = .ok (item, t) ∧
          (item = none ∨ item = some (.ok (.finish lines.length)) ∨ s.Forward t)) ∧
    (Lexer.items (lines.map String.toList)).length ≤ (lines.flatMap octets).length + 1 ∧
    (∀ text, (numeral? text).isSome = true ↔ Numeral text.toList) ∧
    ∀ token value, .ok token ∈ Lexer.items (lines.map String.toList) → token.kind = .number value →
      Numeral token.lexeme.toList := by
  refine ⟨⟨_, Scanner.of_lines_kept lines, by simp [Scanner.uncommented], fun n => ?_⟩, items_bound lines, numeral_iff,
    number_tokens (lines.map String.toList)⟩
  let start : Scanner := ⟨Scanner.uncommented (lines.map String.toList), 0, 0, 0, false⟩
  have reads : Scanner.Reads (lines.map String.toList) start (Lexer.items (lines.map String.toList)) :=
    Scanner.reads_line rfl (Nat.zero_le _) rfl
  have inside : start.Inside := fun text there => by
    have whole : start.lines[start.line]? = some (String.ofList ([] ++ [] ++ text.toList)) := by simpa using there
    exact Scanner.inside_of_parts whole rfl rfl text there
  obtain ⟨s, called, same, later, offsets⟩ := Scanner.calls_read start rfl _ reads inside n
  obtain ⟨t, moved, -, -, -, forward⟩ := Scanner.next_reads s same _ later
  rw [List.length_map] at forward
  exact ⟨s, called, same, offsets, _, t, moved, forward⟩

end Octets

end TreeWalk
