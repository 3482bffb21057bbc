import Mathlib.Data.String.Basic
import TreeWalk.Token.Lexer

set_option autoImplicit false

namespace TreeWalk

namespace Octets

-- What a scan stops at that has gone astray.
inductive Stray where
  | octet (offset : Nat)
  | offset (offset : Nat)
  | slice (first last : Nat)
  | numeral (text : String)

abbrev Scan := Except Stray

def octets (text : String) : List UInt8 :=
  text.toByteArray.data.toList

def character (octet : UInt8) : Char :=
  Char.ofNat octet.toNat

def Between (text : String) (offset : Nat) : Prop :=
  (⟨offset⟩ : String.Pos.Raw).IsValid text

instance (text : String) (offset : Nat) : Decidable (Between text offset) :=
  inferInstanceAs (Decidable ((⟨offset⟩ : String.Pos.Raw).IsValid text))

def slice (text : String) (first last : Nat) : Scan String :=
  if first ≤ last ∧ Between text first ∧ Between text last then
    .ok (String.Pos.Raw.extract text ⟨first⟩ ⟨last⟩)
  else .error (.slice first last)

def numeral? (text : String) : Option Float :=
  let whole := text.toList.takeWhile Char.isDigit
  if whole.isEmpty then none
  else match text.toList.drop whole.length with
    | [] => some (Lexer.numberValue whole [])
    | '.' :: fraction =>
        if !fraction.isEmpty && fraction.all Char.isDigit then some (Lexer.numberValue whole fraction)
        else none
    | _ => none

structure Place where
  text : String
  start : Nat
  curr : Nat

namespace Place

def size (p : Place) : Nat :=
  (octets p.text).length

def peek (p : Place) : Char :=
  character ((octets p.text)[p.curr]?.getD 0)

def peekNext (p : Place) : Char :=
  character ((octets p.text)[p.curr + 1]?.getD 0)

def moveTo (p : Place) (curr : Nat) : Scan Place :=
  if p.start ≤ curr ∧ curr ≤ p.size then .ok { p with curr } else .error (.offset curr)

def advance (p : Place) : Scan (Char × Place) :=
  match (octets p.text)[p.curr]? with
  | some octet => do return (character octet, ← p.moveTo (p.curr + 1))
  | none => .error (.octet p.curr)

theorem advance_shortens {p next : Place} {c : Char} (moved : p.advance = .ok (c, next)) :
    next.size - next.curr < p.size - p.curr := by
  unfold advance at moved
  split at moved
  · rename_i octet there
    have inside : p.curr < p.size := (List.getElem?_eq_some_iff.mp there).1
    unfold moveTo at moved
    split at moved
    · cases moved
      show p.size - (p.curr + 1) < p.size - p.curr
      omega
    · cases moved
  · cases moved

def advanceWhile (is : Char → Bool) (p : Place) : Scan Place :=
  if is p.peek then
    match _moved : p.advance with
    | .ok (_, next) => advanceWhile is next
    | .error stray => .error stray
  else .ok p
termination_by p.size - p.curr
decreasing_by exact advance_shortens _moved

section Loops

variable {is : Char → Bool} {p : Place}

theorem advance_while_stop (no : is p.peek = false) : p.advanceWhile is = .ok p := by
  rw [advanceWhile, if_neg (by simp [no])]

theorem advance_while_step {c : Char} {next : Place} (yes : is p.peek = true) (moved : p.advance = .ok (c, next)) :
    p.advanceWhile is = next.advanceWhile is := by
  rw [advanceWhile, if_pos yes]
  split
  · rename_i other same
    rw [moved] at same
    cases same
    rfl
  · rename_i same
    rw [moved] at same
    cases same

end Loops

abbrev Answer := Except String TokenKind × Place

def unmatched (p : Place) : Scan Answer := do
  let rest ← slice p.text p.start p.size
  match rest.toList with
  | c :: _ => return (.error rest, ← p.moveTo (p.start + c.utf8Size))
  | [] => return (.error rest, p)

def string (p : Place) : Scan Answer := do
  let _ ← p.moveTo p.curr
  match ((octets p.text).drop p.curr).findIdx? (character · == '"') with
  | some length =>
      let contents ← slice p.text p.curr (p.curr + length)
      return (.ok (.string contents), ← p.moveTo (p.curr + length + 1))
  | none =>
      let (failure, stepped) ← p.unmatched
      return (failure, ← stepped.moveTo p.size)

def number (p : Place) : Scan Answer := do
  let whole ← p.advanceWhile Char.isDigit
  let read ←
    if whole.peek == '.' && whole.peekNext.isDigit then do
      let (_, point) ← whole.advance
      point.advanceWhile Char.isDigit
    else pure whole
  let text ← slice read.text read.start read.curr
  match numeral? text with
  | some value => return (.ok (.number value), read)
  | none => .error (.numeral text)

def word (p : Place) : Scan Answer := do
  let read ← p.advanceWhile Lexer.isWordPart
  return (.ok (Lexer.wordKind (← slice read.text read.start read.curr)), read)

def symbol (p : Place) (first : Char) : Scan Answer :=
  match Symbol.double? first p.peek with
  | some symbol => do return (.ok (.symbol symbol), ← p.moveTo (p.curr + 1))
  | none =>
      match Symbol.single? first with
      | some symbol => .ok (.ok (.symbol symbol), p)
      | none => p.unmatched

def scan (p : Place) : Scan Answer := do
  let (first, behind) ← p.advance
  if first == '"' then behind.string
  else if first.isDigit then behind.number
  else if first.isAlpha then behind.word
  else behind.symbol first

def item (p : Place) (line : Nat) : Scan (Except LexError Token × Place) := do
  match ← p.scan with
  | (.ok kind, behind) =>
      let lexeme ← slice behind.text behind.start behind.curr
      return (.ok ⟨kind, lexeme, line⟩, behind)
  | (.error rest, behind) => return (.error ⟨line, rest⟩, behind)

end Place

def slashes? : List UInt8 → Option Nat
  | [] => none
  | first :: rest =>
      if character first == '/' && rest.head?.any (character · == '/') then some 0
      else (slashes? rest).map (· + 1)

def cutComment (text : String) : Scan String :=
  match slashes? (octets text) with
  | some offset => slice text 0 offset
  | none => .ok text

structure Scanner where
  lines : List String
  line : Nat
  start : Nat
  curr : Nat
  finished : Bool

namespace Scanner

def ofLines (lines : List String) : Scan Scanner := do
  return ⟨← lines.mapM cutComment, 0, 0, 0, false⟩

def next (s : Scanner) : Scan (Option (Except LexError Token) × Scanner) :=
  if s.finished then .ok (none, s)
  else
    match _there : s.lines[s.line]? with
    | none => .ok (some (.ok (.finish s.lines.length)), { s with finished := true })
    | some text => do
        let blank ← (⟨text, s.curr, s.curr⟩ : Place).advanceWhile Lexer.isSpace
        if blank.size ≤ blank.curr then next { s with line := s.line + 1, curr := 0 }
        else
          let (item, behind) ← (⟨text, blank.curr, blank.curr⟩ : Place).item (s.line + 1)
          return (some item, { s with start := behind.start, curr := behind.curr })
termination_by s.lines.length - s.line
decreasing_by
  have inside := (List.getElem?_eq_some_iff.mp _there).1
  exact Nat.sub_lt_sub_left inside (Nat.lt_succ_self _)

section Steps

variable {s : Scanner}

theorem next_finished (finished : s.finished = true) : s.next = .ok (none, s) := by
  rw [next, if_pos finished]

theorem next_end (going : s.finished = false) (beyond : s.lines[s.line]? = none) :
    s.next = .ok (some (.ok (.finish s.lines.length)), { s with finished := true }) := by
  rw [next, if_neg (by simp [going])]
  split
  · rfl
  · rename_i text there
    rw [beyond] at there
    cases there

theorem next_blank {text : String} {blank : Place} (going : s.finished = false) (there : s.lines[s.line]? = some text)
    (skipped : (⟨text, s.curr, s.curr⟩ : Place).advanceWhile Lexer.isSpace = .ok blank) (spent : blank.size ≤ blank.curr) :
    s.next = Scanner.next { s with line := s.line + 1, curr := 0 } := by
  rw [next, if_neg (by simp [going])]
  split
  · rename_i beyond
    rw [beyond] at there
    cases there
  · rename_i other same
    rw [there] at same
    cases same
    simp only [skipped, bind, Except.bind]
    rw [if_pos spent]

theorem next_item {text : String} {blank behind : Place} {item : Except LexError Token} (going : s.finished = false)
    (there : s.lines[s.line]? = some text)
    (skipped : (⟨text, s.curr, s.curr⟩ : Place).advanceWhile Lexer.isSpace = .ok blank) (more : blank.curr < blank.size)
    (read : (⟨text, blank.curr, blank.curr⟩ : Place).item (s.line + 1) = .ok (item, behind)) :
    s.next = .ok (some item, { s with start := behind.start, curr := behind.curr }) := by
  rw [next, if_neg (by simp [going])]
  split
  · rename_i beyond
    rw [beyond] at there
    cases there
  · rename_i other same
    rw [there] at same
    cases same
    simp only [skipped, bind, Except.bind]
    rw [if_neg (Nat.not_le_of_lt more), read]
    rfl

end Steps

def calls : Nat → Scanner → Scan (List (Option (Except LexError Token)) × Scanner)
  | 0, s => .ok ([], s)
  | n + 1, s => do
      let (earlier, s) ← calls n s
      let (item, s) ← s.next
      return (earlier ++ [item], s)

end Scanner

end Octets

end TreeWalk
