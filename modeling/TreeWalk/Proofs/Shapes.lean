import TreeWalk.Syntax.Printer

set_option autoImplicit false

namespace TreeWalk

inductive Shape where
  | atom (text : String)
  | node (parts : List Shape)

namespace Shape

mutual
def print : Shape → String
  | .atom text => text
  | .node parts => TreeWalk.node (printAll parts)

def printAll : List Shape → List String
  | [] => []
  | s :: rest => s.print :: printAll rest
end

def breaks (c : Char) : Bool :=
  c == ' ' || c == '\n' || c == '(' || c == ')' || c == '"'

inductive Atomic : List Char → Prop where
  | bare (first : Char) (text : List Char) (solid : ∀ c ∈ first :: text, breaks c = false) : Atomic (first :: text)
  | quoted (contents : List Char) (unquoted : '"' ∉ contents) : Atomic ('"' :: contents ++ ['"'])

mutual
def Formed : Shape → Prop
  | .atom text => Atomic text.toList
  | .node parts => FormedAll parts

def FormedAll : List Shape → Prop
  | [] => True
  | s :: rest => s.Formed ∧ FormedAll rest
end

theorem formed_all (parts : List Shape) : FormedAll parts ↔ ∀ s ∈ parts, s.Formed := by
  induction parts with
  | nil => simp [FormedAll]
  | cons s rest ih => rw [FormedAll, ih, List.forall_mem_cons]

def Delimited (rest : List Char) : Prop :=
  ∀ c ∈ rest.head?, breaks c = true

def Closed (rest : List Char) : Prop :=
  ∀ c ∈ rest.head?, c = ')'

def trail (separator : Char) (parts : List Shape) : List Char :=
  (printAll parts).flatMap fun text => separator :: text.toList

section Unique

variable {separator : Char} {rest rest' : List Char}

theorem closed_delimited (closed : Closed rest) : Delimited rest := by
  intro c member
  rw [closed c member]
  rfl

theorem closed_parenthesis (rest : List Char) : Closed (')' :: rest) := by
  intro c member
  exact (Option.some.inj member).symm

theorem atomic_first {text : List Char} (atomic : Atomic text) : ∃ first behind, text = first :: behind ∧
    first ≠ '(' ∧ first ≠ ')' := by
  cases atomic with
  | bare first text solid =>
      have here := solid first List.mem_cons_self
      refine ⟨first, text, rfl, ?_, ?_⟩ <;> rintro rfl <;> cases here
  | quoted contents unquoted => exact ⟨'"', contents ++ ['"'], rfl, by decide, by decide⟩

theorem node_characters (parts : List Shape) :
    (Shape.node parts).print.toList = '(' :: (([' '].intercalate ((printAll parts).map String.toList)) ++ [')']) := by
  simp [print, TreeWalk.node]

theorem intercalate_trail (separator : Char) (s : Shape) (others : List Shape) :
    [separator].intercalate ((printAll (s :: others)).map String.toList) = s.print.toList ++ trail separator others := by
  unfold trail
  induction others generalizing s with
  | nil => simp [printAll]
  | cons next others ih =>
      have := ih next
      simp only [printAll, List.map_cons, List.flatMap_cons] at this ⊢
      rw [List.intercalate_cons_cons, this]
      simp

theorem formed_first {s : Shape} (formed : s.Formed) : ∃ first behind, s.print.toList = first :: behind ∧ first ≠ ')' := by
  cases s with
  | atom text =>
      obtain ⟨first, behind, spelt, _, other⟩ := atomic_first formed
      exact ⟨first, behind, spelt, other⟩
  | node parts => exact ⟨'(', _, node_characters parts, by decide⟩

theorem bare_taken {text : List Char} (solid : ∀ c ∈ text, breaks c = false) (ends : Delimited rest) :
    (text ++ rest).takeWhile (fun c => !breaks c) = text := by
  rw [List.takeWhile_append_of_pos (fun c member => by simp [solid c member])]
  cases rest with
  | nil => simp
  | cons c behind => simp [ends c rfl]

theorem quoted_taken {contents : List Char} (unquoted : '"' ∉ contents) (rest : List Char) :
    (contents ++ '"' :: rest).takeWhile (· != '"') = contents := by
  rw [List.takeWhile_append_of_pos, List.takeWhile_cons_of_neg (by decide), List.append_nil]
  intro c member
  rw [bne_iff_ne]
  rintro rfl
  exact unquoted member

theorem atomic_unique {text text' : List Char} (atomic : Atomic text) (atomic' : Atomic text') (ends : Delimited rest)
    (ends' : Delimited rest') (same : text ++ rest = text' ++ rest') : text = text' := by
  cases atomic with
  | bare first text solid =>
      cases atomic' with
      | bare first' text' solid' => rw [← bare_taken solid ends, same, bare_taken solid' ends']
      | quoted contents unquoted =>
          cases (List.cons.inj same).1
          cases solid '"' List.mem_cons_self
  | quoted contents unquoted =>
      cases atomic' with
      | bare first' text' solid' =>
          cases (List.cons.inj same).1
          cases solid' '"' List.mem_cons_self
      | quoted contents' unquoted' =>
          have inner : contents ++ '"' :: rest = contents' ++ '"' :: rest' := by simpa using same
          rw [← quoted_taken unquoted rest, inner, quoted_taken unquoted' rest']

def Separates (separator : Char) : Prop :=
  breaks separator = true ∧ separator ≠ ')'

theorem trail_delimited (parts : List Shape) (separates : Separates separator) (closed : Closed rest) :
    Delimited (trail separator parts ++ rest) := by
  cases parts with
  | nil => exact closed_delimited closed
  | cons s others =>
      intro c member
      cases member
      exact separates.1

theorem closed_apart {first : Char} {behind : List Char} (closed : Closed rest) (same : rest = first :: behind)
    (other : first ≠ ')') : False :=
  other (closed first (by rw [same]; rfl))

theorem trail_parts (separator : Char) (s : Shape) (others : List Shape) :
    trail separator (s :: others) = separator :: [separator].intercalate ((printAll (s :: others)).map String.toList) := by
  rw [intercalate_trail]
  rfl

theorem trail_same {others others' : List Shape} (separates : Separates separator) (closed : Closed rest)
    (closed' : Closed rest') (same : trail separator others ++ rest = trail separator others' ++ rest') :
    others = others' ∨
      [separator].intercalate ((printAll others).map String.toList) ++ rest =
        [separator].intercalate ((printAll others').map String.toList) ++ rest' := by
  cases others with
  | nil =>
      cases others' with
      | nil => exact .inl rfl
      | cons s' behind' => exact (closed_apart closed same separates.2).elim
  | cons s behind =>
      cases others' with
      | nil => exact (closed_apart closed' same.symm separates.2).elim
      | cons s' behind' =>
          rw [trail_parts, trail_parts] at same
          exact .inr (List.cons.inj same).2

mutual
theorem shape_unique : ∀ {s s' : Shape} {rest rest' : List Char}, s.Formed → s'.Formed → Delimited rest → Delimited rest' →
    s.print.toList ++ rest = s'.print.toList ++ rest' → s = s'
  | .atom text, .atom text', _, _, formed, formed', ends, ends', same =>
      congrArg Shape.atom (String.toList_inj.mp (atomic_unique formed formed' ends ends' same))
  | .atom text, .node parts, _, _, formed, _, _, _, same => by
      obtain ⟨first, behind, spelt, other, _⟩ := atomic_first formed
      rw [node_characters, print, spelt] at same
      exact absurd (List.cons.inj same).1 other
  | .node parts, .atom text, _, _, _, formed, _, _, same => by
      obtain ⟨first, behind, spelt, other, _⟩ := atomic_first formed
      rw [node_characters, print, spelt] at same
      exact absurd (List.cons.inj same).1.symm other
  | .node parts, .node parts', rest, rest', formed, formed', _, _, same => by
      rw [node_characters, node_characters, List.cons_append, List.cons_append, List.append_assoc, List.append_assoc] at same
      exact congrArg Shape.node (parts_unique formed formed' ⟨rfl, by decide⟩ (closed_parenthesis rest)
        (closed_parenthesis rest') (List.cons.inj same).2)

theorem parts_unique : ∀ {parts parts' : List Shape} {rest rest' : List Char} {separator : Char}, FormedAll parts →
    FormedAll parts' → Separates separator → Closed rest → Closed rest' →
    [separator].intercalate ((printAll parts).map String.toList) ++ rest =
      [separator].intercalate ((printAll parts').map String.toList) ++ rest' → parts = parts'
  | [], [], _, _, _, _, _, _, _, _, _ => rfl
  | [], s :: others, _, _, _, _, formed, _, closed, _, same => by
      obtain ⟨first, behind, spelt, other⟩ := formed_first formed.1
      rw [intercalate_trail, spelt] at same
      exact (closed_apart closed same other).elim
  | s :: others, [], _, _, _, formed, _, _, _, closed, same => by
      obtain ⟨first, behind, spelt, other⟩ := formed_first formed.1
      rw [intercalate_trail, spelt] at same
      exact (closed_apart closed same.symm other).elim
  | s :: others, s' :: others', _, _, _, formed, formed', separates, closed, closed', same => by
      rw [intercalate_trail, intercalate_trail, List.append_assoc, List.append_assoc] at same
      have first := shape_unique formed.1 formed'.1 (trail_delimited others separates closed)
        (trail_delimited others' separates closed') same
      subst first
      rcases trail_same separates closed closed' (List.append_cancel_left same) with rfl | behind
      · rfl
      · rw [parts_unique formed.2 formed'.2 separates closed closed' behind]
end

theorem lines_unique {parts parts' : List Shape} (formed : FormedAll parts) (formed' : FormedAll parts')
    (same : String.intercalate "\n" (printAll parts) = String.intercalate "\n" (printAll parts')) : parts = parts' := by
  have nothing : Closed [] := nofun
  have newline : Separates '\n' := ⟨rfl, by decide⟩
  refine parts_unique formed formed' newline nothing nothing ?_
  have characters := congrArg String.toList same
  simpa using characters

end Unique

end Shape

end TreeWalk
