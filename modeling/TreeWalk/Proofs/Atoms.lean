import Mathlib.Data.List.Nodup
import Mathlib.Logic.Function.Basic
import TreeWalk.Proofs.Numerals
import TreeWalk.Proofs.Printed
import TreeWalk.Proofs.Written

set_option autoImplicit false

namespace TreeWalk

open Grammar Shape

def Literal.worded (mark : Mark) : Literal → Expr
  | .number value =>
      if (Binary64.ofFloat value).isFinite then .literal mark (.number value)
      else .ident mark ⟨(Literal.number value).print, mark.line⟩
  | value => .literal mark value

section Words

theorem breaks_cases {c : Char} (breaking : breaks c = true) : c = ' ' ∨ c = '\n' ∨ c = '(' ∨ c = ')' ∨ c = '"' := by
  simpa [breaks, or_assoc] using breaking

theorem word_solid {c : Char} (part : Lexer.isWordPart c = true) : breaks c = false := by
  by_contra breaking
  rcases breaks_cases (Bool.eq_true_of_not_eq_false breaking) with rfl | rfl | rfl | rfl | rfl <;> cases part

theorem digit_solid {c : Char} (digit : c.isDigit = true ∨ c = '.') : breaks c = false := by
  by_contra breaking
  rcases breaks_cases (Bool.eq_true_of_not_eq_false breaking) with rfl | rfl | rfl | rfl | rfl <;>
    rcases digit with digit | digit <;> cases digit

theorem atomic_solid {text : List Char} (nonempty : text ≠ []) (solid : ∀ c ∈ text, breaks c = false) : Atomic text := by
  cases text with
  | nil => exact absurd rfl nonempty
  | cons first rest => exact .bare first rest solid

def Solid (text : String) : Prop :=
  text.toList ≠ [] ∧ text.toList.all (fun c => !breaks c) = true

instance (text : String) : Decidable (Solid text) :=
  inferInstanceAs (Decidable (_ ∧ _))

theorem solid_atomic {text : String} (solid : Solid text) : Atomic text.toList :=
  atomic_solid solid.1 fun c member => by simpa using List.all_eq_true.mp solid.2 c member

theorem lexeme_identifier {text : List Char} (is : Lexer.Lexeme text .identifier) :
    ∃ first parts, text = first :: parts ∧ first.isAlpha = true ∧ (∀ c ∈ parts, Lexer.isWordPart c = true) ∧
      ∀ k : Keyword, k.text.toList ≠ text := by
  cases is with
  | identifier first parts letter word plain => exact ⟨first, parts, rfl, letter, word, plain⟩

theorem name_atomic {name : Name} (named : name.Written) : Atomic name.text.toList := by
  obtain ⟨first, parts, spelt, letter, word, _⟩ := lexeme_identifier named.spelt
  rw [spelt]
  refine .bare first parts (List.forall_mem_cons.mpr ⟨?_, fun c member => word_solid (word c member)⟩)
  exact word_solid (Lexer.letter_first first letter).2.2.2

end Words

section Numbers

def Lettered (text : String) : Prop :=
  text = "inf" ∨ text = "-inf" ∨ text = "NaN"

theorem number_text (value : Float) :
    ((Binary64.ofFloat value).isFinite = true ∧
      ∃ sign text, (Literal.number value).print.toList = sign ++ text ∧ (sign = [] ∨ sign = ['-']) ∧
        Decimal.Numeric text) ∨
    ((Binary64.ofFloat value).isFinite = false ∧ Lettered (Literal.number value).print) := by
  have print : (Literal.number value).print = (Binary64.ofFloat value).text Literal.numberStyle := rfl
  rw [print]
  cases read : Binary64.ofFloat value with
  | finite negative mantissa exponent =>
      obtain ⟨text, spelt, numeric, _⟩ := Binary64.finite_text negative (Binary64.of_bits_finite read)
      refine .inl ⟨rfl, _, text, spelt, ?_, numeric⟩
      cases negative
      · exact .inl rfl
      · exact .inr rfl
  | infinite negative =>
      cases negative
      · exact .inr ⟨rfl, .inl rfl⟩
      · exact .inr ⟨rfl, .inr (.inl rfl)⟩
  | nan => exact .inr ⟨rfl, .inr (.inr rfl)⟩

theorem signed_solid {sign text : List Char} (signs : sign = [] ∨ sign = ['-']) (numeric : Decimal.Numeric text) :
    ∀ c ∈ sign ++ text, breaks c = false := by
  refine List.forall_mem_append.mpr ⟨?_, fun c member => digit_solid (numeric.digits c member)⟩
  rcases signs with rfl | rfl
  · exact nofun
  · exact List.forall_mem_singleton.mpr rfl

theorem number_atomic (value : Float) : Atomic (Literal.number value).print.toList := by
  rcases number_text value with ⟨_, sign, text, spelt, signs, numeric⟩ | ⟨_, lettered⟩
  · rw [spelt]
    exact atomic_solid (by simp [numeric.nonempty]) (signed_solid signs numeric)
  · rcases lettered with same | same | same <;> rw [same] <;> exact solid_atomic (by decide)

end Numbers

noncomputable def numberOf : String → Option { value : Float // (Binary64.ofFloat value).isFinite = true } :=
  Function.partialInv fun number => (Literal.number number.1).print

theorem number_of_print (value : Float) (finite : (Binary64.ofFloat value).isFinite = true) :
    numberOf (Literal.number value).print = some ⟨value, finite⟩ :=
  Function.partialInv_left (fun x y same => Subtype.ext (Binary64.finite_text_injective x.2 y.2 same)) ⟨value, finite⟩

noncomputable def Expr.ofText (text : String) : Expr :=
  if text.toList.head? = some '"' then .literal unmarked (.string (String.ofList text.toList.tail.dropLast))
  else if text.toList.any Char.isAlpha then
    match Keyword.ofText? text with
    | some .true => .literal unmarked (.bool true)
    | some .false => .literal unmarked (.bool false)
    | some .none => .literal unmarked .none
    | some .this => .this unmarked ⟨receiverName, 0⟩
    | _ => .ident unmarked ⟨text, 0⟩
  else
    match numberOf text with
    | some value => .literal unmarked (.number value.1)
    | none => .ident unmarked ⟨text, 0⟩

section Readings

theorem string_of_text (contents : String) :
    Expr.ofText (Literal.string contents).print = .literal unmarked (.string contents) := by
  have text : (Literal.string contents).print.toList = '"' :: contents.toList ++ ['"'] := by simp [Literal.print]
  unfold Expr.ofText
  rw [if_pos (by rw [text]; rfl), text]
  simp

theorem lettered_of_text {text : String} (lettered : Lettered text) : Expr.ofText text = .ident unmarked ⟨text, 0⟩ := by
  rcases lettered with rfl | rfl | rfl
  all_goals
    unfold Expr.ofText
    rw [if_neg (by decide), if_pos (by decide)]
    rfl

theorem digit_plain {c : Char} (digit : c.isDigit = true ∨ c = '.') : c ≠ '"' ∧ c.isAlpha = false := by
  rcases digit with digit | rfl
  · refine ⟨(Lexer.digit_first c digit).1, ?_⟩
    cases letter : c.isAlpha with
    | false => rfl
    | true => exact absurd digit (by simp [(Lexer.letter_first c letter).2.1])
  · decide

theorem number_of_text (value : Float) :
    Expr.ofText (Literal.number value).print = (Literal.number value).worded unmarked := by
  rcases number_text value with ⟨finite, sign, text, spelt, signs, numeric⟩ | ⟨unbounded, lettered⟩
  · have plain : ∀ c ∈ sign ++ text, c ≠ '"' ∧ c.isAlpha = false := by
      refine List.forall_mem_append.mpr ⟨?_, fun c member => digit_plain (numeric.digits c member)⟩
      rcases signs with rfl | rfl
      · exact nofun
      · exact List.forall_mem_singleton.mpr (by decide)
    have unquoted : ¬ (sign ++ text).head? = some '"' := fun first => (plain '"' (List.mem_of_mem_head? first)).1 rfl
    have wordless : ¬ (sign ++ text).any Char.isAlpha = true := by
      rw [List.any_eq_true]
      rintro ⟨c, member, letter⟩
      rw [(plain c member).2] at letter
      cases letter
    unfold Expr.ofText
    rw [spelt, if_neg unquoted, if_neg wordless, number_of_print value finite]
    simp [Literal.worded, finite]
  · rw [lettered_of_text lettered]
    simp [Literal.worded, unbounded, unmarked]

theorem plain_of_text {text : String} (plain : ∀ k : Keyword, k.text.toList ≠ text.toList) :
    Keyword.ofText? text = none := by
  cases found : Keyword.ofText? text with
  | none => rfl
  | some k =>
      have same := List.find?_some found
      exact absurd (congrArg String.toList (beq_iff_eq.mp same)) (plain k)

theorem name_of_text {name : Name} (named : name.Written) : Expr.ofText name.text = .ident unmarked name := by
  obtain ⟨first, parts, spelt, letter, _, plain⟩ := lexeme_identifier named.spelt
  have unquoted : ¬ (first :: parts).head? = some '"' :=
    fun same => (Lexer.letter_first first letter).1 (Option.some.inj same)
  have lettered : (first :: parts).any Char.isAlpha = true := by simp [letter]
  have unnumbered : (⟨name.text, 0⟩ : Name) = name := by rw [← named.line]
  unfold Expr.ofText
  rw [plain_of_text plain, spelt, if_neg unquoted, if_pos lettered, unnumbered]

theorem literal_of_text (value : Literal) : Expr.ofText value.print = value.worded unmarked := by
  cases value with
  | number value => exact number_of_text value
  | string contents => exact string_of_text contents
  | bool value =>
      cases value
      all_goals
        unfold Expr.ofText
        rw [if_neg (by decide), if_pos (by decide)]
        rfl
  | none =>
      unfold Expr.ofText
      rw [if_neg (by decide), if_pos (by decide)]
      rfl

theorem this_of_text : Expr.ofText "this" = .this unmarked ⟨receiverName, 0⟩ := by
  unfold Expr.ofText
  rw [if_neg (by decide), if_pos (by decide)]
  rfl

theorem literal_atomic {value : Literal} (written : value.Written) : Atomic value.print.toList := by
  cases value with
  | number value => exact number_atomic value
  | string contents =>
      have text : (Literal.string contents).print.toList = '"' :: contents.toList ++ ['"'] := by simp [Literal.print]
      rw [text]
      exact .quoted _ written
  | bool value => cases value <;> exact solid_atomic (by decide)
  | none => exact solid_atomic (by decide)

end Readings

section Operators

def Grammar.spelling : TokenKind → String
  | .symbol s => s.text
  | .keyword k => k.text
  | .identifier | .string _ | .number _ | .finish => ""

variable {kinds : List TokenKind} {operator other : Token}

theorem operator_spelling (fixed : ∀ kind ∈ kinds, spelling kind ≠ "") (sign : Operator kinds operator) :
    operator.lexeme = spelling operator.kind := by
  obtain ⟨_, one, spelt⟩ := sign
  have nonempty := fixed _ one
  unfold Token.Spelt at spelt
  cases kind : operator.kind with
  | symbol s =>
      rw [kind] at spelt
      exact String.toList_inj.mp (Lexer.lexeme_symbol spelt)
  | keyword k =>
      rw [kind] at spelt
      exact String.toList_inj.mp (Lexer.lexeme_keyword spelt)
  | _ =>
      rw [kind] at nonempty
      exact absurd rfl nonempty

theorem operator_lexeme (fixed : ∀ kind ∈ kinds, spelling kind ≠ "") (sign : Operator kinds operator) :
    operator.lexeme ∈ kinds.map spelling := by
  rw [operator_spelling fixed sign]
  exact List.mem_map_of_mem sign.one

theorem operator_unique (fixed : ∀ kind ∈ kinds, spelling kind ≠ "") (distinct : (kinds.map spelling).Nodup)
    (here : Operator kinds operator) (there : Operator kinds other) (same : operator.lexeme = other.lexeme) :
    operator = other := by
  have kind : operator.kind = other.kind := by
    rw [operator_spelling fixed here, operator_spelling fixed there] at same
    exact List.inj_on_of_nodup_map distinct here.one there.one same
  obtain ⟨_, _, _⟩ := operator
  obtain ⟨_, _, _⟩ := other
  cases kind
  cases same
  cases here.line
  cases there.line
  rfl

end Operators

end TreeWalk
