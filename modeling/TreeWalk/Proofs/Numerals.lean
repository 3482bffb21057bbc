import Mathlib.Data.Nat.Cast.Field
import TreeWalk.Decimal.Layout
import TreeWalk.Proofs.Intervals
import TreeWalk.Syntax.Printer

set_option autoImplicit false

namespace TreeWalk

namespace Decimal

def numeral (text : List Char) : ℚ :=
  let whole := text.takeWhile (· != '.')
  let fraction := text.drop (whole.length + 1)
  Nat.ofDigitChars 10 (whole ++ fraction) 0 / 10 ^ fraction.length

structure Numeric (text : List Char) : Prop where
  nonempty : text ≠ []
  digits : ∀ c ∈ text, c.isDigit = true ∨ c = '.'

section Digits

variable {whole fraction : List Char}

theorem no_point (digits : ∀ c ∈ whole, c.isDigit = true) : ∀ c ∈ whole, (c != '.') = true := by
  intro c member
  rw [bne_iff_ne]
  rintro rfl
  exact absurd (digits '.' member) (by decide)

theorem numeral_whole (digits : ∀ c ∈ whole, c.isDigit = true) : numeral whole = Nat.ofDigitChars 10 whole 0 := by
  have all : whole.takeWhile (· != '.') = whole := by
    have front : (whole ++ []).takeWhile (· != '.') = whole ++ [].takeWhile (· != '.') :=
      List.takeWhile_append_of_pos (no_point digits)
    simpa using front
  have behind : whole.drop (whole.length + 1) = [] := List.drop_eq_nil_of_le (Nat.le_succ _)
  simp [numeral, all, behind]

theorem numeral_point (digits : ∀ c ∈ whole, c.isDigit = true) :
    numeral (whole ++ '.' :: fraction) = Nat.ofDigitChars 10 (whole ++ fraction) 0 / 10 ^ fraction.length := by
  have front : (whole ++ '.' :: fraction).takeWhile (· != '.') = whole := by
    rw [List.takeWhile_append_of_pos (no_point digits), List.takeWhile_cons_of_neg (by decide), List.append_nil]
  simp [numeral, front]

theorem numeric_whole (nonempty : whole ≠ []) (digits : ∀ c ∈ whole, c.isDigit = true) : Numeric whole :=
  ⟨nonempty, fun c member => .inl (digits c member)⟩

theorem numeric_point (digits : ∀ c ∈ whole ++ fraction, c.isDigit = true) : Numeric (whole ++ '.' :: fraction) := by
  refine ⟨by simp, fun c member => ?_⟩
  simp only [List.mem_append, List.mem_cons] at member digits
  rcases member with left | rfl | right
  · exact .inl (digits c (.inl left))
  · exact .inr rfl
  · exact .inl (digits c (.inr right))

theorem zeros_characters (count : Nat) : (zeros count).toList = List.replicate count '0' := by
  unfold zeros
  rw [String.pushn_eq_repeat_push]
  induction count with
  | zero => rfl
  | succ count ih => rw [Nat.repeat, String.toList_push, ih, List.replicate_succ']

theorem digits_characters (d : Decimal) : d.digits.toList = Nat.toDigits 10 d.significand :=
  Nat.toList_repr

end Digits

theorem digits_decimal (d : Decimal) : ∀ c ∈ d.digits.toList, c.isDigit = true := by
  rw [digits_characters]
  exact fun c => Nat.isDigit_of_mem_toDigits (by decide) (by decide)

theorem zeros_decimal (count : Nat) : ∀ c ∈ List.replicate count '0', c.isDigit = true := by
  intro c member
  rw [List.eq_of_mem_replicate member]
  rfl

theorem positional_whole (d : Decimal) (up : Nat) (exponent : d.exponent = up) :
    d.positional.toList = d.digits.toList ++ List.replicate up '0' := by
  unfold positional
  rw [exponent]
  exact (String.toList_append ..).trans (by rw [zeros_characters])

theorem positional_point (d : Decimal) (places : Nat) (positive : 0 < places) (exponent : d.exponent = -(places : Int)) :
    ∃ whole fraction count, d.positional.toList = whole ++ '.' :: fraction ∧ fraction.length = places ∧
      whole ++ fraction = List.replicate count '0' ++ d.digits.toList := by
  obtain ⟨down, rfl⟩ : ∃ down, places = down + 1 := ⟨places - 1, by omega⟩
  have length : d.digits.length = d.digits.toList.length := String.length_toList.symm
  unfold positional
  rw [exponent]
  show ∃ whole fraction count, (if down + 1 < d.digits.length then _ else _ : String).toList = _ ∧ _
  split
  · rename_i inside
    refine ⟨d.digits.toList.take (d.digits.length - (down + 1)), d.digits.toList.drop (d.digits.length - (down + 1)), 0,
      ?_, ?_, ?_⟩
    · simp [splitText]
    · rw [List.length_drop]
      omega
    · simp
  · rename_i outside
    refine ⟨['0'], List.replicate (down + 1 - d.digits.length) '0' ++ d.digits.toList, down + 1 - d.digits.length + 1,
      ?_, ?_, ?_⟩
    · simp [zeros_characters]
    · rw [List.length_append, List.length_replicate]
      omega
    · simp [List.replicate_succ]

theorem positional_numeral (d : Decimal) : numeral d.positional.toList = d.value ∧ Numeric d.positional.toList := by
  have decimal := digits_decimal d
  have significand : Nat.ofDigitChars 10 d.digits.toList 0 = d.significand := by
    rw [digits_characters, Nat.ofDigitChars_ten_toDigits]
  cases exponent : d.exponent with
  | ofNat up =>
      have all : ∀ c ∈ d.digits.toList ++ List.replicate up '0', c.isDigit = true :=
        List.forall_mem_append.mpr ⟨decimal, zeros_decimal up⟩
      rw [positional_whole d up exponent]
      refine ⟨?_, numeric_whole ?_ all⟩
      · rw [numeral_whole all, Nat.ofDigitChars_append, significand, Nat.ofDigitChars_replicate_zero, value, exponent]
        simp [mul_comm]
      · rw [digits_characters]
        simp
  | negSucc down =>
      obtain ⟨whole, fraction, count, text, length, digits⟩ :=
        positional_point d (down + 1) (Nat.succ_pos down) exponent
      have all : ∀ c ∈ whole ++ fraction, c.isDigit = true := by
        rw [digits]
        exact List.forall_mem_append.mpr ⟨zeros_decimal count, decimal⟩
      rw [text]
      refine ⟨?_, numeric_point all⟩
      rw [numeral_point (List.forall_mem_append.mp all).1, digits, Nat.ofDigitChars_append,
        Nat.ofDigitChars_replicate_zero, Nat.mul_zero, significand, length, value, exponent, div_eq_mul_inv,
        ← zpow_natCast, ← zpow_neg]
      rfl

end Decimal

namespace Binary64

open Decimal

def isFinite : Binary64 → Bool
  | finite .. => true
  | infinite _ | nan => false

section Texts

variable {negative : Bool} {mantissa : Nat} {exponent : Int}

theorem natural_value {n : Nat} (natural : (finite negative mantissa exponent).natural? = some n) :
    (mantissa * 2 ^ exponent : ℚ) = n := by
  cases exponent with
  | ofNat up =>
      cases natural
      simp
  | negSucc down =>
      unfold natural? at natural
      dsimp only at natural
      split at natural
      · rename_i whole
        cases natural
        have divides : 2 ^ (down + 1) ∣ mantissa := Nat.dvd_of_mod_eq_zero whole
        rw [zpow_negSucc, ← div_eq_mul_inv]
        show (mantissa : ℚ) / 2 ^ (down + 1) = ((mantissa / 2 ^ (down + 1) : Nat) : ℚ)
        rw [Nat.cast_div divides (by positivity)]
        simp
      · cases natural

theorem natural_fraction (natural : (finite negative mantissa exponent).natural? = none) : exponent < 0 := by
  cases exponent with
  | ofNat up => cases natural
  | negSucc down => exact Int.negSucc_lt_zero down

theorem signed_characters (text : String) :
    (signed negative text).toList = (if negative then ['-'] else []) ++ text.toList := by
  cases negative <;> simp [signed]

theorem finite_text (negative : Bool) (canonical : Canonical mantissa exponent) :
    ∃ text, ((finite negative mantissa exponent).text Literal.numberStyle).toList =
        (if negative then ['-'] else []) ++ text ∧ Numeric text ∧ Near mantissa exponent (numeral text) := by
  unfold Binary64.text
  cases natural : (finite negative mantissa exponent).natural? with
  | none =>
      refine ⟨_, signed_characters _, ?_⟩
      obtain ⟨value, numeric⟩ := positional_numeral (shortest .up mantissa exponent)
      exact ⟨numeric, value ▸ shortest_near .up canonical (natural_fraction natural)⟩
  | some n =>
      have digits : ∀ c ∈ Nat.toDigits 10 n, c.isDigit = true := fun c =>
        Nat.isDigit_of_mem_toDigits (by decide) (by decide)
      refine ⟨Nat.toDigits 10 n ++ '.' :: ['0'], ?_, numeric_point ?_, ?_⟩
      · simp [Literal.numberStyle, WholeStyle.covers, isNegative, signed_characters]
      · exact List.forall_mem_append.mpr ⟨digits, List.forall_mem_singleton.mpr rfl⟩
      · have value : numeral (Nat.toDigits 10 n ++ '.' :: ['0']) = n := by
          rw [numeral_point digits, Nat.ofDigitChars_append, Nat.ofDigitChars_ten_toDigits]
          simp [Nat.ofDigitChars_cons]
        rw [value, ← natural_value natural]
        exact near_itself mantissa exponent

theorem signs_apart {negative' : Bool} {text text' : List Char} (numeric : Numeric text) (numeric' : Numeric text')
    (same : (if negative then ['-'] else []) ++ text = (if negative' then ['-'] else []) ++ text') :
    negative = negative' ∧ text = text' := by
  have unsigned : ∀ {text : List Char}, Numeric text → ∀ rest, text ≠ '-' :: rest := by
    rintro _ numeric rest rfl
    exact absurd (numeric.digits '-' List.mem_cons_self) (by decide)
  cases negative <;> cases negative'
  · exact ⟨rfl, same⟩
  · exact absurd same (unsigned numeric _)
  · exact absurd same.symm (unsigned numeric' _)
  · exact ⟨rfl, List.tail_eq_of_cons_eq same⟩

end Texts

theorem finite_text_injective {x y : Float} (here : (ofFloat x).isFinite = true) (there : (ofFloat y).isFinite = true)
    (same : (ofFloat x).text Literal.numberStyle = (ofFloat y).text Literal.numberStyle) : x = y := by
  cases first : ofFloat x with
  | infinite | nan => simp [first, isFinite] at here
  | finite negative mantissa exponent =>
  cases second : ofFloat y with
  | infinite | nan => simp [second, isFinite] at there
  | finite negative' mantissa' exponent' =>
  have canonical := of_bits_finite first
  have canonical' := of_bits_finite second
  obtain ⟨text, spelt, numeric, near⟩ := finite_text negative canonical
  obtain ⟨text', spelt', numeric', near'⟩ := finite_text negative' canonical'
  rw [first, second] at same
  have characters : (if negative then ['-'] else []) ++ text = (if negative' then ['-'] else []) ++ text' := by
    rw [← spelt, ← spelt', same]
  obtain ⟨rfl, rfl⟩ := signs_apart numeric numeric' characters
  obtain ⟨rfl, rfl⟩ := near_unique canonical canonical' near near'
  exact of_float_injective first second

end Binary64

end TreeWalk
