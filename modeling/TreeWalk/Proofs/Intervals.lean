import Mathlib.Algebra.Order.Field.Power
import Mathlib.Data.Rat.Cast.Order
import Mathlib.Tactic.Linarith
import Mathlib.Tactic.FieldSimp
import Mathlib.Tactic.Ring
import TreeWalk.Decimal.Shortest

set_option autoImplicit false

namespace TreeWalk

namespace Binary64

structure Canonical (mantissa : Nat) (exponent : Int) : Prop where
  fits : mantissa < 2 ^ 53
  least : leastExponent ≤ exponent
  leading : exponent ≠ leastExponent → 2 ^ 52 ≤ mantissa

section Bits

theorem of_bits_finite {bits mantissa : Nat} {negative : Bool} {exponent : Int}
    (finite : ofBits bits = .finite negative mantissa exponent) : Canonical mantissa exponent := by
  unfold ofBits at finite
  dsimp only at finite
  split at finite
  · split at finite <;> cases finite
  · split at finite
    · cases finite
      refine ⟨?_, Int.le_refl _, fun other => absurd rfl other⟩
      have := Nat.mod_lt bits (by decide : 0 < Nat.pow 2 52)
      simp only [Nat.pow_eq] at this ⊢
      omega
    · cases finite
      have := Nat.mod_lt bits (by decide : 0 < Nat.pow 2 52)
      refine ⟨?_, ?_, fun _ => Nat.le_add_right _ _⟩
      · simp only [Nat.pow_eq] at this ⊢
        omega
      · omega

theorem of_bits_parts {bits mantissa : Nat} {negative : Bool} {exponent : Int} (bound : bits < 2 ^ 64)
    (finite : ofBits bits = .finite negative mantissa exponent) :
    bits = negative.toNat * 2 ^ 63 +
      if mantissa < 2 ^ 52 then mantissa else (exponent - leastExponent + 1).toNat * 2 ^ 52 + (mantissa - 2 ^ 52) := by
  have sign : (bits / 2 ^ 63 % 2 == 1).toNat = bits / 2 ^ 63 := by
    obtain zero | one : bits / 2 ^ 63 = 0 ∨ bits / 2 ^ 63 = 1 := by omega
    · rw [zero]
      rfl
    · rw [one]
      rfl
  unfold ofBits at finite
  simp only [Nat.pow_eq] at finite
  split at finite
  · split at finite <;> cases finite
  · split at finite
    · cases finite
      rw [sign, if_pos (Nat.mod_lt bits (by decide))]
      omega
    · cases finite
      rw [sign, if_neg (by omega)]
      omega

theorem of_float_injective {x y : Float} {mantissa : Nat} {negative : Bool} {exponent : Int}
    (here : ofFloat x = .finite negative mantissa exponent) (there : ofFloat y = .finite negative mantissa exponent) :
    x = y := by
  have same : x.toBits = y.toBits := UInt64.toNat_inj.mp
    ((of_bits_parts x.toBits.toNat_lt here).trans (of_bits_parts y.toBits.toNat_lt there).symm)
  obtain ⟨⟨bits, _⟩⟩ := x
  obtain ⟨⟨others, _⟩⟩ := y
  change bits = others at same
  subst same
  rfl

end Bits

def reachBelow (mantissa : Nat) (exponent : Int) : ℚ :=
  if Decimal.narrowBelow mantissa exponent then 1 / 4 else 1 / 2

structure Near (mantissa : Nat) (exponent : Int) (number : ℚ) : Prop where
  low : mantissa - reachBelow mantissa exponent ≤ number / 2 ^ exponent
  high : number / 2 ^ exponent ≤ mantissa + 1 / 2
  inside : mantissa % 2 = 1 →
    mantissa - reachBelow mantissa exponent < number / 2 ^ exponent ∧ number / 2 ^ exponent < mantissa + 1 / 2

section Apart

variable {mantissa other : Nat} {exponent higher : Int} {number : ℚ}

theorem reach_below_pos (mantissa : Nat) (exponent : Int) : 0 < reachBelow mantissa exponent := by
  unfold reachBelow
  split <;> norm_num

theorem reach_below_half (mantissa : Nat) (exponent : Int) : reachBelow mantissa exponent ≤ 1 / 2 := by
  unfold reachBelow
  split <;> norm_num

theorem near_itself (mantissa : Nat) (exponent : Int) : Near mantissa exponent (mantissa * 2 ^ exponent) := by
  have place : (mantissa * 2 ^ exponent : ℚ) / 2 ^ exponent = mantissa :=
    mul_div_cancel_right₀ _ (zpow_ne_zero _ two_ne_zero)
  have reach := reach_below_pos mantissa exponent
  refine ⟨?_, ?_, fun _ => ⟨?_, ?_⟩⟩ <;> rw [place] <;> linarith

theorem near_apart_mantissa (less : mantissa < other) (here : Near mantissa exponent number)
    (there : Near other exponent number) : False := by
  have next : (mantissa + 1 : ℚ) ≤ other := by exact_mod_cast less
  have reach := reach_below_half other exponent
  have low := there.low
  have high := here.high
  have middle : other = mantissa + 1 := by
    have bound : (other : ℚ) ≤ mantissa + 1 := by linarith
    have upper : other ≤ mantissa + 1 := by exact_mod_cast bound
    omega
  rcases Nat.mod_two_eq_zero_or_one mantissa with even | odd
  · have strict := (there.inside (by omega)).1
    linarith
  · have strict := (here.inside odd).2
    linarith

theorem near_apart_exponent (less : exponent < higher) (canonical : Canonical mantissa exponent)
    (above : Canonical other higher) (here : Near mantissa exponent number) (there : Near other higher number) :
    False := by
  have scaled : number / 2 ^ exponent = number / 2 ^ higher * 2 ^ (higher - exponent) := by
    rw [zpow_sub₀ two_ne_zero]
    field_simp
  have doubled : (2 : ℚ) ≤ 2 ^ (higher - exponent) := by
    calc (2 : ℚ) = 2 ^ (1 : Int) := (zpow_one 2).symm
      _ ≤ 2 ^ (higher - exponent) := zpow_le_zpow_right₀ one_le_two (by omega)
  have raised : higher ≠ leastExponent := by
    have := canonical.least
    omega
  have fits : (mantissa + 1 : ℚ) ≤ 2 ^ 53 := by exact_mod_cast canonical.fits
  have leading : (2 ^ 52 : ℚ) ≤ other := by exact_mod_cast above.leading raised
  have low : (2 ^ 52 - 1 / 4 : ℚ) ≤ number / 2 ^ higher := by
    refine le_trans ?_ there.low
    rcases Nat.eq_or_lt_of_le (above.leading raised) with least | greater
    · have narrow : reachBelow other higher = 1 / 4 := by
        rw [reachBelow, if_pos]
        simp [Decimal.narrowBelow, ← least, raised]
      rw [narrow]
      linarith
    · have more : (2 ^ 52 + 1 : ℚ) ≤ other := by exact_mod_cast greater
      have reach := reach_below_half other higher
      linarith
  have far : (2 ^ 53 - 1 / 2 : ℚ) ≤ number / 2 ^ exponent := by
    rw [scaled]
    nlinarith
  have high := here.high
  have last : mantissa + 1 = 2 ^ 53 := by
    have bound : (2 ^ 53 : ℚ) ≤ mantissa + 1 := by linarith
    have upper : 2 ^ 53 ≤ mantissa + 1 := by exact_mod_cast bound
    have := canonical.fits
    omega
  have strict := (here.inside (by omega)).2
  linarith

theorem near_unique (canonical : Canonical mantissa exponent) (above : Canonical other higher)
    (here : Near mantissa exponent number) (there : Near other higher number) : mantissa = other ∧ exponent = higher := by
  rcases lt_trichotomy exponent higher with less | rfl | greater
  · exact (near_apart_exponent less canonical above here there).elim
  · rcases lt_trichotomy mantissa other with less | same | greater
    · exact (near_apart_mantissa less here there).elim
    · exact ⟨same, rfl⟩
    · exact (near_apart_mantissa greater there here).elim
  · exact (near_apart_exponent greater above canonical there here).elim

end Apart

end Binary64

namespace Decimal

def value (d : Decimal) : ℚ :=
  d.significand * 10 ^ d.exponent

def Grid.Holds (g : Grid) (point : Nat) : Prop :=
  (g.value ≤ point * g.unit + g.below ∧ point * g.unit ≤ g.value + g.above) ∧
    (g.closed = false → g.value < point * g.unit + g.below ∧ point * g.unit < g.value + g.above)

section Search

variable {mantissa : Nat} {exponent power : Int}

theorem reaches_bounds (g : Grid) (distance bound : Nat) (reaches : g.reaches distance bound = true) :
    distance ≤ bound ∧ (g.closed = false → distance < bound) := by
  unfold Grid.reaches at reaches
  split at reaches
  · rename_i closed
    exact ⟨of_decide_eq_true reaches, fun opened => by simp [closed] at opened⟩
  · have strict := of_decide_eq_true reaches
    exact ⟨Nat.le_of_lt strict, fun _ => strict⟩

theorem holds_low (g : Grid) (reaches : g.reaches (g.value % g.unit) g.below = true) (up : 0 < g.above) :
    g.Holds (g.value / g.unit) := by
  have split := Nat.div_add_mod' g.value g.unit
  have bounds := reaches_bounds g _ _ reaches
  refine ⟨by omega, fun opened => ?_⟩
  have := bounds.2 opened
  omega

theorem holds_high (g : Grid) (unit : 0 < g.unit) (down : 0 < g.below)
    (reaches : g.reaches (g.unit - g.value % g.unit) g.above = true) : g.Holds (g.value / g.unit + 1) := by
  have split := Nat.div_add_mod' g.value g.unit
  have rest := Nat.mod_lt g.value unit
  have bounds := reaches_bounds g _ _ reaches
  rw [Grid.Holds, Nat.add_one_mul]
  refine ⟨by omega, fun opened => ?_⟩
  have := bounds.2 opened
  omega

theorem nearest_holds (g : Grid) (tie : Tie) (point : Nat) (unit : 0 < g.unit) (down : 0 < g.below) (up : 0 < g.above)
    (found : g.nearest? tie = some point) : g.Holds point := by
  unfold Grid.nearest? at found
  dsimp only at found
  split at found
  · rename_i low high
    have first := holds_low g low up
    have second := holds_high g unit down high
    split at found
    · cases found
      exact first
    · split at found
      · cases found
        exact second
      · cases tie with
        | up =>
            cases found
            exact second
        | even =>
            cases found
            rcases Nat.mod_two_eq_zero_or_one (g.value / g.unit) with even | odd
            · rwa [even]
            · rwa [odd]
  · rename_i low high
    cases found
    exact holds_low g low up
  · rename_i low high
    cases found
    exact holds_high g unit down high
  · cases found

theorem reaches_within (g : Grid) (distance bound : Nat) (within : distance < bound) :
    g.reaches distance bound = true := by
  unfold Grid.reaches
  split
  · exact decide_eq_true (Nat.le_of_lt within)
  · exact decide_eq_true within

theorem nearest_found (g : Grid) (tie : Tie) (unit : 0 < g.unit) (wide : g.unit < g.below + g.above) :
    ∃ point, g.nearest? tie = some point := by
  have rest := Nat.mod_lt g.value unit
  have reached : g.reaches (g.value % g.unit) g.below = true ∨ g.reaches (g.unit - g.value % g.unit) g.above = true := by
    by_cases low : g.value % g.unit < g.below
    · exact .inl (reaches_within g _ _ low)
    · exact .inr (reaches_within g _ _ (by omega))
  unfold Grid.nearest?
  dsimp only
  split
  · split
    · exact ⟨_, rfl⟩
    · split
      · exact ⟨_, rfl⟩
      · cases tie <;> exact ⟨_, rfl⟩
  · exact ⟨_, rfl⟩
  · exact ⟨_, rfl⟩
  · rename_i low high
    rw [low, high] at reached
    rcases reached with reached | reached <;> cases reached

def step (exponent power : Int) : Nat :=
  Nat.pow 2 exponent.toNat * Nat.pow 10 (-power).toNat

theorem step_pos (exponent power : Int) : 0 < step exponent power :=
  Nat.mul_pos (Nat.pow_pos (by decide)) (Nat.pow_pos (by decide))

theorem grid_unit_pos (mantissa : Nat) (exponent power : Int) : 0 < (grid mantissa exponent power).unit :=
  Nat.mul_pos (by decide) (Nat.mul_pos (Nat.pow_pos (by decide)) (Nat.pow_pos (by decide)))

theorem grid_below (mantissa : Nat) (exponent power : Int) :
    (grid mantissa exponent power).below = 4 * Binary64.reachBelow mantissa exponent * step exponent power := by
  unfold grid Binary64.reachBelow
  dsimp only
  cases narrow : narrowBelow mantissa exponent <;> simp [step]
  ring

theorem grid_above (mantissa : Nat) (exponent power : Int) :
    (grid mantissa exponent power).above = 2 * step exponent power :=
  rfl

theorem power_split (base : ℚ) (nonzero : base ≠ 0) (n : Int) :
    base ^ n * base ^ (-n).toNat = base ^ n.toNat := by
  rw [← zpow_natCast, ← zpow_natCast, ← zpow_add₀ nonzero]
  congr 1
  omega

theorem grid_scale (mantissa : Nat) (exponent power : Int) :
    ((grid mantissa exponent power).unit : ℚ) * 2 ^ exponent = 4 * step exponent power * 10 ^ power := by
  have two := power_split 2 (by norm_num) exponent
  have ten := power_split 10 (by norm_num) power
  have unit : ((grid mantissa exponent power).unit : ℚ) = 4 * (2 ^ (-exponent).toNat * 10 ^ power.toNat) := by
    simp [grid]
  have denominator : (step exponent power : ℚ) = 2 ^ exponent.toNat * 10 ^ (-power).toNat := by
    simp [step]
  rw [unit, denominator, ← two, ← ten]
  ring

theorem holds_near {point : Nat} (holds : (grid mantissa exponent power).Holds point) :
    Binary64.Near mantissa exponent (point * 10 ^ power) := by
  let g := grid mantissa exponent power
  have positive : (0 : ℚ) < 4 * step exponent power := by exact_mod_cast Nat.mul_pos (by decide) (step_pos exponent power)
  have place : (point * 10 ^ power : ℚ) / 2 ^ exponent = point * g.unit / (4 * step exponent power) := by
    rw [div_eq_div_iff (zpow_ne_zero _ two_ne_zero) positive.ne', mul_assoc, mul_assoc, grid_scale]
    ring
  have value : (g.value : ℚ) = mantissa * (4 * step exponent power) := by
    have unfolded : g.value = 4 * mantissa * step exponent power := rfl
    rw [unfolded]
    push_cast
    ring
  have below : (g.below : ℚ) = Binary64.reachBelow mantissa exponent * (4 * step exponent power) := by
    rw [grid_below]
    ring
  have above : (g.above : ℚ) = 1 / 2 * (4 * step exponent power) := by
    rw [grid_above]
    push_cast
    ring
  obtain ⟨⟨low, high⟩, strict⟩ := holds
  refine ⟨?_, ?_, fun odd => ?_⟩
  · have low' : (g.value : ℚ) ≤ point * g.unit + g.below := by exact_mod_cast low
    rw [place, le_div_iff₀ positive]
    linarith
  · have high' : (point * g.unit : ℚ) ≤ g.value + g.above := by exact_mod_cast high
    rw [place, div_le_iff₀ positive]
    linarith
  · obtain ⟨low, high⟩ := strict (by simp [grid, odd])
    have low' : (g.value : ℚ) < point * g.unit + g.below := by exact_mod_cast low
    have high' : (point * g.unit : ℚ) < g.value + g.above := by exact_mod_cast high
    rw [place, lt_div_iff₀ positive, div_lt_iff₀ positive]
    constructor <;> linarith

theorem found_near {tie : Tie} {point : Nat} (found : (grid mantissa exponent power).nearest? tie = some point) :
    Binary64.Near mantissa exponent (Decimal.value ⟨point, power⟩) := by
  have step := step_pos exponent power
  refine holds_near (nearest_holds _ tie point (grid_unit_pos _ _ _) ?_ ?_ found)
  · unfold grid
    dsimp only
    split
    · exact Nat.mul_pos (by decide) step
    · exact Nat.mul_pos (by decide) step
  · exact Nat.mul_pos (by decide) step

theorem coarsest_near (tie : Tie) (mantissa : Nat) (exponent : Int) (tries : Nat) (power : Int)
    (wide : let last := grid mantissa exponent (power - tries)
      last.unit < last.below + last.above) :
    Binary64.Near mantissa exponent (coarsest tie mantissa exponent (tries + 1) power).value := by
  induction tries generalizing power with
  | zero =>
      rw [Int.natCast_zero, Int.sub_zero] at wide
      obtain ⟨point, found⟩ := nearest_found _ tie (grid_unit_pos _ _ _) wide
      rw [coarsest, found]
      exact found_near found
  | succ tries ih =>
      rw [coarsest]
      cases found : (grid mantissa exponent power).nearest? tie with
      | some point => exact found_near found
      | none =>
          apply ih
          rwa [Int.sub_sub, Int.add_comm 1]

theorem binary_within_decimal (count : Nat) : 2 ^ count ≤ 10 ^ (count * 10 / 33 + 1) := by
  have few : ∀ rest < 33, 2 ^ rest ≤ 10 ^ (rest * 10 / 33 + 1) := by decide
  calc 2 ^ count = (2 ^ 33) ^ (count / 33) * 2 ^ (count % 33) := by
        rw [← Nat.pow_mul, ← Nat.pow_add, Nat.div_add_mod]
    _ ≤ (10 ^ 10) ^ (count / 33) * 10 ^ (count % 33 * 10 / 33 + 1) :=
        Nat.mul_le_mul (Nat.pow_le_pow_left (by decide) _) (few _ (Nat.mod_lt _ (by decide)))
    _ = 10 ^ (count * 10 / 33 + 1) := by
        rw [← Nat.pow_mul, ← Nat.pow_add]
        congr 1
        omega

theorem last_grid_wide (canonical : Binary64.Canonical mantissa exponent) (fraction : exponent < 0) :
    let last := grid mantissa exponent (powerAbove mantissa exponent - 23)
    last.unit < last.below + last.above := by
  intro last
  have length : mantissa.log2 ≤ 52 := by
    rcases Nat.eq_zero_or_pos mantissa with rfl | positive
    · decide
    · exact Nat.le_of_lt_succ ((Nat.log2_lt positive.ne').mpr canonical.fits)
  have least : -1074 ≤ exponent := canonical.least
  obtain ⟨places, power⟩ : ∃ places : Nat, powerAbove mantissa exponent - 23 = -(places : Int) :=
    ⟨(23 - powerAbove mantissa exponent).toNat, by unfold powerAbove; omega⟩
  have enough : (-exponent).toNat * 10 / 33 + 2 ≤ places := by
    unfold powerAbove at power
    omega
  have unit : last.unit = 4 * 2 ^ (-exponent).toNat := by
    show 4 * (Nat.pow 2 (-exponent).toNat * Nat.pow 10 (powerAbove mantissa exponent - 23).toNat) = _
    rw [power, Int.toNat_neg_natCast]
    simp
  have reach : 3 * 10 ^ places ≤ last.below + last.above := by
    have up : exponent.toNat = 0 := by omega
    have step : step exponent (powerAbove mantissa exponent - 23) = 10 ^ places := by
      unfold Decimal.step
      rw [power, up]
      simp
    have below : 10 ^ places ≤ last.below := by
      rw [← step]
      exact Nat.le_mul_of_pos_left _ (by split <;> decide)
    have above : last.above = 2 * 10 ^ places := by rw [← step]; rfl
    omega
  have digits := binary_within_decimal (-exponent).toNat
  have more : 10 ^ ((-exponent).toNat * 10 / 33 + 2) ≤ 10 ^ places := Nat.pow_le_pow_right (by decide) enough
  have positive : 0 < 10 ^ places := Nat.pow_pos (by decide)
  rw [Nat.pow_succ] at more
  omega

theorem shortest_near (tie : Tie) (canonical : Binary64.Canonical mantissa exponent) (fraction : exponent < 0) :
    Binary64.Near mantissa exponent (shortest tie mantissa exponent).value := by
  unfold shortest
  split
  · rename_i zero
    have itself := Binary64.near_itself mantissa exponent
    rw [zero] at itself ⊢
    simpa [value] using itself
  · exact coarsest_near tie mantissa exponent 23 _ (last_grid_wide canonical fraction)

end Search

end Decimal

end TreeWalk
