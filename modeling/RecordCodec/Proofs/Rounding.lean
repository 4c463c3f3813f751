import Mathlib.Algebra.Order.Field.Power
import Mathlib.Data.Rat.Cast.Order
import Mathlib.Tactic.FieldSimp
import Mathlib.Tactic.Linarith
import Mathlib.Tactic.NormNum
import Mathlib.Tactic.Positivity
import Mathlib.Tactic.Ring
import RecordCodec.Binary64.Basic

set_option autoImplicit false

/-!
# Rounding to the nearest number

The rationals that are rounded to a number are those between the midpoints to its two neighbours,
with the midpoints themselves if the mantissa is even. Below the least mantissa of 53 bits the
neighbours are twice as dense.
-/
namespace RecordCodec.Binary64

/-- How far the interval goes down, in units of the last place. -/
def gapBelow (mant : ℕ) (exp : ℤ) : ℚ :=
  if mant = 0x10000000000000 ∧ -1074 < exp then 1 / 4 else 1 / 2

/-- The rational lies in the rounding interval of `mant * 2^exp`. -/
structure Nearest (mant : ℕ) (exp : ℤ) (v : ℚ) : Prop where
  low : (mant - gapBelow mant exp) * 2 ^ exp ≤ v
  high : v ≤ (mant + 1 / 2) * 2 ^ exp
  between : mant % 2 = 1 → (mant - gapBelow mant exp) * 2 ^ exp < v ∧ v < (mant + 1 / 2) * 2 ^ exp

theorem gapBelow_le (mant : ℕ) (exp : ℤ) : gapBelow mant exp ≤ 1 / 2 := by
  unfold gapBelow
  split <;> norm_num

theorem cast_pow2 (n : ℕ) : ((pow2 n : ℕ) : ℚ) = 2 ^ n := by
  unfold pow2
  exact Nat.cast_pow 2 n

theorem pow2_pos (n : ℕ) : 0 < pow2 n := Nat.pow_pos (by decide)

theorem zpow_eq_pow2_div (e : ℤ) : (2 : ℚ) ^ e = pow2 e.toNat / pow2 (-e).toNat := by
  rw [cast_pow2, cast_pow2]
  obtain ⟨n, rfl | rfl⟩ := Int.eq_nat_or_neg e
  · simp
  · simp

theorem cast_scaled (num den : ℕ) (e : ℤ) :
    ((num * pow2 (-e).toNat : ℕ) : ℚ) / ((den * pow2 e.toNat : ℕ) : ℚ) = num / den / 2 ^ e := by
  have up : (pow2 e.toNat : ℚ) ≠ 0 := Nat.cast_ne_zero.2 (pow2_pos _).ne'
  have down : (pow2 (-e).toNat : ℚ) ≠ 0 := Nat.cast_ne_zero.2 (pow2_pos _).ne'
  rw [zpow_eq_pow2_div, Nat.cast_mul, Nat.cast_mul]
  field_simp

theorem two_zpow_add_52 (e : ℤ) : (2 : ℚ) ^ (e + 52) = 0x10000000000000 * 2 ^ e := by
  rw [zpow_add₀ (by norm_num)]
  norm_num
  ring

theorem two_zpow_add_53 (e : ℤ) : (2 : ℚ) ^ (e + 53) = 0x20000000000000 * 2 ^ e := by
  rw [zpow_add₀ (by norm_num)]
  norm_num
  ring

section HalfEven

theorem roundHalfEven_eq_of_le {num den m : ℕ} (pos : 0 < den)
    (low : 2 * (m * den) ≤ 2 * num + den) (high : 2 * num ≤ 2 * (m * den) + den)
    (between : m % 2 = 1 → 2 * (m * den) < 2 * num + den ∧ 2 * num < 2 * (m * den) + den) :
    roundHalfEven num den = m := by
  have split : den * (num / den) + num % den = num := Nat.div_add_mod num den
  have small : num % den < den := Nat.mod_lt _ pos
  have lower : num / den ≤ m := by
    by_contra more
    have : den * (m + 1) ≤ den * (num / den) := Nat.mul_le_mul_left _ (by omega)
    rw [Nat.mul_add, Nat.mul_comm den m] at this
    omega
  have upper : m ≤ num / den + 1 := by
    by_contra more
    have : den * (num / den + 2) ≤ den * m := Nat.mul_le_mul_left _ (by omega)
    rw [Nat.mul_add, Nat.mul_comm den m] at this
    omega
  unfold roundHalfEven
  obtain same | next : m = num / den ∨ m = num / den + 1 := by omega
  · rw [← same, Nat.mul_comm den m] at split
    rw [← same, if_neg]
    omega
  · have : den * (num / den) + den = m * den := by rw [next, Nat.add_mul, Nat.mul_comm, Nat.one_mul]
    rw [if_pos, next]
    omega

theorem roundHalfEven_eq {num den m : ℕ} (pos : 0 < den) (low : (m : ℚ) - 1 / 2 ≤ num / den)
    (high : (num : ℚ) / den ≤ m + 1 / 2)
    (between : m % 2 = 1 → (m : ℚ) - 1 / 2 < num / den ∧ (num : ℚ) / den < m + 1 / 2) :
    roundHalfEven num den = m := by
  have denPos : (0 : ℚ) < den := Nat.cast_pos.2 pos
  rw [le_div_iff₀ denPos] at low
  rw [div_le_iff₀ denPos] at high
  rw [lt_div_iff₀ denPos, div_lt_iff₀ denPos] at between
  refine roundHalfEven_eq_of_le pos ?_ ?_ fun odd => ⟨?_, ?_⟩
  · exact_mod_cast (by linarith : 2 * ((m : ℚ) * den) ≤ 2 * num + den)
  · exact_mod_cast (by linarith : 2 * (num : ℚ) ≤ 2 * (m * den) + den)
  · exact_mod_cast (by linarith [(between odd).1] : 2 * ((m : ℚ) * den) < 2 * num + den)
  · exact_mod_cast (by linarith [(between odd).2] : 2 * (num : ℚ) < 2 * (m * den) + den)

theorem roundHalfEven_scaled {num den m : ℕ} {e : ℤ} (denPos : den ≠ 0)
    (low : ((m : ℚ) - 1 / 2) * 2 ^ e ≤ num / den) (high : (num : ℚ) / den ≤ (m + 1 / 2) * 2 ^ e)
    (between : m % 2 = 1 →
      ((m : ℚ) - 1 / 2) * 2 ^ e < num / den ∧ (num : ℚ) / den < (m + 1 / 2) * 2 ^ e) :
    roundHalfEven (num * pow2 (-e).toNat) (den * pow2 e.toNat) = m := by
  have unit : (0 : ℚ) < 2 ^ e := by positivity
  refine roundHalfEven_eq (Nat.mul_pos (Nat.pos_of_ne_zero denPos) (pow2_pos _)) ?_ ?_ ?_ <;>
    rw [cast_scaled]
  · rwa [le_div_iff₀ unit]
  · rwa [div_le_iff₀ unit]
  · rwa [lt_div_iff₀ unit, div_lt_iff₀ unit]

end HalfEven

section Exponent

/-- The exponent with which a positive rational is rounded. -/
structure IsExponent (v : ℚ) (e : ℤ) : Prop where
  least : -1074 ≤ e
  below : v < 2 ^ (e + 53)
  above : e = -1074 ∨ (2 : ℚ) ^ (e + 52) ≤ v

theorem IsExponent.unique {v : ℚ} {e e' : ℤ} (h : IsExponent v e) (h' : IsExponent v e') :
    e = e' := by
  have apart : ∀ {a b : ℤ}, IsExponent v a → IsExponent v b → ¬a < b := by
    intro a b ha hb less
    obtain least | above := hb.above
    · have := ha.least
      omega
    · have : (2 : ℚ) ^ (a + 53) ≤ 2 ^ (b + 52) := zpow_le_zpow_right₀ (by norm_num) (by omega)
      linarith [ha.below]
  have := apart h h'
  have := apart h' h
  omega

theorem two_zpow_log2_le {n : ℕ} (pos : n ≠ 0) : (2 : ℚ) ^ (n.log2 : ℤ) ≤ n := by
  rw [zpow_natCast]
  exact_mod_cast Nat.log2_self_le pos

theorem lt_two_zpow_log2 (n : ℕ) : (n : ℚ) < 2 ^ ((n.log2 : ℤ) + 1) := by
  have : ((n.log2 : ℤ) + 1) = ((n.log2 + 1 : ℕ) : ℤ) := by push_cast; rfl
  rw [this, zpow_natCast]
  exact_mod_cast Nat.lt_log2_self

/-- The difference of the logarithms is off by less than one. -/
theorem quotient_between {num den : ℕ} (numPos : num ≠ 0) (denPos : den ≠ 0) :
    (2 : ℚ) ^ ((num.log2 : ℤ) - den.log2 - 1) < num / den ∧
      (num : ℚ) / den < 2 ^ ((num.log2 : ℤ) - den.log2 + 1) := by
  have positive : (0 : ℚ) < den := Nat.cast_pos.2 (Nat.pos_of_ne_zero denPos)
  have two : (2 : ℚ) ≠ 0 := by norm_num
  constructor
  · rw [lt_div_iff₀ positive]
    calc (2 : ℚ) ^ ((num.log2 : ℤ) - den.log2 - 1) * den
        < 2 ^ ((num.log2 : ℤ) - den.log2 - 1) * 2 ^ ((den.log2 : ℤ) + 1) :=
          mul_lt_mul_of_pos_left (lt_two_zpow_log2 den) (by positivity)
      _ = 2 ^ (num.log2 : ℤ) := by rw [← zpow_add₀ two]; congr 1; ring
      _ ≤ num := two_zpow_log2_le numPos
  · rw [div_lt_iff₀ positive]
    calc (num : ℚ) < 2 ^ ((num.log2 : ℤ) + 1) := lt_two_zpow_log2 num
      _ = 2 ^ ((num.log2 : ℤ) - den.log2 + 1) * 2 ^ (den.log2 : ℤ) := by
        rw [← zpow_add₀ two]; congr 1; ring
      _ ≤ 2 ^ ((num.log2 : ℤ) - den.log2 + 1) * den :=
        mul_le_mul_of_nonneg_left (two_zpow_log2_le denPos) (by positivity)

theorem isExponent_quotientExp {num den : ℕ} (numPos : num ≠ 0) (denPos : den ≠ 0) :
    IsExponent (num / den) (quotientExp num den) := by
  obtain ⟨above, below⟩ := quotient_between numPos denPos
  generalize diff : (num.log2 : ℤ) - den.log2 = l at above below
  -- the quotient has 53 bits under the guess exactly if its whole part is not below the least one
  have enough : ∀ e : ℤ, num * pow2 (-e).toNat / (den * pow2 e.toNat) < 0x10000000000000 ↔
      (num : ℚ) / den < 2 ^ (e + 52) := by
    intro e
    have pos : 0 < den * pow2 e.toNat :=
      Nat.mul_pos (Nat.pos_of_ne_zero denPos) (pow2_pos _)
    rw [Nat.div_lt_iff_lt_mul pos, ← Nat.cast_lt (α := ℚ), Nat.cast_mul 0x10000000000000,
      ← div_lt_iff₀ (Nat.cast_pos.2 pos), cast_scaled, div_lt_iff₀ (by positivity),
      two_zpow_add_52]
    norm_num
  unfold quotientExp
  simp only [diff]
  split
  case isTrue few =>
    obtain ⟨short, more⟩ := few
    have guess : max (-1074) (l - 52) = l - 52 := by omega
    rw [guess] at short more ⊢
    rw [enough] at short
    refine ⟨by omega, ?_, .inr (le_of_lt ?_)⟩
    · rwa [show l - 52 - 1 + 53 = l - 52 + 52 by omega]
    · rwa [show l - 52 - 1 + 52 = l - 1 by omega]
  case isFalse enoughBits =>
    refine ⟨by omega, ?_, ?_⟩
    · exact below.trans_le (zpow_le_zpow_right₀ (by norm_num) (by omega))
    · by_cases least : max (-1074) (l - 52) = -1074
      · exact .inl least
      · refine .inr (not_lt.1 fun short => enoughBits ⟨(enough _).2 short, by omega⟩)

end Exponent

section Nearest

variable {mant : ℕ} {exp : ℤ} {v : ℚ}

theorem Nearest.pos (h : Nearest mant exp v) (positive : mant ≠ 0) : 0 < v := by
  have one : (1 : ℚ) ≤ mant := by exact_mod_cast Nat.one_le_iff_ne_zero.2 positive
  have := gapBelow_le mant exp
  have unit : (0 : ℚ) < 2 ^ exp := by positivity
  exact (mul_pos (by linarith) unit).trans_le h.low

theorem Nearest.lt_top (h : Nearest mant exp v) (canonical : Canonical mant exp) :
    v < 2 ^ (exp + 53) := by
  have bits : (mant : ℚ) + 1 / 2 < 0x20000000000000 := by
    have : (mant : ℚ) + 1 ≤ 0x20000000000000 := by exact_mod_cast canonical.1
    linarith
  calc v ≤ (mant + 1 / 2) * 2 ^ exp := h.high
    _ < 0x20000000000000 * 2 ^ exp := mul_lt_mul_of_pos_right bits (by positivity)
    _ = 2 ^ (exp + 53) := (two_zpow_add_53 exp).symm

/-- Below the least mantissa of 53 bits there are only what a quarter of a unit reaches. -/
theorem Nearest.eq_least (h : Nearest mant exp v) (canonical : Canonical mant exp)
    (small : exp ≠ -1074) (below : v < 2 ^ (exp + 52)) : mant = 0x10000000000000 := by
  have bits : 0x10000000000000 ≤ mant := canonical.2.2.2.resolve_left small
  by_contra other
  have more : (0x10000000000001 : ℚ) ≤ mant := by exact_mod_cast (by omega : _ ≤ mant)
  have := gapBelow_le mant exp
  have unit : (0 : ℚ) < 2 ^ exp := by positivity
  have : (0x10000000000000 : ℚ) * 2 ^ exp ≤ (mant - gapBelow mant exp) * 2 ^ exp :=
    mul_le_mul_of_nonneg_right (by linarith) unit.le
  rw [two_zpow_add_52] at below
  linarith [h.low]

theorem Nearest.roundHalfEven_eq_mant {num den : ℕ} (h : Nearest mant exp (num / den))
    (denPos : den ≠ 0) :
    roundHalfEven (num * pow2 (-exp).toNat) (den * pow2 exp.toNat) = mant := by
  have unit : (0 : ℚ) < 2 ^ exp := by positivity
  have gap := gapBelow_le mant exp
  have wider : ((mant : ℚ) - 1 / 2) * 2 ^ exp ≤ (mant - gapBelow mant exp) * 2 ^ exp :=
    mul_le_mul_of_nonneg_right (by linarith) unit.le
  exact roundHalfEven_scaled denPos (wider.trans h.low) h.high fun odd =>
    ⟨wider.trans_lt (h.between odd).1, (h.between odd).2⟩

/-- Below the least mantissa of 53 bits the exponent is one less, and in its units the mantissa is
rounded up to one that has 54 bits. -/
theorem Nearest.carries {num den : ℕ} (h : Nearest 0x10000000000000 exp (num / den))
    (denPos : den ≠ 0) (small : -1074 < exp) (below : (num : ℚ) / den < 2 ^ (exp + 52)) :
    IsExponent (num / den) (exp - 1) ∧
      roundHalfEven (num * pow2 (-(exp - 1)).toNat) (den * pow2 (exp - 1).toNat) =
        0x20000000000000 := by
  have unit : (0 : ℚ) < 2 ^ (exp - 1) := by positivity
  have double : (2 : ℚ) ^ exp = 2 * 2 ^ (exp - 1) := by
    rw [zpow_sub_one₀ (by norm_num)]
    ring
  have quarter : gapBelow 0x10000000000000 exp = 1 / 4 := if_pos ⟨rfl, small⟩
  have low := h.low
  rw [quarter, double] at low
  push_cast at low
  have top : exp + 52 = exp - 1 + 53 := by omega
  rw [top] at below
  refine ⟨⟨by omega, below, .inr ?_⟩, ?_⟩
  · rw [two_zpow_add_52]
    linarith
  · rw [two_zpow_add_53] at below
    refine roundHalfEven_scaled denPos ?_ ?_ fun odd => by omega
    · push_cast
      linarith
    · push_cast
      linarith

/-- Every rational in the rounding interval of a number is rounded to it. -/
theorem Nearest.roundQuotient_eq {num den : ℕ} (h : Nearest mant exp (num / den))
    (canonical : Canonical mant exp) (positive : mant ≠ 0) (denPos : den ≠ 0) (negative : Bool) :
    roundQuotient negative num den = .finite ⟨negative, mant, exp, canonical⟩ := by
  have numPos : num ≠ 0 := by
    rintro rfl
    have := h.pos positive
    simp at this
  have isExp := isExponent_quotientExp numPos denPos
  unfold roundQuotient
  rw [if_neg numPos]
  by_cases regular : exp = -1074 ∨ (2 : ℚ) ^ (exp + 52) ≤ num / den
  case pos =>
    have same : quotientExp num den = exp :=
      isExp.unique ⟨canonical.2.1, h.lt_top canonical, regular⟩
    have notFull : mant ≠ 0x20000000000000 := by
      have := canonical.1
      omega
    simp only [same, h.roundHalfEven_eq_mant denPos, if_neg notFull]
    exact dif_pos canonical
  case neg =>
    obtain ⟨small, below⟩ := not_or.1 regular
    rw [not_le] at below
    obtain rfl := h.eq_least canonical small below
    obtain ⟨isLess, mantissa⟩ :=
      h.carries denPos (lt_of_le_of_ne canonical.2.1 (Ne.symm small)) below
    simp only [isExp.unique isLess, mantissa, if_true, sub_add_cancel]
    exact dif_pos canonical

end Nearest

end RecordCodec.Binary64
