import RecordCodec.Binary64.Decimal
import RecordCodec.Proofs.Rounding

set_option autoImplicit false

/-!
# The digits of a number

The digits that a number is written with are those of a decimal in its rounding interval, and some
decimal of 17 digits always is in there.
-/
namespace RecordCodec.Binary64

section Powers

theorem pow10_pos (n : ℕ) : 0 < pow10 n := Nat.pow_pos (by decide)

theorem cast_pow10 (n : ℕ) : ((pow10 n : ℕ) : ℚ) = 10 ^ n := by
  unfold pow10
  exact Nat.cast_pow 10 n

theorem zpow_eq_pow10_div (k : ℤ) : (10 : ℚ) ^ k = pow10 k.toNat / pow10 (-k).toNat := by
  rw [cast_pow10, cast_pow10]
  obtain ⟨n, rfl | rfl⟩ := Int.eq_nat_or_neg k
  · simp
  · simp

theorem cast_decimal (digits : ℕ) (scale : ℤ) :
    ((digits * pow10 scale.toNat : ℕ) : ℚ) / (pow10 (-scale).toNat : ℕ) = digits * 10 ^ scale := by
  rw [zpow_eq_pow10_div, Nat.cast_mul, mul_div_assoc]

end Powers

section Grid

variable {mant : ℕ} {exp k : ℤ} {c : ℕ}

/-- A quarter of a unit in the last place, on the scale of both powers. -/
def quarterUnit (exp k : ℤ) : ℕ := pow2 (exp - 2).toNat * pow10 (-k).toNat

/-- A step of the decimal grid on the same scale. -/
def gridStep (exp k : ℤ) : ℕ := pow10 k.toNat * pow2 (2 - exp).toNat

/-- The interval goes down to this many quarters of a unit. -/
def lowQuarters (mant : ℕ) (exp : ℤ) : ℕ :=
  if mant = 0x10000000000000 ∧ -1074 < exp then 4 * mant - 1 else 4 * mant - 2

/-- A point of the grid lies in the rounding interval. -/
def OnGrid (mant : ℕ) (exp k : ℤ) (c : ℕ) : Prop :=
  if mant % 2 = 0 then
    lowQuarters mant exp * quarterUnit exp k ≤ c * gridStep exp k ∧
      c * gridStep exp k ≤ (4 * mant + 2) * quarterUnit exp k
  else
    lowQuarters mant exp * quarterUnit exp k < c * gridStep exp k ∧
      c * gridStep exp k < (4 * mant + 2) * quarterUnit exp k

instance (mant : ℕ) (exp k : ℤ) (c : ℕ) : Decidable (OnGrid mant exp k c) :=
  inferInstanceAs (Decidable (ite _ _ _))

def gridFloor (mant : ℕ) (exp k : ℤ) : ℕ := 4 * mant * quarterUnit exp k / gridStep exp k

theorem gridPoint?_eq (mant : ℕ) (exp k : ℤ) :
    gridPoint? mant exp k =
      match decide (OnGrid mant exp k (gridFloor mant exp k)),
        decide (OnGrid mant exp k (gridFloor mant exp k + 1)) with
      | false, false => none
      | true, false => some (gridFloor mant exp k)
      | false, true => some (gridFloor mant exp k + 1)
      | true, true =>
        let below := 4 * mant * quarterUnit exp k - gridFloor mant exp k * gridStep exp k
        let above := (gridFloor mant exp k + 1) * gridStep exp k - 4 * mant * quarterUnit exp k
        if below < above ∨ (below = above ∧ gridFloor mant exp k % 2 = 0) then
          some (gridFloor mant exp k)
        else some (gridFloor mant exp k + 1) := by
  have inside : ∀ p : ℕ, decide (OnGrid mant exp k p) =
      if mant % 2 = 0 then
        decide (lowQuarters mant exp * quarterUnit exp k ≤ p * gridStep exp k) &&
          decide (p * gridStep exp k ≤ (4 * mant + 2) * quarterUnit exp k)
      else
        decide (lowQuarters mant exp * quarterUnit exp k < p * gridStep exp k) &&
          decide (p * gridStep exp k < (4 * mant + 2) * quarterUnit exp k) := by
    intro p
    unfold OnGrid
    split <;> simp only [Bool.decide_and]
  rw [inside, inside]
  rfl

theorem onGrid_of_gridPoint? (h : gridPoint? mant exp k = some c) : OnGrid mant exp k c := by
  rw [gridPoint?_eq] at h
  split at h
  case h_1 => cases h
  case h_2 here _ =>
    cases h
    exact of_decide_eq_true here
  case h_3 _ next =>
    cases h
    exact of_decide_eq_true next
  case h_4 here next =>
    simp only at h
    split at h <;> cases h
    · exact of_decide_eq_true here
    · exact of_decide_eq_true next

theorem quarterUnit_pos (exp k : ℤ) : 0 < quarterUnit exp k :=
  Nat.mul_pos (pow2_pos _) (pow10_pos _)

theorem gridStep_pos (exp k : ℤ) : 0 < gridStep exp k := Nat.mul_pos (pow10_pos _) (pow2_pos _)

/-- On the common scale a quarter of a unit and a step of the grid are multiplied by the same. -/
theorem exists_scale (exp k : ℤ) : ∃ s : ℚ, 0 < s ∧ (quarterUnit exp k : ℚ) = 2 ^ exp / 4 * s ∧
    (gridStep exp k : ℚ) = 10 ^ k * s := by
  have quarter : (2 : ℚ) ^ exp / 4 = 2 ^ (exp - 2) := by
    rw [zpow_sub₀ (by norm_num)]
    norm_num
  have negated : 2 - exp = -(exp - 2) := by omega
  have two : (0 : ℚ) < pow2 (-(exp - 2)).toNat := Nat.cast_pos.2 (pow2_pos _)
  have ten : (0 : ℚ) < pow10 (-k).toNat := Nat.cast_pos.2 (pow10_pos _)
  refine ⟨pow2 (-(exp - 2)).toNat * pow10 (-k).toNat, mul_pos two ten, ?_, ?_⟩
  · rw [quarter, zpow_eq_pow2_div, quarterUnit, Nat.cast_mul]
    field_simp
  · rw [zpow_eq_pow10_div, gridStep, negated, Nat.cast_mul]
    field_simp

theorem quarters_le_iff (n : ℕ) :
    n * quarterUnit exp k ≤ c * gridStep exp k ↔ (n : ℚ) * (2 ^ exp / 4) ≤ c * 10 ^ k := by
  obtain ⟨s, pos, unit, step⟩ := exists_scale exp k
  rw [← Nat.cast_le (α := ℚ), Nat.cast_mul, Nat.cast_mul, unit, step, ← mul_assoc, ← mul_assoc,
    mul_le_mul_iff_left₀ pos]

theorem le_quarters_iff (n : ℕ) :
    c * gridStep exp k ≤ n * quarterUnit exp k ↔ (c : ℚ) * 10 ^ k ≤ n * (2 ^ exp / 4) := by
  obtain ⟨s, pos, unit, step⟩ := exists_scale exp k
  rw [← Nat.cast_le (α := ℚ), Nat.cast_mul, Nat.cast_mul, unit, step, ← mul_assoc, ← mul_assoc,
    mul_le_mul_iff_left₀ pos]

theorem cast_lowQuarters (positive : mant ≠ 0) (exp : ℤ) :
    (lowQuarters mant exp : ℚ) = 4 * (mant - gapBelow mant exp) := by
  unfold lowQuarters gapBelow
  split
  · rw [Nat.cast_sub (by omega)]
    push_cast
    ring
  · rw [Nat.cast_sub (by omega)]
    push_cast
    ring

theorem OnGrid.nearest (h : OnGrid mant exp k c) (positive : mant ≠ 0) :
    Nearest mant exp (c * 10 ^ k) := by
  have low : (mant - gapBelow mant exp) * 2 ^ exp = (lowQuarters mant exp : ℚ) * (2 ^ exp / 4) := by
    rw [cast_lowQuarters positive]
    ring
  have high : ((mant : ℚ) + 1 / 2) * 2 ^ exp = (4 * mant + 2 : ℕ) * (2 ^ exp / 4) := by
    push_cast
    ring
  unfold OnGrid at h
  split at h
  case isTrue even =>
    refine ⟨?_, ?_, fun odd => by omega⟩
    · rw [low]
      exact (quarters_le_iff _).1 h.1
    · rw [high]
      exact (le_quarters_iff _).1 h.2
  case isFalse =>
    have below := not_le.1 (mt (le_quarters_iff _).2 (not_le.2 h.1))
    have above := not_le.1 (mt (quarters_le_iff _).2 (not_le.2 h.2))
    rw [← low] at below
    rw [← high] at above
    exact ⟨below.le, above.le, fun _ => ⟨below, above⟩⟩

/-- A grid with steps shorter than the rounding interval has a point in there. -/
theorem exists_gridPoint? (positive : mant ≠ 0)
    (fine : gridStep exp k + lowQuarters mant exp * quarterUnit exp k <
      (4 * mant + 2) * quarterUnit exp k) : ∃ p, gridPoint? mant exp k = some p := by
  rw [gridPoint?_eq]
  split
  case h_1 here next =>
    exfalso
    have here := of_decide_eq_false here
    have next := of_decide_eq_false next
    have floor : gridFloor mant exp k * gridStep exp k ≤ 4 * mant * quarterUnit exp k :=
      Nat.div_mul_le_self _ _
    have after : 4 * mant * quarterUnit exp k < (gridFloor mant exp k + 1) * gridStep exp k := by
      rw [Nat.add_mul, Nat.one_mul]
      exact Nat.lt_div_mul_add (gridStep_pos exp k)
    have least : lowQuarters mant exp * quarterUnit exp k < 4 * mant * quarterUnit exp k :=
      Nat.mul_lt_mul_of_pos_right (by unfold lowQuarters; split <;> omega) (quarterUnit_pos exp k)
    have most : 4 * mant * quarterUnit exp k < (4 * mant + 2) * quarterUnit exp k :=
      Nat.mul_lt_mul_of_pos_right (by omega) (quarterUnit_pos exp k)
    rw [Nat.add_mul, Nat.one_mul] at after
    unfold OnGrid at here next
    rw [Nat.add_mul, Nat.one_mul] at next
    by_cases even : mant % 2 = 0
    · rw [if_pos even] at here next
      omega
    · rw [if_neg even] at here next
      omega
  case h_2 => exact ⟨_, rfl⟩
  case h_3 => exact ⟨_, rfl⟩
  case h_4 =>
    simp only
    split <;> exact ⟨_, rfl⟩

end Grid

section Shortest

variable {mant : ℕ} {exp : ℤ}

def guessedExp (t : ℤ) : ℤ := Int.fdiv (t * 30103) 100000

def Reaches (mant : ℕ) (exp t : ℤ) : Prop :=
  pow10 t.toNat * pow2 (-exp).toNat ≤ mant * pow2 exp.toNat * pow10 (-t).toNat

instance (mant : ℕ) (exp t : ℤ) : Decidable (Reaches mant exp t) :=
  inferInstanceAs (Decidable (_ ≤ _))

theorem reaches_iff (t : ℤ) : Reaches mant exp t ↔ (10 : ℚ) ^ t ≤ mant * 2 ^ exp := by
  have two : (0 : ℚ) < pow2 (-exp).toNat := Nat.cast_pos.2 (pow2_pos _)
  have ten : (0 : ℚ) < pow10 (-t).toNat := Nat.cast_pos.2 (pow10_pos _)
  rw [zpow_eq_pow10_div, zpow_eq_pow2_div, ← mul_div_assoc, div_le_div_iff₀ ten two]
  unfold Reaches
  exact_mod_cast Iff.rfl

/-- Powers of ten and of two are compared by a power of ten that is close to one of two. -/
theorem ten_zpow_le {m t : ℤ} {p q : ℕ} (nonzero : q ≠ 0)
    (close : ((10 : ℚ) ^ q) ^ m ≤ (2 ^ p) ^ m) (slope : p * m ≤ q * t) :
    (10 : ℚ) ^ m ≤ 2 ^ t := by
  refine (pow_le_pow_iff_left₀ (by positivity) (by positivity) nonzero).1 ?_
  calc ((10 : ℚ) ^ m) ^ q = (10 ^ q) ^ m := by rw [← zpow_natCast, ← zpow_natCast, zpow_comm]
    _ ≤ (2 ^ p) ^ m := close
    _ = 2 ^ (p * m) := by rw [zpow_mul, zpow_natCast]
    _ ≤ 2 ^ (q * t) := zpow_le_zpow_right₀ (by norm_num) slope
    _ = (2 ^ t) ^ q := by rw [Int.mul_comm, zpow_mul, zpow_natCast]

/-- The slope of the guess is above the logarithm of two, but over the exponents of the format not
by enough to make the guess more than one too high. -/
theorem ten_zpow_guessedExp_le {t : ℤ} (least : -20000 ≤ t) (most : t ≤ 20000) :
    (10 : ℚ) ^ (guessedExp t - 1) ≤ 2 ^ t := by
  have eq : guessedExp t = t * 30103 / 100000 := Int.fdiv_eq_ediv_of_nonneg _ (by decide)
  rcases le_total 0 (guessedExp t - 1) with up | down
  · exact ten_zpow_le (p := 196) (q := 59) (by decide)
      (zpow_le_zpow_left₀ up (by norm_num) (by norm_num)) (by omega)
  · refine ten_zpow_le (p := 93) (q := 28) (by decide) ?_ (by omega)
    have inverse : (((10 : ℚ) ^ 28) ^ (-(guessedExp t - 1)))⁻¹ ≤
        ((2 ^ 93) ^ (-(guessedExp t - 1)))⁻¹ :=
      inv_anti₀ (by positivity) (zpow_le_zpow_left₀ (by omega) (by norm_num) (by norm_num))
    rwa [← zpow_neg, ← zpow_neg, neg_neg] at inverse

theorem log2_lt_of_canonical (canonical : Canonical mant exp) : mant.log2 < 53 := by
  rcases Nat.eq_zero_or_pos mant with rfl | pos
  · decide
  · exact (Nat.log2_lt pos.ne').2 canonical.1

theorem leadingExp_le (canonical : Canonical mant exp) (positive : mant ≠ 0) :
    (10 : ℚ) ^ leadingExp mant exp ≤ mant * 2 ^ exp := by
  rw [← reaches_iff]
  have eq : leadingExp mant exp =
      if Reaches mant exp (guessedExp (mant.log2 + exp) + 1) then guessedExp (mant.log2 + exp) + 1
      else if Reaches mant exp (guessedExp (mant.log2 + exp)) then guessedExp (mant.log2 + exp)
      else guessedExp (mant.log2 + exp) - 1 := by
    unfold leadingExp
    simp only [decide_eq_true_eq]
    rfl
  rw [eq]
  split
  case isTrue high => exact high
  case isFalse =>
    split
    case isTrue guessed => exact guessed
    case isFalse =>
      have bits := log2_lt_of_canonical canonical
      obtain ⟨-, least, most, -⟩ := canonical
      have reached := ten_zpow_guessedExp_le (t := mant.log2 + exp) (by omega) (by omega)
      rw [reaches_iff]
      refine reached.trans ?_
      rw [zpow_add₀ (by norm_num)]
      exact mul_le_mul_of_nonneg_right (two_zpow_log2_le positive) (by positivity)

theorem seventeen_digits (canonical : Canonical mant exp) (positive : mant ≠ 0) :
    gridStep exp (leadingExp mant exp - 16) +
        lowQuarters mant exp * quarterUnit exp (leadingExp mant exp - 16) <
      (4 * mant + 2) * quarterUnit exp (leadingExp mant exp - 16) := by
  obtain ⟨s, pos, unit, step⟩ := exists_scale exp (leadingExp mant exp - 16)
  have power : (10 : ℚ) ^ (leadingExp mant exp - 16) * 10 ^ 16 ≤ mant * 2 ^ exp := by
    have same : (10 : ℚ) ^ (leadingExp mant exp - 16) * 10 ^ 16 = 10 ^ leadingExp mant exp := by
      rw [zpow_sub₀ (by norm_num)]
      norm_num
    rw [same]
    exact leadingExp_le canonical positive
  have bits : (mant : ℚ) < 0x20000000000000 := by exact_mod_cast canonical.1
  have two : (0 : ℚ) < 2 ^ exp := by positivity
  -- a step is shorter than the interval, which has one unit or three quarters of one
  have short : (10 : ℚ) ^ (leadingExp mant exp - 16) < (1 / 2 + gapBelow mant exp) * 2 ^ exp := by
    unfold gapBelow
    split
    case isTrue least =>
      have : (mant : ℚ) * 2 ^ exp = 0x10000000000000 * 2 ^ exp := by
        rw [least.1]
        norm_num
      linarith
    case isFalse =>
      have : (mant : ℚ) * 2 ^ exp < 0x20000000000000 * 2 ^ exp := mul_lt_mul_of_pos_right bits two
      linarith
  rw [← Nat.cast_lt (α := ℚ)]
  push_cast
  rw [unit, step, cast_lowQuarters positive]
  have := mul_lt_mul_of_pos_right short pos
  linarith

theorem cast_withoutZero (c : ℕ) (k : ℤ) :
    ((withoutZero c k).1 : ℚ) * 10 ^ (withoutZero c k).2 = c * 10 ^ k := by
  unfold withoutZero
  split
  case isTrue tens =>
    have whole : (c : ℚ) = (c / 10 : ℕ) * 10 := by exact_mod_cast (by omega : c = c / 10 * 10)
    rw [whole, zpow_add₀ (by norm_num)]
    ring
  case isFalse => rfl

/-- The digits of a number are those of a decimal that is rounded to it. -/
theorem Finite.nearest_shortest (x : Finite) (positive : x.mant ≠ 0) :
    Nearest x.mant x.exp (x.shortest.1 * 10 ^ x.shortest.2) := by
  obtain ⟨p, point⟩ := exists_gridPoint? positive (seventeen_digits x.canonical positive)
  unfold shortest
  rw [if_neg positive]
  dsimp only
  generalize search : (List.range 17).findSome? _ = found
  cases found with
  | none =>
    rw [List.findSome?_eq_none_iff] at search
    have missed := search 16 (by decide)
    rw [show ((16 : ℕ) : ℤ) = 16 by rfl, point] at missed
    cases missed
  | some pair =>
    obtain ⟨n, -, eq⟩ := List.exists_of_findSome?_eq_some search
    obtain ⟨c, isPoint, rfl⟩ := Option.map_eq_some_iff.1 eq
    rw [Option.getD_some, cast_withoutZero]
    exact (onGrid_of_gridPoint? isPoint).nearest positive

end Shortest

end RecordCodec.Binary64
