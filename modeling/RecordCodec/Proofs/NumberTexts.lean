import RecordCodec.Json.Printer
import RecordCodec.Proofs.Decimals
import RecordCodec.Proofs.Reversible
import RecordCodec.TypeExpr.Lexer

set_option autoImplicit false

/-!
# Written numbers are read back

Both ways of writing the digits of a number are read as the decimal that they stand for, and reading
rounds it to the number again. The text of a number in binary format is that of no integer.
-/
namespace RecordCodec

namespace Binary64

variable {mant : ℕ} {exp : ℤ}

theorem two_zpow_lt_ten_zpow : (2 : ℚ) ^ (1200 : ℤ) < 10 ^ (400 : ℤ) := by
  have cube : (2 : ℚ) ^ 1200 = (2 ^ 3) ^ 400 := by rw [← pow_mul]
  rw [zpow_ofNat, zpow_ofNat, cube]
  exact pow_lt_pow_left₀ (by norm_num) (by norm_num) (by decide)

/-- Numbers of the format are far from where a decimal is not computed. -/
theorem Nearest.bounds {v : ℚ} (h : Nearest mant exp v) (canonical : Canonical mant exp)
    (positive : mant ≠ 0) : (10 : ℚ) ^ (-400 : ℤ) < v ∧ v < 10 ^ (400 : ℤ) := by
  obtain ⟨-, least, most, -⟩ := id canonical
  constructor
  · have one : (1 : ℚ) ≤ mant := by exact_mod_cast Nat.one_le_iff_ne_zero.2 positive
    have gap := gapBelow_le mant exp
    calc (10 : ℚ) ^ (-400 : ℤ) < 2 ^ (-1200 : ℤ) := by
          rw [zpow_neg, zpow_neg]
          exact inv_strictAnti₀ (by positivity) two_zpow_lt_ten_zpow
      _ ≤ 2 ^ (exp - 1) := zpow_le_zpow_right₀ (by norm_num) (by omega)
      _ = 1 / 2 * 2 ^ exp := by rw [zpow_sub_one₀ (by norm_num)]; ring
      _ ≤ (mant - gapBelow mant exp) * 2 ^ exp :=
        mul_le_mul_of_nonneg_right (by linarith) (by positivity)
      _ ≤ v := h.low
  · calc v < 2 ^ (exp + 53) := h.lt_top canonical
      _ ≤ 2 ^ (1200 : ℤ) := zpow_le_zpow_right₀ (by norm_num) (by omega)
      _ < 10 ^ (400 : ℤ) := two_zpow_lt_ten_zpow

theorem between_length_toDigits {n : ℕ} (positive : n ≠ 0) :
    (10 : ℚ) ^ ((Nat.toDigits 10 n).length - 1 : ℤ) ≤ n ∧
      (n : ℚ) < 10 ^ ((Nat.toDigits 10 n).length : ℤ) := by
  have some : 0 < (Nat.toDigits 10 n).length := Nat.length_toDigits_pos
  constructor
  · obtain ⟨m, eq⟩ : ∃ m : ℕ, (Nat.toDigits 10 n).length = m + 1 :=
      Nat.exists_eq_succ_of_ne_zero some.ne'
    have exponent : ((m + 1 : ℕ) : ℤ) - 1 = m := by omega
    rw [eq, exponent, zpow_natCast]
    rcases Nat.eq_zero_or_pos m with rfl | more
    · exact_mod_cast Nat.one_le_iff_ne_zero.2 positive
    · have long := mt (Nat.length_toDigits_le_iff (b := 10) (n := n) (by decide) more).2 (by omega)
      exact_mod_cast not_lt.1 long
  · rw [zpow_natCast]
    exact_mod_cast (Nat.length_toDigits_le_iff (b := 10) (by decide) some).1 le_rfl

/-- A decimal in the rounding interval of a number is read as the number. -/
theorem Nearest.ofDecimal_eq {digits : ℕ} {scale : ℤ}
    (h : Nearest mant exp (digits * 10 ^ scale)) (canonical : Canonical mant exp)
    (positive : mant ≠ 0) (negative : Bool) :
    ofDecimal negative digits scale = .finite ⟨negative, mant, exp, canonical⟩ := by
  have nonzero : digits ≠ 0 := by
    rintro rfl
    have := h.pos positive
    simp at this
  obtain ⟨above, below⟩ := h.bounds canonical positive
  obtain ⟨least, most⟩ := between_length_toDigits nonzero
  have ten : (10 : ℚ) ≠ 0 := by norm_num
  have power : (0 : ℚ) < 10 ^ scale := by positivity
  have notLarge : ¬(400 : ℤ) < (Nat.toDigits 10 digits).length + scale := by
    intro large
    have : (10 : ℚ) ^ (400 : ℤ) ≤ digits * 10 ^ scale :=
      calc (10 : ℚ) ^ (400 : ℤ)
          ≤ 10 ^ (((Nat.toDigits 10 digits).length - 1 : ℤ) + scale) :=
            zpow_le_zpow_right₀ (by norm_num) (by omega)
        _ = 10 ^ ((Nat.toDigits 10 digits).length - 1 : ℤ) * 10 ^ scale := zpow_add₀ ten _ _
        _ ≤ digits * 10 ^ scale := mul_le_mul_of_nonneg_right least power.le
    linarith
  have notSmall : ¬((Nat.toDigits 10 digits).length + scale : ℤ) < -400 := by
    intro small
    have : (digits : ℚ) * 10 ^ scale ≤ 10 ^ (-400 : ℤ) :=
      calc (digits : ℚ) * 10 ^ scale
          ≤ 10 ^ ((Nat.toDigits 10 digits).length : ℤ) * 10 ^ scale :=
            mul_le_mul_of_nonneg_right most.le power.le
        _ = 10 ^ (((Nat.toDigits 10 digits).length : ℤ) + scale) := (zpow_add₀ ten _ _).symm
        _ ≤ 10 ^ (-400 : ℤ) := zpow_le_zpow_right₀ (by norm_num) small.le
    linarith
  rw [← cast_decimal] at h
  unfold ofDecimal
  rw [if_neg nonzero]
  simp only [if_neg notLarge, if_neg notSmall]
  exact h.roundQuotient_eq canonical positive (pow10_pos _).ne' negative

theorem digitsValue_eq (s : List Char) : digitsValue s = Nat.ofDigitChars 10 s 0 := by
  rw [Nat.ofDigitChars_eq_foldl]
  unfold digitsValue
  congr
  funext n c
  rw [Nat.mul_comm]
  rfl

@[simp] theorem digitsValue_toDigits (n : ℕ) : digitsValue (Nat.toDigits 10 n) = n := by
  rw [digitsValue_eq, Nat.ofDigitChars_toDigits (by decide) (by decide)]

theorem digitsValue_zeros_append (n : ℕ) (s : List Char) :
    digitsValue (List.replicate n '0' ++ s) = digitsValue s := by
  rw [digitsValue_eq, digitsValue_eq, Nat.ofDigitChars_append, Nat.ofDigitChars_replicate_zero,
    Nat.mul_zero]

theorem digitsValue_append_zeros (s : List Char) (n : ℕ) :
    digitsValue (s ++ List.replicate n '0') = digitsValue s * 10 ^ n := by
  rw [digitsValue_eq, digitsValue_eq, Nat.ofDigitChars_append, Nat.ofDigitChars_replicate_zero,
    Nat.mul_comm]

def AreDigits (s : List Char) : Prop := ∀ c ∈ s, c.isDigit = true

theorem areDigits_toDigits (n : ℕ) : AreDigits (Nat.toDigits 10 n) :=
  fun _ mem => Nat.isDigit_of_mem_toDigits (by decide) (by decide) mem

theorem areDigits_zeros (n : ℕ) : AreDigits (List.replicate n '0') := by
  intro c mem
  rw [List.eq_of_mem_replicate mem]
  rfl

theorem AreDigits.append {s t : List Char} (hs : AreDigits s) (ht : AreDigits t) :
    AreDigits (s ++ t) :=
  List.forall_mem_append.2 ⟨hs, ht⟩

theorem AreDigits.takeWhile_append {s : List Char} (h : AreDigits s) (rest : List Char)
    (stop : ∀ c ∈ rest.head?, c.isDigit = false) :
    (s ++ rest).takeWhile Char.isDigit = s ∧ (s ++ rest).dropWhile Char.isDigit = rest := by
  rw [List.takeWhile_append_of_pos h, List.dropWhile_append_of_pos h]
  cases rest with
  | nil => exact ⟨List.append_nil s, rfl⟩
  | cons c rest =>
    have := stop c rfl
    rw [List.takeWhile_cons_of_neg (by simp [this]), List.dropWhile_cons_of_neg (by simp [this])]
    exact ⟨List.append_nil s, rfl⟩

theorem mantissa?_point {whole fraction : List Char} (isWhole : AreDigits whole)
    (isFraction : AreDigits fraction) (nonempty : whole ≠ []) (rest : List Char)
    (stop : ∀ c ∈ rest.head?, c.isDigit = false) :
    mantissa? (whole ++ '.' :: (fraction ++ rest)) =
      some (digitsValue (whole ++ fraction), -(fraction.length : ℤ), rest) := by
  obtain ⟨taken, dropped⟩ := isWhole.takeWhile_append ('.' :: (fraction ++ rest))
    (by rintro c ⟨⟩; rfl)
  obtain ⟨takenFraction, droppedFraction⟩ := isFraction.takeWhile_append rest stop
  unfold mantissa?
  simp only [taken, dropped, takenFraction, droppedFraction]
  rw [if_neg]
  simp [nonempty]

theorem mantissa?_whole {whole rest : List Char} (isWhole : AreDigits whole) (nonempty : whole ≠ [])
    (stop : ∀ c ∈ rest.head?, c.isDigit = false ∧ c ≠ '.') :
    mantissa? (whole ++ rest) = some (digitsValue whole, 0, rest) := by
  obtain ⟨taken, dropped⟩ := isWhole.takeWhile_append rest fun c head => (stop c head).1
  unfold mantissa?
  simp only [taken, dropped]
  cases rest with
  | nil => simp [nonempty]
  | cons c rest =>
    have noPoint := (stop c rfl).2
    split
    case h_1 _ eq => cases eq; exact absurd rfl noPoint
    case h_2 => simp [nonempty]

theorem read?_of_mantissa? {c : Char} {tail rest : List Char} {digits : ℕ} {scale exponent : ℤ}
    (digit : c.isDigit = true) (isMantissa : mantissa? (c :: tail) = some (digits, scale, rest))
    (isExponent : exponent? rest = some exponent) (negative : Bool) :
    read? (if negative then '-' :: c :: tail else c :: tail) =
      some (ofDecimal negative digits (scale + exponent)) := by
  have sign :
      signed (if negative then '-' :: c :: tail else c :: tail) = (negative, c :: tail) := by
    cases negative with
    | true => rfl
    | false =>
      rw [if_neg Bool.false_ne_true]
      unfold signed
      split
      case h_1 _ eq => cases eq; cases digit
      case h_2 _ eq => cases eq; cases digit
      case h_3 => rfl
  have lower : c.toLower = c := by
    have small : ¬(c.val ≥ 'A'.val ∧ c.val ≤ 'Z'.val) := by
      intro upper
      simp only [Char.isDigit, Bool.and_eq_true, decide_eq_true_eq] at digit
      exact absurd (UInt32.le_trans upper.1 digit.2) (by decide)
    exact dif_neg small
  have noName : ∀ name : String, name.toList.head?.all (fun first => !first.isDigit) = true →
      ¬String.ofList ((c :: tail).map Char.toLower) = name := by
    rintro _ letter rfl
    rw [String.toList_ofList, List.map_cons, lower, List.head?_cons, Option.all_some, digit]
      at letter
    cases letter
  unfold read?
  simp only [sign]
  rw [if_neg (not_or.2 ⟨noName "inf" rfl, noName "infinity" rfl⟩), if_neg (noName "nan" rfl)]
  simp [isMantissa, isExponent]

/-- The text is that of a positive decimal, with a point or an exponent. -/
structure Writes (body : List Char) (v : ℚ) : Prop where
  first : ∃ c tail, body = c :: tail ∧ c.isDigit = true
  reads : ∃ digits scale rest exponent, mantissa? body = some (digits, scale, rest) ∧
    exponent? rest = some exponent ∧ (digits : ℚ) * 10 ^ (scale + exponent) = v
  chars : ∀ c ∈ body, c.isDigit = true ∨ c ∈ ['.', 'e', '+', '-']
  marked : ∃ c ∈ body, c.isDigit = false

theorem AreDigits.first {s : List Char} (h : AreDigits s) (nonempty : s ≠ []) (rest : List Char) :
    ∃ c tail, s ++ rest = c :: tail ∧ c.isDigit = true := by
  obtain ⟨c, tail, rfl⟩ := List.exists_cons_of_ne_nil nonempty
  exact ⟨c, tail ++ rest, rfl, h c List.mem_cons_self⟩

theorem writes_point {whole fraction : List Char} {v : ℚ} (isWhole : AreDigits whole)
    (isFraction : AreDigits fraction) (nonempty : whole ≠ [])
    (value : (digitsValue (whole ++ fraction) : ℚ) * 10 ^ (-(fraction.length : ℤ)) = v) :
    Writes (whole ++ '.' :: fraction) v where
  first := isWhole.first nonempty _
  reads := by
    have isMantissa := mantissa?_point isWhole isFraction nonempty [] (by rintro _ ⟨⟩)
    rw [List.append_nil] at isMantissa
    exact ⟨_, _, _, 0, isMantissa, rfl, by rw [add_zero, value]⟩
  chars c mem := by
    rcases List.mem_append.1 mem with mem | mem
    · exact .inl (isWhole c mem)
    · rcases List.mem_cons.1 mem with rfl | mem
      · exact .inr (by decide)
      · exact .inl (isFraction c mem)
  marked := ⟨'.', List.mem_append_right _ List.mem_cons_self, rfl⟩

variable {digits : List Char}

theorem writes_positional (areDigits : AreDigits digits) (nonempty : digits ≠ []) (exp : ℤ) :
    Writes (Json.positional digits exp)
      (digitsValue digits * 10 ^ (exp + 1 - digits.length)) := by
  have zero : AreDigits ['0'] := areDigits_zeros 1
  unfold Json.positional
  split
  case isTrue small =>
    have isFraction := (areDigits_zeros (-exp - 1).toNat).append areDigits
    have body : '0' :: '.' :: List.replicate (-exp - 1).toNat '0' ++ digits =
        ['0'] ++ '.' :: (List.replicate (-exp - 1).toNat '0' ++ digits) := rfl
    rw [body]
    refine writes_point zero isFraction (by decide) ?_
    have value : digitsValue ('0' :: (List.replicate (-exp - 1).toNat '0' ++ digits)) =
        digitsValue digits :=
      digitsValue_zeros_append ((-exp - 1).toNat + 1) digits
    rw [List.singleton_append, value, List.length_append, List.length_replicate]
    congr 2
    omega
  case isFalse large =>
    simp only
    split
    case isTrue short =>
      have isWhole := areDigits.append (areDigits_zeros (exp.toNat + 1 - digits.length))
      refine writes_point isWhole zero (by simp [nonempty]) ?_
      have zeros : exp + 1 - digits.length = (exp.toNat + 1 - digits.length : ℕ) := by omega
      have last : (['0'] : List Char) = List.replicate 1 '0' := rfl
      rw [last, List.append_assoc, List.replicate_append_replicate, digitsValue_append_zeros, zeros,
        zpow_natCast, List.length_replicate]
      push_cast
      rw [pow_succ, zpow_neg_one]
      ring
    case isFalse long =>
      have isWhole : AreDigits (digits.take (exp.toNat + 1)) := fun c mem =>
        areDigits c (List.mem_of_mem_take mem)
      have isFraction : AreDigits (digits.drop (exp.toNat + 1)) := fun c mem =>
        areDigits c (List.mem_of_mem_drop mem)
      refine writes_point isWhole isFraction (by simp [nonempty]) ?_
      rw [List.take_append_drop, List.length_drop]
      congr 2
      omega

def exponentText (exp : ℤ) : List Char :=
  'e' :: (if exp < 0 then '-' else '+') :: Nat.toDigits 10 exp.natAbs

theorem exponent?_exponentText (exp : ℤ) : exponent? (exponentText exp) = some exp := by
  have areDigits : (Nat.toDigits 10 exp.natAbs).all Char.isDigit = true :=
    List.all_eq_true.2 (areDigits_toDigits _)
  have nonempty : (Nat.toDigits 10 exp.natAbs).isEmpty = false :=
    List.isEmpty_eq_false_iff.2 Nat.toDigits_ne_nil
  have value : exponent? ('e' :: '-' :: Nat.toDigits 10 exp.natAbs) = some (-(exp.natAbs : ℤ)) ∧
      exponent? ('e' :: '+' :: Nat.toDigits 10 exp.natAbs) = some (exp.natAbs : ℤ) := by
    simp [exponent?, signed, nonempty, areDigits]
  unfold exponentText
  split
  case isTrue negative =>
    rw [value.1]
    congr 1
    omega
  case isFalse =>
    rw [value.2]
    congr 1
    omega

theorem writes_scientific (areDigits : AreDigits digits) (nonempty : digits ≠ []) (exp : ℤ) :
    Writes (Json.scientific digits exp)
      (digitsValue digits * 10 ^ (exp + 1 - digits.length)) := by
  obtain ⟨c, more, rfl⟩ := List.exists_cons_of_ne_nil nonempty
  have isWhole : AreDigits [c] := List.forall_mem_singleton.2 (areDigits c List.mem_cons_self)
  have isMore : AreDigits more := fun d mem => areDigits d (List.mem_cons_of_mem _ mem)
  have letter : ∀ d ∈ (exponentText exp).head?, d.isDigit = false ∧ d ≠ '.' := by
    rintro d ⟨⟩
    decide
  have exponentChars : ∀ d ∈ exponentText exp, d.isDigit = true ∨ d ∈ ['.', 'e', '+', '-'] := by
    intro d mem
    rcases List.mem_cons.1 mem with rfl | mem
    · exact .inr (by decide)
    · rcases List.mem_cons.1 mem with rfl | mem
      · split <;> exact .inr (by decide)
      · exact .inl (areDigits_toDigits _ d mem)
  have marked : 'e' ∈ exponentText exp := List.mem_cons_self
  cases more with
  | nil =>
    have body : Json.scientific [c] exp = [c] ++ exponentText exp := rfl
    rw [body]
    refine ⟨⟨c, _, rfl, isWhole c List.mem_cons_self⟩, ?_, ?_, 'e', by simp [marked], rfl⟩
    · refine ⟨_, _, _, _, mantissa?_whole isWhole nonempty letter, exponent?_exponentText exp, ?_⟩
      congr 2
      simp
    · exact List.forall_mem_append.2 ⟨fun d mem => .inl (isWhole d mem), exponentChars⟩
  | cons d more =>
    have body : Json.scientific (c :: d :: more) exp =
        [c] ++ '.' :: (d :: more ++ exponentText exp) := by
      simp [Json.scientific, exponentText]
    rw [body]
    refine ⟨⟨c, _, rfl, isWhole c List.mem_cons_self⟩, ?_, ?_, '.', by simp, rfl⟩
    · refine ⟨_, _, _, _, mantissa?_point isWhole isMore (by simp) _
        fun e head => (letter e head).1, exponent?_exponentText exp, ?_⟩
      rw [List.singleton_append]
      congr 2
      rw [List.length_cons (a := c)]
      omega
    · refine List.forall_mem_append.2 ⟨fun e mem => .inl (isWhole e mem), ?_⟩
      refine List.forall_mem_cons.2 ⟨.inr (by decide), ?_⟩
      exact List.forall_mem_append.2 ⟨fun e mem => .inl (isMore e mem), exponentChars⟩

def bodyText (x : Finite) : List Char :=
  let digits := Nat.toDigits 10 x.shortest.1
  let exp := x.shortest.2 + digits.length - 1
  if -5 ≤ exp ∧ exp < 16 then Json.positional digits exp else Json.scientific digits exp

theorem toList_floatText (x : Finite) :
    (Json.floatText x).toList = if x.negative then '-' :: bodyText x else bodyText x := by
  unfold Json.floatText
  rw [String.toList_ofList]
  rfl

theorem writes_bodyText (x : Finite) : Writes (bodyText x) (x.shortest.1 * 10 ^ x.shortest.2) := by
  have areDigits := areDigits_toDigits x.shortest.1
  have nonempty : Nat.toDigits 10 x.shortest.1 ≠ [] := Nat.toDigits_ne_nil
  have scale : x.shortest.2 = x.shortest.2 + (Nat.toDigits 10 x.shortest.1).length - 1 + 1 -
      (Nat.toDigits 10 x.shortest.1).length := by omega
  unfold bodyText
  simp only
  split
  case isTrue =>
    have writes := writes_positional areDigits nonempty
      (x.shortest.2 + (Nat.toDigits 10 x.shortest.1).length - 1)
    rwa [digitsValue_toDigits, ← scale] at writes
  case isFalse =>
    have writes := writes_scientific areDigits nonempty
      (x.shortest.2 + (Nat.toDigits 10 x.shortest.1).length - 1)
    rwa [digitsValue_toDigits, ← scale] at writes

/-- The text of a finite number is read as the number again, with the sign of a zero. -/
theorem read?_floatText (x : Finite) : read? (Json.floatText x).toList = some (.finite x) := by
  obtain ⟨⟨c, tail, body, digit⟩, reads, -, -⟩ := writes_bodyText x
  obtain ⟨digits, scale, rest, exponent, isMantissa, isExponent, value⟩ := reads
  rw [toList_floatText, body, read?_of_mantissa? digit (body ▸ isMantissa) isExponent]
  congr 1
  by_cases positive : x.mant = 0
  case neg =>
    have nearest := x.nearest_shortest positive
    rw [← value] at nearest
    exact nearest.ofDecimal_eq x.canonical positive x.negative
  case pos =>
    have zeroDigits : digits = 0 := by
      have : x.shortest = (0, 0) := if_pos positive
      have power : (10 : ℚ) ^ (scale + exponent) ≠ 0 := by positivity
      rw [this] at value
      simpa [power] using value
    have isZero : x = zero x.negative := by
      obtain ⟨negative, mant, exp, canonical⟩ := x
      obtain rfl : mant = 0 := positive
      obtain rfl : exp = -1074 := canonical.2.2.2.resolve_right (by decide)
      rfl
    rw [zeroDigits, ofDecimal, if_pos rfl, ← isZero]

end Binary64

namespace TypeExpr

/-- The first character of a number and those after it, none of which is passed over. -/
structure IsNumeral (s : List Char) : Prop where
  first : ∃ c tail, s = c :: tail ∧ (c = '-' ∨ c.isDigit = true)
  chars : ∀ c ∈ s, isNumberChar c = true ∧ c ≠ '_'

theorem isNumberChar_of_isDigit {c : Char} (digit : c.isDigit = true) :
    isNumberChar c = true ∧ c ≠ '_' := by
  refine ⟨by simp [isNumberChar, digit], ?_⟩
  rintro rfl
  cases digit

theorem IsNumeral.signed {s : List Char} (first : ∃ c tail, s = c :: tail ∧ c.isDigit = true)
    (chars : ∀ c ∈ s, isNumberChar c = true ∧ c ≠ '_') {p : Prop} [Decidable p] :
    IsNumeral (if p then '-' :: s else s) := by
  split
  · exact ⟨⟨'-', s, rfl, .inl rfl⟩, List.forall_mem_cons.2 ⟨by decide, chars⟩⟩
  · obtain ⟨c, tail, eq, digit⟩ := first
    exact ⟨⟨c, tail, eq, .inr digit⟩, chars⟩

theorem isNumeral_floatText (x : Binary64.Finite) : IsNumeral (Json.floatText x).toList := by
  have writes := Binary64.writes_bodyText x
  rw [Binary64.toList_floatText]
  refine IsNumeral.signed writes.first fun c mem => ?_
  rcases writes.chars c mem with digit | mark
  · exact isNumberChar_of_isDigit digit
  · simp only [List.mem_cons, List.not_mem_nil, or_false] at mark
    rcases mark with rfl | rfl | rfl | rfl <;> decide

theorem toList_intText (n : Int) :
    (Json.intText n).toList = if n < 0 then '-' :: Nat.toDigits 10 n.natAbs
      else Nat.toDigits 10 n.natAbs := by
  unfold Json.intText
  rw [String.toList_ofList]

theorem isNumeral_intText (n : Int) : IsNumeral (Json.intText n).toList := by
  have digits := Binary64.areDigits_toDigits n.natAbs
  obtain ⟨c, tail, eq, digit⟩ := digits.first Nat.toDigits_ne_nil []
  rw [List.append_nil] at eq
  rw [toList_intText]
  exact IsNumeral.signed ⟨c, tail, eq, digit⟩ fun d mem => isNumberChar_of_isDigit (digits d mem)

theorem readInt?_of_digit {c : Char} (tail : List Char) (digit : c.isDigit = true)
    (negative : Prop) [Decidable negative] :
    Text.readInt? (if negative then '-' :: c :: tail else c :: tail) =
      (Text.digitsToNat? (c :: tail)).map fun n : Nat =>
        if negative then -(n : Int) else (n : Int) := by
  split
  case isTrue =>
    simp only [Text.readInt?]
    cases Text.digitsToNat? (c :: tail) <;> rfl
  case isFalse =>
    unfold Text.readInt?
    split
    case h_1 _ eq => cases eq; cases digit
    case h_2 _ eq => cases eq; cases digit
    case h_3 => cases Text.digitsToNat? (c :: tail) <;> rfl

theorem readInt64?_floatText (x : Binary64.Finite) :
    Text.readInt64? (Json.floatText x).toList = none := by
  obtain ⟨⟨c, tail, body, digit⟩, -, -, ⟨mark, mem, other⟩⟩ := Binary64.writes_bodyText x
  have notDigits : Text.digitsToNat? (c :: tail) = none := by
    have : (c :: tail).all Char.isDigit = false :=
      List.all_eq_false.2 ⟨mark, body ▸ mem, by simp [other]⟩
    simp [Text.digitsToNat?, this]
  rw [Binary64.toList_floatText, body, Text.readInt64?, readInt?_of_digit tail digit, notDigits]
  rfl

theorem readInt?_intText (n : Int) : Text.readInt? (Json.intText n).toList = some n := by
  have digits := Binary64.areDigits_toDigits n.natAbs
  obtain ⟨c, tail, eq, digit⟩ := digits.first Nat.toDigits_ne_nil []
  rw [List.append_nil] at eq
  have value : Text.digitsToNat? (c :: tail) = some n.natAbs := by
    have all : (c :: tail).all Char.isDigit = true := List.all_eq_true.2 (eq ▸ digits)
    have same : Nat.ofDigitChars 10 (c :: tail) 0 = n.natAbs := by
      rw [← eq, Nat.ofDigitChars_toDigits (by decide) (by decide)]
    simp [Text.digitsToNat?, all, same]
  rw [toList_intText, eq, readInt?_of_digit tail digit, value, Option.map_some]
  congr 1
  split <;> omega

/-- A number that a literal type can list is read back from its text. -/
theorem numberToken?_numberText {n : Json.Number} (isLiteral : (Json.number n).IsLiteral) :
    numberToken? (Json.numberText n).toList = some n := by
  cases n with
  | whole n =>
    have small : n.val < 0x8000000000000000 := isLiteral
    have inRange := n.inRange.1
    have read : Text.readInt64? (Json.intText n.val).toList = some (Int64.ofInt n.val) := by
      rw [Text.readInt64?, readInt?_intText, Option.bind_some, Text.int64?, if_pos ⟨inRange, small⟩]
    have value : (Int64.ofInt n.val).toInt = n.val := Int64.toInt_ofInt_of_le inRange small
    simp only [Json.numberText, numberToken?, read, value]
  | float x =>
    simp only [Json.numberText, numberToken?, readInt64?_floatText, Binary64.read?_floatText,
      Option.bind_some, Binary64.finite?, Option.map_some]

theorem isNumeral_numberText (n : Json.Number) : IsNumeral (Json.numberText n).toList := by
  cases n with
  | whole n => exact isNumeral_intText n.val
  | float x => exact isNumeral_floatText x

end TypeExpr
end RecordCodec
