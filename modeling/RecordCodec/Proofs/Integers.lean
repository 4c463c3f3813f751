import RecordCodec.Converter.Scalar
import RecordCodec.Proofs.JoinedTexts
import RecordCodec.Proofs.NumberTexts

set_option autoImplicit false

/-!
# Integers are decoded exactly

A whole number beyond 64 bits with a sign takes the way of the binary numbers, where it is rounded.
The least such number is itself one of the format, so no rounding brings the others below it. A
text is decoded as the integer that its digits stand for.
-/
namespace RecordCodec

section Notation

/-- One or more ASCII digits and the number that they stand for. -/
inductive Text.DenotesNat : List Char → ℕ → Prop where
  | digit (c : Char) : c.isDigit = true → DenotesNat [c] (c.toNat - '0'.toNat)
  | snoc (s : List Char) (n : ℕ) (c : Char) : DenotesNat s n → c.isDigit = true →
      DenotesNat (s ++ [c]) (10 * n + (c.toNat - '0'.toNat))

/-- An optional sign before digits, and the integer that they stand for. -/
inductive Text.DenotesInt : List Char → ℤ → Prop where
  | unsigned (s : List Char) (n : ℕ) : DenotesNat s n → DenotesInt s n
  | plus (s : List Char) (n : ℕ) : DenotesNat s n → DenotesInt ('+' :: s) n
  | minus (s : List Char) (n : ℕ) : DenotesNat s n → DenotesInt ('-' :: s) (-n)

namespace Text

variable {s : List Char} {n : ℕ} {i : ℤ}

theorem digitsToNat?_eq_some_iff :
    digitsToNat? s = some n ↔ s ≠ [] ∧ Binary64.AreDigits s ∧ Nat.ofDigitChars 10 s 0 = n := by
  unfold digitsToNat? Binary64.AreDigits
  cases s <;> simp [and_assoc]

theorem DenotesNat.digitsToNat? (h : DenotesNat s n) : digitsToNat? s = some n := by
  rw [digitsToNat?_eq_some_iff]
  induction h with
  | digit c digit =>
    exact ⟨List.cons_ne_nil _ _, by simpa [Binary64.AreDigits] using digit, by
      simp [Nat.ofDigitChars]⟩
  | snoc s n c _ digit ih =>
    obtain ⟨-, digits, value⟩ := ih
    refine ⟨by simp, digits.append (by simpa [Binary64.AreDigits] using digit), ?_⟩
    rw [Nat.ofDigitChars_append, value]
    simp [Nat.ofDigitChars]

/-- The induction is on the digits from the last one, as the value is. -/
theorem denotesNat_ofDigitChars (digits : Binary64.AreDigits s) (some : s ≠ []) :
    DenotesNat s (Nat.ofDigitChars 10 s 0) := by
  induction s using List.reverseRecOn with
  | nil => exact absurd rfl some
  | append_singleton s c ih =>
    obtain ⟨before, last⟩ := List.forall_mem_append.1 digits
    have digit : c.isDigit = true := last c List.mem_cons_self
    rcases eq_or_ne s [] with rfl | more
    · simpa [Nat.ofDigitChars] using DenotesNat.digit c digit
    · rw [Nat.ofDigitChars_append]
      simpa [Nat.ofDigitChars] using DenotesNat.snoc s _ c (ih before more) digit

theorem denotesNat_iff : DenotesNat s n ↔ digitsToNat? s = some n := by
  constructor
  · exact DenotesNat.digitsToNat?
  · intro h
    obtain ⟨some, digits, rfl⟩ := digitsToNat?_eq_some_iff.1 h
    exact denotesNat_ofDigitChars digits some

theorem DenotesNat.first (h : DenotesNat s n) : ∃ c rest, s = c :: rest ∧ c.isDigit = true := by
  obtain ⟨some, digits, -⟩ := digitsToNat?_eq_some_iff.1 h.digitsToNat?
  simpa using digits.first some []

theorem denotesInt_iff : DenotesInt s i ↔ readInt? s = some i := by
  constructor
  · rintro (⟨_, n, digits⟩ | ⟨s, n, digits⟩ | ⟨s, n, digits⟩)
    · obtain ⟨c, rest, rfl, digit⟩ := digits.first
      have read := TypeExpr.readInt?_of_digit rest digit False
      simpa [digits.digitsToNat?] using read
    · simp [readInt?, digits.digitsToNat?]
    · simp [readInt?, digits.digitsToNat?]
  · intro h
    unfold readInt? at h
    have some_of (found : Option ℕ) (sign : ℤ → ℤ)
        (h : Option.map sign (found >>= fun n => pure (n : ℤ)) = some i) :
        ∃ n : ℕ, found = some n ∧ sign n = i := by
      cases found with
      | none => cases h
      | some n => exact ⟨n, rfl, Option.some_inj.1 h⟩
    split at h <;> obtain ⟨n, read, rfl⟩ := some_of _ _ h
    · exact .minus _ n (denotesNat_iff.2 read)
    · exact .plus _ n (denotesNat_iff.2 read)
    · exact .unsigned _ n (denotesNat_iff.2 read)

theorem int64?_eq_some_iff {k : Int64} : int64? i = some k ↔ k.toInt = i := by
  have least := k.le_toInt
  have most := k.toInt_lt
  unfold int64?
  split
  case isTrue inRange =>
    rw [Option.some_inj]
    constructor
    · rintro rfl
      exact Int64.toInt_ofInt_of_le inRange.1 inRange.2
    · rintro rfl
      exact Int64.ofInt_toInt k
  case isFalse outside =>
    simp only [reduceCtorEq, false_iff]
    omega

theorem readInt64?_eq_some_iff {k : Int64} : readInt64? s = some k ↔ DenotesInt s k.toInt := by
  rw [readInt64?, Option.bind_eq_some_iff, denotesInt_iff]
  simp [int64?_eq_some_iff]

end Text

end Notation

section Rounding

namespace Binary64

theorem roundHalfEven_eq_or (num den : ℕ) :
    roundHalfEven num den = num / den ∨ roundHalfEven num den = num / den + 1 := by
  simp only [roundHalfEven]
  split
  · exact .inr rfl
  · exact .inl rfl

theorem toInt?_eq {x : Finite} (positive : x.negative = false) (large : 0 ≤ x.exp) :
    x.toInt? = some (x.mant * pow2 x.exp.toNat : ℕ) := by
  have one : x.denominator = 1 := by
    have : (-x.exp).toNat = 0 := by omega
    rw [Finite.denominator, this]
    rfl
  simp [Finite.toInt?, one, Finite.numerator, positive]

theorem quotientExp_eleven {n : ℕ} (low : 0x8000000000000000 ≤ n) (high : n < 0x10000000000000000) :
    quotientExp n 1 = 11 := by
  refine (isExponent_quotientExp (by omega) one_ne_zero).unique ⟨by omega, ?_, .inr ?_⟩
  · rw [Nat.cast_one, div_one]
    have top : (2 : ℚ) ^ (11 + 53 : ℤ) = (0x10000000000000000 : ℕ) := by norm_num
    exact top ▸ Nat.cast_lt.2 high
  · rw [Nat.cast_one, div_one]
    have bottom : (2 : ℚ) ^ (11 + 52 : ℤ) = (0x8000000000000000 : ℕ) := by norm_num
    exact bottom ▸ Nat.cast_le.2 low

theorem toInt?_ofInt_ge {n : ℤ} (low : 0x8000000000000000 ≤ n) (high : n < 0x10000000000000000) :
    ∃ m : ℤ, (ofInt n).finite?.bind Finite.toInt? = some m ∧ 0x8000000000000000 ≤ m := by
  obtain ⟨k, rfl⟩ := Int.eq_ofNat_of_zero_le (by omega : 0 ≤ n)
  have exp : quotientExp k 1 = 11 := quotientExp_eleven (by omega) (by omega)
  have scale : k * pow2 (-11 : ℤ).toNat = k ∧ 1 * pow2 (11 : ℤ).toNat = 2048 :=
    ⟨Nat.mul_one k, rfl⟩
  have rounded := roundHalfEven_eq_or k 2048
  have value : ofInt k = if roundHalfEven k 2048 = 0x20000000000000
      then pack false 0x10000000000000 12 else pack false (roundHalfEven k 2048) 11 := by
    unfold ofInt ofRatio roundQuotient
    simp only [Int.natAbs_natCast, exp, scale.1, scale.2]
    rw [if_neg (by omega), decide_eq_false (by omega)]
    rfl
  rw [value]
  by_cases full : roundHalfEven k 2048 = 0x20000000000000
  case pos =>
    rw [if_pos full, pack, dif_pos (by decide), finite?, Option.bind_some,
      toInt?_eq rfl (by decide)]
    exact ⟨_, rfl, by decide⟩
  case neg =>
    have canonical : Canonical (roundHalfEven k 2048) 11 :=
      ⟨by omega, by omega, by omega, by omega⟩
    have large : (0 : ℤ) ≤ 11 := by decide
    rw [if_neg full, pack, dif_pos canonical, finite?, Option.bind_some, toInt?_eq rfl large]
    refine ⟨_, rfl, ?_⟩
    change _ ≤ ((roundHalfEven k 2048 * 2048 : ℕ) : ℤ)
    omega

end Binary64

end Rounding

section Tokens

namespace Json

theorem head?_toDigits_ne {n : ℕ} (nonzero : n ≠ 0) : (Nat.toDigits 10 n).head? ≠ some '0' := by
  have base : 1 < 10 := by decide
  induction n using Nat.strongRecOn with
  | ind n ih =>
    rcases Nat.lt_or_ge n 10 with small | large
    · have table : ∀ d : Fin 10, d.val ≠ 0 → Nat.digitChar d ≠ '0' := by decide
      rw [Nat.toDigits_of_lt_base small]
      simpa using table ⟨n, small⟩ nonzero
    · rw [Nat.toDigits_of_base_le base large,
        List.head?_append_of_ne_nil _ Nat.toDigits_ne_nil]
      exact ih (n / 10) (by omega) (by omega)

theorem readWhole_toDigits (n : ℕ) :
    readWhole (Nat.toDigits 10 n) = .ok (Nat.toDigits 10 n, []) := by
  rcases eq_or_ne n 0 with rfl | nonzero
  · rfl
  · have digits := (Binary64.areDigits_toDigits n).takeWhile_append [] (by rintro _ ⟨⟩)
    rw [List.append_nil] at digits
    unfold readWhole
    split
    case h_1 rest eq =>
      have := head?_toDigits_ne nonzero
      rw [eq] at this
      exact absurd rfl this
    case h_2 =>
      simp only [digits.1, digits.2]
      rw [if_neg (by simp)]

theorem numberValue_toDigits (n : Whole) :
    numberValue (n.val < 0) (Nat.toDigits 10 n.val.natAbs) [] none = some (.whole n) := by
  have value : (if n.val < 0 then -(n.val.natAbs : ℤ) else n.val.natAbs) = n.val := by
    split <;> omega
  unfold numberValue
  simp only [Binary64.digitsValue_toDigits, decide_eq_true_eq, value]
  rw [if_pos, dif_pos n.inRange]
  simp
  omega

theorem readNumber_toDigits (negative : Bool) (n : ℕ) :
    readNumber (if negative then '-' :: Nat.toDigits 10 n else Nat.toDigits 10 n) =
      .ok (numberValue negative (Nat.toDigits 10 n) [] none, []) := by
  have whole := readWhole_toDigits n
  cases negative with
  | true =>
    simp [readNumber, whole, readFraction, readExponent, bind, Except.bind]
  | false =>
    obtain ⟨c, tail, eq, digit⟩ :=
      (Binary64.areDigits_toDigits n).first Nat.toDigits_ne_nil []
    rw [List.append_nil] at eq
    have notMinus : c ≠ '-' := by
      rintro rfl
      cases digit
    rw [eq] at whole ⊢
    simp [readNumber, notMinus, whole, readFraction, readExponent, bind, Except.bind]

theorem readValue_number {c : Char} {rest : List Char} (first : c = '-' ∨ c.isDigit = true)
    (fuel : ℕ) : readValue (fuel + 1) (c :: rest) =
      (readNumber (c :: rest)).map fun found => (.number found.1, found.2) := by
  have other (d : Char) (notMinus : d ≠ '-') (notDigit : d.isDigit = false) : c ≠ d := by
    rintro rfl
    simp [notMinus, notDigit] at first
  have visible : skipSpace (c :: rest) = c :: rest := by
    refine List.dropWhile_cons_of_neg ?_
    simp [isSpace, other ' ', other '\t', other '\n', other '\r']
  unfold readValue
  rw [visible]
  split
  case h_7 => cases readNumber (c :: rest) <;> rfl
  all_goals
    rename_i eq
    cases eq
    exact absurd rfl (other _ (by decide) (by decide))

theorem read_intText (n : Whole) : read (intText n.val) = .ok (.number (.whole n)) := by
  have token := readNumber_toDigits (n.val < 0) n.val.natAbs
  simp only [decide_eq_true_eq, numberValue_toDigits, ← TypeExpr.toList_intText] at token
  obtain ⟨c, tail, eq, first⟩ := (TypeExpr.isNumeral_intText n.val).first
  have tree : Written.read (intText n.val) = .ok (.number (some (.whole n))) := by
    unfold Written.read
    simp only [eq] at token ⊢
    rw [readValue_number first, token]
    rfl
  rw [read, tree]
  rfl

end Json

end Tokens

namespace Scalar

variable {v : Json} {r : Instance}

theorem decode_int_eq_ok_iff : decode .int v = .ok r ↔ ∃ i, int? v = some i ∧ r = .int i := by
  rw [decode]
  cases int? v with
  | none => simp [orRefuse, refuse]
  | some i => simp [orRefuse, eq_comm]

theorem integer?_whole {n : Json.Whole} {i : Int64} :
    integer? (.whole n) = some i ↔ i.toInt = n.val := by
  unfold integer?
  by_cases small : n.val < 0x8000000000000000
  case pos =>
    have fits : Json.Number.toInt64? (.whole n) = some (Int64.ofInt n.val) := if_pos small
    simp only [fits]
    rw [← Text.int64?_eq_some_iff, Text.int64?, if_pos ⟨n.inRange.1, small⟩]
  case neg =>
    have beyond : Json.Number.toInt64? (.whole n) = none := if_neg small
    obtain ⟨m, rounded, large⟩ :=
      Binary64.toInt?_ofInt_ge (Int.not_lt.1 small) n.inRange.2
    have most := i.toInt_lt
    simp only [beyond, Json.Number.toBinary64, rounded, Option.bind_some,
      Text.int64?_eq_some_iff]
    omega

theorem int?_intText (i : Int64) : int? (.string (Json.intText i.toInt)) = some i := by
  have numeral := TypeExpr.isNumeral_intText i.toInt
  have digits : (Json.intText i.toInt).toList.filter (· != '_') = (Json.intText i.toInt).toList :=
    List.filter_eq_self.2 fun c mem => by simpa using (numeral.chars c mem).2
  rw [int?, trimmedChars, (Text.isItem_of_isNumeral numeral).trimmed, digits, Text.readInt64?,
    TypeExpr.readInt?_intText, Option.bind_some, Text.int64?_eq_some_iff]

theorem decode_int_whole {n : Json.Whole} :
    decode .int (.number (.whole n)) = .ok r ↔ ∃ i : Int64, i.toInt = n.val ∧ r = .int i := by
  simp only [decode_int_eq_ok_iff, int?, integer?_whole]

theorem decode_int_zero (negative : Bool) :
    decode .int (.number (.float (Binary64.zero negative))) = .ok (.int 0) := by
  have zero : (Binary64.zero negative).toInt? = some 0 := by
    have nothing : (Binary64.zero negative).numerator = 0 := by cases negative <;> rfl
    rw [Binary64.Finite.toInt?, nothing, Int.zero_emod, if_pos rfl, Int.zero_ediv]
  refine decode_int_eq_ok_iff.2 ⟨0, ?_, rfl⟩
  simp only [int?, integer?, Json.Number.toInt64?, Json.Number.toBinary64, Binary64.finite?,
    Option.bind_some, zero]
  rfl

theorem decode_int_string {s : String} : decode .int (.string s) = .ok r ↔
    ∃ i : Int64, Text.DenotesInt ((Text.trim s.toList).filter (· != '_')) i.toInt ∧ r = .int i := by
  simp only [decode_int_eq_ok_iff, int?, trimmedChars, Text.readInt64?_eq_some_iff]

/-- Decoding never alters an integer. A token of an integer is read as the integer, or as the
negative zero, and is decoded as it, or refused if it does not fit 64 bits with a sign. A text is
decoded, without blanks around it and without underscores, exactly if it is the notation of an
integer that fits, and as that integer; so a number and its text are decoded alike. -/
theorem decode_int_exact :
    (∀ n : Json.Whole, Json.read (Json.intText n.val) = .ok (.number (.whole n)) ∧
      ∀ r, decode .int (.number (.whole n)) = .ok r ↔ ∃ i : Int64, i.toInt = n.val ∧ r = .int i) ∧
    (∃ zero, Json.read "-0" = .ok zero ∧ decode .int zero = .ok (.int 0)) ∧
    (∀ (s : String) (r : Instance), decode .int (.string s) = .ok r ↔ ∃ i : Int64,
      Text.DenotesInt ((Text.trim s.toList).filter (· != '_')) i.toInt ∧ r = .int i) ∧
    (∀ i : Int64, decode .int (.ofInt64 i) = .ok (.int i) ∧
      decode .int (.string (Json.intText i.toInt)) = .ok (.int i)) := by
  refine ⟨fun n => ⟨Json.read_intText n, fun _ => decode_int_whole⟩, ⟨_, rfl, decode_int_zero true⟩,
    fun _ _ => decode_int_string, fun i => ⟨?_, ?_⟩⟩
  · exact decode_int_whole.2 ⟨i, rfl, rfl⟩
  · exact decode_int_eq_ok_iff.2 ⟨i, int?_intText i, rfl⟩

example : decode .int (.string " +9_223_372_036_854_775_807 ") = .ok (.int 9223372036854775807) ∧
    (decode .int (.number (.whole ⟨9223372036854775808, by decide⟩))).isOk = false := ⟨rfl, rfl⟩

end Scalar

end RecordCodec
