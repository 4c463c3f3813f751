import Mathlib.Data.List.Basic
import RecordCodec.Failure

set_option autoImplicit false

/-!
# The text of a path is read in one way

Each piece of a path says where it ends: a plain key goes on up to a dot or a bracket, an index up
to the closing bracket, and a quoted key up to the first quote that is not part of an escape. So
texts that begin with such a piece begin with the same piece, and a path is known from its text.
-/
namespace RecordCodec

namespace Text

variable {s t r u : List Char}

/-- Texts of one class of characters end where a character of another class comes. -/
theorem append_inj_of_stops {p : Char → Bool} (hs : ∀ c ∈ s, p c = true)
    (ht : ∀ c ∈ t, p c = true) (hr : ∀ c ∈ r.head?, p c = false)
    (hu : ∀ c ∈ u.head?, p c = false) (h : s ++ r = t ++ u) : s = t ∧ r = u := by
  have stopped {w : List Char} (stop : ∀ c ∈ w.head?, p c = false) : w.takeWhile p = [] := by
    cases w with
    | nil => rfl
    | cons c w => exact List.takeWhile_cons_of_neg (by simp [stop c rfl])
  have same : s = t :=
    calc s = (s ++ r).takeWhile p := by
          rw [List.takeWhile_append_of_pos hs, stopped hr, List.append_nil]
      _ = (t ++ u).takeWhile p := by rw [h]
      _ = t := by rw [List.takeWhile_append_of_pos ht, stopped hu, List.append_nil]
  exact ⟨same, List.append_cancel_left (same ▸ h)⟩

section HexDigits

theorem digitChar_inj {m n : Nat} (hm : m < 16) (hn : n < 16)
    (h : Nat.digitChar m = Nat.digitChar n) : m = n := by
  have table : ∀ i j : Fin 16, Nat.digitChar i = Nat.digitChar j → i = j := by decide
  exact Fin.mk.inj (table ⟨m, hm⟩ ⟨n, hn⟩ h)

theorem append_singleton_ne {c d : Char} (some : s ≠ []) : s ++ [c] ≠ [d] := by
  intro h
  obtain ⟨e, rest, rfl⟩ := List.exists_cons_of_ne_nil some
  simp at h

/-- The last digit is the remainder, and those before it are the digits of the quotient. -/
theorem hexDigits_injective : Function.Injective hexDigits := by
  intro m
  induction m using Nat.strongRecOn with
  | ind m ih =>
    intro n h
    unfold hexDigits at h
    have base : 1 < 16 := by decide
    rcases Nat.lt_or_ge m 16 with small | large <;> rcases Nat.lt_or_ge n 16 with small' | large'
    · rw [Nat.toDigits_of_lt_base small, Nat.toDigits_of_lt_base small'] at h
      exact digitChar_inj small small' (List.singleton_inj.1 h)
    · rw [Nat.toDigits_of_lt_base small, Nat.toDigits_of_base_le base large'] at h
      exact absurd h.symm (append_singleton_ne Nat.toDigits_ne_nil)
    · rw [Nat.toDigits_of_base_le base large, Nat.toDigits_of_lt_base small'] at h
      exact absurd h (append_singleton_ne Nat.toDigits_ne_nil)
    · rw [Nat.toDigits_of_base_le base large, Nat.toDigits_of_base_le base large'] at h
      obtain ⟨quotients, remainders⟩ := List.append_inj' h rfl
      have quotient : m / 16 = n / 16 := ih (m / 16) (by omega) quotients
      have remainder : m % 16 = n % 16 :=
        digitChar_inj (Nat.mod_lt _ (by decide)) (Nat.mod_lt _ (by decide))
          (List.singleton_inj.1 remainders)
      omega

theorem closingBrace_not_mem_hexDigits (n : Nat) : '\x7d' ∉ hexDigits n := by
  unfold hexDigits
  induction n using Nat.strongRecOn with
  | ind n ih =>
    rw [Nat.toDigits_eq_if (by decide : 1 < 16)]
    have other (k : Nat) : '\x7d' ≠ Nat.digitChar k := (Nat.digitChar_ne _ (by decide)).symm
    split
    · simp [other]
    · simp [other, ih (n / 16) (by omega)]

end HexDigits

section Quoted

/-- The characters with an escape of their own, and the letter of the escape. -/
def letterEscapes : List (Char × Char) :=
  [('\x00', '0'), ('\t', 't'), ('\r', 'r'), ('\n', 'n'), ('"', '"'), ('\\', '\\')]

theorem quotedChar_cases (c : Char) :
    (∃ letter, (c, letter) ∈ letterEscapes ∧ quotedChar c = ['\\', letter]) ∨
    quotedChar c = codePointEscape c ∨
    (c ≠ '"' ∧ c ≠ '\\' ∧ quotedChar c = [c]) := by
  unfold quotedChar
  split_ifs with h₀ h₁ h₂ h₃ h₄ h₅
  all_goals first | (left; subst c; exact ⟨_, by decide, rfl⟩) | skip
  · exact .inr (.inl rfl)
  · exact .inr (.inr ⟨h₄, h₅, rfl⟩)

theorem letter_inj {c d letter : Char} (hc : (c, letter) ∈ letterEscapes)
    (hd : (d, letter) ∈ letterEscapes) : c = d := by
  have table : ∀ e ∈ letterEscapes, ∀ f ∈ letterEscapes, e.2 = f.2 → e.1 = f.1 := by
    decide
  exact table _ hc _ hd rfl

theorem letter_ne_u {c letter : Char} (h : (c, letter) ∈ letterEscapes) : letter ≠ 'u' := by
  have table : ∀ e ∈ letterEscapes, e.2 ≠ 'u' := by decide
  exact table _ h

theorem codePointEscape_append_inj {c d : Char}
    (h : codePointEscape c ++ r = codePointEscape d ++ u) : c = d ∧ r = u := by
  simp only [codePointEscape, List.append_assoc, List.cons_append, List.nil_append,
    List.cons.injEq, true_and] at h
  have inBraces (e : Char) : ∀ x ∈ hexDigits e.toNat, (x != '\x7d') = true := by
    intro x mem
    have := closingBrace_not_mem_hexDigits e.toNat
    grind
  obtain ⟨digits, rest⟩ := append_inj_of_stops (inBraces c) (inBraces d) (by simp) (by simp) h
  exact ⟨Char.toNat_inj.1 (hexDigits_injective digits), (List.cons.inj rest).2⟩

theorem quotedChar_append_inj {c d : Char} (h : quotedChar c ++ r = quotedChar d ++ u) :
    c = d ∧ r = u := by
  rcases quotedChar_cases c with ⟨a, memA, eqC⟩ | eqC | ⟨-, plainC, eqC⟩ <;>
    rcases quotedChar_cases d with ⟨b, memB, eqD⟩ | eqD | ⟨-, plainD, eqD⟩ <;>
    rw [eqC, eqD] at h
  · obtain ⟨-, same⟩ := List.cons.inj h
    obtain ⟨rfl, rest⟩ := List.cons.inj same
    exact ⟨letter_inj memA memB, rest⟩
  · simp [codePointEscape, letter_ne_u memA] at h
  · simp [plainD.symm] at h
  · simp [codePointEscape, (letter_ne_u memB).symm] at h
  · exact codePointEscape_append_inj h
  · simp [codePointEscape, plainD.symm] at h
  · simp [plainC] at h
  · simp [codePointEscape, plainC] at h
  · exact List.cons.inj h

theorem quote_ne_quotedChar_append (c : Char) : '"' :: u ≠ quotedChar c ++ r := by
  rcases quotedChar_cases c with ⟨a, -, eq⟩ | eq | ⟨quote, -, eq⟩
  · simp [eq]
  · simp [eq, codePointEscape]
  · simp [eq, quote.symm]

theorem flatMap_quotedChar_append_inj
    (h : s.flatMap quotedChar ++ '"' :: r = t.flatMap quotedChar ++ '"' :: u) :
    s = t ∧ r = u := by
  induction s generalizing t with
  | nil =>
    cases t with
    | nil => exact ⟨rfl, (List.cons.inj h).2⟩
    | cons d t =>
      rw [List.flatMap_cons, List.append_assoc] at h
      exact absurd h (quote_ne_quotedChar_append d)
  | cons c s ih =>
    cases t with
    | nil =>
      rw [List.flatMap_cons, List.append_assoc] at h
      exact absurd h.symm (quote_ne_quotedChar_append c)
    | cons d t =>
      rw [List.flatMap_cons, List.flatMap_cons, List.append_assoc, List.append_assoc] at h
      obtain ⟨rfl, more⟩ := quotedChar_append_inj h
      obtain ⟨rfl, rest⟩ := ih more
      exact ⟨rfl, rest⟩

/-- A quoted text says where it ends. -/
theorem quotedChars_append_inj (h : quotedChars s ++ r = quotedChars t ++ u) : s = t ∧ r = u := by
  simp only [quotedChars, List.cons_append, List.append_assoc, List.nil_append,
    List.cons.injEq, true_and] at h
  exact flatMap_quotedChar_append_inj h

end Quoted

end Text

namespace Segment

variable {s t : Segment} {r u : List Char} {first : Bool}

def lead (first : Bool) : List Char := if first then [] else ['.']

theorem toList_text_cases (first : Bool) (s : Segment) :
    (∃ k, s = .key k ∧ isPlain k.toList = true ∧ (s.text first).toList = lead first ++ k.toList) ∨
    (∃ k, s = .key k ∧ (s.text first).toList = '[' :: Text.quotedChars k.toList ++ [']']) ∨
    (∃ i, s = .index i ∧ (s.text first).toList = '[' :: Nat.toDigits 10 i ++ [']']) := by
  cases s with
  | key k =>
    by_cases plain : isPlain k.toList = true
    · refine .inl ⟨k, rfl, plain, ?_⟩
      cases first <;> simp [text, plain, lead]
    · refine .inr (.inl ⟨k, rfl, ?_⟩)
      simp [text, plain, Text.quoted]
  | index i =>
    refine .inr (.inr ⟨i, rfl, ?_⟩)
    simp [text]

/-- The text is over, or another step begins. -/
def AtBoundary (r : List Char) : Prop := ∀ c ∈ r.head?, c = '.' ∨ c = '['

theorem AtBoundary.notPlain (h : AtBoundary r) : ∀ c ∈ r.head?, isPlainChar c = false := by
  intro c mem
  rcases h c mem with rfl | rfl <;> decide

theorem isPlainChar_of_isPlain {k : List Char} (h : isPlain k = true) :
    ∀ c ∈ k, isPlainChar c = true := by
  simp only [isPlain, Bool.and_eq_true] at h
  exact List.all_eq_true.1 h.1.2

theorem ne_nil_of_isPlain {k : List Char} (h : isPlain k = true) : k ≠ [] := by
  rintro rfl
  simp [isPlain] at h

/-- A plain key, with what leads it, does not begin with a bracket. -/
theorem bracket_ne_lead_append {k : List Char} (plain : isPlain k = true) :
    '[' :: u ≠ lead first ++ k ++ r := by
  obtain ⟨c, k, rfl⟩ := List.exists_cons_of_ne_nil (ne_nil_of_isPlain plain)
  have letter := isPlainChar_of_isPlain plain c List.mem_cons_self
  have bracket : c ≠ '[' := by
    rintro rfl
    revert letter
    decide
  cases first <;> simp [lead, bracket.symm]

theorem toDigits_append_ne_quotedChars {i : Nat} {k : List Char} :
    Nat.toDigits 10 i ++ u ≠ Text.quotedChars k ++ r := by
  intro h
  obtain ⟨c, digits, eq⟩ := List.exists_cons_of_ne_nil (Nat.toDigits_ne_nil (n := i) (b := 10))
  have digit : c.isDigit = true :=
    Nat.isDigit_of_mem_toDigits (by decide) (by decide) (eq ▸ List.mem_cons_self)
  rw [eq] at h
  obtain ⟨rfl, -⟩ := List.cons.inj h
  revert digit
  decide

theorem toDigits_append_inj {i j : Nat}
    (h : Nat.toDigits 10 i ++ ']' :: r = Nat.toDigits 10 j ++ ']' :: u) : i = j ∧ r = u := by
  have digits (n : Nat) : ∀ c ∈ Nat.toDigits 10 n, c.isDigit = true := fun _ mem =>
    Nat.isDigit_of_mem_toDigits (by decide) (by decide) mem
  have stop (w : List Char) : ∀ c ∈ (']' :: w).head?, c.isDigit = false := by
    rintro c ⟨⟩
    decide
  obtain ⟨same, rest⟩ := Text.append_inj_of_stops (digits i) (digits j) (stop r) (stop u) h
  have number : i = j := by
    rw [← Nat.ofDigitChars_ten_toDigits (n := i), same, Nat.ofDigitChars_ten_toDigits]
  exact ⟨number, (List.cons.inj rest).2⟩

/-- The text of a step is known from a text that begins with it. -/
theorem text_append_inj (hr : AtBoundary r) (hu : AtBoundary u)
    (h : (s.text first).toList ++ r = (t.text first).toList ++ u) : s = t ∧ r = u := by
  rcases toList_text_cases first s with
      ⟨k, rfl, plain, eqS⟩ | ⟨k, rfl, eqS⟩ | ⟨i, rfl, eqS⟩ <;>
    rcases toList_text_cases first t with
      ⟨l, rfl, plain', eqT⟩ | ⟨l, rfl, eqT⟩ | ⟨j, rfl, eqT⟩ <;>
    rw [eqS, eqT] at h
  · rw [List.append_assoc, List.append_assoc, List.append_right_inj] at h
    obtain ⟨same, rest⟩ := Text.append_inj_of_stops (isPlainChar_of_isPlain plain)
      (isPlainChar_of_isPlain plain') hr.notPlain hu.notPlain h
    exact ⟨congrArg _ (String.toList_inj.1 same), rest⟩
  · exact absurd h.symm (bracket_ne_lead_append plain)
  · exact absurd h.symm (bracket_ne_lead_append plain)
  · exact absurd h (bracket_ne_lead_append plain')
  · simp only [List.cons_append, List.append_assoc, List.cons.injEq, true_and] at h
    obtain ⟨same, rest⟩ := Text.quotedChars_append_inj h
    exact ⟨congrArg _ (String.toList_inj.1 same), (List.cons.inj rest).2⟩
  · simp only [List.cons_append, List.append_assoc, List.cons.injEq, true_and] at h
    exact absurd h.symm toDigits_append_ne_quotedChars
  · exact absurd h (bracket_ne_lead_append plain')
  · simp only [List.cons_append, List.append_assoc, List.cons.injEq, true_and] at h
    exact absurd h toDigits_append_ne_quotedChars
  · simp only [List.cons_append, List.append_assoc, List.cons.injEq, true_and] at h
    obtain ⟨rfl, rest⟩ := toDigits_append_inj h
    exact ⟨rfl, rest⟩

theorem exists_toList_text_eq (s : Segment) :
    ∃ c rest, (s.text false).toList = c :: rest ∧ (c = '.' ∨ c = '[') := by
  rcases toList_text_cases false s with ⟨k, rfl, -, eq⟩ | ⟨k, rfl, eq⟩ | ⟨i, rfl, eq⟩
  · exact ⟨_, _, eq, .inl rfl⟩
  · exact ⟨_, _, eq, .inr rfl⟩
  · exact ⟨_, _, eq, .inr rfl⟩

theorem toList_text_ne_nil (s : Segment) : (s.text true).toList ≠ [] := by
  rcases toList_text_cases true s with ⟨k, rfl, plain, eq⟩ | ⟨k, rfl, eq⟩ | ⟨i, rfl, eq⟩
  · rw [eq]
    exact ne_nil_of_isPlain plain
  · simp [eq]
  · simp [eq]

end Segment

namespace Path

def tailChars (p : Path) : List Char := p.flatMap fun s => (s.text false).toList

theorem toList_text_cons (s : Segment) (p : Path) :
    (text (s :: p)).toList = (s.text true).toList ++ tailChars p := by
  rw [text, String.toList_append, String.toList_join, List.flatMap_map, tailChars]

theorem tailChars_atBoundary (p : Path) : Segment.AtBoundary (tailChars p) := by
  cases p with
  | nil => simp [tailChars, Segment.AtBoundary]
  | cons s p =>
    obtain ⟨c, rest, eq, boundary⟩ := s.exists_toList_text_eq
    rintro d head
    rw [tailChars, List.flatMap_cons, eq] at head
    cases head
    exact boundary

theorem tailChars_cons_ne_nil (s : Segment) (p : Path) : tailChars (s :: p) ≠ [] := by
  obtain ⟨c, rest, eq, -⟩ := s.exists_toList_text_eq
  simp [tailChars, eq]

theorem tailChars_injective : Function.Injective tailChars := by
  intro p
  induction p with
  | nil =>
    intro q h
    cases q with
    | nil => rfl
    | cons t q => exact absurd h.symm (tailChars_cons_ne_nil t q)
  | cons s p ih =>
    intro q h
    cases q with
    | nil => exact absurd h (tailChars_cons_ne_nil s p)
    | cons t q =>
      obtain ⟨rfl, rest⟩ :=
        Segment.text_append_inj (tailChars_atBoundary p) (tailChars_atBoundary q) h
      rw [ih rest]

theorem text_injective : Function.Injective text := by
  intro p q h
  have chars := congrArg String.toList h
  cases p with
  | nil =>
    cases q with
    | nil => rfl
    | cons t q =>
      rw [toList_text_cons] at chars
      exact absurd (List.append_eq_nil_iff.1 chars.symm).1 t.toList_text_ne_nil
  | cons s p =>
    cases q with
    | nil =>
      rw [toList_text_cons] at chars
      exact absurd (List.append_eq_nil_iff.1 chars).1 s.toList_text_ne_nil
    | cons t q =>
      rw [toList_text_cons, toList_text_cons] at chars
      obtain ⟨rfl, rest⟩ :=
        Segment.text_append_inj (tailChars_atBoundary p) (tailChars_atBoundary q) chars
      rw [tailChars_injective rest]

theorem text_inj {p q : Path} : text p = text q ↔ p = q := text_injective.eq_iff

example : text [.key "a", .key "b"] = "a.b" ∧ text [.key "a.b"] = "[\"a.b\"]" := by decide

end Path
end RecordCodec
