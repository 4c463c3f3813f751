import Mathlib.Data.List.Basic
import RecordCodec.Casing

set_option autoImplicit false

/-!
# Names in another casing

A casing keeps the words of a name if they can be told apart in the key. Separators tell any words
apart. Capitals do so if each word starts with a letter and goes on after it, as the capital of the
next word then follows a small letter or a digit.
-/
namespace RecordCodec.Casing

/-- The casings that break a name into words. -/
def styles : List Casing := [snake, camel, pascal, kebab, screamingSnake]

def IsAscii (s : List Char) : Prop := ∀ c ∈ s, c.toNat < 0x80

instance (s : List Char) : Decidable (IsAscii s) :=
  List.decidableBAll (fun c : Char => c.toNat < 0x80) s

/-- One or more letters and any digits after them, two characters at least. -/
structure IsWord (w : List Char) : Prop where
  parts : ∃ letters digits, w = letters ++ digits ∧ letters ≠ [] ∧
    (∀ c ∈ letters, c.isAlpha = true) ∧ ∀ c ∈ digits, c.isDigit = true
  two : 2 ≤ w.length

/-- A character that stands for itself inside of lower-case words. -/
def IsSmall (c : Char) : Prop := c.toNat < 0x80 ∧ c.isUpper = false ∧ isSeparator c = false

instance : DecidablePred IsSmall := fun _ => inferInstanceAs (Decidable (_ ∧ _ ∧ _))

def IsSmallWord (w : List Char) : Prop := w ≠ [] ∧ ∀ c ∈ w, IsSmall c

section Characters

@[elab_as_elim]
theorem forall_ascii {P : Char → Prop} (c : Char) (ascii : c.toNat < 0x80)
    (each : ∀ n < 0x80, P (Char.ofNat n)) : P c := by
  have found := each c.toNat ascii
  rwa [Char.ofNat_toNat] at found

variable {c : Char}

theorem lowerChar_of_ascii (ascii : c.toNat < 0x80) : Text.lowerChar c = [c.toLower] := if_pos ascii

theorem isSmall_toLower (ascii : c.toNat < 0x80) : isSeparator c = false → IsSmall c.toLower :=
  forall_ascii c ascii (by decide)

namespace IsSmall

theorem isUpper (small : IsSmall c) : Text.isUpper c = false := (if_pos small.1).trans small.2.1

theorem lowerChar (small : IsSmall c) : Text.lowerChar c = [c] := by
  have same : c.isUpper = false → c.toLower = c := forall_ascii c small.1 (by decide)
  rw [lowerChar_of_ascii small.1, same small.2.1]

theorem isLower (small : IsSmall c) (letter : c.isAlpha = true) : Text.isLower c = true := by
  have lower : c.isUpper = false → c.isAlpha = true → Text.isLower c = true :=
    forall_ascii c small.1 (by decide)
  exact lower small.2.1 letter

end IsSmall

theorem ascii_of_isDigit (digit : c.isDigit = true) : c.toNat < 0x80 :=
  Nat.lt_of_le_of_lt (Char.isDigit_iff_toNat.1 digit).2 (by decide)

/-- What makes `capital` the capital of a small letter. -/
structure IsCapital (capital letter : Char) : Prop where
  upperChar : Text.upperChar letter = [capital]
  lowerChar : Text.lowerChar capital = [letter]
  isUpper : Text.isUpper capital = true
  isLower : Text.isLower capital = false
  isDigit : capital.isDigit = false
  inWord : isSeparator capital = false

theorem IsSmall.isCapital_toUpper (small : IsSmall c) (letter : c.isAlpha = true) :
    IsCapital c.toUpper c := by
  have signs : c.isUpper = false → c.isAlpha = true → Text.lowerChar c.toUpper = [c] ∧
      Text.isUpper c.toUpper = true ∧ Text.isLower c.toUpper = false ∧
      c.toUpper.isDigit = false ∧ isSeparator c.toUpper = false :=
    forall_ascii c small.1 (by decide)
  obtain ⟨lowerChar, isUpper, isLower, isDigit, inWord⟩ := signs small.2.1 letter
  exact ⟨if_pos small.1, lowerChar, isUpper, isLower, isDigit, inWord⟩

theorem upperChar_of_isDigit (digit : c.isDigit = true) : Text.upperChar c = [c] := by
  have ascii := ascii_of_isDigit digit
  have same : c.isDigit = true → c.toUpper = c := forall_ascii c ascii (by decide)
  rw [Text.upperChar, if_pos ascii, same digit]

theorem isSmall_of_isDigit (digit : c.isDigit = true) : IsSmall c := by
  have small : c.isDigit = true → IsSmall c := forall_ascii c (ascii_of_isDigit digit) (by decide)
  exact small digit

theorem isLower_of_isDigit (digit : c.isDigit = true) : Text.isLower c = false := by
  have other : c.isDigit = true → Text.isLower c = false :=
    forall_ascii c (ascii_of_isDigit digit) (by decide)
  exact other digit

theorem isLower_of_isSeparator (sep : isSeparator c = true) : Text.isLower c = false := by
  simp only [isSeparator, Bool.or_eq_true, beq_iff_eq, or_assoc] at sep
  rcases sep with rfl | rfl | rfl <;> rfl

end Characters

section Reading

variable {c before sep : Char} {current rest s : List Char}

theorem wordsFrom_nil (some : current ≠ []) : wordsFrom current before [] = [current.reverse] := by
  rw [wordsFrom, if_neg (by simpa using some)]

theorem wordsFrom_separator (isSep : isSeparator sep = true) (some : current ≠ []) :
    wordsFrom current before (sep :: rest) = current.reverse :: wordsFrom [] sep rest := by
  rw [wordsFrom, if_pos isSep, if_neg (by simpa using some)]

theorem wordsFrom_start (inWord : isSeparator c = false) (some : current ≠ [])
    (starts : startsWord before c rest = true) :
    wordsFrom current before (c :: rest) =
      current.reverse :: wordsFrom (Text.lowerChar c).reverse c rest := by
  rw [wordsFrom, if_neg (by simp [inWord]), if_pos (by simp [some, starts])]

theorem wordsFrom_inside (inWord : isSeparator c = false)
    (inside : current = [] ∨ startsWord before c rest = false) :
    wordsFrom current before (c :: rest) =
      wordsFrom ((Text.lowerChar c).reverse ++ current) c rest := by
  have none : (!current.isEmpty && startsWord before c rest) = false := by
    rcases inside with rfl | goesOn
    · rfl
    · rw [goesOn, Bool.and_false]
  rw [wordsFrom, if_neg (by simp [inWord]), if_neg (by simp [none])]

theorem wordsFrom_small (small : ∀ c ∈ s, IsSmall c) :
    wordsFrom current before (s ++ rest) =
      wordsFrom (s.reverse ++ current) (s.getLastD before) rest := by
  induction s generalizing current before with
  | nil => rfl
  | cons c s ih =>
    obtain ⟨first, others⟩ := List.forall_mem_cons.1 small
    have inside : startsWord before c (s ++ rest) = false := by simp [startsWord, first.isUpper]
    rw [List.cons_append, wordsFrom_inside first.2.2 (.inr inside), first.lowerChar, ih others,
      List.getLastD_cons]
    simp

theorem wordsFrom_capitals (letters : ∀ c ∈ s, IsSmall c ∧ c.isAlpha = true)
    (inside : current = [] ∨ Text.isLower before = false ∧ before.isDigit = false)
    (after : rest.head?.any Text.isLower = false) :
    ∃ last, wordsFrom current before (s.map Char.toUpper ++ rest) =
      wordsFrom (s.reverse ++ current) last rest := by
  induction s generalizing current before with
  | nil => exact ⟨before, rfl⟩
  | cons c s ih =>
    obtain ⟨⟨small, letter⟩, others⟩ := List.forall_mem_cons.1 letters
    have capital := small.isCapital_toUpper letter
    have next : (s.map Char.toUpper ++ rest).head?.any Text.isLower = false := by
      cases s with
      | nil => exact after
      | cons d s =>
        obtain ⟨small, letter⟩ := others d List.mem_cons_self
        exact (small.isCapital_toUpper letter).isLower
    have goesOn : current = [] ∨ startsWord before c.toUpper (s.map Char.toUpper ++ rest) = false :=
      inside.imp id fun ⟨lower, digit⟩ => by rw [startsWord, lower, digit, next]; simp
    obtain ⟨last, reads⟩ : ∃ last,
        wordsFrom ([c] ++ current) c.toUpper (s.map Char.toUpper ++ rest) =
          wordsFrom (s.reverse ++ ([c] ++ current)) last rest :=
      ih others (.inr ⟨capital.isLower, capital.isDigit⟩)
    refine ⟨last, ?_⟩
    rw [List.map_cons, List.cons_append, wordsFrom_inside capital.inWord goesOn, capital.lowerChar,
      List.reverse_singleton, reads]
    simp

theorem isSmallWord_reverse (small : ∀ c ∈ current, IsSmall c) (some : current ≠ []) :
    IsSmallWord current.reverse :=
  ⟨by simpa using some, fun c mem => small c (List.mem_reverse.1 mem)⟩

theorem isSmallWord_of_mem_wordsFrom (ascii : IsAscii s) (small : ∀ c ∈ current, IsSmall c)
    {w : List Char} (mem : w ∈ wordsFrom current before s) : IsSmallWord w := by
  induction s generalizing current before with
  | nil =>
    rw [wordsFrom] at mem
    split at mem
    case isTrue => cases mem
    case isFalse some =>
      rw [List.mem_singleton.1 mem]
      exact isSmallWord_reverse small (by simpa using some)
  | cons c s ih =>
    obtain ⟨first, others⟩ := List.forall_mem_cons.1 ascii
    have lowered (inWord : ¬isSeparator c = true) :
        ∀ d ∈ (Text.lowerChar c).reverse, IsSmall d := by
      rw [lowerChar_of_ascii first, List.reverse_singleton, List.forall_mem_singleton]
      exact isSmall_toLower first (Bool.eq_false_iff.2 inWord)
    rw [wordsFrom] at mem
    split at mem
    case isTrue =>
      split at mem
      case isTrue => exact ih others (List.forall_mem_nil _) mem
      case isFalse some =>
        rcases List.mem_cons.1 mem with rfl | mem
        · exact isSmallWord_reverse small (by simpa using some)
        · exact ih others (List.forall_mem_nil _) mem
    case isFalse inWord =>
      split at mem
      case isTrue starts =>
        rcases List.mem_cons.1 mem with rfl | mem
        · exact isSmallWord_reverse small (by simpa using (Bool.and_eq_true_iff.1 starts).1)
        · exact ih others (lowered inWord) mem
      case isFalse =>
        refine ih others (fun d isD => ?_) mem
        exact (List.mem_append.1 isD).elim (lowered inWord d) (small d)

end Reading

section Joined

variable {sep : Char} {ws : List (List Char)}

/-- The characters stand for a word between separators. -/
structure Spells (chars word : List Char) : Prop where
  last : ∀ before, wordsFrom [] before chars = [word]
  inner : ∀ before sep rest, isSeparator sep = true →
    wordsFrom [] before (chars ++ sep :: rest) = word :: wordsFrom [] sep rest

/-- Characters stand for a word that is read from them whatever comes next, as long as this is no
small letter. -/
theorem Spells.of_reads {chars word : List Char} (some : word ≠ [])
    (reads : ∀ before rest, rest.head?.any Text.isLower = false →
      ∃ last, wordsFrom [] before (chars ++ rest) = wordsFrom word.reverse last rest) :
    Spells chars word where
  last before := by
    obtain ⟨last, read⟩ := reads before [] rfl
    rw [List.append_nil] at read
    rw [read, wordsFrom_nil (by simpa using some), List.reverse_reverse]
  inner before sep rest isSep := by
    obtain ⟨last, read⟩ := reads before (sep :: rest) (isLower_of_isSeparator isSep)
    rw [read, wordsFrom_separator isSep (by simpa using some), List.reverse_reverse]

theorem IsSmallWord.spells {w : List Char} (small : IsSmallWord w) : Spells w w :=
  .of_reads small.1 fun before rest _ =>
    ⟨_, (wordsFrom_small small.2).trans (by rw [List.append_nil])⟩

theorem words_joinWords (isSep : isSeparator sep = true) {spell : List Char → List Char}
    (spells : ∀ w ∈ ws, Spells (spell w) w) : words (joinWords sep (ws.map spell)) = ws := by
  have through : ∀ before, wordsFrom [] before (joinWords sep (ws.map spell)) = ws := by
    induction ws with
    | nil => exact fun _ => rfl
    | cons w rest ih =>
      intro before
      obtain ⟨first, others⟩ := List.forall_mem_cons.1 spells
      cases rest with
      | nil =>
        rw [List.map_singleton, joinWords, List.intercalate_singleton]
        exact first.last before
      | cons w' rest =>
        rw [joinWords, List.map_cons, List.map_cons, List.intercalate_cons_cons, List.append_assoc,
          List.singleton_append, first.inner before sep _ isSep]
        exact congrArg (w :: ·) (ih others sep)
  exact through ' '

end Joined

section Capitals

def Closes (c : Char) : Prop := Text.isLower c = true ∨ c.isDigit = true

variable {w : List Char} {ws : List (List Char)} {current : List Char} {before : Char}

theorem startsWord_of_closes {capital letter : Char} (isCapital : IsCapital capital letter)
    (closes : Closes before) (rest : List Char) : startsWord before capital rest = true := by
  rcases closes with lower | digit
  · simp [startsWord, isCapital.isUpper, lower]
  · simp [startsWord, isCapital.isUpper, digit]

namespace IsWord

variable (isWord : IsWord w) (small : IsSmallWord w)
include isWord small

theorem closes_of_mem {c : Char} (mem : c ∈ w) : Closes c := by
  obtain ⟨letters, digits, rfl, -, alpha, number⟩ := isWord.parts
  rcases List.mem_append.1 mem with isLetter | isDigit
  · exact .inl ((small.2 c mem).isLower (alpha c isLetter))
  · exact .inr (number c isDigit)

theorem spells_uppercase : Spells (Text.uppercase w) w := by
  obtain ⟨letters, digits, rfl, -, alpha, number⟩ := isWord.parts
  have isLetter : ∀ c ∈ letters, IsSmall c ∧ c.isAlpha = true := fun c mem =>
    ⟨small.2 c (List.mem_append_left _ mem), alpha c mem⟩
  have capitals : ∀ c ∈ letters, Text.upperChar c = [c.toUpper] := fun c mem =>
    ((isLetter c mem).1.isCapital_toUpper (isLetter c mem).2).upperChar
  have spelled : Text.uppercase (letters ++ digits) = letters.map Char.toUpper ++ digits := by
    rw [Text.uppercase, List.flatMap_append, List.flatMap_congr capitals,
      List.flatMap_congr fun c mem => upperChar_of_isDigit (number c mem),
      List.flatMap_singleton', ← List.map_eq_flatMap]
  refine .of_reads small.1 fun before rest after => ?_
  have next : (digits ++ rest).head?.any Text.isLower = false := by
    cases digits with
    | nil => exact after
    | cons d digits => exact isLower_of_isDigit (number d List.mem_cons_self)
  obtain ⟨last, reads⟩ : ∃ last,
      wordsFrom [] before (letters.map Char.toUpper ++ (digits ++ rest)) =
        wordsFrom (letters.reverse ++ []) last (digits ++ rest) :=
    wordsFrom_capitals isLetter (.inl rfl) next
  refine ⟨digits.getLastD last, ?_⟩
  rw [spelled, List.append_assoc, reads,
    wordsFrom_small fun d mem => isSmall_of_isDigit (number d mem)]
  simp

/-- A word with a capital goes on after it, so that another one may follow. -/
theorem exists_capitalize : ∃ letter capital tail, w = letter :: tail ∧
    capitalize w = capital :: tail ∧ IsCapital capital letter ∧
    ∃ last, Closes last ∧ ∀ rest,
      wordsFrom [letter] capital (tail ++ rest) = wordsFrom w.reverse last rest := by
  obtain ⟨letters, digits, isParts, some, alpha, -⟩ := isWord.parts
  obtain ⟨c, letters, rfl⟩ := List.exists_cons_of_ne_nil some
  have first : IsSmall c := small.2 c (by simp [isParts])
  have isCapital := first.isCapital_toUpper (alpha c List.mem_cons_self)
  cases isTail : letters ++ digits with
  | nil =>
    have two := isWord.two
    rw [isParts, List.cons_append, isTail] at two
    exact absurd two (by simp)
  | cons d tail =>
    rw [List.cons_append, isTail] at isParts
    have inTail : ∀ e ∈ d :: tail, e ∈ w := fun e mem => isParts ▸ List.mem_cons_of_mem c mem
    refine ⟨c, c.toUpper, d :: tail, isParts, ?_, isCapital, tail.getLastD d, ?_, fun rest => ?_⟩
    · rw [isParts, capitalize, isCapital.upperChar]
      rfl
    · exact isWord.closes_of_mem small (inTail _ List.getLastD_mem_cons)
    · rw [wordsFrom_small fun e mem => small.2 e (inTail e mem), List.getLastD_cons, isParts]
      simp

end IsWord

theorem wordsFrom_capitalized (isWords : ∀ w ∈ ws, IsWord w ∧ IsSmallWord w)
    (some : current ≠ []) (closes : Closes before) :
    wordsFrom current before (ws.map capitalize).flatten = current.reverse :: ws := by
  induction ws generalizing current before with
  | nil => exact wordsFrom_nil some
  | cons w ws ih =>
    obtain ⟨⟨isWord, small⟩, others⟩ := List.forall_mem_cons.1 isWords
    obtain ⟨letter, capital, tail, isW, spelled, isCapital, last, closed, reads⟩ :=
      isWord.exists_capitalize small
    rw [List.map_cons, List.flatten_cons, spelled, List.cons_append,
      wordsFrom_start isCapital.inWord some (startsWord_of_closes isCapital closes _),
      isCapital.lowerChar, List.reverse_singleton, reads, ih others (by simpa using small.1) closed,
      List.reverse_reverse]

theorem words_pascal (isWords : ∀ w ∈ ws, IsWord w ∧ IsSmallWord w) :
    words (ws.map capitalize).flatten = ws := by
  cases ws with
  | nil => rfl
  | cons w ws =>
    obtain ⟨⟨isWord, small⟩, others⟩ := List.forall_mem_cons.1 isWords
    obtain ⟨letter, capital, tail, isW, spelled, isCapital, last, closed, reads⟩ :=
      isWord.exists_capitalize small
    rw [words, List.map_cons, List.flatten_cons, spelled, List.cons_append,
      wordsFrom_inside isCapital.inWord (.inl rfl), isCapital.lowerChar, List.append_nil,
      List.reverse_singleton, reads, wordsFrom_capitalized others (by simpa using small.1) closed,
      List.reverse_reverse]

theorem words_camel (isWord : IsWord w) (small : IsSmallWord w)
    (isWords : ∀ w ∈ ws, IsWord w ∧ IsSmallWord w) :
    words (w ++ (ws.map capitalize).flatten) = w :: ws := by
  have closes : Closes (w.getLastD ' ') := by
    obtain ⟨c, tail, rfl⟩ := List.exists_cons_of_ne_nil small.1
    rw [List.getLastD_cons]
    exact isWord.closes_of_mem small List.getLastD_mem_cons
  rw [words, wordsFrom_small small.2, List.append_nil,
    wordsFrom_capitalized isWords (by simpa using small.1) closes, List.reverse_reverse]

end Capitals

section Casings

variable {name : List Char} {c d : Casing}

theorem isSmallWord_of_mem_words (ascii : IsAscii name) {w : List Char} (mem : w ∈ words name) :
    IsSmallWord w :=
  isSmallWord_of_mem_wordsFrom ascii (List.forall_mem_nil _) mem

theorem words_separated (ascii : IsAscii name) {sep : Char} (isSep : isSeparator sep = true) :
    words (joinWords sep (words name)) = words name := by
  have spells : ∀ w ∈ words name, Spells (id w) w := fun _ mem =>
    (isSmallWord_of_mem_words ascii mem).spells
  have read := words_joinWords isSep spells
  rwa [List.map_id] at read

theorem words_applyChars (ascii : IsAscii name) (isWords : ∀ w ∈ words name, IsWord w)
    (style : c ∈ styles) : words (c.applyChars name) = words name := by
  have both : ∀ w ∈ words name, IsWord w ∧ IsSmallWord w := fun w mem =>
    ⟨isWords w mem, isSmallWord_of_mem_words ascii mem⟩
  cases c with
  | preserve | caseInsensitive => simp [styles] at style
  | snake | kebab => exact words_separated ascii rfl
  | screamingSnake =>
    exact words_joinWords rfl fun w mem => (both w mem).1.spells_uppercase (both w mem).2
  | pascal => exact words_pascal both
  | camel =>
    rw [applyChars]
    cases isName : words name with
    | nil => rfl
    | cons w ws =>
      rw [isName] at both
      obtain ⟨⟨isWord, small⟩, others⟩ := List.forall_mem_cons.1 both
      exact words_camel isWord small others

theorem applyChars_congr {s s' : List Char} (style : d ∈ styles) (same : words s = words s') :
    d.applyChars s = d.applyChars s' := by
  cases d with
  | preserve | caseInsensitive => simp [styles] at style
  | snake | kebab | screamingSnake | pascal | camel => simp only [applyChars, same]

theorem apply_apply {field : String} (style : d ∈ styles)
    (same : words (c.applyChars field.toList) = words field.toList) :
    d.apply (c.apply field) = d.apply field := by
  rw [apply, apply, apply, String.toList_ofList, applyChars_congr style same]

/-- To put a key in another casing is to put the name itself in it: in any casing, if the words of
the name have two characters or more, and digits only at their ends, and for all names in those
casings that put separators between words in small letters. -/
theorem recasing_keeps_words :
    (∀ field : String, IsAscii field.toList → (∀ w ∈ words field.toList, IsWord w) →
      ∀ c ∈ styles, ∀ d ∈ styles, d.apply (c.apply field) = d.apply field) ∧
    ∀ field : String, IsAscii field.toList → ∀ c ∈ [snake, kebab], ∀ d ∈ [snake, kebab],
      d.apply (c.apply field) = d.apply field := by
  constructor
  · intro field ascii isWords c isC d isD
    exact apply_apply isD (words_applyChars ascii isWords isC)
  · intro field ascii c isC d isD
    have isStyle : d ∈ styles := by
      revert isD d
      decide
    refine apply_apply isStyle ?_
    simp only [List.mem_cons, List.not_mem_nil, or_false] at isC
    rcases isC with rfl | rfl <;> exact words_separated ascii rfl

theorem recasing_keeps_words_server :
    kebab.apply (pascal.apply "HTTPServer2_createdAt") = "http-server2-created-at" ∧
      snake.apply (kebab.apply ".B  c7D") = ".b_c7_d" := by
  have isWord : ∀ w ∈ words "HTTPServer2_createdAt".toList, IsWord w := by
    have split : words "HTTPServer2_createdAt".toList =
        ["http".toList, "server2".toList, "created".toList, "at".toList] := by decide
    rw [split]
    intro w mem
    have shape : w.takeWhile Char.isAlpha ≠ [] ∧
        (w.dropWhile Char.isAlpha).all Char.isDigit = true ∧ 2 ≤ w.length := by
      revert w
      decide
    obtain ⟨letters, digits, two⟩ := shape
    exact ⟨⟨_, _, List.takeWhile_append_dropWhile.symm, letters,
      List.all_eq_true.1 List.all_takeWhile, List.all_eq_true.1 digits⟩, two⟩
  obtain ⟨regular, separated⟩ := recasing_keeps_words
  exact ⟨(regular _ (by decide) isWord pascal (by decide) kebab (by decide)).trans (by decide),
    (separated ".B  c7D" (by decide) kebab (by decide) snake (by decide)).trans (by decide)⟩

end Casings
end RecordCodec.Casing
