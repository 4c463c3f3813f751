import Mathlib.Data.List.Forall2
import RecordCodec.Proofs.NumberTexts
import RecordCodec.Proofs.Tokens
import RecordCodec.TypeExpr.Printer

set_option autoImplicit false

/-!
# The tokens of a printed type

A name or a number goes on as long as it can, so a text is split with what follows it in view. The
text of a type ends at a comma or a bracket, and there the tokens of the type end too.
-/
namespace RecordCodec.TypeExpr

/-- The text is split into these tokens, with blanks between them. -/
inductive Lexes : List Char → List Token → Prop where
  | done : Lexes [] []
  | space {c : Char} {rest : List Char} {tokens : List Token} : Json.isSpace c = true →
    Lexes rest tokens → Lexes (c :: rest) tokens
  | token {c : Char} (written : List Char) {rest : List Char} {token : Token} {size : Nat}
    {tokens : List Token} : Json.isSpace c = false →
    nextToken (c :: (written ++ rest)) = .ok (token, size, rest) → Lexes rest tokens →
    Lexes (c :: (written ++ rest)) (token :: tokens)

/-- Every token takes up a character, so the length of the text is fuel enough. -/
theorem Lexes.lexFrom {s : List Char} {tokens : List Token} (h : Lexes s tokens) {fuel : Nat}
    (enough : s.length ≤ fuel) (offset : Nat) :
    ∃ lexemes, lexFrom fuel offset s = some (.ok lexemes) ∧ lexemes.map Lexeme.token = tokens := by
  induction h generalizing fuel offset with
  | done => exact ⟨[], by unfold TypeExpr.lexFrom; rfl, rfl⟩
  | space isSpace _ ih =>
    obtain ⟨fuel, rfl⟩ := Nat.exists_eq_succ_of_ne_zero (Nat.ne_zero_of_lt enough)
    obtain ⟨lexemes, lexed, same⟩ := ih (Nat.le_of_succ_le_succ enough) (offset + 1)
    exact ⟨lexemes, by rw [lexFrom_of_isSpace isSpace, lexed], same⟩
  | @token c written rest token size tokens noSpace next _ ih =>
    obtain ⟨fuel, rfl⟩ := Nat.exists_eq_succ_of_ne_zero (Nat.ne_zero_of_lt enough)
    have shorter : rest.length ≤ fuel := by
      rw [List.length_cons, List.length_append] at enough
      omega
    obtain ⟨lexemes, lexed, same⟩ := ih shorter (offset + size)
    refine ⟨⟨token, offset⟩ :: lexemes, ?_, by rw [List.map_cons, same]⟩
    rw [lexFrom_of_token noSpace next, lexed]
    rfl

theorem Lexes.lex {text : String} {tokens : List Token} (h : Lexes text.toList tokens) :
    ∃ lexemes, lex text = some (.ok lexemes) ∧ lexemes.map Lexeme.token = tokens :=
  h.lexFrom le_rfl 0

/-- Nothing that a name or a number would take up. -/
def Ends (rest : List Char) : Prop := ∀ c ∈ rest.head?, c ∈ [',', ']', '[']

/-- The text is split into these tokens wherever it may stand. -/
def LexesAs (text : List Char) (tokens : List Token) : Prop :=
  ∀ rest more, Ends rest → Lexes rest more → Lexes (text ++ rest) (tokens ++ more)

section Names

/-- The text is read as a single name: it starts with a letter or an underscore and has no ellipsis
in it. -/
structure Nameable (name : String) : Prop where
  starts : name.toList.head?.any startsName = true
  chars : ∀ c ∈ name.toList, isNameChar c = true
  dots : ¬['.', '.', '.'] <:+: name.toList

instance (name : String) : Decidable (Nameable name) :=
  decidable_of_iff (name.toList.head?.any startsName = true ∧
      name.toList.all isNameChar = true ∧ ¬['.', '.', '.'] <:+: name.toList)
    ⟨fun h => ⟨h.1, List.all_eq_true.1 h.2.1, h.2.2⟩,
      fun h => ⟨h.starts, List.all_eq_true.2 h.chars, h.dots⟩⟩

theorem nameChars_append {s rest : List Char} (chars : ∀ c ∈ s, isNameChar c = true)
    (dots : ¬['.', '.', '.'] <:+: s) (ends : Ends rest) : nameChars (s ++ rest) = (s, rest) := by
  induction s with
  | nil =>
    cases rest with
    | nil => rfl
    | cons c rest =>
      have stop := ends c rfl
      simp only [List.mem_cons, List.not_mem_nil, or_false] at stop
      rcases stop with rfl | rfl | rfl <;> rfl
  | cons c s ih =>
    have later := ih (fun d mem => chars d (List.mem_cons_of_mem _ mem))
      fun h => dots (h.trans (List.suffix_cons c s).isInfix)
    have noEllipsis : ∀ more, c = '.' → s ++ rest = '.' :: '.' :: more → False := by
      rintro more rfl eq
      have stop : ∀ d ∈ rest.head?, d ≠ '.' := by
        rintro d head rfl
        exact absurd (ends _ head) (by decide)
      rcases s with _ | ⟨d, _ | ⟨e, s⟩⟩
      · have eq : rest = '.' :: '.' :: more := eq
        exact stop '.' (by rw [eq]; rfl) rfl
      · obtain ⟨-, tail⟩ := List.cons.inj eq
        have tail : rest = '.' :: more := tail
        exact stop '.' (by rw [tail]; rfl) rfl
      · obtain ⟨rfl, tail⟩ := List.cons.inj eq
        obtain ⟨rfl, -⟩ := List.cons.inj tail
        exact dots (List.prefix_append ['.', '.', '.'] s).isInfix
    have char := chars c List.mem_cons_self
    rw [List.cons_append, nameChars]
    · rw [later]
      exact if_pos char
    · exact noEllipsis

theorem isAlpha_iff {c : Char} :
    c.isAlpha = true ↔ (65 ≤ c.toNat ∧ c.toNat ≤ 90) ∨ (97 ≤ c.toNat ∧ c.toNat ≤ 122) := by
  delta Char.isAlpha Char.isUpper Char.isLower
  simp only [Bool.or_eq_true, Bool.and_eq_true, decide_eq_true_eq]
  exact Iff.rfl

theorem isDigit_of_startsName {c : Char} (starts : startsName c = true) : c.isDigit = false := by
  by_contra digit
  simp only [Char.isDigit, Bool.and_eq_true, decide_eq_true_eq, Bool.not_eq_false, ge_iff_le,
    UInt32.le_iff_toNat_le] at digit
  have small : c.toNat < 0x80 := lt_of_le_of_lt digit.2 (by decide)
  unfold startsName at starts
  rw [if_pos small, Bool.or_eq_true, beq_iff_eq, isAlpha_iff] at starts
  have nine : c.toNat ≤ 57 := digit.2
  rcases starts with letter | rfl
  · omega
  · exact absurd nine (by decide)

theorem nextToken_name {name : String} (nameable : Nameable name) {rest : List Char}
    (ends : Ends rest) :
    ∃ c written size, name.toList = c :: written ∧ Json.isSpace c = false ∧
      nextToken (c :: (written ++ rest)) = .ok (.ident name, size, rest) := by
  obtain ⟨starts, chars, dots⟩ := nameable
  cases split : name.toList with
  | nil => rw [split] at starts; cases starts
  | cons c written =>
    rw [split] at starts chars dots
    have starts : startsName c = true := starts
    have read := nameChars_append chars dots ends
    refine ⟨c, written, bytes (c :: written), rfl, ?_, ?_⟩
    · by_contra space
      simp only [Json.isSpace, Bool.not_eq_false, Bool.or_eq_true, beq_iff_eq] at space
      rcases space with ((rfl | rfl) | rfl) | rfl <;> cases starts
    · unfold nextToken
      split
      case h_8 eq =>
        cases eq
        have quote : ¬(c = '\x27' ∨ c = '"') := by
          rintro (rfl | rfl) <;> cases starts
        have number : ¬(c = '-' ∨ c.isDigit = true) := by
          rintro (rfl | digit)
          · cases starts
          · rw [isDigit_of_startsName starts] at digit
            cases digit
        rw [if_neg quote, if_neg number, if_pos starts, ← List.cons_append, read, ← split]
        simp only [String.ofList_toList]
      case h_9 eq => cases eq
      all_goals
        rename_i eq
        obtain ⟨rfl, -⟩ := List.cons.inj eq
        cases starts

theorem lexesAs_name {name : String} (nameable : Nameable name) :
    LexesAs name.toList [.ident name] := by
  intro rest more ends lexes
  obtain ⟨c, written, size, split, noSpace, next⟩ := nextToken_name nameable ends
  rw [split]
  exact .token _ noSpace next lexes

theorem nameable_primitive (p : Primitive) : Nameable p.name := by
  cases p <;> decide

end Names

section Literals

theorem stringChars_escaped (s rest : List Char) :
    ∃ size,
      stringChars '\x27' (s.flatMap escapeQuote ++ '\x27' :: rest) = some (s, size, rest) := by
  induction s with
  | nil => exact ⟨1, by simp [stringChars]⟩
  | cons c s ih =>
    obtain ⟨size, read⟩ := ih
    rw [List.flatMap_cons, List.append_assoc]
    by_cases backslash : c = '\\'
    case pos =>
      subst backslash
      exact ⟨_, by rw [show escapeQuote '\\' = ['\\', '\\'] by rfl, List.cons_append,
        List.singleton_append, stringChars, read]; rfl⟩
    case neg =>
      by_cases quote : c = '\x27'
      case pos =>
        subst quote
        exact ⟨_, by rw [show escapeQuote '\x27' = ['\\', '\x27'] by rfl, List.cons_append,
          List.singleton_append, stringChars, read]; rfl⟩
      case neg =>
        have plain : escapeQuote c = [c] := by rw [escapeQuote, if_neg backslash, if_neg quote]
        refine ⟨c.utf8Size + size, ?_⟩
        rw [plain, List.singleton_append, stringChars]
        · rw [if_neg quote, read]
          rfl
        · exact fun eq _ => backslash eq
        · exact fun _ _ eq _ => backslash eq

def literalToken : Json → Token
  | .null => .ident "None"
  | .bool true => .ident "True"
  | .bool false => .ident "False"
  | .number n => .num n
  | .string s => .str s
  | _ => .ellipsis

theorem lexesAs_string (s : String) :
    LexesAs (literalText (.string s)).toList [.str s] := by
  intro rest more _ lexes
  obtain ⟨size, read⟩ := stringChars_escaped s.toList rest
  have next : nextToken ('\x27' :: ((s.toList.flatMap escapeQuote ++ ['\x27']) ++ rest)) =
      .ok (.str s, size + 1, rest) := by
    rw [List.append_assoc, List.singleton_append, nextToken]
    · simp only [true_or, if_true, read, String.ofList_toList]
    all_goals simp
  rw [literalText, String.toList_ofList]
  exact .token _ (by decide) next lexes

theorem lexesAs_number {n : Json.Number} (isLiteral : (Json.number n).IsLiteral) :
    LexesAs (Json.numberText n).toList [.num n] := by
  intro rest more ends lexes
  obtain ⟨⟨c, written, text, first⟩, chars⟩ := isNumeral_numberText n
  have read := numberToken?_numberText isLiteral
  rw [text] at read chars ⊢
  have writtenChars : ∀ d ∈ written, isNumberChar d = true :=
    fun d mem => (chars d (List.mem_cons_of_mem _ mem)).1
  have stop : rest.takeWhile isNumberChar = [] ∧ rest.dropWhile isNumberChar = rest := by
    cases rest with
    | nil => exact ⟨rfl, rfl⟩
    | cons d rest =>
      have stop := ends d rfl
      simp only [List.mem_cons, List.not_mem_nil, or_false] at stop
      rcases stop with rfl | rfl | rfl <;> exact ⟨rfl, rfl⟩
  have noSpace : Json.isSpace c = false := by
    rcases first with rfl | digit
    · rfl
    · by_contra space
      simp only [Json.isSpace, Bool.not_eq_false, Bool.or_eq_true, beq_iff_eq] at space
      rcases space with ((rfl | rfl) | rfl) | rfl <;> cases digit
  have next : nextToken (c :: (written ++ rest)) =
      .ok (.num n, (c :: written).length, rest) := by
    have taken : (written ++ rest).takeWhile isNumberChar = written := by
      rw [List.takeWhile_append_of_pos writtenChars, stop.1, List.append_nil]
    have left : (written ++ rest).dropWhile isNumberChar = rest := by
      rw [List.dropWhile_append_of_pos writtenChars, stop.2]
    have whole : (c :: written).filter (· != '_') = c :: written :=
      List.filter_eq_self.2 fun d mem => by simp [(chars d mem).2]
    have quote : ¬(c = '\x27' ∨ c = '"') := by
      rintro (rfl | rfl) <;> simp [Char.isDigit] at first
    unfold nextToken
    split
    case h_8 eq =>
      cases eq
      rw [if_neg quote, if_pos first]
      simp only [taken, left, whole, read]
    case h_9 eq => cases eq
    all_goals
      rename_i eq
      obtain ⟨rfl, -⟩ := List.cons.inj eq
      simp [Char.isDigit] at first
  exact .token _ noSpace next lexes

end Literals

section Parts

theorem lexesAs_mark {c : Char} {token : Token} (noSpace : Json.isSpace c = false)
    (next : ∀ rest, nextToken (c :: rest) = .ok (token, 1, rest)) {rest : List Char}
    {tokens : List Token} (lexes : Lexes rest tokens) : Lexes (c :: rest) (token :: tokens) :=
  .token [] noSpace (next rest) lexes

theorem lexesAs_literal {v : Json} (isLiteral : v.IsLiteral) :
    LexesAs (literalText v).toList [literalToken v] := by
  cases v with
  | null => exact lexesAs_name (by decide)
  | bool b => cases b <;> exact lexesAs_name (by decide)
  | number n => exact lexesAs_number isLiteral
  | string s => exact lexesAs_string s
  | array => cases isLiteral
  | object => cases isLiteral

theorem lexesAs_ellipsis : LexesAs "...".toList [.ellipsis] := by
  intro rest more _ lexes
  exact .token ['.', '.'] (by decide) rfl lexes

theorem lexesAs_parens : LexesAs "()".toList [.openParen, .closeParen] := by
  intro rest more _ lexes
  exact lexesAs_mark rfl (fun _ => rfl) (lexesAs_mark rfl (fun _ => rfl) lexes)

def bracketed (head : String) (parts : List (List Token)) : List Token :=
  .ident head :: .openBracket :: ([.comma].intercalate parts ++ [.closeBracket])

theorem lexesAs_separated {texts : List String} {parts : List (List Token)}
    (each : List.Forall₂ (fun text part => LexesAs text.toList part) texts parts) :
    LexesAs (String.intercalate ", " texts).toList ([.comma].intercalate parts) := by
  rw [String.toList_intercalate]
  induction each with
  | nil => exact fun rest more _ lexes => lexes
  | @cons text part texts parts first others ih =>
    cases others with
    | nil =>
      rw [List.map_singleton, List.intercalate_singleton, List.intercalate_singleton]
      exact first
    | cons =>
      intro rest more ends lexes
      rw [List.map_cons, List.map_cons, List.intercalate_cons_cons, List.intercalate_cons_cons,
        List.append_assoc, List.append_assoc, List.append_assoc, List.append_assoc]
      refine first _ _ (by rintro _ ⟨⟩; decide) ?_
      exact lexesAs_mark rfl (fun _ => rfl) (.space rfl (ih rest more ends lexes))

theorem lexesAs_generic {head : String} (nameable : Nameable head) {texts : List String}
    {parts : List (List Token)}
    (each : List.Forall₂ (fun text part => LexesAs text.toList part) texts parts) :
    LexesAs (generic head texts).toList (bracketed head parts) := by
  intro rest more ends lexes
  have close : Lexes (']' :: rest) (.closeBracket :: more) := lexesAs_mark rfl (fun _ => rfl) lexes
  have inner := lexesAs_separated each (']' :: rest) (.closeBracket :: more)
    (by rintro _ ⟨⟩; decide) close
  have opened := lexesAs_mark (c := '[') rfl (fun _ => rfl) inner
  have whole := lexesAs_name nameable _ _ (by rintro _ ⟨⟩; decide) opened
  simpa [generic, bracketed] using whole

end Parts

mutual
def tokens : TypeExpr → List Token
  | ⟨shape, args, literals⟩ =>
    match shape with
    | .primitive p => [.ident p.name]
    | .enumeration name | .record _ name | .custom name | .named name => [.ident name]
    | .optional => bracketed "Optional" (tokensOfAll args)
    | .union => bracketed "Union" (tokensOfAll args)
    | .sequence => bracketed "list" (tokensOfAll args)
    | .set => bracketed "set" (tokensOfAll args)
    | .mapping => bracketed "dict" (tokensOfAll args)
    | .defaultMapping => bracketed "defaultdict" (tokensOfAll args)
    | .fixedTuple =>
      bracketed "tuple" (if args.isEmpty then [[.openParen, .closeParen]] else tokensOfAll args)
    | .variadicTuple => bracketed "tuple" [(tokensOfAll args).headD [.ident "Any"], [.ellipsis]]
    | .literal => bracketed "Literal" (literals.map fun v => [literalToken v])
def tokensOfAll : List TypeExpr → List (List Token)
  | [] => []
  | ty :: rest => tokens ty :: tokensOfAll rest
end

/-- The names in the type can be read back, and its literals are values that a literal type can
list. -/
inductive Printable : TypeExpr → Prop where
  | mk {ty : TypeExpr} : (∀ name, ty.shape.declaredName? = some name → Nameable name) →
    (∀ v ∈ ty.literals, v.IsLiteral) → (∀ arg ∈ ty.args, Printable arg) → Printable ty

theorem forall₂_texts {args : List TypeExpr}
    (each : ∀ arg ∈ args, LexesAs arg.text.toList arg.tokens) :
    List.Forall₂ (fun text part => LexesAs text.toList part) (texts args) (tokensOfAll args) := by
  induction args with
  | nil => exact .nil
  | cons arg args ih =>
    exact .cons (each arg List.mem_cons_self) (ih fun a mem => each a (List.mem_cons_of_mem _ mem))

theorem Printable.lexesAs {ty : TypeExpr} (h : Printable ty) :
    LexesAs ty.text.toList ty.tokens := by
  induction h with
  | @mk ty names literals _ ih =>
    obtain ⟨shape, args, values⟩ := ty
    have each := forall₂_texts ih
    unfold text tokens
    cases shape with
    | primitive p => exact lexesAs_name (nameable_primitive p)
    | enumeration name => exact lexesAs_name (names name rfl)
    | record kind name => exact lexesAs_name (names name rfl)
    | custom name => exact lexesAs_name (names name rfl)
    | named name => exact lexesAs_name (names name rfl)
    | optional => exact lexesAs_generic (by decide) each
    | union => exact lexesAs_generic (by decide) each
    | sequence => exact lexesAs_generic (by decide) each
    | set => exact lexesAs_generic (by decide) each
    | mapping => exact lexesAs_generic (by decide) each
    | defaultMapping => exact lexesAs_generic (by decide) each
    | fixedTuple =>
      cases args with
      | nil =>
        have written : "tuple[()]" = generic "tuple" ["()"] := by decide
        rw [if_pos (by rfl), if_pos (by rfl), written]
        exact lexesAs_generic (by decide) (.cons lexesAs_parens .nil)
      | cons => exact lexesAs_generic (by decide) each
    | variadicTuple =>
      have item : LexesAs ((texts args).headD "Any").toList
          ((tokensOfAll args).headD [.ident "Any"]) := by
        cases args with
        | nil => exact lexesAs_name (nameable_primitive .any)
        | cons first => exact ih first List.mem_cons_self
      exact lexesAs_generic (by decide) (.cons item (.cons lexesAs_ellipsis .nil))
    | literal =>
      refine lexesAs_generic (by decide) (List.forall₂_map_left_iff.2
        (List.forall₂_map_right_iff.2 (List.forall₂_same.2 fun v mem => ?_)))
      exact lexesAs_literal (literals v mem)

theorem Printable.lex {ty : TypeExpr} (h : Printable ty) :
    ∃ lexemes, lex ty.text = some (.ok lexemes) ∧ lexemes.map Lexeme.token = ty.tokens := by
  have lexes := h.lexesAs [] [] (by rintro _ ⟨⟩) .done
  rw [List.append_nil, List.append_nil] at lexes
  exact lexes.lex

end RecordCodec.TypeExpr
