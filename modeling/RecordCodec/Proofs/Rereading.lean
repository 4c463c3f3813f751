import RecordCodec.Proofs.Lexing
import RecordCodec.TypeExpr.Parser

set_option autoImplicit false

/-!
# Reading a printed type

A type is canonical if it is one that an expression can stand for: no union lies directly in a
union, its arms are distinct, and null is an arm of none but makes the whole optional. Reading the
text of a canonical type gives the type again.
-/
namespace RecordCodec.TypeExpr

/-- The type can be written as an expression, and no expression of it would be normalised. -/
inductive Canonical : TypeExpr → Prop where
  | primitive (p : Primitive) : Canonical (.primitive p)
  | named {name : String} : Nameable name → headOf name = .plain →
    Primitive.ofName? name = none → Canonical (.named name)
  | optional {inner : TypeExpr} : Canonical inner → inner.isNull = false →
    inner.shape ≠ .optional → Canonical (.optional inner)
  | union {arms : List TypeExpr} : 2 ≤ arms.length → arms.Pairwise (fun a b => same a b = false) →
    (∀ arm ∈ arms, Canonical arm) →
    (∀ arm ∈ arms, arm.isNull = false ∧ arm.shape ≠ .optional ∧ arm.shape ≠ .union) →
    Canonical (.union arms)
  | sequence {item : TypeExpr} : Canonical item → Canonical (.sequence item)
  | set {item : TypeExpr} : Canonical item → Canonical (.apply .set [item])
  | mapping {key value : TypeExpr} : Canonical key → Canonical value →
    Canonical (.apply .mapping [key, value])
  | defaultMapping {key value : TypeExpr} : Canonical key → Canonical value →
    Canonical (.apply .defaultMapping [key, value])
  | tuple {items : List TypeExpr} : (∀ item ∈ items, Canonical item) → Canonical (.tuple items)
  | variadic {item : TypeExpr} : Canonical item → Canonical (.variadic item)
  | literal {values : List Json} : values ≠ [] → (∀ v ∈ values, v.IsLiteral) →
    Canonical (.literal values)

/-- Letters, digits, underscores and dots make a name if the first is no digit and no dot. -/
theorem nameable_of_ascii {name : String} {c : Char} {rest : List Char}
    (split : name.toList = c :: rest) (first : c.isAlpha = true ∨ c = '_')
    (chars : ∀ d ∈ rest, d.isAlphanum = true ∨ d = '_' ∨ d = '.')
    (dots : ¬['.', '.', '.'] <:+: name.toList) : Nameable name := by
  have small : ∀ d : Char, d.isAlphanum = true → d.toNat < 0x80 := by
    intro d alphanum
    rw [Char.isAlphanum, Bool.or_eq_true, isAlpha_iff] at alphanum
    rcases alphanum with letter | digit
    · omega
    · simp only [Char.isDigit, Bool.and_eq_true, decide_eq_true_eq, ge_iff_le,
        UInt32.le_iff_toNat_le] at digit
      exact lt_of_le_of_lt digit.2 (by decide)
  have nameChar : ∀ d : Char, d.isAlphanum = true ∨ d = '_' ∨ d = '.' → isNameChar d = true := by
    rintro d (alphanum | rfl | rfl)
    · simp [isNameChar, Text.isAlphanumeric, small d alphanum, alphanum]
    · rfl
    · rfl
  refine ⟨?_, ?_, dots⟩
  · rw [split, List.head?_cons, Option.any_some]
    rcases first with alpha | rfl
    · have : c.toNat < 0x80 := small c (by simp [Char.isAlphanum, alpha])
      simp [startsName, this, alpha]
    · rfl
  · rw [split]
    refine List.forall_mem_cons.2 ⟨nameChar c ?_, fun d mem => nameChar d (chars d mem)⟩
    rcases first with alpha | rfl
    · exact .inl (by simp [Char.isAlphanum, alpha])
    · exact .inr (.inl rfl)

section Arguments

inductive Content where
  | type (ty : TypeExpr)
  | literal (v : Json)
  | ellipsis
  | emptyTuple

def Argument.content : Argument → Content
  | .type ty _ => .type ty
  | .literal v _ => .literal v
  | .ellipsis _ => .ellipsis
  | .emptyTuple _ => .emptyTuple

theorem typesOnly_eq (head : String) {args : List Argument} {types : List TypeExpr}
    (same : args.map Argument.content = types.map .type) : typesOnly head args = .ok types := by
  induction types generalizing args with
  | nil =>
    rw [List.map_nil, List.map_eq_nil_iff] at same
    subst same
    rfl
  | cons ty types ih =>
    obtain ⟨arg, args, rfl, isType, others⟩ := List.map_eq_cons_iff.1 same
    cases arg <;> cases isType
    rw [typesOnly, ih others]
    rfl

theorem literalsOnly_eq {args : List Argument} {values : List Json}
    (same : args.map Argument.content = values.map .literal) : literalsOnly args = .ok values := by
  induction values generalizing args with
  | nil =>
    rw [List.map_nil, List.map_eq_nil_iff] at same
    subst same
    rfl
  | cons v values ih =>
    obtain ⟨arg, args, rfl, isLiteral, others⟩ := List.map_eq_cons_iff.1 same
    cases arg <;> cases isLiteral
    rw [literalsOnly, ih others]
    rfl

end Arguments

section Normal

theorem distinct_eq {arms : List TypeExpr}
    (distinctArms : arms.Pairwise (fun a b => same a b = false)) : distinct arms = arms := by
  unfold distinct
  suffices ∀ seen : List TypeExpr, (seen ++ arms).Pairwise (fun a b => same a b = false) →
      arms.foldl (fun acc ty => if acc.any fun a => same a ty then acc else acc ++ [ty]) seen =
        seen ++ arms from this [] distinctArms
  clear distinctArms
  induction arms with
  | nil => exact fun seen _ => (List.append_nil seen).symm
  | cons ty arms ih =>
    intro seen apart
    have new : ¬(seen.any fun a => same a ty) = true := by
      rw [List.any_eq_true]
      rintro ⟨a, mem, equal⟩
      have := (List.pairwise_append.1 apart).2.2 a mem ty List.mem_cons_self
      rw [this] at equal
      cases equal
    rw [List.foldl_cons, if_neg new]
    have eq := ih (seen ++ [ty])
    rw [List.append_assoc, List.singleton_append] at eq
    exact eq apart

theorem alternatives_of_plain {ty : TypeExpr} (notOptional : ty.shape ≠ .optional)
    (notUnion : ty.shape ≠ .union) : alternatives ty = [ty] := by
  unfold alternatives
  split
  · exact absurd ‹_› notUnion
  · exact absurd ‹_› notOptional
  · rfl

theorem filter_not_isNull {arms : List TypeExpr} (noNull : ∀ arm ∈ arms, arm.isNull = false) :
    arms.filter (fun ty => !ty.isNull) = arms :=
  List.filter_eq_self.2 fun arm mem => by rw [noNull arm mem]; rfl

theorem unionOf_eq {members arms : List TypeExpr} (more : 2 ≤ arms.length)
    (distinctArms : arms.Pairwise (fun a b => same a b = false))
    (noNull : ∀ arm ∈ arms, arm.isNull = false) (nulls : List TypeExpr)
    (allNull : ∀ ty ∈ nulls, ty.isNull = true)
    (all : members.flatMap alternatives = arms ++ nulls) :
    unionOf members = if nulls.isEmpty then union arms else optional (union arms) := by
  have others : (arms ++ nulls).filter (fun ty => !ty.isNull) = arms := by
    have none : nulls.filter (fun ty => !ty.isNull) = [] :=
      List.filter_eq_nil_iff.2 fun ty mem => by simp [allNull ty mem]
    rw [List.filter_append, filter_not_isNull noNull, none, List.append_nil]
  have nullable : (arms ++ nulls).any isNull = !nulls.isEmpty := by
    have none : arms.any isNull = false :=
      List.any_eq_false.2 fun arm mem => by simp [noNull arm mem]
    rw [List.any_append, none, Bool.false_or]
    cases nulls with
    | nil => rfl
    | cons ty nulls => simp [allNull ty List.mem_cons_self]
  unfold unionOf
  simp only [all, others, nullable, distinct_eq distinctArms]
  match arms, more with
  | _ :: _ :: _, _ => cases nulls <;> rfl

theorem unionOf_arms {arms : List TypeExpr} (more : 2 ≤ arms.length)
    (distinctArms : arms.Pairwise (fun a b => same a b = false))
    (plain : ∀ arm ∈ arms, arm.isNull = false ∧ arm.shape ≠ .optional ∧ arm.shape ≠ .union) :
    unionOf arms = union arms := by
  have all : arms.flatMap alternatives = arms ++ [] := by
    rw [List.append_nil]
    calc arms.flatMap alternatives = arms.flatMap fun arm => [arm] :=
          List.flatMap_congr fun arm mem =>
            alternatives_of_plain (plain arm mem).2.1 (plain arm mem).2.2
      _ = arms := List.flatMap_singleton' arms
  exact unionOf_eq more distinctArms (fun arm mem => (plain arm mem).1) [] (by simp) all

theorem unionOf_null {inner : TypeExpr} (notNull : inner.isNull = false)
    (notOptional : inner.shape ≠ .optional)
    (isUnion : inner.shape = .union → ∃ arms, inner = union arms ∧ 2 ≤ arms.length ∧
      arms.Pairwise (fun a b => same a b = false) ∧ ∀ arm ∈ arms, arm.isNull = false) :
    unionOf [inner, null] = optional inner := by
  by_cases shape : inner.shape = .union
  case neg =>
    have all : [inner, null].flatMap alternatives = [inner, null] := by
      simp only [List.flatMap_cons, List.flatMap_nil, alternatives_of_plain notOptional shape]
      rfl
    have only : [inner, null].filter (fun ty => !ty.isNull) = [inner] := by
      have : null.isNull = true := rfl
      simp [notNull, this]
    have nullable : [inner, null].any isNull = true := by
      have : null.isNull = true := rfl
      simp [this]
    unfold unionOf
    simp only [all, only, nullable, distinct_eq (List.pairwise_singleton _ inner)]
    rfl
  case pos =>
    obtain ⟨arms, rfl, more, distinctArms, noNull⟩ := isUnion shape
    exact unionOf_eq more distinctArms noNull [null]
      (by simp [isNull, null, TypeExpr.primitive, apply]) rfl

theorem Canonical.exists_arms {ty : TypeExpr} (h : Canonical ty) (isUnion : ty.shape = .union) :
    ∃ arms, ty = .union arms ∧ 2 ≤ arms.length ∧
      arms.Pairwise (fun a b => same a b = false) ∧ ∀ arm ∈ arms, arm.isNull = false := by
  cases h <;> cases isUnion
  case union arms more distinctArms each plain =>
    exact ⟨arms, rfl, more, distinctArms, fun arm mem => (plain arm mem).1⟩

end Normal

section Building

variable {args : List Argument}

theorem build_container {head : String} {shape : Shape} {defaults types : List TypeExpr}
    (offset : Nat) (isHead : headOf head = .container shape defaults)
    (arity : types.length = defaults.length)
    (same : args.map Argument.content = types.map .type) :
    build head offset (some args) = .ok (apply shape types) := by
  unfold build
  rw [isHead]
  simp only [typesOnly_eq head same, checkArity, bind, Except.bind, arity, if_true]

theorem build_optional {inner : TypeExpr} (offset : Nat) (h : Canonical inner)
    (notNull : inner.isNull = false) (notOptional : inner.shape ≠ .optional)
    (same : args.map Argument.content = [.type inner]) :
    build "Optional" offset (some args) = .ok (optional inner) := by
  have types : typesOnly "Optional" args = .ok [inner] := typesOnly_eq _ same
  unfold build
  rw [show headOf "Optional" = .optional by rfl]
  simp only [Option.getD_some, types, checkArity, bind, Except.bind, List.length_singleton, if_true,
    List.singleton_append, unionOf_null notNull notOptional h.exists_arms]

theorem build_union {arms : List TypeExpr} (offset : Nat) (more : 2 ≤ arms.length)
    (distinctArms : arms.Pairwise (fun a b => TypeExpr.same a b = false))
    (plain : ∀ arm ∈ arms, arm.isNull = false ∧ arm.shape ≠ .optional ∧ arm.shape ≠ .union)
    (same : args.map Argument.content = arms.map .type) :
    build "Union" offset (some args) = .ok (union arms) := by
  have nonempty : arms.isEmpty = false := by
    cases arms with
    | nil => cases more
    | cons => rfl
  unfold build
  rw [show headOf "Union" = .union by rfl]
  simp only [Option.getD_some, typesOnly_eq _ same, bind, Except.bind, nonempty, Bool.false_eq_true,
    if_false, unionOf_arms more distinctArms plain]

theorem build_literal {values : List Json} (offset : Nat) (nonempty : values ≠ [])
    (same : args.map Argument.content = values.map .literal) :
    build "Literal" offset (some args) = .ok (literal values) := by
  have given : args.isEmpty = false := by
    cases args with
    | nil =>
      rw [List.map_nil, eq_comm, List.map_eq_nil_iff] at same
      exact absurd same nonempty
    | cons => rfl
  unfold build
  rw [show headOf "Literal" = .literal by rfl]
  simp only [Option.getD_some, given, Bool.false_eq_true, if_false, literalsOnly_eq same,
    Except.map]

theorem build_tuple {items : List TypeExpr} (offset : Nat)
    (same : args.map Argument.content =
      if items.isEmpty then [.emptyTuple] else items.map .type) :
    build "tuple" offset (some args) = .ok (tuple items) := by
  unfold build
  rw [show headOf "tuple" = .tuple by rfl]
  cases items with
  | nil =>
    obtain ⟨arg, others, rfl, isEmpty, same⟩ := List.map_eq_cons_iff.1 same
    rw [List.map_eq_nil_iff] at same
    subst same
    cases arg <;> cases isEmpty
    rfl
  | cons item items =>
    have same : args.map Argument.content = (item :: items).map .type := same
    simp only
    unfold buildTuple
    split
    case h_1 eq => cases eq
    case h_2 eq =>
      cases eq
      cases List.head_eq_of_cons_eq same
    case h_3 eq =>
      cases eq
      cases items with
      | nil => cases List.tail_eq_of_cons_eq same
      | cons => cases List.head_eq_of_cons_eq (List.tail_eq_of_cons_eq same)
    case h_4 eq =>
      cases eq
      simp only [typesOnly_eq _ same, bind, Except.bind, List.isEmpty_cons, Bool.false_eq_true,
        if_false]

theorem build_variadic {item : TypeExpr} (offset : Nat)
    (same : args.map Argument.content = [.type item, .ellipsis]) :
    build "tuple" offset (some args) = .ok (variadic item) := by
  obtain ⟨first, others, rfl, isType, same⟩ := List.map_eq_cons_iff.1 same
  obtain ⟨second, others, rfl, isEllipsis, same⟩ := List.map_eq_cons_iff.1 same
  rw [List.map_eq_nil_iff] at same
  subst same
  cases first <;> cases isType
  cases second <;> cases isEllipsis
  rfl

end Building

section Parsing

/-- What comes after a type: nothing, or a token that neither goes on with it nor starts
arguments. -/
def Closes (rest : List Lexeme) : Prop :=
  ∀ next ∈ rest.head?, next.token = .comma ∨ next.token = .closeBracket

/-- The tokens are read as this type, wherever they stand. -/
structure ParsesAs (part : List Token) (ty : TypeExpr) : Prop where
  starts : ∃ name more, part = .ident name :: more
  parses : ∀ (finish fuel : Nat) {ts rest : List Lexeme}, ts.map Lexeme.token = part →
    Closes rest → 4 * part.length ≤ fuel → parseUnion finish fuel (ts ++ rest) = .ok (ty, rest)

structure ArgParsesAs (literals : Bool) (part : List Token) (content : Content) : Prop where
  starts : ∃ token more, part = token :: more ∧ token ≠ .closeBracket
  parses : ∀ (finish fuel : Nat) {ts rest : List Lexeme}, ts.map Lexeme.token = part →
    Closes rest → 4 * part.length < fuel → ∃ arg, arg.content = content ∧
      parseArg finish literals fuel (ts ++ rest) = .ok (arg, rest)

theorem parseArms_of_closes (finish fuel : Nat) {rest : List Lexeme} (closes : Closes rest) :
    parseArms finish (fuel + 1) rest = .ok ([], rest) := by
  rw [parseArms]
  rintro offset ts rfl
  exact absurd (closes _ rfl) (by simp)

theorem parsesAs_of_term {part : List Token} {ty : TypeExpr}
    (starts : ∃ name more, part = .ident name :: more)
    (parses : ∀ (finish fuel : Nat) {ts rest : List Lexeme}, ts.map Lexeme.token = part →
      Closes rest → 4 * part.length ≤ fuel + 2 →
      parseTerm finish (fuel + 1) (ts ++ rest) = .ok (ty, rest)) : ParsesAs part ty := by
  refine ⟨starts, fun finish fuel ts rest written closes enough => ?_⟩
  have : part.length ≠ 0 := by
    obtain ⟨name, more, rfl⟩ := starts
    exact Nat.succ_ne_zero _
  obtain ⟨fuel, rfl⟩ : ∃ n, fuel = n + 2 := ⟨fuel - 2, by omega⟩
  rw [parseUnion]
  simp only [parses finish fuel written closes enough, bind, Except.bind,
    parseArms_of_closes finish fuel closes]
  rfl

theorem parsesAs_name {name : String} {ty : TypeExpr}
    (built : ∀ offset, build name offset none = .ok ty) : ParsesAs [.ident name] ty := by
  refine parsesAs_of_term ⟨name, [], rfl⟩ fun finish fuel ts rest written closes _ => ?_
  obtain ⟨⟨token, offset⟩, others, rfl, isName, none⟩ := List.map_eq_cons_iff.1 written
  obtain rfl : token = .ident name := isName
  obtain rfl := List.map_eq_nil_iff.1 none
  rw [List.singleton_append, parseTerm]
  · simp only [built, bind, Except.bind]
  · rintro bracket ts rfl
    exact absurd (closes _ rfl) (by simp)

theorem parseArgs_separated {literals : Bool} {parts : List (List Token)} {contents : List Content}
    (nonempty : contents ≠ []) (each : List.Forall₂ (ArgParsesAs literals) parts contents)
    (finish fuel : Nat) {ts : List Lexeme}
    (written : ts.map Lexeme.token = [.comma].intercalate parts)
    (enough : 4 * ([Token.comma].intercalate parts).length + 1 < fuel) (stop : Nat)
    (rest : List Lexeme) :
    ∃ args, args.map Argument.content = contents ∧
      parseArgs finish literals fuel (ts ++ ⟨.closeBracket, stop⟩ :: rest) =
        .ok (args, ⟨.closeBracket, stop⟩ :: rest) := by
  induction each generalizing fuel ts with
  | nil => exact absurd rfl nonempty
  | @cons part content parts contents first others ih =>
    obtain ⟨fuel, rfl⟩ : ∃ n, fuel = n + 1 := ⟨fuel - 1, by omega⟩
    obtain ⟨token, more, isPart, noClose⟩ := first.starts
    have unclosed : ∀ {ts : List Lexeme}, ts.map Lexeme.token = part → ∀ after offset later,
        ts ++ after = ⟨.closeBracket, offset⟩ :: later → False := by
      intro ts written after offset later eq
      rw [isPart] at written
      obtain ⟨lexeme, others, rfl, isToken, -⟩ := List.map_eq_cons_iff.1 written
      cases List.head_eq_of_cons_eq eq
      exact noClose isToken.symm
    cases others with
    | nil =>
      rw [List.intercalate_singleton] at written enough
      have closes : Closes (⟨.closeBracket, stop⟩ :: rest) := by
        rintro _ ⟨⟩
        exact .inr rfl
      obtain ⟨arg, isContent, read⟩ := first.parses finish fuel written closes (by omega)
      refine ⟨[arg], by rw [List.map_singleton, isContent], ?_⟩
      rw [parseArgs]
      · simp only [read, bind, Except.bind]
      · exact unclosed written _
    | cons second others =>
      rw [List.intercalate_cons_cons] at written enough
      simp only [List.length_append, List.length_singleton] at enough
      obtain ⟨before, after, rfl, writtenBefore, writtenAfter⟩ := List.map_eq_append_iff.1 written
      obtain ⟨before, separator, rfl, writtenFirst, separates⟩ :=
        List.map_eq_append_iff.1 writtenBefore
      obtain ⟨⟨token, offset⟩, others, rfl, isComma, none⟩ := List.map_eq_cons_iff.1 separates
      obtain rfl : token = .comma := isComma
      obtain rfl := List.map_eq_nil_iff.1 none
      obtain ⟨args, areContents, read⟩ := ih (List.cons_ne_nil _ _) fuel writtenAfter (by omega)
      have closes : Closes (⟨.comma, offset⟩ :: (after ++ ⟨.closeBracket, stop⟩ :: rest)) := by
        rintro _ ⟨⟩
        exact .inl rfl
      obtain ⟨arg, isContent, readFirst⟩ := first.parses finish fuel writtenFirst closes (by omega)
      refine ⟨arg :: args, by rw [List.map_cons, isContent, areContents], ?_⟩
      rw [List.append_assoc, List.append_assoc, List.singleton_append, parseArgs]
      · simp only [readFirst, bind, Except.bind, read]
      · exact unclosed writtenFirst _

theorem parsesAs_bracketed {head : String} {parts : List (List Token)} {contents : List Content}
    {ty : TypeExpr} (nonempty : contents ≠ [])
    (each : List.Forall₂ (ArgParsesAs (head == "Literal")) parts contents)
    (built : ∀ offset args, args.map Argument.content = contents →
      build head offset (some args) = .ok ty) : ParsesAs (bracketed head parts) ty := by
  refine parsesAs_of_term ⟨head, _, rfl⟩ fun finish fuel ts rest written _ enough => ?_
  obtain ⟨⟨token, offset⟩, ts, rfl, isHead, written⟩ := List.map_eq_cons_iff.1 written
  obtain ⟨⟨opening, start⟩, ts, rfl, isOpen, written⟩ := List.map_eq_cons_iff.1 written
  obtain ⟨inner, last, rfl, writtenInner, isLast⟩ := List.map_eq_append_iff.1 written
  obtain ⟨⟨closing, stop⟩, others, rfl, isClose, none⟩ := List.map_eq_cons_iff.1 isLast
  obtain rfl : token = .ident head := isHead
  obtain rfl : opening = .openBracket := isOpen
  obtain rfl : closing = .closeBracket := isClose
  obtain rfl := List.map_eq_nil_iff.1 none
  simp only [bracketed, List.length_cons, List.length_append, List.length_nil] at enough
  obtain ⟨args, areContents, read⟩ :=
    parseArgs_separated nonempty each finish fuel writtenInner (by omega) stop rest
  rw [List.cons_append, List.cons_append, List.append_assoc, List.singleton_append, parseTerm]
  simp only [read, bind, Except.bind, built offset args areContents]

theorem ParsesAs.arg {part : List Token} {ty : TypeExpr} (h : ParsesAs part ty) :
    ArgParsesAs false part (.type ty) := by
  obtain ⟨⟨name, more, rfl⟩, parses⟩ := h
  refine ⟨⟨_, more, rfl, by simp⟩, fun finish fuel ts rest written closes enough => ?_⟩
  obtain ⟨fuel, rfl⟩ : ∃ n, fuel = n + 1 := ⟨fuel - 1, by omega⟩
  have read := parses finish fuel written closes (by omega)
  obtain ⟨⟨token, offset⟩, ts, rfl, isName, -⟩ := List.map_eq_cons_iff.1 written
  obtain rfl : token = .ident name := isName
  refine ⟨.type ty offset, rfl, ?_⟩
  rw [List.cons_append] at read ⊢
  simp only [parseArg, read, Except.map]

theorem argParsesAs_literal {v : Json} (isLiteral : v.IsLiteral) :
    ArgParsesAs true [literalToken v] (.literal v) := by
  refine ⟨⟨_, [], rfl, ?_⟩, fun finish fuel ts rest written _ enough => ?_⟩
  · cases v with
    | bool b => cases b <;> simp [literalToken]
    | _ => simp [literalToken]
  · obtain ⟨fuel, rfl⟩ : ∃ n, fuel = n + 1 := ⟨fuel - 1, by omega⟩
    obtain ⟨⟨token, offset⟩, others, rfl, isToken, none⟩ := List.map_eq_cons_iff.1 written
    obtain rfl : token = literalToken v := isToken
    obtain rfl := List.map_eq_nil_iff.1 none
    refine ⟨.literal v offset, rfl, ?_⟩
    rw [List.singleton_append]
    cases v with
    | null => simp [literalToken, parseArg, literalName?]
    | bool b => cases b <;> simp [literalToken, parseArg, literalName?]
    | number n => simp only [literalToken, parseArg]
    | string s => simp only [literalToken, parseArg]
    | array => cases isLiteral
    | object => cases isLiteral

theorem argParsesAs_ellipsis : ArgParsesAs false [.ellipsis] .ellipsis := by
  refine ⟨⟨_, [], rfl, by simp⟩, fun finish fuel ts rest written _ enough => ?_⟩
  obtain ⟨fuel, rfl⟩ : ∃ n, fuel = n + 1 := ⟨fuel - 1, by omega⟩
  obtain ⟨⟨token, offset⟩, others, rfl, isToken, none⟩ := List.map_eq_cons_iff.1 written
  obtain rfl : token = .ellipsis := isToken
  obtain rfl := List.map_eq_nil_iff.1 none
  exact ⟨.ellipsis offset, rfl, by rw [List.singleton_append, parseArg]⟩

theorem argParsesAs_parens : ArgParsesAs false [.openParen, .closeParen] .emptyTuple := by
  refine ⟨⟨_, _, rfl, by simp⟩, fun finish fuel ts rest written _ enough => ?_⟩
  obtain ⟨fuel, rfl⟩ : ∃ n, fuel = n + 1 := ⟨fuel - 1, by omega⟩
  obtain ⟨⟨opening, offset⟩, ts, rfl, isOpen, written⟩ := List.map_eq_cons_iff.1 written
  obtain ⟨⟨closing, stop⟩, others, rfl, isClose, none⟩ := List.map_eq_cons_iff.1 written
  obtain rfl : opening = .openParen := isOpen
  obtain rfl : closing = .closeParen := isClose
  obtain rfl := List.map_eq_nil_iff.1 none
  exact ⟨.emptyTuple offset, rfl, by rw [List.cons_append, List.singleton_append, parseArg]⟩

theorem forall₂_argParsesAs {args : List TypeExpr} (each : ∀ arg ∈ args, ParsesAs arg.tokens arg) :
    List.Forall₂ (ArgParsesAs false) (tokensOfAll args) (args.map .type) := by
  induction args with
  | nil => exact .nil
  | cons arg args ih =>
    exact .cons (each arg List.mem_cons_self).arg
      (ih fun a mem => each a (List.mem_cons_of_mem _ mem))

end Parsing

section Canonical

variable {ty : TypeExpr}

theorem Canonical.printable (h : Canonical ty) : Printable ty := by
  induction h with
  | primitive p => exact .mk nofun nofun nofun
  | named nameable _ _ => exact .mk (by rintro _ ⟨⟩; exact nameable) nofun nofun
  | optional _ _ _ ih => exact .mk nofun nofun (List.forall_mem_singleton.2 ih)
  | union _ _ _ _ ih => exact .mk nofun nofun ih
  | sequence _ ih => exact .mk nofun nofun (List.forall_mem_singleton.2 ih)
  | set _ ih => exact .mk nofun nofun (List.forall_mem_singleton.2 ih)
  | mapping _ _ key value =>
    exact .mk nofun nofun (List.forall_mem_cons.2 ⟨key, List.forall_mem_singleton.2 value⟩)
  | defaultMapping _ _ key value =>
    exact .mk nofun nofun (List.forall_mem_cons.2 ⟨key, List.forall_mem_singleton.2 value⟩)
  | tuple _ ih => exact .mk nofun nofun ih
  | variadic _ ih => exact .mk nofun nofun (List.forall_mem_singleton.2 ih)
  | literal _ literals => exact .mk nofun literals nofun

theorem build_primitive (p : Primitive) (offset : Nat) :
    build p.name offset none = .ok (.primitive p) := by
  cases p <;> rfl

theorem build_name {name : String} (plain : headOf name = .plain)
    (notPrimitive : Primitive.ofName? name = none) (offset : Nat) :
    build name offset none = .ok (.named name) := by
  simp [build, plain, notPrimitive]

/-- Each constructor is one way to write a type, and `build` gives back what was written. -/
theorem Canonical.parsesAs (h : Canonical ty) : ParsesAs ty.tokens ty := by
  induction h with
  | primitive p =>
    unfold TypeExpr.primitive apply tokens
    exact parsesAs_name (build_primitive p)
  | named _ plain notPrimitive =>
    unfold TypeExpr.named apply tokens
    exact parsesAs_name (build_name plain notPrimitive)
  | optional inner notNull notOptional ih =>
    unfold TypeExpr.optional apply tokens
    exact parsesAs_bracketed (List.cons_ne_nil _ _)
      (forall₂_argParsesAs (List.forall_mem_singleton.2 ih))
      fun offset _ same => build_optional offset inner notNull notOptional same
  | @union arms more distinctArms _ plain ih =>
    have nonempty : arms.map Content.type ≠ [] := by
      rintro none
      rw [List.map_eq_nil_iff.1 none] at more
      cases more
    unfold TypeExpr.union apply tokens
    exact parsesAs_bracketed nonempty (forall₂_argParsesAs ih)
      fun offset _ same => build_union offset more distinctArms plain same
  | sequence _ ih =>
    unfold TypeExpr.sequence apply tokens
    exact parsesAs_bracketed (List.cons_ne_nil _ _)
      (forall₂_argParsesAs (List.forall_mem_singleton.2 ih))
      fun offset _ same => build_container offset rfl rfl same
  | set _ ih =>
    unfold apply tokens
    exact parsesAs_bracketed (List.cons_ne_nil _ _)
      (forall₂_argParsesAs (List.forall_mem_singleton.2 ih))
      fun offset _ same => build_container offset rfl rfl same
  | mapping _ _ key value =>
    unfold apply tokens
    exact parsesAs_bracketed (List.cons_ne_nil _ _)
      (forall₂_argParsesAs (List.forall_mem_cons.2 ⟨key, List.forall_mem_singleton.2 value⟩))
      fun offset _ same => build_container offset rfl rfl same
  | defaultMapping _ _ key value =>
    unfold apply tokens
    exact parsesAs_bracketed (List.cons_ne_nil _ _)
      (forall₂_argParsesAs (List.forall_mem_cons.2 ⟨key, List.forall_mem_singleton.2 value⟩))
      fun offset _ same => build_container offset rfl rfl same
  | @tuple items _ ih =>
    unfold TypeExpr.tuple apply tokens
    cases items with
    | nil =>
      exact parsesAs_bracketed (List.cons_ne_nil _ _) (.cons argParsesAs_parens .nil)
        fun offset _ same => build_tuple offset same
    | cons =>
      exact parsesAs_bracketed (List.cons_ne_nil _ _) (forall₂_argParsesAs ih)
        fun offset _ same => build_tuple offset same
  | variadic _ ih =>
    unfold TypeExpr.variadic apply tokens
    exact parsesAs_bracketed (List.cons_ne_nil _ _) (.cons ih.arg (.cons argParsesAs_ellipsis .nil))
      fun offset _ same => build_variadic offset same
  | @literal values nonempty literals =>
    unfold TypeExpr.literal tokens
    have each : List.Forall₂ (ArgParsesAs true) (values.map fun v => [literalToken v])
        (values.map .literal) :=
      List.forall₂_map_left_iff.2 (List.forall₂_map_right_iff.2
        (List.forall₂_same.2 fun v mem => argParsesAs_literal (literals v mem)))
    exact parsesAs_bracketed (by simpa using nonempty) each
      fun offset _ same => build_literal offset nonempty same

/-- The tokens of the whole text are those of the type, and nothing is left after it. -/
theorem parse_of_parsesAs (printable : Printable ty) (parses : ParsesAs ty.tokens ty) :
    parse ty.text = some (.ok ty) := by
  obtain ⟨lexemes, lexed, same⟩ := printable.lex
  have enough : 4 * ty.tokens.length ≤ 4 * lexemes.length + 4 := by
    rw [← same, List.length_map]
    omega
  have closes : Closes [] := by rintro _ ⟨⟩
  have read := parses.parses ty.text.utf8ByteSize (4 * lexemes.length + 4) same closes enough
  rw [List.append_nil] at read
  rw [parse_of_lex lexed, parseAll, read]
  rfl

theorem parse_text (h : Canonical ty) : parse ty.text = some (.ok ty) :=
  parse_of_parsesAs h.printable h.parsesAs

/-- A name with dots, a quote and a backslash in a string, a number that needs 17 digits, and an
optional union. -/
def shapes : TypeExpr :=
  .apply .mapping [.named "geo.v2.Shape",
    .optional (.union [.variadic (.tuple []),
      .literal [.string "it's \\", .number (.float ⟨true, 0x13333333333334, -54, by decide⟩),
        .ofInt64 7, .null, .bool true]])]

theorem parse_text_shapes : Canonical shapes ∧ parse shapes.text = some (.ok shapes) :=
  have canonical : Canonical shapes :=
    .mapping (.named (by decide) rfl rfl)
      (.optional
        (.union (by decide) (by decide +kernel)
          (List.forall_mem_cons.2 ⟨.variadic (.tuple nofun), List.forall_mem_singleton.2
            (.literal nofun (by simp [Json.IsLiteral, Json.ofInt64]))⟩)
          (by simp [variadic, tuple, literal, apply, isNull]))
        rfl (by simp [TypeExpr.union, apply]))
  ⟨canonical, parse_text canonical⟩

end Canonical

end RecordCodec.TypeExpr
