import RecordCodec.Proofs.Declarations
import RecordCodec.Proofs.Rereading

set_option autoImplicit false

/-!
# The grammar of type expressions

A type is a list of terms separated by bars, and a term is a name with arguments in brackets or
without. The grammar says which tokens make up what, with no fuel, no lookahead and no offsets: each
name says by itself which arguments it takes.
-/
namespace RecordCodec

theorem map_eq_ok_iff {ε α β : Type} {r : Except ε α} {f : α → β} {b : β} :
    r.map f = .ok b ↔ ∃ a, r = .ok a ∧ f a = b := by
  cases r <;> simp [Except.map]

namespace TypeExpr

/-! ### Names and their arguments -/

/-- What a name stands for with these arguments, or without brackets. -/
inductive Denotes (name : String) : Option (List Content) → TypeExpr → Prop where
  | optional {inner : TypeExpr} : headOf name = .optional →
    Denotes name (some [.type inner]) (unionOf [inner, null])
  | union {types : List TypeExpr} : headOf name = .union → types ≠ [] →
    Denotes name (some (types.map .type)) (unionOf types)
  | literal {values : List Json} : headOf name = .literal → values ≠ [] →
    Denotes name (some (values.map .literal)) (literal values)
  | anyTuple : headOf name = .tuple → Denotes name none (variadic any)
  | emptyTuple : headOf name = .tuple → Denotes name (some [.emptyTuple]) (tuple [])
  | variadic {item : TypeExpr} : headOf name = .tuple →
    Denotes name (some [.type item, .ellipsis]) (variadic item)
  | tuple {items : List TypeExpr} : headOf name = .tuple → items ≠ [] →
    Denotes name (some (items.map .type)) (tuple items)
  | ofAny {shape : Shape} {defaults : List TypeExpr} : headOf name = .container shape defaults →
    Denotes name none (apply shape defaults)
  | container {shape : Shape} {defaults types : List TypeExpr} :
    headOf name = .container shape defaults → types.length = defaults.length →
    Denotes name (some (types.map .type)) (apply shape types)
  | primitive {p : Primitive} : headOf name = .plain → Primitive.ofName? name = some p →
    Denotes name none (primitive p)
  | named : headOf name = .plain → Primitive.ofName? name = none → Denotes name none (named name)

section Building

variable {name : String} {ty : TypeExpr}

theorem typesOnly_eq_ok_iff {args : List Argument} {types : List TypeExpr} :
    typesOnly name args = .ok types ↔ args.map Argument.content = types.map .type := by
  refine ⟨fun h => ?_, typesOnly_eq name⟩
  induction args generalizing types with
  | nil =>
    cases h
    rfl
  | cons arg rest ih =>
    cases arg with
    | type ty offset =>
      obtain ⟨others, areTypes, rfl⟩ := map_eq_ok_iff.1 h
      rw [List.map_cons, ih areTypes]
      rfl
    | _ => cases h

theorem literalsOnly_eq_ok_iff {args : List Argument} {values : List Json} :
    literalsOnly args = .ok values ↔ args.map Argument.content = values.map .literal := by
  refine ⟨fun h => ?_, literalsOnly_eq⟩
  induction args generalizing values with
  | nil =>
    cases h
    rfl
  | cons arg rest ih =>
    cases arg with
    | literal v offset =>
      obtain ⟨others, areLiterals, rfl⟩ := map_eq_ok_iff.1 h
      rw [List.map_cons, ih areLiterals]
      rfl
    | _ => cases h

theorem checkArity_eq_ok_iff {offset expected : Nat} {args types : List TypeExpr} :
    checkArity name offset expected args = .ok types ↔ args = types ∧ types.length = expected := by
  unfold checkArity
  split
  case isTrue arity =>
    constructor
    · intro h
      cases h
      exact ⟨rfl, arity⟩
    · rintro ⟨rfl, -⟩
      rfl
  case isFalse other =>
    constructor
    · nofun
    · rintro ⟨rfl, arity⟩
      exact absurd arity other

theorem denotes_of_buildTuple {offset : Nat} {args : Option (List Argument)}
    (isTuple : headOf name = .tuple) (h : buildTuple name offset args = .ok ty) :
    Denotes name (args.map (·.map Argument.content)) ty := by
  unfold buildTuple at h
  split at h
  case h_1 =>
    cases h
    exact .anyTuple isTuple
  case h_2 =>
    cases h
    exact .emptyTuple isTuple
  case h_3 =>
    cases h
    exact .variadic isTuple
  case h_4 =>
    obtain ⟨items, areTypes, h⟩ := bind_eq_ok_iff.1 h
    split at h
    case isTrue => cases h
    case isFalse some =>
      cases h
      rw [Option.map_some, typesOnly_eq_ok_iff.1 areTypes]
      exact .tuple isTuple (by simpa using some)

theorem denotes_of_build {offset : Nat} {args : Option (List Argument)}
    (h : build name offset args = .ok ty) :
    Denotes name (args.map (·.map Argument.content)) ty := by
  unfold build at h
  split at h
  case h_1 isOptional =>
    obtain ⟨types, areTypes, h⟩ := bind_eq_ok_iff.1 h
    obtain ⟨types', one, h⟩ := bind_eq_ok_iff.1 h
    obtain ⟨rfl, arity⟩ := checkArity_eq_ok_iff.1 one
    cases h
    obtain ⟨inner, rfl⟩ := List.length_eq_one_iff.1 arity
    cases args with
    | none => cases areTypes
    | some found =>
      have contents : found.map Argument.content = _ := typesOnly_eq_ok_iff.1 areTypes
      rw [Option.map_some, contents]
      exact .optional isOptional
  case h_2 isUnion =>
    obtain ⟨types, areTypes, h⟩ := bind_eq_ok_iff.1 h
    split at h
    case isTrue => cases h
    case isFalse nonempty =>
      cases h
      cases args with
      | none =>
        cases areTypes
        exact absurd rfl nonempty
      | some found =>
        have contents : found.map Argument.content = _ := typesOnly_eq_ok_iff.1 areTypes
        rw [Option.map_some, contents]
        exact .union isUnion (by simpa using nonempty)
  case h_3 isLiteral =>
    split at h
    case isTrue => cases h
    case isFalse nonempty =>
      obtain ⟨values, areLiterals, rfl⟩ := map_eq_ok_iff.1 h
      cases args with
      | none => exact absurd rfl nonempty
      | some found =>
        have contents : found.map Argument.content = _ := literalsOnly_eq_ok_iff.1 areLiterals
        rw [Option.map_some, contents]
        refine .literal isLiteral ?_
        rintro rfl
        exact nonempty (List.isEmpty_iff.2 (List.map_eq_nil_iff.1 contents))
  case h_4 isTuple => exact denotes_of_buildTuple isTuple h
  case h_5 shape defaults isContainer =>
    cases args with
    | none =>
      obtain ⟨types, areDefaults, h⟩ := bind_eq_ok_iff.1 h
      obtain ⟨types', one, h⟩ := bind_eq_ok_iff.1 h
      obtain ⟨rfl, -⟩ := checkArity_eq_ok_iff.1 one
      cases areDefaults
      cases h
      exact .ofAny isContainer
    | some found =>
      obtain ⟨types, areTypes, h⟩ := bind_eq_ok_iff.1 h
      obtain ⟨types', one, h⟩ := bind_eq_ok_iff.1 h
      obtain ⟨rfl, arity⟩ := checkArity_eq_ok_iff.1 one
      cases h
      rw [Option.map_some, typesOnly_eq_ok_iff.1 areTypes]
      exact .container isContainer arity
  case h_6 isPlain =>
    split at h
    case isTrue => cases h
    case isFalse bare =>
      obtain rfl : args = none := by simpa using bare
      split at h <;> cases h
      case h_1 isPrimitive => exact .primitive isPlain isPrimitive
      case h_2 unknown => exact .named isPlain unknown

theorem buildTuple_types {args : List Argument} {items : List TypeExpr} (offset : Nat)
    (nonempty : items ≠ []) (same : args.map Argument.content = items.map .type) :
    buildTuple name offset (some args) = .ok (tuple items) := by
  have areTypes : typesOnly name args = .ok items := typesOnly_eq_ok_iff.2 same
  have notEmpty : items.isEmpty = false := by simpa using nonempty
  unfold buildTuple
  split
  case h_1 none => cases none
  case h_2 isEmptyTuple =>
    cases isEmptyTuple
    cases areTypes
  case h_3 isVariadic =>
    cases isVariadic
    cases areTypes
  case h_4 isSome =>
    cases isSome
    simp only [areTypes, bind, Except.bind, notEmpty, Bool.false_eq_true, if_false]

theorem build_of_denotes {offset : Nat} {args : Option (List Argument)}
    (h : Denotes name (args.map (·.map Argument.content)) ty) :
    build name offset args = .ok ty := by
  generalize isContents : args.map (·.map Argument.content) = contents at h
  have given : ∀ as, contents = some as → ∃ found, args = some found ∧
      found.map Argument.content = as := fun as isSome =>
    Option.map_eq_some_iff.1 (isContents.trans isSome)
  have absent : contents = none → args = none := fun isNone =>
    Option.map_eq_none_iff.1 (isContents.trans isNone)
  cases h with
  | @optional inner isHead =>
    obtain ⟨found, rfl, same⟩ := given _ rfl
    have areTypes : typesOnly name found = .ok [inner] := typesOnly_eq_ok_iff.2 same
    simp only [build, isHead, Option.getD_some, areTypes, bind, Except.bind, checkArity,
      List.length_singleton, if_true]
    rfl
  | @union types isHead nonempty =>
    obtain ⟨found, rfl, same⟩ := given _ rfl
    have notEmpty : types.isEmpty = false := by simpa using nonempty
    simp only [build, isHead, Option.getD_some, typesOnly_eq_ok_iff.2 same, bind, Except.bind,
      notEmpty, Bool.false_eq_true, if_false]
  | @literal values isHead nonempty =>
    obtain ⟨found, rfl, same⟩ := given _ rfl
    have notEmpty : found.isEmpty = false := by
      cases found with
      | nil => exact absurd (List.map_eq_nil_iff.1 same.symm) nonempty
      | cons => rfl
    simp only [build, isHead, Option.getD_some, notEmpty, Bool.false_eq_true, if_false,
      literalsOnly_eq_ok_iff.2 same, Except.map]
  | anyTuple isHead =>
    obtain rfl := absent rfl
    rw [build, isHead]
    rfl
  | emptyTuple isHead =>
    obtain ⟨found, rfl, same⟩ := given _ rfl
    obtain ⟨arg, rest, rfl, isEmpty, none⟩ := List.map_eq_cons_iff.1 same
    obtain rfl := List.map_eq_nil_iff.1 none
    cases arg <;> cases isEmpty
    rw [build, isHead]
    rfl
  | variadic isHead =>
    obtain ⟨found, rfl, same⟩ := given _ rfl
    obtain ⟨first, rest, rfl, isType, same⟩ := List.map_eq_cons_iff.1 same
    obtain ⟨second, rest, rfl, isEllipsis, none⟩ := List.map_eq_cons_iff.1 same
    obtain rfl := List.map_eq_nil_iff.1 none
    cases first <;> cases isType
    cases second <;> cases isEllipsis
    rw [build, isHead]
    rfl
  | tuple isHead nonempty =>
    obtain ⟨found, rfl, same⟩ := given _ rfl
    rw [build, isHead]
    exact buildTuple_types offset nonempty same
  | ofAny isHead =>
    obtain rfl := absent rfl
    simp only [build, isHead, bind, Except.bind, checkArity, if_true]
  | container isHead arity =>
    obtain ⟨found, rfl, same⟩ := given _ rfl
    exact build_container offset isHead arity same
  | primitive isHead isPrimitive =>
    obtain rfl := absent rfl
    simp [build, isHead, isPrimitive]
  | named isHead unknown =>
    obtain rfl := absent rfl
    simp [build, isHead, unknown]

theorem build_eq_ok_iff {offset : Nat} {args : Option (List Argument)} :
    build name offset args = .ok ty ↔ Denotes name (args.map (·.map Argument.content)) ty :=
  ⟨denotes_of_build, build_of_denotes⟩

end Building

/-! ### The grammar -/

inductive Phrase where
  | type (ty : TypeExpr)
  /-- Further terms, each after a bar. -/
  | bars (tys : List TypeExpr)
  | term (ty : TypeExpr)
  /-- What stands between brackets; those of a literal type hold values. -/
  | args (literals : Bool) (contents : List Content)
  | arg (literals : Bool) (content : Content)

/-- A term alone is a type, and with others it is an arm of a union. -/
def joined (first : TypeExpr) (more : List TypeExpr) : TypeExpr :=
  if more.isEmpty then first else unionOf (first :: more)

inductive Derives : List Token → Phrase → Prop where
  | type {first more : List Token} {ty : TypeExpr} {tys : List TypeExpr} :
    Derives first (.term ty) → Derives more (.bars tys) →
    Derives (first ++ more) (.type (joined ty tys))
  | noBars : Derives [] (.bars [])
  | bar {first more : List Token} {ty : TypeExpr} {tys : List TypeExpr} :
    Derives first (.term ty) → Derives more (.bars tys) →
    Derives (.pipe :: (first ++ more)) (.bars (ty :: tys))
  | name {name : String} {ty : TypeExpr} : Denotes name none ty →
    Derives [.ident name] (.term ty)
  | applied {name : String} {inner : List Token} {contents : List Content} {ty : TypeExpr} :
    Derives inner (.args (name == "Literal") contents) → Denotes name (some contents) ty →
    Derives (.ident name :: .openBracket :: (inner ++ [.closeBracket])) (.term ty)
  | noArgs {literals : Bool} : Derives [] (.args literals [])
  | lastArg {literals : Bool} {ts : List Token} {content : Content} :
    Derives ts (.arg literals content) → Derives ts (.args literals [content])
  /-- Nothing may stand after the last comma. -/
  | comma {literals : Bool} {first more : List Token} {content : Content}
    {contents : List Content} : Derives first (.arg literals content) →
    Derives more (.args literals contents) →
    Derives (first ++ .comma :: more) (.args literals (content :: contents))
  | ellipsis {literals : Bool} : Derives [.ellipsis] (.arg literals .ellipsis)
  | string {literals : Bool} (s : String) :
    Derives [.str s] (.arg literals (.literal (.string s)))
  | number {literals : Bool} (n : Json.Number) :
    Derives [.num n] (.arg literals (.literal (.number n)))
  | emptyTuple {literals : Bool} : Derives [.openParen, .closeParen] (.arg literals .emptyTuple)
  | value {name : String} {v : Json} : literalName? name = some v →
    Derives [.ident name] (.arg true (.literal v))
  /-- In a literal type a name that is a value starts no type. -/
  | typeArg {literals : Bool} {ts : List Token} {ty : TypeExpr} : Derives ts (.type ty) →
    (literals = true → ∀ name ∈ ts.head?, ∀ text, name = .ident text → literalName? text = none) →
    Derives ts (.arg literals (.type ty))

section Starts

variable {part : List Token} {ty : TypeExpr}

theorem Derives.starts_of_term (h : Derives part (.term ty)) :
    ∃ name more, part = .ident name :: more := by
  cases h <;> exact ⟨_, _, rfl⟩

theorem Derives.starts_of_type (h : Derives part (.type ty)) :
    ∃ name more, part = .ident name :: more := by
  cases h with
  | type first _ =>
    obtain ⟨name, more, rfl⟩ := first.starts_of_term
    exact ⟨name, _, rfl⟩

theorem Derives.ne_nil_of_term (h : Derives part (.term ty)) : part ≠ [] := by
  obtain ⟨name, more, rfl⟩ := h.starts_of_term
  exact List.cons_ne_nil _ _

theorem Derives.starts_of_bars {tys : List TypeExpr} (h : Derives part (.bars tys)) :
    ∀ token ∈ part.head?, token = .pipe := by
  cases h with
  | noBars => simp
  | bar _ _ => simp

theorem Derives.starts_of_arg {literals : Bool} {content : Content}
    (h : Derives part (.arg literals content)) :
    ∃ token more, part = token :: more ∧ token ≠ .closeBracket := by
  cases h with
  | typeArg derived _ =>
    obtain ⟨name, more, rfl⟩ := derived.starts_of_type
    exact ⟨_, _, rfl, nofun⟩
  | _ => exact ⟨_, _, rfl, nofun⟩

end Starts

end TypeExpr
end RecordCodec
