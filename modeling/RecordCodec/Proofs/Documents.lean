import Mathlib.Data.List.Induction
import RecordCodec.Proofs.Declarations
import RecordCodec.Proofs.Handling
import RecordCodec.Proofs.Reversible
import RecordCodec.Proofs.Tokens

set_option autoImplicit false

/-!
# What schema documents declare

A document writes its types as expressions, so the literal types in them list scalars only, and it
names its default factories, which make scalars and empty containers.
-/
namespace RecordCodec

/-- The literal types inside the type list what an expression can write, and the records in it
are declared. -/
inductive TypeExpr.Written (schema : Schema) : TypeExpr → Prop where
  | node {shape : Shape} {args : List TypeExpr} {literals : List Json} :
    (∀ name, shape.recordName? = some name → (schema.record? name).isSome) →
    (∀ ty ∈ args, Written schema ty) → (∀ v ∈ literals, v.IsLiteral) →
    Written schema ⟨shape, args, literals⟩

variable {schema : Schema}

namespace TypeExpr

variable {ty : TypeExpr}

namespace Written

theorem record (h : ty.Written schema) {name : String}
    (isRecord : ty.shape.recordName? = some name) :
    ∃ r, schema.record? name = some r := by
  cases h with
  | node record _ _ => exact Option.isSome_iff_exists.1 (record name isRecord)

theorem args (h : ty.Written schema) : ∀ inner ∈ ty.args, inner.Written schema := by
  cases h with
  | node _ args _ => exact args

theorem literals (h : ty.Written schema) : ∀ v ∈ ty.literals, v.IsLiteral := by
  cases h with
  | node _ _ literals => exact literals

theorem apply {shape : Shape} (plain : shape.recordName? = none) {args : List TypeExpr}
    (h : ∀ ty ∈ args, ty.Written schema) : (TypeExpr.apply shape args).Written schema := by
  refine .node (fun name isRecord => ?_) h fun _ mem => absurd mem List.not_mem_nil
  rw [plain] at isRecord
  cases isRecord

theorem leaf {shape : Shape} (plain : shape.recordName? = none) :
    (TypeExpr.apply shape []).Written schema :=
  .apply plain fun _ mem => absurd mem List.not_mem_nil

theorem optional {inner : TypeExpr} (h : inner.Written schema) :
    (TypeExpr.optional inner).Written schema :=
  .apply rfl (List.forall_mem_singleton.2 h)

theorem arg (h : ty.Written schema) (index : Nat) : (ty.arg index).Written schema := by
  rcases ty.arg_mem_or_any index with mem | isAny
  · exact h.args _ mem
  · exact isAny ▸ .leaf rfl

theorem resolve (h : ty.Written schema) : (schema.resolve ty).Written schema := by
  induction h with
  | @node shape args literals record _ areLiterals ih =>
    rw [Schema.resolve, TypeExpr.mapShapes, mapAllShapes_eq]
    refine .node (fun name isRecord => ?_) (fun inner mem => ?_) areLiterals
    · cases shape with
      | named other =>
        rw [Schema.resolveShape, Schema.classify] at isRecord
        split at isRecord
        case h_1 declared =>
          cases isRecord
          rw [declared]
          rfl
        case h_2 => split_ifs at isRecord <;> cases isRecord
      | _ => exact record name isRecord
    · obtain ⟨original, isArg, rfl⟩ := List.mem_map.1 mem
      exact ih original isArg

end Written
end TypeExpr

namespace Registry

variable {registry : Registry}

theorem written_ancestorType (name : String) : (ancestorType schema name).Written schema := by
  unfold ancestorType
  split
  · exact .leaf rfl
  · exact (TypeExpr.Written.leaf rfl).resolve

theorem inherited?_written {names : List String} {handler : Handler} {target : TypeExpr}
    (h : registry.inherited? schema names = some (handler, target)) : target.Written schema := by
  induction names with
  | nil => cases h
  | cons name rest ih =>
    rw [inherited?] at h
    split at h
    · cases h
      exact written_ancestorType name
    · exact ih h

theorem resolve_written {ty target : TypeExpr} {handler : Handler} (written : ty.Written schema)
    (h : registry.resolve schema ty = .ok (handler, target)) : target.Written schema := by
  unfold resolve at h
  split at h
  · cases h
    exact written
  · split at h
    · split at h
      case h_1 found =>
        cases h
        exact inherited?_written found
      case h_2 => cases h
    · split at h
      case h_1 found =>
        cases h
        exact inherited?_written found
      case h_2 => cases h
    · cases h

end Registry

theorem Handled.written {registry : Registry} {ty target : TypeExpr} {handler : Handler}
    (handled : Handled schema registry ty handler target) (h : ty.Written schema) :
    target.Written schema :=
  Registry.resolve_written h.resolve handled

namespace TypeExpr

section Unions

theorem distinct_concat (members : List TypeExpr) (ty : TypeExpr) :
    distinct (members ++ [ty]) =
      if (distinct members).any (fun seen => same seen ty) then distinct members
      else distinct members ++ [ty] := by
  unfold distinct
  rw [List.foldl_append, List.foldl_cons, List.foldl_nil]

theorem distinct_sublist (members : List TypeExpr) : (distinct members).Sublist members := by
  induction members using List.reverseRecOn with
  | nil => exact .slnil
  | append_singleton members ty ih =>
    rw [distinct_concat]
    split
    · exact ih.trans (List.sublist_append_left _ _)
    · exact ih.append (.refl _)

theorem Written.alternatives {member : TypeExpr} (h : member.Written schema) :
    ∀ ty ∈ alternatives member, ty.Written schema := by
  unfold TypeExpr.alternatives
  split
  · exact h.args
  · exact List.forall_mem_cons.2 ⟨.leaf rfl, h.args⟩
  · exact List.forall_mem_singleton.2 h

theorem Written.unionOf {members : List TypeExpr} (h : ∀ ty ∈ members, ty.Written schema) :
    (unionOf members).Written schema := by
  unfold TypeExpr.unionOf
  simp only
  generalize arms : distinct ((members.flatMap TypeExpr.alternatives).filter
    fun ty => !ty.isNull) = found
  have all : ∀ ty ∈ found, ty.Written schema := by
    intro ty mem
    have isAlternative := (List.mem_filter.1 ((distinct_sublist _).subset (arms ▸ mem))).1
    obtain ⟨member, isMember, mem⟩ := List.mem_flatMap.1 isAlternative
    exact (h member isMember).alternatives ty mem
  split
  · exact .leaf rfl
  · have only := all _ List.mem_cons_self
    split
    · exact only.optional
    · exact only
  · split
    · exact (Written.apply rfl all).optional
    · exact .apply rfl all

end Unions

section Parsing

/-- The number in a token is one that a literal type can list. -/
def Token.Plain : Token → Prop
  | .num n => (Json.number n).IsLiteral
  | _ => True

def Argument.Written (schema : Schema) : Argument → Prop
  | .type ty _ => ty.Written schema
  | .literal v _ => v.IsLiteral
  | _ => True

def PlainTokens (ts : List Lexeme) : Prop := ∀ lexeme ∈ ts, lexeme.token.Plain

theorem PlainTokens.tail {first : Lexeme} {ts : List Lexeme} (h : PlainTokens (first :: ts)) :
    PlainTokens ts :=
  fun lexeme mem => h lexeme (List.mem_cons_of_mem _ mem)

theorem isLiteral_of_numberToken? {text : List Char} {n : Json.Number}
    (h : numberToken? text = some n) : (Json.number n).IsLiteral := by
  unfold numberToken? at h
  split at h
  case h_1 n found =>
    cases h
    have := n.toInt_lt
    change n.toInt < 0x8000000000000000
    omega
  case h_2 =>
    obtain ⟨x, -, rfl⟩ := Option.map_eq_some_iff.1 h
    trivial

theorem plain_of_nextToken {text rest : List Char} {token : Token} {size : Nat}
    (h : nextToken text = .ok (token, size, rest)) : token.Plain := by
  unfold nextToken at h
  split at h
  case h_8 c more =>
    split at h
    · split at h
      · cases h
        trivial
      · cases h
    · split at h
      · simp only at h
        split at h
        case h_1 n found =>
          cases h
          exact isLiteral_of_numberToken? found
        case h_2 => cases h
      · split at h
        · cases h
          trivial
        · cases h
  all_goals
    cases h
    try trivial

theorem plain_of_lexFrom {fuel offset : Nat} {text : List Char} {ts : List Lexeme}
    (h : lexFrom fuel offset text = some (.ok ts)) : PlainTokens ts := by
  intro lexeme mem
  obtain ⟨_, _, _, next⟩ := exists_nextToken_of_mem h mem
  exact plain_of_nextToken next

theorem written_of_typesOnly {head : String} {args : List Argument} {types : List TypeExpr}
    (all : ∀ arg ∈ args, arg.Written schema) (h : typesOnly head args = .ok types) :
    ∀ ty ∈ types, ty.Written schema := by
  induction args generalizing types with
  | nil =>
    cases h
    exact fun _ mem => absurd mem List.not_mem_nil
  | cons arg rest ih =>
    obtain ⟨first, others⟩ := List.forall_mem_cons.1 all
    cases arg with
    | type ty offset =>
      rw [typesOnly] at h
      cases more : typesOnly head rest with
      | error e =>
        rw [more] at h
        cases h
      | ok types =>
        rw [more] at h
        cases h
        exact List.forall_mem_cons.2 ⟨first, ih others more⟩
    | _ => cases h

theorem isLiteral_of_literalsOnly {args : List Argument} {values : List Json}
    (all : ∀ arg ∈ args, arg.Written schema) (h : literalsOnly args = .ok values) :
    ∀ v ∈ values, v.IsLiteral := by
  induction args generalizing values with
  | nil =>
    cases h
    exact fun _ mem => absurd mem List.not_mem_nil
  | cons arg rest ih =>
    obtain ⟨first, others⟩ := List.forall_mem_cons.1 all
    cases arg with
    | literal v offset =>
      rw [literalsOnly] at h
      cases more : literalsOnly rest with
      | error e =>
        rw [more] at h
        cases h
      | ok values =>
        rw [more] at h
        cases h
        exact List.forall_mem_cons.2 ⟨first, ih others more⟩
    | _ => cases h

theorem checkArity_eq_ok {head : String} {offset expected : Nat} {args types : List TypeExpr}
    (h : checkArity head offset expected args = .ok types) : types = args := by
  unfold checkArity at h
  split at h
  · cases h
    rfl
  · cases h

theorem written_of_buildTuple {head : String} {offset : Nat} {args : Option (List Argument)}
    {ty : TypeExpr} (all : ∀ found, args = some found → ∀ arg ∈ found, arg.Written schema)
    (h : buildTuple head offset args = .ok ty) : ty.Written schema := by
  unfold buildTuple at h
  split at h
  case h_1 =>
    cases h
    exact .apply rfl (List.forall_mem_singleton.2 (.leaf rfl))
  case h_2 =>
    cases h
    exact .leaf rfl
  case h_3 item _ _ =>
    cases h
    have isItem : item.Written schema := all _ rfl _ List.mem_cons_self
    exact .apply rfl (List.forall_mem_singleton.2 isItem)
  case h_4 args _ _ =>
    obtain ⟨items, areTypes, h⟩ := bind_eq_ok_iff.1 h
    split at h
    · cases h
    · cases h
      exact .apply rfl (written_of_typesOnly (all args rfl) areTypes)

theorem written_of_headOf {name : String} {shape : Shape} {defaults : List TypeExpr}
    (h : headOf name = .container shape defaults) :
    shape.recordName? = none ∧ ∀ ty ∈ defaults, ty.Written schema := by
  have isAny : any.Written schema := .leaf rfl
  have isText : (primitive .str).Written schema := .leaf rfl
  unfold headOf at h
  split_ifs at h <;> cases h <;> simp [Shape.recordName?, isAny, isText]

theorem written_of_build {name : String} {offset : Nat} {args : Option (List Argument)}
    {ty : TypeExpr} (all : ∀ found, args = some found → ∀ arg ∈ found, arg.Written schema)
    (h : build name offset args = .ok ty) : ty.Written schema := by
  have given : ∀ arg ∈ args.getD [], arg.Written schema := by
    cases args with
    | none => exact fun _ mem => absurd mem List.not_mem_nil
    | some found => exact all found rfl
  unfold build at h
  cases isHead : headOf name with
  | optional =>
    rw [isHead] at h
    obtain ⟨types, areTypes, h⟩ := bind_eq_ok_iff.1 h
    obtain ⟨types', checked, h⟩ := bind_eq_ok_iff.1 h
    cases h
    rw [checkArity_eq_ok checked]
    refine .unionOf (List.forall_mem_append.2 ⟨written_of_typesOnly given areTypes, ?_⟩)
    exact List.forall_mem_singleton.2 (.leaf rfl)
  | union =>
    rw [isHead] at h
    obtain ⟨types, areTypes, h⟩ := bind_eq_ok_iff.1 h
    split at h
    · cases h
    · cases h
      exact .unionOf (written_of_typesOnly given areTypes)
  | literal =>
    rw [isHead] at h
    simp only at h
    split at h
    · cases h
    · cases found : literalsOnly (args.getD []) with
      | error e =>
        rw [found] at h
        cases h
      | ok values =>
        rw [found] at h
        cases h
        refine .node nofun (fun _ mem => absurd mem List.not_mem_nil) ?_
        exact isLiteral_of_literalsOnly given found
  | tuple =>
    rw [isHead] at h
    exact written_of_buildTuple all h
  | container shape defaults =>
    rw [isHead] at h
    obtain ⟨plain, defaultTypes⟩ : shape.recordName? = none ∧ ∀ ty ∈ defaults, ty.Written schema :=
      written_of_headOf isHead
    cases args with
    | none =>
      obtain ⟨types, areDefaults, h⟩ := bind_eq_ok_iff.1 h
      obtain ⟨types', checked, h⟩ := bind_eq_ok_iff.1 h
      cases h
      cases areDefaults
      rw [checkArity_eq_ok checked]
      exact .apply plain defaultTypes
    | some found =>
      obtain ⟨types, areTypes, h⟩ := bind_eq_ok_iff.1 h
      obtain ⟨types', checked, h⟩ := bind_eq_ok_iff.1 h
      cases h
      rw [checkArity_eq_ok checked]
      exact .apply plain (written_of_typesOnly given areTypes)
  | plain =>
    rw [isHead] at h
    simp only at h
    split at h
    · cases h
    · split at h <;> cases h <;> exact .leaf rfl

/-- What the parser reads is written, and it leaves tokens of the text. -/
structure ParsesWritten (schema : Schema) (finish fuel : Nat) : Prop where
  union : ∀ {ts rest ty}, PlainTokens ts → parseUnion finish fuel ts = .ok (ty, rest) →
    ty.Written schema ∧ PlainTokens rest
  arms : ∀ {ts rest tys}, PlainTokens ts → parseArms finish fuel ts = .ok (tys, rest) →
    (∀ ty ∈ tys, ty.Written schema) ∧ PlainTokens rest
  term : ∀ {ts rest ty}, PlainTokens ts → parseTerm finish fuel ts = .ok (ty, rest) →
    ty.Written schema ∧ PlainTokens rest
  args : ∀ {literals ts rest args}, PlainTokens ts →
    parseArgs finish literals fuel ts = .ok (args, rest) →
    (∀ arg ∈ args, arg.Written schema) ∧ PlainTokens rest
  arg : ∀ {literals ts rest arg}, PlainTokens ts →
    parseArg finish literals fuel ts = .ok (arg, rest) → arg.Written schema ∧ PlainTokens rest

section
variable {finish fuel : Nat} {ts rest : List Lexeme}

theorem ParsesWritten.union_succ (ih : ParsesWritten schema finish fuel) {ty : TypeExpr}
    (plain : PlainTokens ts) (h : parseUnion finish (fuel + 1) ts = .ok (ty, rest)) :
    ty.Written schema ∧ PlainTokens rest := by
  rw [parseUnion] at h
  obtain ⟨⟨first, afterFirst⟩, isFirst, h⟩ := bind_eq_ok_iff.1 h
  obtain ⟨⟨more, afterMore⟩, areMore, h⟩ := bind_eq_ok_iff.1 h
  cases h
  obtain ⟨written, plain⟩ := ih.term plain isFirst
  obtain ⟨others, plain⟩ := ih.arms plain areMore
  refine ⟨?_, plain⟩
  split
  · exact written
  · exact .unionOf (List.forall_mem_cons.2 ⟨written, others⟩)

theorem ParsesWritten.arms_succ (ih : ParsesWritten schema finish fuel) {tys : List TypeExpr}
    (plain : PlainTokens ts) (h : parseArms finish (fuel + 1) ts = .ok (tys, rest)) :
    (∀ ty ∈ tys, ty.Written schema) ∧ PlainTokens rest := by
  rw [parseArms.eq_def] at h
  simp only at h
  split at h
  · obtain ⟨⟨arm, afterArm⟩, isArm, h⟩ := bind_eq_ok_iff.1 h
    obtain ⟨⟨more, afterMore⟩, areMore, h⟩ := bind_eq_ok_iff.1 h
    cases h
    obtain ⟨written, plain⟩ := ih.term plain.tail isArm
    obtain ⟨others, plain⟩ := ih.arms plain areMore
    exact ⟨List.forall_mem_cons.2 ⟨written, others⟩, plain⟩
  · cases h
    exact ⟨fun _ mem => absurd mem List.not_mem_nil, plain⟩

theorem ParsesWritten.term_succ (ih : ParsesWritten schema finish fuel) {ty : TypeExpr}
    (plain : PlainTokens ts) (h : parseTerm finish (fuel + 1) ts = .ok (ty, rest)) :
    ty.Written schema ∧ PlainTokens rest := by
  rw [parseTerm.eq_def] at h
  simp only at h
  split at h
  · cases h
  · obtain ⟨⟨args, afterArgs⟩, areArgs, h⟩ := bind_eq_ok_iff.1 h
    obtain ⟨written, plain⟩ := ih.args plain.tail.tail areArgs
    simp only at h
    split at h
    · obtain ⟨ty, built, h⟩ := bind_eq_ok_iff.1 h
      cases h
      refine ⟨written_of_build (fun found isFound => ?_) built, plain.tail⟩
      cases isFound
      exact written
    · cases h
  · obtain ⟨ty, built, h⟩ := bind_eq_ok_iff.1 h
    cases h
    refine ⟨written_of_build ?_ built, plain.tail⟩
    nofun
  · cases h

theorem ParsesWritten.args_succ (ih : ParsesWritten schema finish fuel) {literals : Bool}
    {args : List Argument} (plain : PlainTokens ts)
    (h : parseArgs finish literals (fuel + 1) ts = .ok (args, rest)) :
    (∀ arg ∈ args, arg.Written schema) ∧ PlainTokens rest := by
  rw [parseArgs.eq_def] at h
  simp only at h
  split at h
  · cases h
    exact ⟨fun _ mem => absurd mem List.not_mem_nil, plain⟩
  · obtain ⟨⟨arg, afterArg⟩, isArg, h⟩ := bind_eq_ok_iff.1 h
    obtain ⟨written, plain⟩ := ih.arg plain isArg
    simp only at h
    split at h
    · obtain ⟨⟨more, afterMore⟩, areMore, h⟩ := bind_eq_ok_iff.1 h
      cases h
      obtain ⟨others, plain⟩ := ih.args plain.tail areMore
      exact ⟨List.forall_mem_cons.2 ⟨written, others⟩, plain⟩
    · cases h
      exact ⟨List.forall_mem_singleton.2 written, plain⟩

theorem ParsesWritten.argument_of_type (ih : ParsesWritten schema finish fuel)
    (plain : PlainTokens ts)
    {offset : Nat} {arg : Argument}
    (h : (parseUnion finish fuel ts).map (fun (ty, ts) => (Argument.type ty offset, ts)) =
      .ok (arg, rest)) : arg.Written schema ∧ PlainTokens rest := by
  cases parsed : parseUnion finish fuel ts with
  | error e =>
    rw [parsed] at h
    cases h
  | ok found =>
    rw [parsed] at h
    cases h
    exact ih.union plain parsed

theorem isLiteral_of_literalName? {name : String} {v : Json} (h : literalName? name = some v) :
    v.IsLiteral := by
  unfold literalName? at h
  split_ifs at h <;> cases h <;> trivial

theorem ParsesWritten.arg_succ (ih : ParsesWritten schema finish fuel) {literals : Bool}
    {arg : Argument} (plain : PlainTokens ts)
    (h : parseArg finish literals (fuel + 1) ts = .ok (arg, rest)) :
    arg.Written schema ∧ PlainTokens rest := by
  rw [parseArg.eq_def] at h
  simp only at h
  split at h
  · cases h
  · cases h
    exact ⟨trivial, plain.tail⟩
  · cases h
    exact ⟨trivial, plain.tail⟩
  · cases h
    exact ⟨plain _ List.mem_cons_self, plain.tail⟩
  · split at h
    · cases h
      exact ⟨trivial, plain.tail.tail⟩
    · cases h
  · split at h
    · split at h
      case h_1 found =>
        cases h
        exact ⟨isLiteral_of_literalName? found, plain.tail⟩
      case h_2 => exact ih.argument_of_type plain h
    · exact ih.argument_of_type plain h

end

theorem parsesWritten (schema : Schema) (finish fuel : Nat) : ParsesWritten schema finish fuel := by
  induction fuel with
  | zero =>
    refine ⟨?_, ?_, ?_, ?_, ?_⟩ <;> intros <;>
      simp_all [parseUnion, parseArms, parseTerm, parseArgs, parseArg]
  | succ fuel ih =>
    exact ⟨ih.union_succ, ih.arms_succ, ih.term_succ, ih.args_succ, ih.arg_succ⟩

/-- Every type expression is written. -/
theorem written_of_parse {text : String} {ty : TypeExpr} (h : parse text = some (.ok ty)) :
    ty.Written schema := by
  obtain ⟨ts, lexed, h⟩ := exists_of_parse h
  obtain ⟨⟨found, rest⟩, parsed, h⟩ := bind_eq_ok_iff.1 h
  simp only at h
  split at h
  · cases h
    exact ((parsesWritten schema _ _).union (plain_of_lexFrom lexed) parsed).1
  · cases h

end Parsing
end TypeExpr

/-- The instance is a scalar or an empty container. -/
structure Instance.Hollow (v : Instance) : Prop where
  items : v.items?.getD [] = []
  entries : v.entries?.getD [] = []
  notRecord : ∀ type fields, v ≠ .record type fields

/-- What is known of a field that a document declares. -/
structure Field.Documented (f : Field) : Prop where
  type : ∀ schema, f.type.Written schema
  default : ∀ v, f.default = some (.value v) ∨ f.default = some (.fresh v) → v.Hollow

namespace Schema

open Routine (Run)
open Routine.Run (Returns)

theorem hollow_of_namedFactory? {name : String} {v : Instance} (h : namedFactory? name = some v) :
    v.Hollow := by
  unfold namedFactory? at h
  split at h <;> cases h <;> exact ⟨rfl, rfl, nofun⟩

theorem hollow_of_defaultOfDecl {record : String} {decl : Document.FieldDecl}
    {default : Option FieldDefault} (h : defaultOfDecl record decl = .ok default) (v : Instance)
    (isDefault : default = some (.value v) ∨ default = some (.fresh v)) : v.Hollow := by
  unfold defaultOfDecl at h
  split at h
  · cases h
  · cases h
    simp at isDefault
  · split at h
    case h_1 made found =>
      cases h
      have same : made = v := by simpa using isDefault
      exact same ▸ hollow_of_namedFactory? found
    case h_2 => cases h
  · cases h
    simp at isDefault

theorem typeOfDecl_returns_iff {record : String} {decl : Document.FieldDecl} {ty : TypeExpr} :
    (typeOfDecl record decl).Returns ty ↔ TypeExpr.parse decl.type = some (.ok ty) := by
  unfold typeOfDecl
  cases TypeExpr.parse decl.type with
  | none => simp
  | some read =>
    cases read with
    | error e => simp [RecordType.refuse]
    | ok found => simp

theorem documented_of_fieldOfDecl {record : String} {decl : Document.FieldDecl} {f : Field}
    (h : (fieldOfDecl record decl).Returns f) : f.Documented := by
  obtain ⟨type, isType, h⟩ := Returns.bind_iff.1 h
  obtain ⟨default, isDefault, h⟩ := Returns.bind_iff.1 h
  obtain rfl := Returns.pure_iff.1 h
  exact ⟨fun _ => TypeExpr.written_of_parse (typeOfDecl_returns_iff.1 isType),
    hollow_of_defaultOfDecl (Returns.ofExcept_iff.1 isDefault)⟩

theorem forall_of_mapM_returns {α β : Type} {f : α → Run β} {P : β → Prop}
    (each : ∀ a b, (f a).Returns b → P b) {as : List α} {bs : List β}
    (h : (as.mapM f).Returns bs) : ∀ b ∈ bs, P b := by
  induction as generalizing bs with
  | nil =>
    obtain rfl := Returns.pure_iff.1 h
    exact fun _ mem => absurd mem List.not_mem_nil
  | cons a rest ih =>
    rw [List.mapM_cons] at h
    obtain ⟨first, isFirst, h⟩ := Returns.bind_iff.1 h
    obtain ⟨others, areOthers, h⟩ := Returns.bind_iff.1 h
    obtain rfl := Returns.pure_iff.1 h
    exact List.forall_mem_cons.2 ⟨each a first isFirst, ih areOthers⟩

theorem documented_of_recordOfDecl {decl : Document.RecordDecl} {r : RecordType}
    (h : (recordOfDecl decl).Returns r) : ∀ f ∈ r.fields, f.Documented := by
  obtain ⟨config, -, h⟩ := Returns.bind_iff.1 h
  obtain ⟨fields, read, h⟩ := Returns.bind_iff.1 h
  obtain rfl := Returns.pure_iff.1 h
  exact forall_of_mapM_returns (fun _ _ => documented_of_fieldOfDecl) read

/-- A declared schema of which every field is documented. -/
structure Documented (schema : Schema) : Prop where
  declared : schema.Declared
  fields : ∀ name r, schema.record? name = some r → ∀ f ∈ r.fields, f.Documented

theorem Documented.record {s s' : Schema} {decl : Document.RecordDecl} (h : s.Documented)
    (added : (recordOfDecl decl >>= fun r => .ofExcept (s.addRecord r)).Returns s') :
    s'.Documented := by
  obtain ⟨r, isRecord, added⟩ := Returns.bind_iff.1 added
  rw [Returns.ofExcept_iff] at added
  refine ⟨.record r h.declared added, fun name other found => ?_⟩
  obtain ⟨-, -, rfl⟩ := addRecord_eq_ok added
  rw [record?, Table.get?_insert] at found
  split at found
  · cases found
    exact documented_of_recordOfDecl isRecord
  · exact h.fields name other found

theorem Documented.enum {s s' : Schema} {e : EnumType} (h : s.Documented)
    (added : s.addEnum e = .ok s') : s'.Documented := by
  refine ⟨.enum e h.declared added, ?_⟩
  obtain rfl := addEnum_eq_ok added
  exact h.fields

theorem Documented.custom {s s' : Schema} {name : String} {base : Option String}
    (h : s.Documented) (added : s.addCustom name base = .ok s') : s'.Documented := by
  refine ⟨.custom name base h.declared added, ?_⟩
  obtain rfl := addCustom_eq_ok added
  exact h.fields

theorem of_foldlM_returns {α σ : Type} {step : σ → α → Run σ} {P : σ → Prop}
    (each : ∀ s a s', P s → (step s a).Returns s' → P s') {as : List α} {s s' : σ} (start : P s)
    (h : (as.foldlM step s).Returns s') : P s' := by
  induction as generalizing s with
  | nil =>
    obtain rfl := Returns.pure_iff.1 h
    exact start
  | cons a rest ih =>
    rw [List.foldlM_cons] at h
    obtain ⟨next, isNext, h⟩ := Returns.bind_iff.1 h
    exact ih (each s a next start isNext) h

theorem documented_of_ofDocument {d : Document} {schema : Schema}
    (h : (ofDocument d).Returns schema) : schema.Documented := by
  obtain ⟨withEnums, enums, h⟩ := Returns.bind_iff.1 h
  obtain ⟨withCustoms, customs, h⟩ := Returns.bind_iff.1 h
  have start : Documented {} := ⟨.empty, fun _ _ found => by cases found⟩
  have first : withEnums.Documented := of_foldlM_returns
    (fun _ _ _ old added => old.enum (Returns.ofExcept_iff.1 added)) start enums
  have second : withCustoms.Documented := of_foldlM_returns
    (fun _ _ _ old added => old.custom (Returns.ofExcept_iff.1 added)) first customs
  exact of_foldlM_returns (P := Documented) (fun _ _ _ old => old.record) second h

end Schema
end RecordCodec
