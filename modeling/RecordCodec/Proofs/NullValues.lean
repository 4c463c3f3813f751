import RecordCodec.Proofs.Encodable
import RecordCodec.Proofs.SampleReferences
import RecordCodec.Proofs.Unions

set_option autoImplicit false

/-!
# What takes null

Whether a type takes null is told by its shape, and for a union by the shapes of its arms. The
decoder that is compiled for the type says the same, whatever routines it calls: a record refuses
null, and in a union null has no tag, so that every arm is tried. A name that is not declared gets
the handler of the scalar that it spells, and then its shape does not tell.
-/
namespace RecordCodec

open Routine Compile

/-- The type itself, its arms if it is a union, and what these have for arms. -/
inductive TypeExpr.HasArm : TypeExpr → TypeExpr → Prop where
  | self (ty : TypeExpr) : HasArm ty ty
  | arm {ty inner arm : TypeExpr} : ty.shape = .union → inner ∈ ty.args → HasArm inner arm →
    HasArm ty arm

theorem TypeExpr.HasArm.eq_of_not_union {ty arm : TypeExpr} (h : ty.HasArm arm)
    (notUnion : ty.shape ≠ .union) : arm = ty := by
  cases h with
  | self => rfl
  | arm isUnion => exact absurd isUnion notUnion

/-- Types of the shape are no enumerations and no custom types, and what they are called is not
what a scalar that takes null is called. -/
def Shape.TellsOfNull : Shape → Prop
  | .enumeration _ | .custom _ => False
  | .record _ name | .named name => name ≠ Primitive.null.name ∧ name ≠ Primitive.any.name
  | _ => True

/-- The handler makes a decoder that takes null, if a union goes by what its arms say. -/
def Handler.takesNull (target : TypeExpr) : Handler → Bool
  | .scalar p => p == .null || p == .any
  | .optional => true
  | .literal => target.literals.any Json.isNull
  | .union => TypeExpr.anyAcceptsNull target.args
  | _ => false

theorem TypeExpr.anyAcceptsNull_eq (tys : List TypeExpr) :
    anyAcceptsNull tys = tys.any acceptsNull := by
  induction tys with
  | nil => rfl
  | cons ty rest ih => rw [anyAcceptsNull, ih, List.any_cons]

/-! ### Handlers -/

namespace Schema

variable {schema : Schema} {name : String}

theorem customs_of_classify (h : schema.classify name = .named name) :
    schema.customs.contains name = false := by
  unfold classify at h
  split at h
  · cases h
  · split at h
    · cases h
    · split at h
      case isTrue => cases h
      case isFalse other => simpa using other

theorem ancestors_of_not_custom (h : schema.customs.contains name = false) :
    schema.ancestors name = [] := by
  have absent : schema.customs.get? name = none := by simpa [Table.contains] using h
  have noBase : schema.base? name = none := by
    rw [base?, absent]
    rfl
  unfold ancestors
  cases schema.customs.entries.length with
  | zero => rfl
  | succ n => rw [ancestorsFrom, noBase]

end Schema

namespace Registry

variable {schema : Schema} {registry : Registry} {ty target : TypeExpr} {handler : Handler}
  {name : String}

theorem exists_of_get?_builtin_type (h : builtin.get? (.type name) = some handler) :
    ∃ p, handler = .scalar p ∧ name = p.name := by
  rcases List.mem_append.1 (Assoc.mem_of_get? h) with ofPrimitive | ofShape
  · obtain ⟨p, -, same⟩ := List.mem_map.1 ofPrimitive
    cases same
    exact ⟨p, rfl, rfl⟩
  · obtain ⟨e, -, same⟩ := List.mem_map.1 ofShape
    cases same

theorem lookup?_of_typeName? (isName : ty.shape.typeName? = some name) :
    registry.lookup? ty =
      (registry.get? (.type name)).or (registry.get? (.shape ty.shape.kind)) := by
  rw [lookup?, isName, Option.bind_some]

theorem eq_of_resolve {found : Handler} (h : registry.resolve schema ty = .ok (handler, target))
    (isFound : registry.lookup? ty = some found) : handler = found ∧ target = ty := by
  rw [resolve, isFound] at h
  cases h
  exact ⟨rfl, rfl⟩

theorem eq_of_resolve_record {kind : RecordKind} {args : List TypeExpr} {literals : List Json}
    (h : builtin.resolve schema ⟨.record kind name, args, literals⟩ = .ok (handler, target)) :
    target = ⟨.record kind name, args, literals⟩ ∧
      (handler = .record ∨ ∃ p, handler = .scalar p ∧ name = p.name) := by
  have byShape : builtin.get? (.shape (.record kind)) = some .record := by cases kind <;> rfl
  cases found : builtin.get? (.type name) with
  | none =>
    obtain ⟨rfl, rfl⟩ := eq_of_resolve h
      ((lookup?_of_typeName? rfl).trans (by rw [found, Option.none_or]; exact byShape))
    exact ⟨rfl, .inl rfl⟩
  | some byName =>
    obtain ⟨rfl, rfl⟩ := eq_of_resolve h
      ((lookup?_of_typeName? rfl).trans (by rw [found, Option.some_or]))
    exact ⟨rfl, .inr (exists_of_get?_builtin_type found)⟩

theorem eq_of_resolve_named {args : List TypeExpr} {literals : List Json}
    (undeclared : schema.classify name = .named name)
    (h : builtin.resolve schema ⟨.named name, args, literals⟩ = .ok (handler, target)) :
    target = ⟨.named name, args, literals⟩ ∧ ∃ p, handler = .scalar p ∧ name = p.name := by
  cases found : builtin.get? (.type name) with
  | none =>
    have orphan := Schema.ancestors_of_not_custom (Schema.customs_of_classify undeclared)
    have unknown : builtin.lookup? ⟨.named name, args, literals⟩ = none :=
      (lookup?_of_typeName? rfl).trans (by rw [found, Option.none_or]; rfl)
    rw [resolve, unknown] at h
    simp only [orphan, inherited?] at h
    cases h
  | some byName =>
    obtain ⟨rfl, rfl⟩ := eq_of_resolve h
      ((lookup?_of_typeName? rfl).trans (by rw [found, Option.some_or]))
    exact ⟨rfl, exists_of_get?_builtin_type found⟩

end Registry

theorem Handler.takesNull_scalar {p : Primitive} (target : TypeExpr)
    (other : p.name ≠ Primitive.null.name ∧ p.name ≠ Primitive.any.name) :
    (Handler.scalar p).takesNull target = false := by
  cases p <;> first | rfl | exact absurd rfl other.1 | exact absurd rfl other.2

/-- A shape that tells of null has a handler that says the same, and only unions are handled as
unions. -/
theorem Handled.takesNull {schema : Schema} {ty target : TypeExpr} {handler : Handler}
    (handled : Handled schema .builtin ty handler target)
    (tells : (schema.resolve ty).shape.TellsOfNull) :
    target = schema.resolve ty ∧ (handler = .union → target.shape = .union) ∧
      handler.takesNull target = target.acceptsNull := by
  have settled : schema.resolve (schema.resolve ty) = schema.resolve ty := schema.resolve_resolve ty
  unfold Handled at handled
  generalize schema.resolve ty = resolved at handled tells settled
  obtain ⟨shape, args, literals⟩ := resolved
  cases shape with
  | primitive p =>
    have found : Registry.builtin.lookup? ⟨.primitive p, args, literals⟩ = some (.scalar p) := by
      cases p <;> rfl
    obtain ⟨rfl, rfl⟩ := Registry.eq_of_resolve handled found
    exact ⟨rfl, nofun, by cases p <;> rfl⟩
  | union =>
    obtain ⟨rfl, rfl⟩ := Registry.eq_of_resolve handled rfl
    exact ⟨rfl, fun _ => rfl, rfl⟩
  | optional | sequence | set | mapping | defaultMapping | fixedTuple | variadicTuple | literal =>
    obtain ⟨rfl, rfl⟩ := Registry.eq_of_resolve handled rfl
    exact ⟨rfl, nofun, rfl⟩
  | enumeration | custom => exact tells.elim
  | record kind name =>
    obtain ⟨rfl, rfl | ⟨p, rfl, rfl⟩⟩ := Registry.eq_of_resolve_record handled
    · exact ⟨rfl, nofun, rfl⟩
    · exact ⟨rfl, nofun, Handler.takesNull_scalar _ tells⟩
  | named name =>
    have undeclared : schema.classify name = .named name := congrArg TypeExpr.shape settled
    obtain ⟨rfl, p, rfl, rfl⟩ := Registry.eq_of_resolve_named undeclared handled
    exact ⟨rfl, nofun, Handler.takesNull_scalar _ tells⟩

/-! ### Decoders -/

namespace Routine.Run

variable {α β : Type} {r : Run α} {b : Bool}

/-- The run ends, and with a result just if the answer is yes. -/
def Answers (r : Run α) (b : Bool) : Prop := r.run.map Except.isOk = some b

theorem Answers.cases (h : r.Answers b) :
    (∃ a, r.Returns a) ∧ b = true ∨ (∃ e, r.Fails e) ∧ b = false := by
  unfold Answers at h
  unfold Returns Fails
  cases ran : r.run with
  | none =>
    rw [ran] at h
    cases h
  | some result =>
    rw [ran] at h
    cases result with
    | ok a =>
      cases h
      exact .inl ⟨⟨a, rfl⟩, rfl⟩
    | error e =>
      cases h
      exact .inr ⟨⟨e, rfl⟩, rfl⟩

theorem Answers.firstSuccess {ι : Type} {failure : Failure} {v : α} {convert : ι → α → Run β}
    {answer : ι → Bool} {xs : List ι} (each : ∀ x ∈ xs, (convert x v).Answers (answer x)) :
    (Converter.firstSuccess failure v (xs.map convert)).Answers (xs.any answer) := by
  induction xs with
  | nil => rfl
  | cons x rest ih =>
    obtain ⟨first, others⟩ := List.forall_mem_cons.1 each
    rw [List.map_cons, List.any_cons, Converter.firstSuccess]
    rcases first.cases with ⟨⟨a, returns⟩, yes⟩ | ⟨⟨e, fails⟩, no⟩
    · rw [returns, yes]
      rfl
    · rw [fails, no, Bool.false_or]
      exact ih others

end Routine.Run

open Routine.Run

namespace Converter

theorem any_trialOrder {α : Type} {preferred answer : α → Bool} {xs : List α} :
    (trialOrder preferred xs).any answer = xs.any answer := by
  rw [Bool.eq_iff_iff, List.any_eq_true, List.any_eq_true]
  simp only [mem_trialOrder]

/-- Null has no tag, so every arm of a union is tried. -/
theorem decodeUnion_null {plan : UnionPlan} {decoders : List Decode}
    (even : plan.arms.length = decoders.length)
    (each : ∀ x ∈ plan.arms.zip decoders, (x.2 .null).Answers x.1.type.acceptsNull) :
    (decodeUnion plan decoders .null).Answers (plan.arms.any fun arm => arm.type.acceptsNull) := by
  have noTag : (if plan.isTagged then (Json.null.get? plan.key).bind Json.string? else none) =
      none := ite_self none
  have arms : plan.arms.any (fun arm => arm.type.acceptsNull) =
      (plan.arms.zip decoders).any fun x => x.1.type.acceptsNull := by
    calc plan.arms.any (fun arm => arm.type.acceptsNull)
        = ((plan.arms.zip decoders).map Prod.fst).any fun arm => arm.type.acceptsNull := by
          rw [List.map_fst_zip (Nat.le_of_eq even)]
      _ = (plan.arms.zip decoders).any fun x => x.1.type.acceptsNull := List.any_map
  unfold decodeUnion
  simp only [noTag]
  rw [arms, ← any_trialOrder]
  exact .firstSuccess fun x tried => each x (mem_trialOrder.1 tried)

theorem decodeLiteral_null (values : List Json) :
    (Run.ofExcept (decodeLiteral values .null)).Answers (values.any Json.isNull) := by
  have same : Json.contains values .null = values.any Json.isNull := by
    refine congrArg values.any (funext fun v => ?_)
    cases v <;> rfl
  unfold decodeLiteral
  rw [same]
  cases values.any Json.isNull <;> rfl

end Converter

namespace Scalar

theorem decode_null (p : Primitive) :
    (Run.ofExcept (decode p .null)).Answers (p == .null || p == .any) := by
  cases p <;> rfl

end Scalar

theorem TypeExpr.acceptsNull_of_recordName? {ty : TypeExpr} {name : String}
    (isName : ty.shape.recordName? = some name) : ty.acceptsNull = false := by
  obtain ⟨shape, args, literals⟩ := ty
  cases shape with
  | record => rfl
  | _ => cases isName

theorem Direct.Position.any_plan (schema : Schema) (here : Position) (target : TypeExpr) :
    ((here.plan schema target).arms.any fun arm => arm.type.acceptsNull) =
      TypeExpr.anyAcceptsNull target.args := by
  rw [TypeExpr.anyAcceptsNull_eq, plan, List.any_map]
  exact congrArg _ (funext fun arm => congrArg _ (arm_type schema here arm))

theorem Direct.Position.exists_of_mem_zip {schema : Schema} {here : Position} {target : TypeExpr}
    {arms : List Converter} {calls : Calls Json Instance} {x : UnionArm × Converter.Decode}
    (mem : x ∈ (here.plan schema target).arms.zip (arms.map (Converter.decode calls))) :
    ∃ (i : Nat) (inner : TypeExpr) (c : Converter), target.args[i]? = some inner ∧
      arms[i]? = some c ∧ x.1 = here.arm schema inner ∧ x.2 = c.decode calls := by
  obtain ⟨i, isPair⟩ := List.mem_iff_getElem?.1 mem
  obtain ⟨isArm, isDecode⟩ := List.getElem?_zip_eq_some.1 isPair
  rw [Direct.Position.plan, List.getElem?_map] at isArm
  rw [List.getElem?_map] at isDecode
  obtain ⟨inner, isInner, planned⟩ := Option.map_eq_some_iff.1 isArm
  obtain ⟨c, isConverter, decodes⟩ := Option.map_eq_some_iff.1 isDecode
  exact ⟨i, inner, c, isInner, isConverter, planned.symm, decodes.symm⟩

/-- The compiled decoder of a type takes null just if the type says so, as long as every shape that
this depends on tells of null and no call of a routine takes it. -/
theorem Compile.Compiles.decode_null {schema : Schema} {bound : Binding} {here : Direct.Position}
    {ty : TypeExpr} {c : Converter} {calls : Calls Json Instance}
    (compiled : Compiles schema .builtin bound here ty c)
    (refuse : ∀ routine, (calls routine .null).Answers false)
    (tells : ∀ arm, (schema.resolve ty).HasArm arm → arm.shape.TellsOfNull) :
    (c.decode calls .null).Answers (schema.resolve ty).acceptsNull := by
  induction compiled with
  | scalar handled =>
    obtain ⟨rfl, -, same⟩ := handled.takesNull (tells _ (.self _))
    exact same ▸ Scalar.decode_null _
  | optional handled =>
    obtain ⟨rfl, -, same⟩ := handled.takesNull (tells _ (.self _))
    rw [← same]
    rfl
  | items form handled =>
    obtain ⟨rfl, -, same⟩ := handled.takesNull (tells _ (.self _))
    rw [← same]
    cases form <;> rfl
  | tuple handled | mapping handled | defaultMapping handled =>
    obtain ⟨rfl, -, same⟩ := handled.takesNull (tells _ (.self _))
    rw [← same]
    rfl
  | literal handled =>
    obtain ⟨rfl, -, same⟩ := handled.takesNull (tells _ (.self _))
    exact same ▸ Converter.decodeLiteral_null _
  | enumeration handled found =>
    have shape := tells _ (.self _)
    obtain ⟨rfl, -, -⟩ := handled.takesNull shape
    unfold findEnum at found
    split at found
    case h_1 isEnum =>
      rw [isEnum] at shape
      exact shape.elim
    case h_2 => cases found
  | record handled =>
    obtain ⟨rfl, -, same⟩ := handled.takesNull (tells _ (.self _))
    rw [← same]
    exact refuse _
  | @union ty target arms handled count _ records _ ih =>
    obtain ⟨rfl, isUnion, same⟩ := handled.takesNull (tells _ (.self _))
    rw [← same, Handler.takesNull, ← here.any_plan schema, Converter.decode,
      Compiles.decodeAll_eq]
    refine Converter.decodeUnion_null (by simp [Direct.Position.plan, count]) fun x mem => ?_
    obtain ⟨i, inner, c, isInner, isConverter, planned, decodes⟩ :=
      Direct.Position.exists_of_mem_zip mem
    rw [planned, decodes, arm_type]
    have isArg := List.mem_of_getElem? isInner
    -- an arm that is a record is a call, and the others are compiled like types of their own
    cases isName : inner.shape.recordName? with
    | none =>
      have answers := ih i inner c isInner isConverter (here.arm_of_none schema isName).1
        fun arm reached => tells arm (.arm (isUnion rfl) isArg
          (handled.resolve_of_mem isArg ▸ reached))
      rwa [handled.resolve_of_mem isArg] at answers
    | some name =>
      obtain ⟨config, planned, -⟩ := here.exists_record_arm schema isName
      obtain ⟨routine, rfl, -⟩ := records i inner c isInner isConverter name config planned
      rw [TypeExpr.acceptsNull_of_recordName? isName]
      exact refuse routine
  | custom handled => exact absurd rfl (Registry.resolve_builtin_ne_custom handled _ _)

namespace Codec

/-- A decoder that a session of the codec compiles for a type, at whatever point, with the routines
that it has linked in the end. The session may have taken over decoders from the cache. -/
structure TypeDecoder (c : Codec) (ty : TypeExpr) where
  converter : Converter
  session : Session Json Instance
  compiled : ∃ fuel s s',
    (converterFor (Cache.context c.schema c.registry .decoding c.cache.decoders) fuel ty).run s =
      some (.ok converter, s')
  linked : ∃ config site s stamp,
    Moves (Cache.context c.schema c.registry .decoding c.cache.decoders) { config, site } s ∧
      s.synthesis.finalize s.environment stamp = .ok session

namespace TypeDecoder

variable {c : Codec} {ty : TypeExpr}

def decode (d : c.TypeDecoder ty) (fuel : Nat) : Json → Run Instance :=
  d.converter.decode fun name => (({ name } : Handle Json Instance).bind d.session).callWithin fuel

/-- Whatever routine a name is linked to, it decodes a record, and no record is null. -/
theorem call_null (declarations : c.schema.Declared) (history : c.cache.History c.schema c.registry)
    (d : c.TypeDecoder ty) (fuel : Nat) (name : String) :
    ((({ name } : Handle Json Instance).bind d.session).callWithin (fuel + 1) .null).Answers
      false := by
  obtain ⟨config, site, s, stamp, moves, linked⟩ := d.linked
  obtain ⟨codes, lowered, isSession⟩ := finalize_eq_ok linked
  have accounted := moves.accounted Mode.named_decoding (.start config site)
  have lowered : Synthesis.lowerAll s.synthesis.drafts = .ok d.session.codes := by rwa [isSession]
  have environment : d.session.environment = s.environment := by rw [isSession]
  unfold Handle.callWithin Handle.bind
  cases resolved : d.session.resolve? name with
  | none => rfl
  | some routine =>
    obtain ⟨key, -, bound, record, parts, made⟩ :=
      accounted.code_of_resolved history.tracing.1.context lowered environment resolved
    simp only [made.callWithin_decode declarations]
    rfl

theorem decode_null (declarations : c.schema.Declared) (builtin : c.registry = .builtin)
    (history : c.cache.History c.schema c.registry)
    (tells : ∀ arm, (c.schema.resolve ty).HasArm arm → arm.shape.TellsOfNull)
    (d : c.TypeDecoder ty) (fuel : Nat) :
    (d.decode (fuel + 1) .null).Answers (c.schema.resolve ty).acceptsNull := by
  obtain ⟨n, s, s', ran⟩ := d.compiled
  obtain ⟨-, -, compiled⟩ := (converterFor_moves n).compiles trivial ran
  rw [Cache.context, builtin] at compiled
  exact compiled.decode_null (d.call_null declarations history fuel) tells

end TypeDecoder

def compilesType (c : Codec) (fuel : Nat) (ty : TypeExpr) : Bool :=
  match (converterFor (Cache.context c.schema c.registry .decoding c.cache.decoders) fuel ty).run
    {} with
  | some (.ok _, s) => (s.synthesis.finalize s.environment 0).isOk
  | _ => false

theorem nonempty_typeDecoder {c : Codec} {fuel : Nat} {ty : TypeExpr}
    (h : c.compilesType fuel ty = true) : Nonempty (c.TypeDecoder ty) := by
  unfold compilesType at h
  split at h
  case h_1 converter s ran =>
    cases linked : s.synthesis.finalize s.environment 0 with
    | ok session =>
      exact ⟨converter, session, ⟨fuel, {}, s, ran⟩, {}, none, s, 0,
        (converterFor_moves fuel).moves ty _ ran, linked⟩
    | error e =>
      rw [linked] at h
      cases h
  case h_2 => cases h

end Codec

/-! ### Drafted defaults -/

namespace TypeExpr

/-- The type is null or an optional one. -/
def Nullable (ty : TypeExpr) : Prop := ty = null ∨ ty.shape = .optional

variable {ty arm : TypeExpr}

theorem nullable_unionOf {members : List TypeExpr} (h : isNullable members = true) :
    (unionOf members).Nullable := by
  by_cases none : armsOf members = []
  · exact .inl (unionOf_of_nil none)
  · obtain ⟨inner, -, whole⟩ := unionOf_of_ne_nil none
    rw [whole, if_pos h]
    exact .inr rfl

theorem Nullable.unionOf_cons (h : ty.Nullable) (more : List TypeExpr) :
    (unionOf (ty :: more)).Nullable := by
  have isPart : null ∈ ty.alternatives := by
    unfold alternatives
    rcases h with rfl | isOptional
    · exact List.mem_singleton_self _
    · rw [isOptional]
      exact List.mem_cons_self
  refine nullable_unionOf (List.any_eq_true.2 ⟨null, ?_, rfl⟩)
  exact List.mem_flatMap.2 ⟨ty, List.mem_cons_self, isPart⟩

theorem nullable_unionOf_null (ty : TypeExpr) : (unionOf [ty, null]).Nullable := by
  refine nullable_unionOf (List.any_eq_true.2 ⟨null, List.mem_flatMap.2 ⟨null, ?_, ?_⟩, rfl⟩)
  · exact List.mem_cons_of_mem _ List.mem_cons_self
  · exact List.mem_singleton_self _

theorem lex_bracketed {head text : String} {rest : List Char} {lexemes : List Lexeme}
    (nameable : Nameable head) (written : text.toList = head.toList ++ '[' :: rest)
    (lexed : lex text = some (.ok lexemes)) :
    ∃ more, lexemes.map Lexeme.token = .ident head :: .openBracket :: more := by
  have ends : Ends ('[' :: rest) := by simp [Ends]
  obtain ⟨c, others, size, split, noSpace, next⟩ := nextToken_name nameable ends
  rw [lex, written, split, List.cons_append] at lexed
  obtain ⟨fuel, afterHead, bracketed, rfl⟩ := exists_of_lexFrom_token noSpace next lexed
  obtain ⟨-, more, -, rfl⟩ := exists_of_lexFrom_token rfl rfl bracketed
  exact ⟨more.map Lexeme.token, rfl⟩

/-- What begins as an optional type takes null, even if it does not end as one. -/
theorem Derives.nullable {more : List Token}
    (h : Derives (.ident "Optional" :: .openBracket :: more) (.type ty)) : ty.Nullable := by
  generalize isText : Token.ident "Optional" :: .openBracket :: more = tokens at h
  cases h with
  | @type _ bars first tys isFirst areBars =>
    have nullable : first.Nullable := by
      cases isFirst with
      | name =>
        have isBars : _ = bars := (List.cons.inj isText).2
        cases areBars <;> cases isBars
      | applied _ denotes =>
        obtain ⟨same, -⟩ := List.cons.inj isText
        cases same
        cases denotes with
        | optional => exact nullable_unionOf_null _
        | union isHead | literal isHead | emptyTuple isHead | variadic isHead | tuple isHead
        | container isHead => cases isHead
    unfold joined
    split
    · exact nullable
    · exact nullable.unionOf_cons tys

theorem nullable_of_parse {inner : TypeExpr}
    (isRead : parse (optional inner).text = some (.ok ty)) : ty.Nullable := by
  have written : (optional inner).text.toList =
      "Optional".toList ++ '[' :: (inner.text.toList ++ [']']) := by
    simp [text, texts, optional, apply, generic]
  obtain ⟨lexemes, lexed, parsed⟩ := exists_of_parse isRead
  have derived := parseAll_eq_ok_iff.1 parsed
  obtain ⟨more, tokens⟩ := lex_bracketed (by decide) written lexed
  rw [tokens] at derived
  exact derived.nullable

theorem resolve_of_nullable (schema : Schema) (h : ty = any ∨ ty.Nullable) :
    (schema.resolve ty).shape ≠ .union ∧ (schema.resolve ty).shape.TellsOfNull ∧
      (schema.resolve ty).acceptsNull = true := by
  rcases h with rfl | rfl | isOptional
  · exact ⟨nofun, trivial, rfl⟩
  · exact ⟨nofun, trivial, rfl⟩
  · obtain ⟨shape, args, literals⟩ := ty
    cases isOptional
    exact ⟨nofun, trivial, rfl⟩

end TypeExpr

namespace Inference

open TypeExpr (parse)

variable {decls : List Document.RecordDecl} {ty : TypeExpr}

theorem IsDraft.any_or_optional (draft : IsDraft decls ty) (h : ty.acceptsNull = true) :
    ty = .any ∨ ∃ inner, ty = .optional inner := by
  cases draft with
  | any => exact .inl rfl
  | optional => exact .inr ⟨_, rfl⟩
  | @scalar p known =>
    simp only [scalars, List.mem_cons, List.not_mem_nil, or_false] at known
    rcases known with rfl | rfl | rfl | rfl <;> cases h
  | sequence => cases h
  | record => cases h
  | union _ separate =>
    cases (anyAcceptsNull_of_isArm separate.kinds).symm.trans h

theorem draft_listed {root : String} {sample : Json} {d : Document}
    (drafted : draft root sample = .ok d) : ListedInOrder d.records := by
  obtain ⟨samples, -, isDraft⟩ := bind_eq_ok_iff.1 drafted
  obtain rfl := Except.ok.inj isDraft
  exact draftRecord_listed (typeWithin_listed sample.depth) [] root samples

theorem read_of_default_null {root : String} {sample : Json} {d : Document}
    (drafted : draft root sample = .ok d) {decl : Document.RecordDecl} (isDecl : decl ∈ d.records)
    {field : Document.FieldDecl} (isField : field ∈ decl.fields)
    (default : field.default = some .null) (isRead : parse field.type = some (.ok ty)) :
    ty = .any ∨ ty.Nullable := by
  obtain ⟨before, after, split⟩ := List.append_of_mem isDecl
  have listed := split ▸ draft_listed drafted
  obtain ⟨name, fields, rfl, types⟩ := listed.split
  obtain ⟨e, mem, rfl⟩ := List.mem_map.1 isField
  have isRead : parse e.2.text = some (.ok ty) := isRead
  have takesNull : e.2.acceptsNull = true := by
    by_contra never
    rw [fieldOf, if_neg never] at default
    cases default
  rcases (types _ mem).any_or_optional takesNull with isAny | ⟨inner, isOptional⟩
  · rw [isAny] at isRead
    have read : parse TypeExpr.any.text = some (.ok .any) := rfl
    exact .inl (Except.ok.inj (Option.some.inj (isRead.symm.trans read)))
  · rw [isOptional] at isRead
    exact .inr (TypeExpr.nullable_of_parse isRead)

end Inference

namespace Codec

/-- A decoder takes null just if the type that it was compiled for says so, unless the type or an
arm of it is an enumeration, a custom type or a name that spells a scalar that takes null. Where a
draft has null for a default, every decoder of the field takes it. -/
theorem decode_null_iff {c : Codec} (declarations : c.schema.Declared)
    (builtin : c.registry = .builtin) (history : c.cache.History c.schema c.registry) :
    (∀ ty, (∀ arm, (c.schema.resolve ty).HasArm arm → arm.shape.TellsOfNull) →
      ∀ (d : c.TypeDecoder ty) (fuel : Nat), 0 < fuel →
        ((∃ v, (d.decode fuel .null).run = some (.ok v)) ↔
          (c.schema.resolve ty).acceptsNull = true) ∧
        ((∃ e, (d.decode fuel .null).run = some (.error e)) ↔
          (c.schema.resolve ty).acceptsNull = false)) ∧
    ∀ root sample document, Inference.draft root sample = .ok document →
      ∀ decl ∈ document.records, ∀ field ∈ decl.fields, field.default = some .null →
      ∀ ty, TypeExpr.parse field.type = some (.ok ty) →
      ∀ (d : c.TypeDecoder ty) (fuel : Nat), 0 < fuel →
        ∃ v, (d.decode fuel .null).run = some (.ok v) := by
  refine ⟨fun ty tells d fuel enough => ?_, ?_⟩
  · obtain ⟨fuel, rfl⟩ := Nat.exists_eq_add_one.2 enough
    rcases (d.decode_null declarations builtin history tells fuel).cases with
      ⟨⟨v, returns⟩, yes⟩ | ⟨⟨e, fails⟩, no⟩
    · rw [yes, returns]
      simp
    · rw [no, fails]
      simp
  · intro root sample document drafted decl isDecl field isField default ty isRead d fuel enough
    obtain ⟨fuel, rfl⟩ := Nat.exists_eq_add_one.2 enough
    obtain ⟨notUnion, tells, yes⟩ := TypeExpr.resolve_of_nullable c.schema
      (Inference.read_of_default_null drafted isDecl isField default isRead)
    have alone : ∀ arm, (c.schema.resolve ty).HasArm arm → arm.shape.TellsOfNull :=
      fun arm reached => (reached.eq_of_not_union notUnion).symm ▸ tells
    rcases (d.decode_null declarations builtin history alone fuel).cases with
      ⟨returns, -⟩ | ⟨-, no⟩
    · exact returns
    · rw [yes] at no
      cases no

end Codec

namespace Parcel

def parcel : RecordType where
  name := "Parcel"
  fields := [{ name := "note", type := .named "Any" }]

def codec : Codec where
  schema := { records := Table.empty.insert "Parcel" parcel }

theorem declared : codec.schema.Declared := .record parcel .empty rfl

def content : TypeExpr := .union [.named "Parcel", .union [.primitive .int, .literal [.null]]]

theorem content_tells : ∀ arm, (codec.schema.resolve content).HasArm arm →
    arm.shape.TellsOfNull := by
  have resolved : codec.schema.resolve content = .union [.apply (.record .keyword "Parcel") [],
    .union [.primitive .int, .literal [.null]]] := rfl
  rw [resolved]
  rintro arm (_ | ⟨-, mem, reached⟩)
  · trivial
  · simp only [TypeExpr.union, TypeExpr.apply, List.mem_cons, List.not_mem_nil, or_false] at mem
    rcases mem with rfl | rfl
    · rw [reached.eq_of_not_union (by decide)]
      exact ⟨by decide, by decide⟩
    · rcases reached with _ | ⟨-, mem, reached⟩
      · trivial
      · simp only [List.mem_cons, List.not_mem_nil, or_false] at mem
        rcases mem with rfl | rfl <;> (rw [reached.eq_of_not_union (by decide)]; trivial)

def sample : Json := .object [("note", .null)]

def note : Document.FieldDecl := Inference.fieldOf "note" (.optional .any)

theorem draft_sample : Inference.draft "Parcel" sample =
    .ok { records := [{ name := "Parcel", fields := [note] }] } := rfl

theorem parse_note : TypeExpr.parse note.type = some (.ok (.optional .any)) :=
  have canonical : (TypeExpr.optional .any).Canonical := .optional (.primitive .any) rfl nofun
  TypeExpr.parse_of_parsesAs canonical.printable canonical.parsesAs

end Parcel

namespace Codec

theorem decode_null_iff_parcel :
    (∃ d : Parcel.codec.TypeDecoder Parcel.content,
      ∃ v, (d.decode 1 .null).run = some (.ok v)) ∧
    (∃ d : Parcel.codec.TypeDecoder (.named "Parcel"),
      ∃ e, (d.decode 1 .null).run = some (.error e)) ∧
    ∃ document, Inference.draft "Parcel" Parcel.sample = .ok document ∧
      ∃ decl ∈ document.records, ∃ field ∈ decl.fields, field.default = some .null ∧
        ∃ ty, TypeExpr.parse field.type = some (.ok ty) ∧
          ∃ d : Parcel.codec.TypeDecoder ty, ∃ v, (d.decode 1 .null).run = some (.ok v) := by
  have content : Parcel.codec.compilesType 9 Parcel.content = true := by decide +kernel
  have parcel : Parcel.codec.compilesType 9 (.named "Parcel") = true := by decide +kernel
  have optional : Parcel.codec.compilesType 9 (.optional .any) = true := by decide +kernel
  obtain ⟨d⟩ := nonempty_typeDecoder content
  obtain ⟨d'⟩ := nonempty_typeDecoder parcel
  obtain ⟨d''⟩ := nonempty_typeDecoder optional
  obtain ⟨byType, byDraft⟩ := decode_null_iff Parcel.declared rfl (.empty 0 0)
  have tells : ∀ arm, (Parcel.codec.schema.resolve (.named "Parcel")).HasArm arm →
      arm.shape.TellsOfNull := fun arm reached => by
    rw [reached.eq_of_not_union (by decide)]
    exact ⟨by decide, by decide⟩
  refine ⟨⟨d, (byType _ Parcel.content_tells d 1 Nat.one_pos).1.2 rfl⟩,
    ⟨d', (byType _ tells d' 1 Nat.one_pos).2.2 rfl⟩, _, Parcel.draft_sample, _,
    List.mem_cons_self, Parcel.note, List.mem_cons_self, rfl, _, Parcel.parse_note, d'', ?_⟩
  exact byDraft _ _ _ Parcel.draft_sample _ List.mem_cons_self Parcel.note List.mem_cons_self rfl
    _ Parcel.parse_note d'' 1 Nat.one_pos

/-- A name that is not declared and spells the type of anything is handled as this type, and so its
decoder takes null. -/
theorem not_decode_null_iff :
    Parcel.codec.schema.Declared ∧ Parcel.codec.registry = .builtin ∧
    Parcel.codec.cache.History Parcel.codec.schema Parcel.codec.registry ∧
    (∀ arm, (Parcel.codec.schema.resolve (.named "Any")).HasArm arm →
      ∀ name, arm.shape ≠ .enumeration name ∧ arm.shape ≠ .custom name) ∧
    (∃ d : Parcel.codec.TypeDecoder (.named "Any"),
      ∃ v, (d.decode 1 .null).run = some (.ok v)) ∧
    (∃ v, (Parcel.codec.decode "Parcel" Parcel.sample {}).1.run = some (.ok v)) ∧
    (Parcel.codec.schema.resolve (.named "Any")).acceptsNull = false := by
  have linked : (Synthesis.finalize [] 0 {} : Except Failure (Session Json Instance)) =
      .ok { codes := [], environment := [], stamp := 0 } := rfl
  have decodes : (Parcel.codec.decode "Parcel" Parcel.sample {}).1.returnsWith
      (fun _ => true) = true := by decide +kernel
  obtain ⟨v, returns, -⟩ := exists_of_returnsWith decodes
  refine ⟨Parcel.declared, rfl, .empty 0 0, fun arm reached name => ?_, ⟨⟨.scalar .any, _,
    ⟨1, {}, {}, rfl⟩, {}, none, {}, 0, .refl _, linked⟩, .dynamic .null, rfl⟩, ⟨v, returns⟩, rfl⟩
  rw [reached.eq_of_not_union (by decide)]
  exact ⟨nofun, nofun⟩

end Codec

end RecordCodec
