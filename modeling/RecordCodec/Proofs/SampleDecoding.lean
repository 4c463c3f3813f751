import RecordCodec.Proofs.SampleChecks
import RecordCodec.Proofs.Transparency

set_option autoImplicit false

/-!
# A drafted schema decodes its samples

A value of a drafted type is decoded at the type. In a union, a scalar or a list fits just one arm,
which is tried first, and an object fits none, but only a record decodes objects.
-/
namespace RecordCodec

namespace Converter

open Routine

theorem firstSuccess_returns_of_fails {α β : Type} {failure : Failure} {v : α} {b : β}
    {before after : List (α → Run β)} {f : α → Run β}
    (fail : ∀ g ∈ before, ∃ e, (g v).Fails e) (returns : (f v).Returns b) :
    (firstSuccess failure v (before ++ f :: after)).Returns b := by
  induction before with
  | nil =>
    rw [List.nil_append, firstSuccess, returns]
    rfl
  | cons g before ih =>
    obtain ⟨⟨e, fails⟩, others⟩ := List.forall_mem_cons.1 fail
    rw [List.cons_append, firstSuccess, fails]
    exact ih others

end Converter

theorem Codec.Consistent.checkRecord_returns {c : Codec} (h : c.Consistent) {record : String}
    (decoding : (c.verdict .decoding record {}).Returns ())
    (encoding : (c.verdict .encoding record {}).Returns ()) :
    (c.checkRecord record).1.Returns () := by
  have twins := h.decoder_twins record {}
  rw [← h.decoder_outcome] at decoding
  rw [← twins.verdict, ← twins.second.encoder_outcome] at encoding
  obtain ⟨r, isDecoder, -⟩ := Routine.Run.Returns.bind_iff.1 decoding
  obtain ⟨e, isEncoder, -⟩ := Routine.Run.Returns.bind_iff.1 encoding
  unfold Codec.checkRecord
  generalize c.decoder record {} = first at isDecoder isEncoder
  have ran : first.1.run = some (.ok r) := isDecoder
  simp only [ran]
  exact Routine.Run.Returns.bind_iff.2 ⟨e, isEncoder, Routine.Run.Returns.pure_iff.2 rfl⟩

namespace Inference

open Routine Compile Direct Converter

section Decoding

variable {schema : Schema} {decls : List Document.RecordDecl} {ty : TypeExpr} {v : Json}

/-- The value is decoded at the type wherever this stands in a drafted record, and as a record of
this name. -/
structure DecodesWith (schema : Schema) (fuel : Nat) (ty : TypeExpr) (v : Json) : Prop where
  type : ∀ here, Plain here → ∃ i, (decodeType schema .builtin (Direct.decode schema .builtin fuel)
    here (schema.resolve ty) v).Returns i
  record : ∀ name, ty = .named name → ∀ config ∈ plainConfigs,
    ∃ i, (Direct.decode schema .builtin fuel name config v).Returns i

theorem DecodesWith.of_type {fuel : Nat} (notName : isName ty = false)
    (type : ∀ here, Plain here → ∃ i, (decodeType schema .builtin
      (Direct.decode schema .builtin fuel) here (schema.resolve ty) v).Returns i) :
    DecodesWith schema fuel ty v :=
  ⟨type, fun name same => by subst same; cases notName⟩

theorem handled_scalar (schema : Schema) (p : Primitive) :
    Handled schema .builtin (.primitive p) (.scalar p) (.primitive p) := by
  cases p <;> rfl

theorem DecodesWith.of_scalar {fuel : Nat} {p : Primitive} {i : Instance}
    (decoded : Scalar.decode p v = .ok i) : DecodesWith schema fuel (.primitive p) v := by
  refine .of_type rfl fun here _ => ⟨i, ?_⟩
  rw [decodeType_of_handled (handled_scalar schema p)]
  exact Run.Returns.ofExcept_iff.2 decoded

theorem DecodesWith.sequence {fuel : Nat} {item : TypeExpr} {items : List Json}
    (each : ∀ v ∈ items, DecodesWith schema fuel item v) :
    DecodesWith schema fuel (.sequence item) (.array items) := by
  refine .of_type rfl fun here plain => ?_
  obtain ⟨is, decoded⟩ := exists_forall₂ fun v mem => (each v mem).type here plain
  have handled : Handled schema .builtin (.sequence item) .sequence
    (schema.resolve (.sequence item)) := rfl
  refine ⟨.seq is, ?_⟩
  rw [decodeType_of_handled handled]
  exact Run.Returns.bind_iff.2 ⟨is, decodeItems_returns_iff.2 decoded, Run.Returns.pure_iff.2 rfl⟩

theorem DecodesWith.optional {fuel : Nat} {inner : TypeExpr}
    (decodes : v.isNull = false → DecodesWith schema fuel inner v) :
    DecodesWith schema fuel (.optional inner) v := by
  refine .of_type rfl fun here plain => ?_
  have handled : Handled schema .builtin (.optional inner) .optional
    (schema.resolve (.optional inner)) := rfl
  rw [decodeType_of_handled handled]
  simp only [decodeAs]
  cases isNull : v.isNull with
  | true => exact ⟨.null, Run.Returns.pure_iff.2 rfl⟩
  | false =>
    obtain ⟨i, decoded⟩ := (decodes isNull).type here plain
    exact ⟨i, by rw [if_neg Bool.false_ne_true]; exact decoded⟩

theorem keysOf_fieldFor {config : Config} (isPlain : config ∈ plainConfigs) (key : String)
    (ty : TypeExpr) : Locator.keysOf config (fieldFor key ty) = [key] := by
  have aliases : ∀ config ∈ plainConfigs, config.decodeAliases = .empty := by decide
  have casing : ∀ config ∈ plainConfigs, config.decodesWith = .preserve := by decide
  have none : (Table.empty : Table (List String)).get? (fieldFor key ty).name = none := rfl
  unfold Locator.keysOf Locator.declaredKeys
  rw [aliases _ isPlain, casing _ isPlain, none, fieldFor]
  by_cases same : fieldName key = key
  · simp [same, Casing.apply, Casing.applyChars]
  · simp [same]

theorem located?_fieldFor {name : String} {fields : List (String × TypeExpr)} {config : Config}
    (isPlain : config ∈ plainConfigs) (e : String × TypeExpr) (members : Members) (index : Nat) :
    located? (recordFor name fields) config (.object members) index (fieldFor e.1 e.2) =
      Assoc.get? e.1 members := by
  have casing : ∀ config ∈ plainConfigs, (config.decodesWith == .caseInsensitive) = false := by
    decide
  have key : (Locator.ofField config none (fieldFor e.1 e.2)).keyAmong? (Assoc.keys members) =
      if (Assoc.keys members).contains e.1 then some e.1 else none := by
    unfold Locator.keyAmong? Locator.ofField
    rw [keysOf_fieldFor isPlain, casing _ isPlain, if_neg Bool.false_ne_true, Option.or_none,
      List.find?_cons]
    cases (Assoc.keys members).contains e.1 <;> rfl
  have place : place? (recordFor name fields) config (.object members) index (fieldFor e.1 e.2) =
      (if (Assoc.keys members).contains e.1 then some e.1 else none).map .key := by
    rw [← key]
    rfl
  unfold located?
  rw [place]
  by_cases mem : e.1 ∈ Assoc.keys members
  · rw [if_pos (by simpa using mem)]
    rfl
  · rw [if_neg (by simpa using mem), Assoc.get?_eq_none_iff.2 mem]
    rfl

theorem fieldFor_optional (key : String) (isOptional : ty.shape = .optional) :
    (fieldFor key ty).default = some (.declared .null) := by
  obtain ⟨shape, args, literals⟩ := ty
  cases isOptional
  rfl

theorem decodeLeftOver_recordFor {name : String} {fields : List (String × TypeExpr)}
    {config : Config} (isPlain : config ∈ plainConfigs) (input : Json) (convert : Field → Decode)
    (values : List (Option Instance)) :
    decodeLeftOver (recordFor name fields) config input convert values = pure values := by
  have policy : ∀ config ∈ plainConfigs, config.policy = .ignore := by decide
  have none : catchAllAt 0 (recordFor name fields).fields = none :=
    catchAllAt_eq_none_iff.2 (List.forall_mem_map.2 fun _ _ => rfl)
  unfold decodeLeftOver
  rw [none, policy _ isPlain]

theorem decodeRecord_recordFor {name : String} {fields : List (String × TypeExpr)}
    {config : Config} (isPlain : config ∈ plainConfigs) {members : Members}
    {convert : Field → Decode}
    (present : ∀ e ∈ fields, ∀ v, Assoc.get? e.1 members = some v →
      ∃ i, (convert (fieldFor e.1 e.2) v).Returns i)
    (absent : ∀ e ∈ fields, Assoc.get? e.1 members = none →
      e.2.shape = .optional ∧ ∃ i, (convert (fieldFor e.1 e.2) .null).Returns i) :
    ∃ i, (decodeRecord (recordFor name fields) config (.object members) convert).Returns i := by
  have isField : ∀ e ∈ (recordFor name fields).fields.zipIdx 0,
      ∃ given ∈ fields, e.1 = fieldFor given.1 given.2 := by
    intro e mem
    have inFields : e.1 ∈ (recordFor name fields).fields := by
      obtain ⟨-, -, same⟩ := List.mem_zipIdx (x := e.1) (i := e.2) mem
      rw [same]
      exact List.getElem_mem _
    obtain ⟨given, isGiven, same⟩ := List.mem_map.1 inFields
    exact ⟨given, isGiven, same.symm⟩
  have decodes : ∀ e ∈ (recordFor name fields).fields.zipIdx 0, ∃ o,
      (decodeInTurn (recordFor name fields) config (.object members) (convert e.1) e.2
        e.1).Returns o := by
    rintro ⟨f, index⟩ mem
    obtain ⟨given, isGiven, rfl⟩ := isField _ mem
    have inTurn : (fieldFor given.1 given.2).catchAll = false := rfl
    rw [decodeInTurn, inTurn, if_neg Bool.false_ne_true, decodeField, located?_fieldFor isPlain]
    cases value : Assoc.get? given.1 members with
    | some v =>
      obtain ⟨i, decoded⟩ := present given isGiven v value
      exact ⟨some i, Run.Returns.bind_iff.2 ⟨i, Run.Returns.mapError_iff.2 decoded,
        Run.Returns.pure_iff.2 rfl⟩⟩
    | none =>
      obtain ⟨isOptional, i, decoded⟩ := absent given isGiven value
      rw [decodeAbsent, fieldFor_optional given.1 isOptional]
      exact ⟨some i, Run.Returns.bind_iff.2 ⟨i, Run.Returns.mapError_iff.2 decoded,
        Run.Returns.pure_iff.2 rfl⟩⟩
  obtain ⟨values, decoded⟩ := exists_forall₂ decodes
  refine ⟨_, decodeRecord_returns_iff.2 ⟨rfl, missingFields_eq_nil_iff.2 fun e mem missing => ?_,
    values, values, decodeFields_returns_iff.2 decoded, ?_, rfl⟩⟩
  · obtain ⟨given, isGiven, same⟩ := isField e mem
    rw [same, located?_fieldFor isPlain] at missing
    have default := fieldFor_optional given.1 (absent given isGiven missing).1
    unfold Field.isRequired
    rw [same, default, Option.isSome_some, Bool.or_true, if_pos rfl]
  · rw [decodeLeftOver_recordFor isPlain]
    exact Run.Returns.pure_iff.2 rfl

theorem DecodesWith.object {fuel : Nat} {name : String} {fields : List (String × TypeExpr)}
    {members : Members} (found : schema.record? name = some (recordFor name fields))
    (free : Primitive.ofName? name = none)
    (present : ∀ e ∈ fields, ∀ v, Assoc.get? e.1 members = some v → DecodesWith schema fuel e.2 v)
    (absent : ∀ e ∈ fields, Assoc.get? e.1 members = none →
      e.2.shape = .optional ∧ DecodesWith schema fuel e.2 .null) :
    DecodesWith schema (fuel + 1) (.named name) (.object members) := by
  have records : ∀ config ∈ plainConfigs,
      ∃ i, (Direct.decode schema .builtin (fuel + 1) name config (.object members)).Returns i := by
    intro config isPlain
    obtain ⟨i, decoded⟩ : ∃ i, (decodeRecord (recordFor name fields) config (.object members)
        fun field => decodeType schema .builtin (Direct.decode schema .builtin fuel)
          ⟨config, field.discriminator⟩ (schema.resolve field.type)).Returns i :=
      decodeRecord_recordFor isPlain
      (fun e mem v isValue => (present e mem v isValue).type _ ⟨isPlain, rfl⟩)
      (fun e mem missing => ⟨(absent e mem missing).1,
        (absent e mem missing).2.type _ ⟨isPlain, rfl⟩⟩)
    exact ⟨i, Run.Returns.bind_iff.2
      ⟨_, Run.Returns.ofExcept_iff.2 (findRecord_eq_ok.2 found), decoded⟩⟩
  refine ⟨fun here plain => ?_, fun other same config isPlain => ?_⟩
  · have handled : Handled schema .builtin (.named name) .record (schema.resolve (.named name)) :=
      .of_record (by rw [resolve_named found]; rfl) free
    obtain ⟨i, decoded⟩ := records {} (by decide)
    refine ⟨i, ?_⟩
    rw [decodeType_of_handled handled, resolve_named found]
    simp only [decodeAs, TypeExpr.apply, Shape.recordName?, plain.nestedConfig found]
    exact decoded
  · cases same
    exact records config isPlain

section Unions

variable {arms : List TypeExpr} {arm : TypeExpr} {fuel : Nat} {here : Position}
  (holds : Holds schema decls) (readable : ∀ decl ∈ decls, decl.Readable)
include holds readable

/-- What fits an arm is a value of its kind, and nothing fits a record. -/
theorem kind_of_fitsValue (draft : IsDraft decls arm) (kind : isArm arm = true)
    (fits : fitsValue (schema.resolve arm) v = true) :
    (∃ p ∈ scalars, arm = .primitive p ∧ fitsValue (.primitive p) v = true) ∨
      arm.shape = .sequence ∧ ∃ items, v = .array items := by
  cases draft with
  | scalar known => exact .inl ⟨_, known, rfl, fits⟩
  | sequence =>
    cases v with
    | array items => exact .inr ⟨rfl, items, rfl⟩
    | _ => cases fits
  | record isDecl types =>
    rw [resolve_named (holds.found readable isDecl types)] at fits
    cases v <;> cases fits
  | any => cases kind
  | optional => cases kind
  | union => cases kind

theorem fitsValue_of_conforms (separate : Arms arms) (types : ∀ arm ∈ arms, IsDraft decls arm)
    (mem : arm ∈ arms) (conforms : Conforms decls arm v) (notName : isName arm = false) :
    fitsValue (schema.resolve arm) v = true ∧
      ∀ other ∈ arms, fitsValue (schema.resolve other) v = true → other.shape = arm.shape := by
  have kind := separate.kinds arm mem
  have others : ∀ other ∈ arms, fitsValue (schema.resolve other) v = true →
      (∃ p ∈ scalars, other = .primitive p ∧ fitsValue (.primitive p) v = true) ∨
        other.shape = .sequence ∧ ∃ items, v = .array items :=
    fun other isOther =>
      kind_of_fitsValue holds readable (types other isOther) (separate.kinds other isOther)
  cases conforms with
  | any => cases kind
  | null => cases kind
  | optional => cases kind
  | union => cases kind
  | record => cases notName
  | sequence =>
    refine ⟨rfl, fun other isOther fits => ?_⟩
    rcases others other isOther fits with ⟨p, -, -, fits⟩ | ⟨isSequence, -⟩
    · cases p <;> cases fits
    · exact isSequence
  | bool | str =>
    refine ⟨rfl, fun other isOther fits => ?_⟩
    rcases others other isOther fits with ⟨p, -, rfl, fits⟩ | ⟨-, _, same⟩
    · cases p <;> first | rfl | cases fits
    · cases same
  | int =>
    refine ⟨rfl, fun other isOther fits => ?_⟩
    rcases others other isOther fits with ⟨p, -, rfl, fits⟩ | ⟨-, _, same⟩
    · cases p with
      | int => rfl
      | float => exact absurd mem (separate.numbers isOther)
      | _ => cases fits
    · cases same
  | float n =>
    refine ⟨rfl, fun other isOther fits => ?_⟩
    rcases others other isOther fits with ⟨p, -, rfl, fits⟩ | ⟨-, _, same⟩
    · cases p with
      | float => rfl
      | int => exact absurd isOther (separate.numbers mem)
      | _ => cases n <;> cases fits
    · cases same

def armDecode (schema : Schema) (fuel : Nat) (here : Position) (arm : TypeExpr) : Decode :=
  armPart (Direct.decode schema .builtin fuel) (here.arm schema (schema.resolve arm))
    (decodeType schema .builtin (Direct.decode schema .builtin fuel) here (schema.resolve arm))

theorem armDecode_returns (plain : Plain here) (draft : IsDraft decls arm) (kind : isArm arm = true)
    (decodes : DecodesWith schema fuel arm v) :
    ∃ i, (armDecode schema fuel here arm v).Returns i := by
  unfold armDecode armPart
  cases named : isName arm with
  | true =>
    obtain ⟨name, fields, rfl, isDecl, types⟩ := draft.exists_name named
    rw [plain.arm_named (holds.found readable isDecl types)]
    exact decodes.record name rfl _ (by decide)
  | false =>
    rw [(arm_of_notName kind named).1]
    exact decodes.type here plain

omit holds readable in
/-- Only a record decodes an object. -/
theorem armDecode_fails (draft : IsDraft decls arm) (kind : isArm arm = true)
    (notName : isName arm = false) (members : Members) :
    ∃ e, (armDecode schema fuel here arm (.object members)).Fails e := by
  unfold armDecode armPart
  rw [(arm_of_notName kind notName).1]
  cases draft with
  | @scalar p known =>
    have resolved : schema.resolve (.primitive p) = .primitive p := rfl
    rw [decodeType_of_handled (handled_scalar schema p)]
    cases p <;> first | exact ⟨_, rfl⟩ | simp [scalars] at known
  | @sequence item =>
    have handled : Handled schema .builtin (.sequence item) .sequence
      (schema.resolve (.sequence item)) := rfl
    rw [decodeType_of_handled handled]
    exact ⟨_, rfl⟩
  | record => cases notName
  | any => cases kind
  | optional => cases kind
  | union => cases kind

omit holds readable in
theorem arms_plan (schema : Schema) (here : Position) (arms : List TypeExpr) :
    (here.plan schema (schema.resolve (.union arms))).arms =
      arms.map fun arm => here.arm schema (schema.resolve arm) := by
  rw [Position.plan, schema.resolve_args, List.map_map]
  rfl

theorem tag_arm (plain : Plain here) (draft : IsDraft decls arm) (kind : isArm arm = true) :
    (here.arm schema (schema.resolve arm)).tag = none := by
  cases named : isName arm with
  | true =>
    obtain ⟨name, fields, rfl, isDecl, types⟩ := draft.exists_name named
    rw [plain.arm_named (holds.found readable isDecl types)]
  | false => exact (arm_of_notName kind named).2

theorem isTagged_plan (plain : Plain here) (separate : Arms arms)
    (types : ∀ arm ∈ arms, IsDraft decls arm) :
    (here.plan schema (schema.resolve (.union arms))).isTagged = false := by
  refine List.any_eq_false.2 ?_
  rw [arms_plan]
  refine List.forall_mem_map.2 fun arm mem => ?_
  rw [tag_arm holds readable plain (types arm mem) (separate.kinds arm mem)]
  exact Bool.false_ne_true

theorem decodeUnion_of_fits (plain : Plain here) (separate : Arms arms)
    (types : ∀ arm ∈ arms, IsDraft decls arm) (mem : arm ∈ arms)
    (conforms : Conforms decls arm v) (notName : isName arm = false)
    (decodes : DecodesWith schema fuel arm v) :
    ∃ i, (decodeUnion (here.plan schema (schema.resolve (.union arms)))
      (arms.map (armDecode schema fuel here)) v).Returns i := by
  obtain ⟨i, decoded⟩ := armDecode_returns holds readable plain (types arm mem)
    (separate.kinds arm mem) decodes
  obtain ⟨fits, unique⟩ := fitsValue_of_conforms holds readable separate types mem conforms notName
  obtain ⟨k, isArm⟩ := List.mem_iff_getElem?.1 mem
  have atK : (here.plan schema (schema.resolve (.union arms))).arms[k]? =
      some (here.arm schema (schema.resolve arm)) := by
    rw [arms_plan, List.getElem?_map, isArm, Option.map_some]
  have first : (here.plan schema (schema.resolve (.union arms))).arms.findIdx?
      (fun arm => fitsValue arm.type v) = some k := by
    refine findIdx?_of_unique atK (by rwa [arm_type]) fun index planArm atIndex fits => ?_
    rw [arms_plan, List.getElem?_map] at atIndex
    obtain ⟨other, isOther, rfl⟩ := Option.map_eq_some_iff.1 atIndex
    rw [arm_type] at fits
    have same := unique other (List.mem_of_getElem? isOther) fits
    exact index_eq_of_pairwise separate.apart isArm isOther (not_not.2 same.symm) (not_not.2 same)
  exact ⟨i, decodeUnion_returns_of_kind (.inl (isTagged_plan holds readable plain separate types))
    first atK (by rw [List.getElem?_map, isArm, Option.map_some]) decoded⟩

/-- An object fits no arm, so all are tried in turn, and those before the record refuse it. -/
theorem decodeUnion_of_object (plain : Plain here) (separate : Arms arms)
    (types : ∀ arm ∈ arms, IsDraft decls arm) (mem : arm ∈ arms) (isRecord : isName arm = true)
    {members : Members} (decodes : DecodesWith schema fuel arm (.object members)) :
    ∃ i, (decodeUnion (here.plan schema (schema.resolve (.union arms)))
      (arms.map (armDecode schema fuel here)) (.object members)).Returns i := by
  obtain ⟨i, decoded⟩ := armDecode_returns holds readable plain (types arm mem)
    (separate.kinds arm mem) decodes
  obtain ⟨before, after, split⟩ := List.append_of_mem mem
  have noName : ∀ other ∈ before, isName other = false := by
    intro other isOther
    by_contra named
    have isBoth : [other, arm].Sublist (arms.filter isName) := by
      rw [split, List.filter_append, List.filter_cons_of_pos isRecord]
      refine List.Sublist.append (List.singleton_sublist.2 (List.mem_filter.2 ⟨isOther, ?_⟩))
        (List.singleton_sublist.2 List.mem_cons_self)
      simpa using named
    exact absurd (isBoth.length_le.trans separate.names) (by simp)
  have order : (trialOrder (fun (x : UnionArm × Decode) => fitsValue x.1.type (.object members))
      ((here.plan schema (schema.resolve (.union arms))).arms.zip
        (arms.map (armDecode schema fuel here)))).map Prod.snd =
      arms.map (armDecode schema fuel here) := by
    have none : ∀ x ∈ (here.plan schema (schema.resolve (.union arms))).arms.zip
        (arms.map (armDecode schema fuel here)), fitsValue x.1.type (.object members) = false := by
      intro x isPair
      have isPlanned := (List.of_mem_zip isPair).1
      rw [arms_plan] at isPlanned
      obtain ⟨other, isOther, same⟩ := List.mem_map.1 isPlanned
      rw [← same, arm_type, Bool.eq_false_iff]
      intro fits
      rcases kind_of_fitsValue holds readable (types other isOther)
        (separate.kinds other isOther) fits with ⟨p, -, -, fits⟩ | ⟨-, _, isArray⟩
      · cases p <;> cases fits
      · cases isArray
    rw [trialOrder, List.filter_eq_nil_iff.2 fun x isPair => by simp [none x isPair],
      List.filter_eq_self.2 fun x isPair => by simp [none x isPair], List.nil_append,
      List.map_snd_zip]
    rw [arms_plan, List.length_map, List.length_map]
  refine ⟨i, ?_⟩
  unfold decodeUnion
  simp only [isTagged_plan holds readable plain separate types, Bool.false_eq_true, if_false]
  rw [order, split, List.map_append, List.map_cons]
  refine firstSuccess_returns_of_fails (List.forall_mem_map.2 fun other isOther => ?_) decoded
  have isArm : other ∈ arms := split ▸ List.mem_append_left _ isOther
  exact armDecode_fails (types other isArm) (separate.kinds other isArm) (noName other isOther) _

theorem DecodesWith.union (separate : Arms arms) (types : ∀ arm ∈ arms, IsDraft decls arm)
    (mem : arm ∈ arms) (conforms : Conforms decls arm v)
    (decodes : DecodesWith schema fuel arm v) : DecodesWith schema fuel (.union arms) v := by
  refine .of_type rfl fun here plain => ?_
  have handled : Handled schema .builtin (.union arms) .union (schema.resolve (.union arms)) := rfl
  have parts : armParts (Direct.decode schema .builtin fuel)
      (here.plan schema (schema.resolve (.union arms))).arms
      ((schema.resolve (.union arms)).args.map
        (decodeType schema .builtin (Direct.decode schema .builtin fuel) here)) =
      arms.map (armDecode schema fuel here) := by
    rw [armParts_map, schema.resolve_args, List.map_map]
    rfl
  rw [decodeType_of_handled handled]
  simp only [decodeAs, parts]
  cases named : isName arm with
  | true =>
    cases conforms with
    | record =>
      exact decodeUnion_of_object holds readable plain separate types mem named decodes
    | _ => cases named
  | false =>
    exact decodeUnion_of_fits holds readable plain separate types mem conforms named decodes

end Unions

section Samples

variable (holds : Holds schema decls) (readable : ∀ decl ∈ decls, decl.Readable)
include holds readable

/-- On how the value conforms. A record takes a unit of fuel, and so it nests one level deeper. -/
theorem Conforms.decodes (conforms : Conforms decls ty v) {fuel : Nat} (enough : v.depth ≤ fuel) :
    DecodesWith schema fuel ty v := by
  induction conforms generalizing fuel with
  | any v => exact .of_scalar (p := .any) (i := .dynamic v) rfl
  | bool b => exact .of_scalar (i := .bool b) rfl
  | @int n small =>
    refine .of_scalar (i := .int (Int64.ofInt n.val)) ?_
    simp [Scalar.decode, Scalar.int?, Scalar.integer?, Json.Number.toInt64?, small, Scalar.orRefuse]
  | float n => exact .of_scalar (i := .float n.toBinary64) rfl
  | str s => exact .of_scalar (i := .str s) rfl
  | sequence _ ih =>
    refine .sequence fun v mem => ih v mem ?_
    exact Nat.le_of_lt (Nat.lt_of_lt_of_le (Json.depth_lt_of_mem_items mem) enough)
  | null inner => exact .optional fun notNull => by cases notNull
  | optional _ ih => exact .optional fun _ => ih enough
  | union draft mem conforms ih =>
    cases draft with
    | union _ separate types =>
      exact .union holds readable separate types mem conforms (ih enough)
  | @record name fields members isDecl types _ optional ih =>
    have deep : 0 < fuel := by
      rw [Json.depth] at enough
      omega
    obtain ⟨fuel, rfl⟩ := Nat.exists_eq_succ_of_ne_zero (Nat.ne_of_gt deep)
    refine .object (holds.found readable isDecl types) (readable _ isDecl).notPrimitive
      (fun e mem v value => ih e mem v value ?_) fun e mem missing => ?_
    · have less := Json.depth_lt_of_mem_members (Assoc.mem_of_get? value)
      exact Nat.le_of_lt_succ (Nat.lt_of_lt_of_le less enough)
    · have isOptional := optional e mem missing
      refine ⟨isOptional, ?_⟩
      have draft := types e mem
      cases h : e.2 with
      | mk shape args literals =>
        rw [h] at isOptional draft
        cases isOptional
        cases draft
        exact .optional fun notNull => by cases notNull

end Samples

end Decoding

section Codecs

variable {schema : Schema} {decls : List Document.RecordDecl} {name : String}
  {fields : List (String × TypeExpr)} (holds : Holds schema decls)
  (readable : ∀ decl ∈ decls, decl.Readable) (isDecl : declOf name fields ∈ decls)
  (types : ∀ e ∈ fields, IsDraft decls e.2)
include holds readable isDecl types

theorem resolvedConfig_drafted :
    Codec.resolvedConfig name {} { schema } = .ok {} := by
  have found : schema.findRecord name = .ok (recordFor name fields) :=
    findRecord_eq_ok.2 (holds.found readable isDecl types)
  unfold Codec.resolvedConfig
  simp only [found, bind, Except.bind]
  rfl

theorem verdict_drafted {I O : Type} {mode : Mode I O} (lawful : mode.Lawful) :
    (Codec.verdict mode name {} { schema }).Returns () := by
  have resolved := resolvedConfig_drafted holds readable isDecl types
  have draft : IsDraft decls (.named name) := .record isDecl types
  obtain ⟨fuel, pass⟩ : ∃ fuel, PassesWith (Cache.context schema .builtin mode []) fuel _ :=
    draft.passes holds readable rfl lawful.own
  refine Run.Returns.bind_iff.2 ⟨_, Run.Returns.ofExcept_iff.2 resolved, ?_⟩
  exact Good.verdict lawful.own ⟨fuel, pass.record name rfl [] {} (by decide)⟩

theorem checkRecord_returns : (Codec.checkRecord name { schema }).1.Returns () := by
  have consistent : Codec.Consistent { schema } :=
    .start holds.declared (holds.unnumbered readable) .builtin
  exact consistent.checkRecord_returns
    (verdict_drafted holds readable isDecl types Mode.lawful_decoding)
    (verdict_drafted holds readable isDecl types Mode.lawful_encoding)

theorem decode_drafted {v : Json} (conforms : Conforms decls (.named name) v) :
    ∃ i, (Codec.decode name v {} { schema }).1.Returns i := by
  have consistent : Codec.Consistent { schema } :=
    .start holds.declared (holds.unnumbered readable) .builtin
  have outcome := verdict_drafted holds readable isDecl types Mode.lawful_decoding
  rw [← consistent.decoder_outcome] at outcome
  obtain ⟨r, isDecoder, -⟩ := Run.Returns.bind_iff.1 outcome
  obtain ⟨config, resolved, serves⟩ :=
    Codec.decoder_serves_of_serving consistent.decoders.serving (.inr consistent.unnumbered)
      isDecoder
  cases (resolvedConfig_drafted holds readable isDecl types).symm.trans resolved
  obtain ⟨i, decoded⟩ := (conforms.decodes holds readable (Nat.le_refl _)).record name rfl {}
    (by decide)
  refine ⟨i, Run.Returns.bind_iff.2 ⟨r, isDecoder, ?_⟩⟩
  exact (serves.call_decode_iff holds.declared v).2 ⟨_, decoded⟩

end Codecs

/-- The schema that is drafted from a sample reads it: the document is accepted, the root record is
compiled in both directions, and every object of the sample is decoded. -/
theorem decodes_samples {root : String} {sample : Json} {d : Document} {samples : List Members}
    (drafted : draft root sample = .ok d) (isSamples : samplesOf sample = .ok samples)
    (readable : ∀ decl ∈ d.records, decl.Readable) (fits : sample.FitsInt64) :
    ∃ c decl, (Codec.ofDocument d).Returns c ∧ d.records.head? = some decl ∧
      (c.checkRecord decl.name).1.Returns () ∧
      ∀ members ∈ samples, ∃ i, (c.decode decl.name (.object members) {}).1.Returns i := by
  obtain ⟨names, records, decl, isFirst, conforms⟩ := draft_sound drafted isSamples
  have plain : d.enums = [] ∧ d.custom = [] := by
    rw [draft, isSamples] at drafted
    obtain rfl := Except.ok.inj drafted
    exact ⟨rfl, rfl⟩
  obtain ⟨schema, made, holds⟩ := exists_schema plain.1 plain.2 names readable records
  have isDecl := List.mem_of_head? isFirst
  obtain ⟨name, fields, rfl, types⟩ := records decl isDecl
  refine ⟨{ schema }, _, ?_, isFirst, checkRecord_returns holds readable isDecl types,
    fun members mem => decode_drafted holds readable isDecl types (conforms fits members mem)⟩
  exact Run.Returns.bind_iff.2 ⟨schema, made, Run.Returns.pure_iff.2 rfl⟩

def customer : Members :=
  [("userId", .ofInt64 1), ("first-name", .string "ada"),
    ("scores", .array [.ofInt64 7, .string "two", .null]),
    ("orders", .array [.object [("id", .ofInt64 1)],
      .object [("id", .ofInt64 2), ("note", .string "gift")]])]

def customerDocument : Document where
  records := (draftRecord (typeWithin (Json.object customer).depth) [] "User" [customer]).records

theorem decodes_samples_customer :
    draft "User" (.object customer) = .ok customerDocument ∧
      samplesOf (.object customer) = .ok [customer] ∧
      (∀ decl ∈ customerDocument.records, decl.Readable) ∧ (Json.object customer).FitsInt64 ∧
      ∃ c decl, (Codec.ofDocument customerDocument).Returns c ∧
        customerDocument.records.head? = some decl ∧
        (c.checkRecord decl.name).1.Returns () ∧
        ∀ members ∈ [customer], ∃ i, (c.decode decl.name (.object members) {}).1.Returns i := by
  have drafted : draft "User" (.object customer) = .ok customerDocument := rfl
  have readable : ∀ decl ∈ customerDocument.records, decl.Readable := by decide +kernel
  have whole : ∀ n : Int64, (Json.ofInt64 n).FitsInt64 := fun n => .whole n.toInt_lt
  have text : ∀ s, (Json.string s).FitsInt64 := .string
  have first : (Json.object [("id", .ofInt64 1)]).FitsInt64 := .object (by simp [whole])
  have second : (Json.object [("id", .ofInt64 2), ("note", .string "gift")]).FitsInt64 :=
    .object (by simp [whole, text])
  have scores : (Json.array [.ofInt64 7, .string "two", .null]).FitsInt64 :=
    .array (by simp [whole, text, Json.FitsInt64.null])
  have fits : (Json.object customer).FitsInt64 := by
    refine .object ?_
    simp only [customer, List.forall_mem_cons, whole, text, scores, true_and]
    exact ⟨.array (by simp [first, second]), fun _ mem => absurd mem List.not_mem_nil⟩
  exact ⟨drafted, rfl, readable, fits, decodes_samples drafted rfl readable fits⟩

def listSample : Json := .object [("list", .object [("a", .ofInt64 1)])]

/-- The record for the object is called as any list is. -/
def listDocument : Document where
  records := [declOf "Root" [("list", .named "List")], declOf "List" [("a", .primitive .int)]]

/-- The record of a key that is called like a container is not found by its name in a type, so the
sample is refused by the schema that was drafted from it. -/
theorem not_decodes_samples_list :
    TypeExpr.IsIdentifier "Root" ∧ TypeExpr.headOf "Root" = .plain ∧
      Primitive.ofName? "Root" = none ∧ draft "Root" listSample = .ok listDocument ∧
      ¬∃ c i, (Codec.ofDocument listDocument).Returns c ∧
        (c.decode "Root" listSample {}).1.Returns i := by
  refine ⟨rfl, rfl, rfl, by rfl, ?_⟩
  rintro ⟨c, i, made, decoded⟩
  have fails : (Codec.ofDocument listDocument).returnsWith (fun c =>
      (c.decode "Root" listSample {}).1.returnsWith fun _ => true) = false := by
    decide +kernel
  rw [Run.returnsWith, made] at fails
  simp [Run.returnsWith, show (c.decode "Root" listSample {}).1.run = some (.ok i) from decoded]
    at fails

end Inference
end RecordCodec
