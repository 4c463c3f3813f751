import RecordCodec.Codec
import RecordCodec.Proofs.Declarations
import RecordCodec.Proofs.SampleDrafts

set_option autoImplicit false

/-!
# The schema of a draft

A draft writes its types down as texts. If no record got a name that means something else in a type,
every text is read as the type that was drafted, and if no two keys of a record became one field,
every record is accepted.
-/
namespace RecordCodec

open Routine.Run (Returns)

/-- No record has a name that means something else in a type, and no two fields have one name. -/
structure Document.RecordDecl.Readable (decl : Document.RecordDecl) : Prop where
  nameable : TypeExpr.Nameable decl.name
  plain : TypeExpr.headOf decl.name = .plain
  notPrimitive : Primitive.ofName? decl.name = none
  distinct : (decl.fields.map Document.FieldDecl.name).Nodup

instance (head : TypeExpr.Head) : Decidable (head = .plain) :=
  match head with
  | .plain => isTrue rfl
  | .optional | .union | .literal | .tuple | .container _ _ => isFalse nofun

instance (decl : Document.RecordDecl) : Decidable decl.Readable :=
  decidable_of_iff (TypeExpr.Nameable decl.name ∧ TypeExpr.headOf decl.name = .plain ∧
      Primitive.ofName? decl.name = none ∧ (decl.fields.map Document.FieldDecl.name).Nodup)
    ⟨fun h => ⟨h.1, h.2.1, h.2.2.1, h.2.2.2⟩, fun h => ⟨h.1, h.2, h.3, h.4⟩⟩

theorem TypeExpr.Nameable.hash_not_mem {name : String} (h : Nameable name) : '#' ∉ name.toList :=
  fun mem => absurd (h.chars _ mem) (by decide)

namespace Inference

variable {decls : List Document.RecordDecl} {ty : TypeExpr}

theorem IsDraft.canonical (readable : ∀ decl ∈ decls, decl.Readable) (h : IsDraft decls ty) :
    ty.Canonical := by
  induction h with
  | any => exact .primitive .any
  | scalar => exact .primitive _
  | sequence _ ih => exact .sequence ih
  | record isDecl =>
    have names := readable _ isDecl
    exact .named names.nameable names.plain names.notPrimitive
  | optional draft notOptional ih => exact .optional ih draft.isNull notOptional
  | union more arms _ ih =>
    exact .union more arms.distinct ih fun arm mem => shape_of_isArm (arms.kinds arm mem)

def fieldFor (key : String) (ty : TypeExpr) : Field where
  name := fieldName key
  type := ty
  default := if ty.acceptsNull then some (.declared .null) else none
  aliasKey := if fieldName key = key then none else some key

def recordFor (name : String) (fields : List (String × TypeExpr)) : RecordType :=
  { name, fields := fields.map fun e => fieldFor e.1 e.2 }

theorem fieldOfDecl_fieldOf (record key : String) (canonical : ty.Canonical) :
    (Schema.fieldOfDecl record (fieldOf key ty)).Returns (fieldFor key ty) := by
  have read : (Schema.typeOfDecl record (fieldOf key ty)).Returns ty :=
    Schema.typeOfDecl_returns_iff.2
      (TypeExpr.parse_of_parsesAs canonical.printable canonical.parsesAs)
  have default : Schema.defaultOfDecl record (fieldOf key ty) = .ok (fieldFor key ty).default := by
    unfold Schema.defaultOfDecl fieldOf fieldFor
    cases ty.acceptsNull <;> rfl
  refine Returns.bind_iff.2 ⟨ty, read, ?_⟩
  exact Returns.bind_iff.2 ⟨_, Returns.ofExcept_iff.2 default, Returns.pure_iff.2 rfl⟩

theorem recordOfDecl_declOf {name : String} {fields : List (String × TypeExpr)}
    (canonical : ∀ e ∈ fields, e.2.Canonical) :
    (Schema.recordOfDecl (declOf name fields)).Returns (recordFor name fields) := by
  have read : ((declOf name fields).fields.mapM (Schema.fieldOfDecl name)).Returns
      (recordFor name fields).fields := by
    unfold declOf recordFor
    simp only
    induction fields with
    | nil => exact Returns.pure_iff.2 rfl
    | cons e fields ih =>
      rw [List.map_cons, List.mapM_cons]
      obtain ⟨first, others⟩ := List.forall_mem_cons.1 canonical
      refine Returns.bind_iff.2 ⟨_, fieldOfDecl_fieldOf name e.1 first, ?_⟩
      exact Returns.bind_iff.2 ⟨_, ih others, Returns.pure_iff.2 rfl⟩
  refine Returns.bind_iff.2 ⟨none, Returns.ofExcept_iff.2 rfl, ?_⟩
  exact Returns.bind_iff.2 ⟨_, read, Returns.pure_iff.2 rfl⟩

theorem checkFields_of_nodup {record : String} {fields : List Field} {seen : List String}
    (distinct : (fields.map Field.name).Nodup) (fresh : ∀ f ∈ fields, f.name ∉ seen)
    (noPath : ∀ f ∈ fields, f.path = none) :
    RecordType.checkFields record seen fields = .ok () := by
  induction fields generalizing seen with
  | nil => rfl
  | cons f fields ih =>
    obtain ⟨isNew, others⟩ := List.nodup_cons.1 distinct
    have unseen : seen.contains f.name = false := by
      simpa using fresh f List.mem_cons_self
    rw [RecordType.checkFields, unseen, if_neg Bool.false_ne_true,
      noPath f List.mem_cons_self, Option.any_none, if_neg Bool.false_ne_true]
    refine ih others (fun g mem isSeen => ?_) fun g mem => noPath g (List.mem_cons_of_mem _ mem)
    rcases List.mem_cons.1 isSeen with same | isSeen
    · exact isNew (List.mem_map.2 ⟨g, mem, same⟩)
    · exact fresh g (List.mem_cons_of_mem _ mem) isSeen

theorem check_recordFor {name : String} {fields : List (String × TypeExpr)}
    (distinct : ((declOf name fields).fields.map Document.FieldDecl.name).Nodup) :
    (recordFor name fields).check = .ok () := by
  have names : (recordFor name fields).fields.map Field.name =
      (declOf name fields).fields.map Document.FieldDecl.name := by
    unfold recordFor declOf
    rw [List.map_map, List.map_map]
    rfl
  have plain : ∀ f ∈ (recordFor name fields).fields, f.path = none ∧ f.catchAll = false :=
    List.forall_mem_map.2 fun _ _ => ⟨rfl, rfl⟩
  have checked : RecordType.checkFields name [] (recordFor name fields).fields = .ok () :=
    checkFields_of_nodup (names ▸ distinct) (fun _ _ => List.not_mem_nil) fun f mem =>
      (plain f mem).1
  have noCatchAll : (recordFor name fields).fields.filter Field.catchAll = [] :=
    List.filter_eq_nil_iff.2 fun f mem => by simp [(plain f mem).2]
  unfold RecordType.check RecordType.checkCatchAll
  rw [noCatchAll]
  simp only [show (recordFor name fields).name = name by rfl, checked, bind, Except.bind]
  rfl

/-- The schema has the records of some declarations and nothing else. -/
structure Holds (schema : Schema) (decls : List Document.RecordDecl) : Prop where
  declared : schema.Declared
  enums : schema.enums = .empty
  customs : schema.customs = .empty
  record_iff : ∀ name r, schema.record? name = some r ↔
    ∃ decl ∈ decls, decl.name = name ∧ (Schema.recordOfDecl decl).Returns r

def Acceptable (decl : Document.RecordDecl) : Prop :=
  Primitive.ofName? decl.name = none ∧ ∃ r, (Schema.recordOfDecl decl).Returns r ∧
    r.name = decl.name ∧ r.check = .ok ()

theorem Holds.addRecord {schema : Schema} (holds : Holds schema decls) {decl : Document.RecordDecl}
    (acceptable : Acceptable decl) (fresh : decl.name ∉ namesOf decls) :
    ∃ schema', Returns (do .ofExcept (schema.addRecord (← Schema.recordOfDecl decl))) schema' ∧
      Holds schema' (decls ++ [decl]) := by
  obtain ⟨notPrimitive, r, read, named, checked⟩ := acceptable
  have absent : schema.record? decl.name = none := by
    rw [Option.eq_none_iff_forall_ne_some]
    intro other found
    obtain ⟨decl', mem, same, -⟩ := (holds.record_iff _ _).1 found
    exact fresh (List.mem_map.2 ⟨decl', mem, same⟩)
  have free : schema.checkFree r.name = .ok () := by
    have notTaken : schema.isTaken r.name = false := by
      have noRecord : schema.records.get? r.name = none := named ▸ absent
      have noEnum : (Table.empty : Table EnumType).get? r.name = none := rfl
      have noCustom : (Table.empty : Table (Option String)).get? r.name = none := rfl
      simp [Schema.isTaken, Table.contains, holds.enums, holds.customs, noRecord, noEnum, noCustom,
        named ▸ notPrimitive]
    rw [Schema.checkFree, notTaken]
    rfl
  have added : schema.addRecord r =
      .ok { schema with records := schema.records.insert r.name r } := by
    unfold Schema.addRecord
    simp only [free, checked, bind, Except.bind]
  refine ⟨_, Returns.bind_iff.2 ⟨r, read, Returns.ofExcept_iff.2 added⟩,
    .record r holds.declared added, holds.enums, holds.customs, fun name other => ?_⟩
  rw [Schema.record?, Table.get?_insert]
  split
  case isTrue same =>
    constructor
    · intro isRecord
      cases isRecord
      exact ⟨decl, List.mem_append_right _ List.mem_cons_self, named.symm.trans same.symm, read⟩
    · rintro ⟨decl', mem, isName, isRead⟩
      rcases List.mem_append.1 mem with old | new
      · exact absurd (List.mem_map.2 ⟨decl', old, isName.trans (same.trans named)⟩) fresh
      · rw [List.mem_singleton.1 new] at isRead
        exact congrArg some (read.unique isRead)
  case isFalse ne =>
    refine (holds.record_iff name other).trans ⟨?_, ?_⟩
    · rintro ⟨decl', mem, found⟩
      exact ⟨decl', List.mem_append_left _ mem, found⟩
    · rintro ⟨decl', mem, isName, isRead⟩
      rcases List.mem_append.1 mem with old | new
      · exact ⟨decl', old, isName, isRead⟩
      · rw [List.mem_singleton.1 new] at isName
        exact absurd (isName.symm.trans named.symm) ne

theorem Holds.foldlM {schema : Schema} {rest : List Document.RecordDecl}
    (holds : Holds schema decls) (acceptable : ∀ decl ∈ rest, Acceptable decl)
    (distinct : (namesOf (decls ++ rest)).Nodup) :
    ∃ schema', (rest.foldlM (fun (s : Schema) decl => do
        .ofExcept (s.addRecord (← Schema.recordOfDecl decl))) schema).Returns schema' ∧
      Holds schema' (decls ++ rest) := by
  induction rest generalizing schema decls with
  | nil => exact ⟨schema, Returns.pure_iff.2 rfl, (List.append_nil decls).symm ▸ holds⟩
  | cons decl rest ih =>
    have fresh : decl.name ∉ namesOf decls := by
      rw [namesOf_append] at distinct
      exact fun mem => (List.nodup_append.1 distinct).2.2 _ mem _ List.mem_cons_self rfl
    obtain ⟨next, added, entered⟩ := holds.addRecord (acceptable decl List.mem_cons_self) fresh
    rw [← List.singleton_append, ← List.append_assoc] at distinct ⊢
    obtain ⟨schema', made, final⟩ :=
      ih entered (fun other mem => acceptable other (List.mem_cons_of_mem _ mem)) distinct
    refine ⟨schema', ?_, final⟩
    rw [List.singleton_append, List.foldlM_cons]
    exact Returns.bind_iff.2 ⟨next, added, made⟩

theorem IsDraftedRecord.acceptable (readable : ∀ decl ∈ decls, decl.Readable)
    {decl : Document.RecordDecl} (mem : decl ∈ decls) (drafted : IsDraftedRecord decls decl) :
    Acceptable decl := by
  obtain ⟨name, fields, rfl, types⟩ := drafted
  have names := readable _ mem
  exact ⟨names.notPrimitive, recordFor name fields,
    recordOfDecl_declOf fun e isField => (types e isField).canonical readable, rfl,
    check_recordFor names.distinct⟩

/-- The document of a draft makes a schema with its records. -/
theorem exists_schema {d : Document} (noEnums : d.enums = []) (noCustoms : d.custom = [])
    (distinct : (namesOf d.records).Nodup) (readable : ∀ decl ∈ d.records, decl.Readable)
    (drafted : ∀ decl ∈ d.records, IsDraftedRecord d.records decl) :
    ∃ schema, (Schema.ofDocument d).Returns schema ∧ Holds schema d.records := by
  have empty : Holds {} [] :=
    ⟨.empty, rfl, rfl, fun name r => ⟨nofun, fun ⟨_, mem, _⟩ => absurd mem List.not_mem_nil⟩⟩
  obtain ⟨schema, made, holds⟩ := empty.foldlM
    (fun decl mem => (drafted decl mem).acceptable readable mem) distinct
  refine ⟨schema, ?_, holds⟩
  unfold Schema.ofDocument
  rw [noEnums, noCustoms]
  exact Returns.bind_iff.2 ⟨{}, Returns.pure_iff.2 rfl,
    Returns.bind_iff.2 ⟨{}, Returns.pure_iff.2 rfl, made⟩⟩

theorem Holds.found {schema : Schema} (holds : Holds schema decls)
    (readable : ∀ decl ∈ decls, decl.Readable) {name : String} {fields : List (String × TypeExpr)}
    (isDecl : declOf name fields ∈ decls) (types : ∀ e ∈ fields, IsDraft decls e.2) :
    schema.record? name = some (recordFor name fields) :=
  (holds.record_iff _ _).2 ⟨_, isDecl, rfl,
    recordOfDecl_declOf fun e isField => (types e isField).canonical readable⟩

theorem Holds.unnumbered {schema : Schema} (holds : Holds schema decls)
    (readable : ∀ decl ∈ decls, decl.Readable) : schema.Unnumbered := by
  refine Schema.unnumbered_of_hash fun name r found => ?_
  obtain ⟨decl, mem, rfl, -⟩ := (holds.record_iff _ _).1 found
  exact (readable decl mem).nameable.hash_not_mem

end Inference
end RecordCodec
