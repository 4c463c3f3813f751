import Mathlib.Data.List.Forall2
import Mathlib.Data.List.Nodup
import RecordCodec.Proofs.Declarations
import RecordCodec.Proofs.Handling

set_option autoImplicit false

/-!
# Inhabitants of types

Which instances a type stands for, with the built-in handlers. A custom type has those of the
ancestor that the registry found for it.
-/
namespace RecordCodec

def Primitive.Holds : Primitive → Instance → Prop
  | .null, .null | .bool, .bool _ | .int, .int _ | .float, .float _ | .str, .str _
  | .bytes, .bytes _ | .date, .date _ | .time, .time _ | .dateTime, .dateTime _
  | .duration, .duration _ | .any, .dynamic _ => True
  | _, _ => False

/-- The fields are declared ones in the order of their declaration, and only those are left out
that may be. -/
structure RecordType.HasFields (r : RecordType) (fields : List (String × Instance)) : Prop where
  order : (fields.map Prod.fst).Sublist (r.fields.map Field.name)
  distinct : (fields.map Prod.fst).Nodup
  complete : ∀ f ∈ r.fields, f.isRequired r.kind = true ∨ f.default.isSome = true →
    f.name ∈ fields.map Prod.fst

/-- The instances of a type. A literal is one of the listed values or equal to one. -/
inductive Inhabits (schema : Schema) : TypeExpr → Instance → Prop where
  | scalar {ty target : TypeExpr} {p : Primitive} {v : Instance} :
    Handled schema .builtin ty (.scalar p) target → p.Holds v → Inhabits schema ty v
  | absent {ty target : TypeExpr} :
    Handled schema .builtin ty .optional target → Inhabits schema ty .null
  | given {ty target : TypeExpr} {v : Instance} :
    Handled schema .builtin ty .optional target → Inhabits schema (target.arg 0) v →
    Inhabits schema ty v
  | sequence {ty target : TypeExpr} {items : List Instance} :
    Handled schema .builtin ty .sequence target →
    (∀ v ∈ items, Inhabits schema (target.arg 0) v) → Inhabits schema ty (.seq items)
  | set {ty target : TypeExpr} {items : List Instance} :
    Handled schema .builtin ty .set target →
    (∀ v ∈ items, Inhabits schema (target.arg 0) v) →
    items.Pairwise (fun v w => Instance.same v w = false) → Inhabits schema ty (.set items)
  | variadicTuple {ty target : TypeExpr} {items : List Instance} :
    Handled schema .builtin ty .variadicTuple target →
    (∀ v ∈ items, Inhabits schema (target.arg 0) v) → Inhabits schema ty (.tuple items)
  | fixedTuple {ty target : TypeExpr} {items : List Instance} :
    Handled schema .builtin ty .fixedTuple target → items.length = target.args.length →
    (∀ e ∈ target.args.zip items, Inhabits schema e.1 e.2) → Inhabits schema ty (.tuple items)
  | mapping {ty target : TypeExpr} {entries : List (Instance × Instance)} :
    Handled schema .builtin ty .mapping target →
    (∀ e ∈ entries, Inhabits schema (target.arg 0) e.1) →
    (∀ e ∈ entries, Inhabits schema (target.arg 1) e.2) → Inhabits schema ty (.map entries)
  | defaultMapping {ty target : TypeExpr} {entries : List (Instance × Instance)} :
    Handled schema .builtin ty .defaultMapping target →
    (∀ e ∈ entries, Inhabits schema (target.arg 0) e.1) →
    (∀ e ∈ entries, Inhabits schema (target.arg 1) e.2) →
    Inhabits schema ty (.defaultMap entries (Converter.zeroOf (target.arg 1)))
  | literal {ty target : TypeExpr} {v : Json} :
    Handled schema .builtin ty .literal target →
    v ∈ target.literals ∨ Json.contains target.literals v = true →
    Inhabits schema ty (.ofScalar v)
  | enumeration {ty target : TypeExpr} {e : EnumType} {variant : String} {value : Json} :
    Handled schema .builtin ty .enumeration target → Compile.findEnum schema target = .ok e →
    e.valueOf? variant = some value →
    Inhabits schema ty (.enumeration ⟨e.name, variant, value⟩)
  | union {ty target arm : TypeExpr} {v : Instance} :
    Handled schema .builtin ty .union target → arm ∈ target.args → Inhabits schema arm v →
    Inhabits schema ty v
  | record {ty target : TypeExpr} {name : String} {r : RecordType}
      {fields : List (String × Instance)} :
    Handled schema .builtin ty .record target → target.shape.recordName? = some name →
    schema.record? name = some r → r.HasFields fields →
    (∀ f ∈ r.fields, ∀ v, (f.name, v) ∈ fields → Inhabits schema f.type v) →
    Inhabits schema ty (.record name fields)

def InhabitsRecord (schema : Schema) (name : String) (v : Instance) : Prop :=
  ∃ r fields, v = .record name fields ∧ schema.record? name = some r ∧ r.HasFields fields ∧
    ∀ f ∈ r.fields, ∀ v, (f.name, v) ∈ fields → Inhabits schema f.type v

def InhabitsAs (schema : Schema) (target : TypeExpr) : Handler → Instance → Prop
  | .scalar p, v => p.Holds v
  | .optional, v => v = .null ∨ Inhabits schema (target.arg 0) v
  | .sequence, v => ∃ items, v = .seq items ∧ ∀ w ∈ items, Inhabits schema (target.arg 0) w
  | .set, v => ∃ items, v = .set items ∧ (∀ w ∈ items, Inhabits schema (target.arg 0) w) ∧
    items.Pairwise fun v w => Instance.same v w = false
  | .variadicTuple, v =>
    ∃ items, v = .tuple items ∧ ∀ w ∈ items, Inhabits schema (target.arg 0) w
  | .fixedTuple, v => ∃ items, v = .tuple items ∧ items.length = target.args.length ∧
    ∀ e ∈ target.args.zip items, Inhabits schema e.1 e.2
  | .mapping, v => ∃ entries, v = .map entries ∧
    (∀ e ∈ entries, Inhabits schema (target.arg 0) e.1) ∧
    ∀ e ∈ entries, Inhabits schema (target.arg 1) e.2
  | .defaultMapping, v =>
    ∃ entries, v = .defaultMap entries (Converter.zeroOf (target.arg 1)) ∧
      (∀ e ∈ entries, Inhabits schema (target.arg 0) e.1) ∧
      ∀ e ∈ entries, Inhabits schema (target.arg 1) e.2
  | .literal, v => ∃ raw, v = .ofScalar raw ∧
    (raw ∈ target.literals ∨ Json.contains target.literals raw = true)
  | .enumeration, v => ∃ e variant value, v = .enumeration ⟨e.name, variant, value⟩ ∧
    Compile.findEnum schema target = .ok e ∧ e.valueOf? variant = some value
  | .union, v => ∃ arm ∈ target.args, Inhabits schema arm v
  | .record, v => ∃ name, target.shape.recordName? = some name ∧ InhabitsRecord schema name v
  | .custom _ _, _ => False

/-- The defaults that stand ready as instances are ones of the types of their fields. -/
def Schema.HasTypedDefaults (schema : Schema) : Prop :=
  ∀ name r, schema.record? name = some r → ∀ f ∈ r.fields, ∀ v,
    f.default = some (.value v) ∨ f.default = some (.fresh v) → Inhabits schema f.type v

variable {schema : Schema}

theorem Handled.of_resolve_eq {registry : Registry} {ty ty' target : TypeExpr} {handler : Handler}
    (same : schema.resolve ty = schema.resolve ty')
    (h : Handled schema registry ty handler target) :
    Handled schema registry ty' handler target := by
  unfold Handled at h ⊢
  rw [← same]
  exact h

theorem Inhabits.of_resolve {ty : TypeExpr} {v : Instance}
    (h : Inhabits schema (schema.resolve ty) v) : Inhabits schema ty v := by
  have move : ∀ {handler target}, Handled schema .builtin (schema.resolve ty) handler target →
      Handled schema .builtin ty handler target :=
    fun handled => handled.of_resolve_eq (schema.resolve_resolve ty)
  cases h with
  | scalar handled holds => exact .scalar (move handled) holds
  | absent handled => exact .absent (move handled)
  | given handled inner => exact .given (move handled) inner
  | sequence handled items => exact .sequence (move handled) items
  | set handled items different => exact .set (move handled) items different
  | variadicTuple handled items => exact .variadicTuple (move handled) items
  | fixedTuple handled even items => exact .fixedTuple (move handled) even items
  | mapping handled keys values => exact .mapping (move handled) keys values
  | defaultMapping handled keys values => exact .defaultMapping (move handled) keys values
  | literal handled listed => exact .literal (move handled) listed
  | enumeration handled found value => exact .enumeration (move handled) found value
  | union handled mem inner => exact .union (move handled) mem inner
  | record handled isName declared shape values =>
    exact .record (move handled) isName declared shape values

theorem InhabitsRecord.of_values {name : String} {r : RecordType} {values : List Instance}
    (declared : schema.record? name = some r) (distinct : (r.fields.map Field.name).Nodup)
    (h : List.Forall₂ (fun f v => Inhabits schema f.type v) r.fields values) :
    InhabitsRecord schema name (.record name ((r.fields.map Field.name).zip values)) := by
  have names : ((r.fields.map Field.name).zip values).map Prod.fst = r.fields.map Field.name :=
    List.map_fst_zip (by simp [h.length_eq])
  refine ⟨r, _, rfl, declared, ⟨by simp [names], by simpa only [names] using distinct, ?_⟩, ?_⟩
  · intro f mem _
    rw [names]
    exact List.mem_map_of_mem mem
  · intro f mem v isField
    obtain ⟨k, isPair⟩ := List.mem_iff_getElem?.1 isField
    obtain ⟨isName, isValue⟩ := List.getElem?_zip_eq_some.1 isPair
    rw [List.getElem?_map, Option.map_eq_some_iff] at isName
    obtain ⟨g, isG, sameName⟩ := isName
    have same := List.inj_on_of_nodup_map distinct (List.mem_of_getElem? isG) mem sameName
    subst same
    exact (List.forall₂_iff_zip.1 h).2
      (List.mem_of_getElem? (List.getElem?_zip_eq_some.2 ⟨isG, isValue⟩))

theorem Inhabits.elim {ty target : TypeExpr} {handler : Handler} {v : Instance}
    (h : Inhabits schema ty v) (handled : Handled schema .builtin ty handler target) :
    InhabitsAs schema target handler v := by
  cases h with
  | scalar found holds =>
    obtain ⟨rfl, rfl⟩ := handled.unique found
    exact holds
  | absent found =>
    obtain ⟨rfl, rfl⟩ := handled.unique found
    exact .inl rfl
  | given found inner =>
    obtain ⟨rfl, rfl⟩ := handled.unique found
    exact .inr inner
  | sequence found items =>
    obtain ⟨rfl, rfl⟩ := handled.unique found
    exact ⟨_, rfl, items⟩
  | set found items different =>
    obtain ⟨rfl, rfl⟩ := handled.unique found
    exact ⟨_, rfl, items, different⟩
  | variadicTuple found items =>
    obtain ⟨rfl, rfl⟩ := handled.unique found
    exact ⟨_, rfl, items⟩
  | fixedTuple found even items =>
    obtain ⟨rfl, rfl⟩ := handled.unique found
    exact ⟨_, rfl, even, items⟩
  | mapping found keys values =>
    obtain ⟨rfl, rfl⟩ := handled.unique found
    exact ⟨_, rfl, keys, values⟩
  | defaultMapping found keys values =>
    obtain ⟨rfl, rfl⟩ := handled.unique found
    exact ⟨_, rfl, keys, values⟩
  | literal found listed =>
    obtain ⟨rfl, rfl⟩ := handled.unique found
    exact ⟨_, rfl, listed⟩
  | enumeration found isEnum value =>
    obtain ⟨rfl, rfl⟩ := handled.unique found
    exact ⟨_, _, _, rfl, isEnum, value⟩
  | union found mem inner =>
    obtain ⟨rfl, rfl⟩ := handled.unique found
    exact ⟨_, mem, inner⟩
  | record found isName declared shape values =>
    obtain ⟨rfl, rfl⟩ := handled.unique found
    exact ⟨_, isName, _, _, rfl, declared, shape, values⟩

end RecordCodec
