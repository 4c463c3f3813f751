import Mathlib.Data.List.Nodup
import RecordCodec.Proofs.Codecs
import RecordCodec.Proofs.Inhabitants
import RecordCodec.Proofs.Correctness
import RecordCodec.Proofs.Results

set_option autoImplicit false

/-!
# Decoding makes instances of the right types

Whatever a converter returns at a type inhabits the type, if the routines it calls return instances
of their records. For a record this takes the values of all fields, defaults and the catch-all
included, and that no required field is missing.
-/
namespace RecordCodec

open Routine

theorem Primitive.ofName?_name (p : Primitive) : ofName? p.name = some p := by
  cases p <;> rfl

namespace Registry

variable {schema : Schema}

theorem get?_builtin_ne_custom {key : HandlerKey} {handler : Handler}
    (h : builtin.get? key = some handler) (decode : Json → Except Failure Instance)
    (encode : Instance → Except Failure Json) : handler ≠ .custom decode encode := by
  have all : ∀ e ∈ builtin.handlers, e.2 ≠ .custom decode encode := by
    simp [builtin, Primitive.all, shapeHandlers]
  exact all _ (Assoc.mem_of_get? h)

theorem lookup?_builtin_ne_custom {ty : TypeExpr} {handler : Handler}
    (h : builtin.lookup? ty = some handler) (decode : Json → Except Failure Instance)
    (encode : Instance → Except Failure Json) : handler ≠ .custom decode encode := by
  rcases Option.or_eq_some_iff.1 h with byName | ⟨-, byShape⟩
  · obtain ⟨name, -, found⟩ := Option.bind_eq_some_iff.1 byName
    exact get?_builtin_ne_custom found decode encode
  · exact get?_builtin_ne_custom byShape decode encode

theorem inherited?_builtin_ne_custom {names : List String} {handler : Handler} {target : TypeExpr}
    (h : builtin.inherited? schema names = some (handler, target))
    (decode : Json → Except Failure Instance) (encode : Instance → Except Failure Json) :
    handler ≠ .custom decode encode := by
  induction names with
  | nil => cases h
  | cons name rest ih =>
    rw [inherited?] at h
    cases found : builtin.lookup? (ancestorType schema name) with
    | none =>
      rw [found] at h
      exact ih h
    | some other =>
      rw [found] at h
      cases h
      exact lookup?_builtin_ne_custom found decode encode

/-- Functions are registered by callers only. -/
theorem resolve_builtin_ne_custom {ty target : TypeExpr} {handler : Handler}
    (h : builtin.resolve schema ty = .ok (handler, target))
    (decode : Json → Except Failure Instance) (encode : Instance → Except Failure Json) :
    handler ≠ .custom decode encode := by
  unfold resolve at h
  split at h
  case h_1 found =>
    cases h
    exact lookup?_builtin_ne_custom found decode encode
  case h_2 =>
    split at h
    · split at h
      case h_1 found =>
        cases h
        exact inherited?_builtin_ne_custom found decode encode
      case h_2 => cases h
    · split at h
      case h_1 found =>
        cases h
        exact inherited?_builtin_ne_custom found decode encode
      case h_2 => cases h
    · cases h

theorem get?_builtin_type {name : String} (free : Primitive.ofName? name = none) :
    builtin.get? (.type name) = none := by
  refine Assoc.get?_eq_none_iff.2 fun mem => ?_
  obtain ⟨⟨key, handler⟩, listed, isKey⟩ := List.mem_map.1 mem
  rcases List.mem_append.1 listed with ofPrimitive | ofShape
  · obtain ⟨p, -, same⟩ := List.mem_map.1 ofPrimitive
    cases same
    cases isKey
    rw [Primitive.ofName?_name] at free
    cases free
  · obtain ⟨e, -, same⟩ := List.mem_map.1 ofShape
    cases same
    cases isKey

end Registry

/-- A name that is no primitive's leaves the shape of a record to decide. -/
theorem Handled.of_record {schema : Schema} {ty : TypeExpr} {name : String}
    (isName : (schema.resolve ty).shape.recordName? = some name)
    (free : Primitive.ofName? name = none) :
    Handled schema .builtin ty .record (schema.resolve ty) := by
  unfold Handled
  generalize schema.resolve ty = resolved at isName ⊢
  obtain ⟨shape, args, literals⟩ := resolved
  cases shape with
  | record kind other =>
    cases isName
    have found : Registry.builtin.lookup? ⟨.record kind name, args, literals⟩ = some .record := by
      unfold Registry.lookup?
      rw [show (Shape.record kind name).typeName? = some name from rfl, Option.bind_some,
        Registry.get?_builtin_type free, Option.none_or]
      cases kind <;> rfl
    rw [Registry.resolve, found]
  | _ => cases isName

theorem Inhabits.of_inhabitsRecord {schema : Schema} {ty target : TypeExpr} {name : String}
    {v : Instance} (handled : Handled schema .builtin ty .record target)
    (isName : target.shape.recordName? = some name) (h : InhabitsRecord schema name v) :
    Inhabits schema ty v := by
  obtain ⟨r, fields, rfl, declared, shape, values⟩ := h
  exact .record handled isName declared shape values

namespace Scalar

theorem orRefuse_eq_ok {α : Type} {expected : String} {v : Json} {make : α → Instance}
    {found : Option α} {i : Instance} (h : orRefuse expected v make found = .ok i) :
    ∃ a, i = make a := by
  cases found with
  | none => cases h
  | some a =>
    cases h
    exact ⟨a, rfl⟩

theorem decodeBytes_eq_ok {v : Json} {i : Instance} (h : decodeBytes v = .ok i) :
    ∃ octets, i = .bytes octets := by
  unfold decodeBytes at h
  split at h
  · exact orRefuse_eq_ok h
  · exact orRefuse_eq_ok h
  · cases h

theorem decode_holds {p : Primitive} {v : Json} {i : Instance} (h : decode p v = .ok i) :
    p.Holds i := by
  cases p with
  | null =>
    simp only [decode] at h
    split at h
    · cases h
      trivial
    · cases h
  | any =>
    cases h
    trivial
  | bytes =>
    obtain ⟨octets, rfl⟩ := decodeBytes_eq_ok h
    trivial
  | _ =>
    obtain ⟨a, rfl⟩ := orRefuse_eq_ok h
    trivial

end Scalar

namespace ItemsForm

theorem foldl_unique (items : List Instance) {seen : List Instance}
    (different : seen.Pairwise fun v w => Instance.same v w = false) :
    let all := items.foldl (fun acc v => if Instance.contains acc v then acc else acc ++ [v]) seen
    all.Pairwise (fun v w => Instance.same v w = false) ∧ ∀ v ∈ all, v ∈ seen ∨ v ∈ items := by
  induction items generalizing seen with
  | nil => exact ⟨different, fun v mem => .inl mem⟩
  | cons v rest ih =>
    simp only [List.foldl_cons]
    by_cases old : Instance.contains seen v = true
    · rw [if_pos old]
      obtain ⟨pairwise, subset⟩ := ih different
      exact ⟨pairwise, fun w mem => (subset w mem).imp id (List.mem_cons_of_mem _)⟩
    · rw [if_neg old]
      have new : ∀ w ∈ seen, Instance.same w v = false := by
        simpa [Instance.contains] using old
      have different : (seen ++ [v]).Pairwise fun v w => Instance.same v w = false := by
        simpa [List.pairwise_append] using ⟨different, new⟩
      obtain ⟨pairwise, subset⟩ := ih different
      refine ⟨pairwise, fun w mem => ?_⟩
      have := subset w mem
      simp only [List.mem_append, List.mem_cons, List.not_mem_nil, or_false] at this ⊢
      tauto

theorem pairwise_unique (items : List Instance) :
    (unique items).Pairwise fun v w => Instance.same v w = false :=
  (foldl_unique items .nil).1

theorem mem_of_mem_unique {items : List Instance} {v : Instance} (h : v ∈ unique items) :
    v ∈ items :=
  ((foldl_unique items .nil).2 v h).resolve_left List.not_mem_nil

end ItemsForm

namespace Direct

open Converter

variable {schema : Schema} {nested : Nested Json Instance} {here : Position}

def SoundNested (schema : Schema) (nested : Nested Json Instance) : Prop :=
  ∀ name config v i, (nested name config v).Returns i → InhabitsRecord schema name i

theorem exists_of_variant?_eq_some {e : EnumType} {v : Json} {variant : String}
    (h : variant? e v = some variant) : ∃ value, e.valueOf? variant = some value := by
  have known : variant ∈ Assoc.keys e.variants := by
    rcases Option.or_eq_some_iff.1 h with byValue | ⟨-, byText⟩
    · obtain ⟨pair, found, rfl⟩ := Option.map_eq_some_iff.1 byValue
      exact List.mem_map_of_mem (List.mem_of_find?_eq_some found)
    · obtain ⟨s, -, byText⟩ := Option.bind_eq_some_iff.1 byText
      obtain ⟨pair, found, same⟩ := Option.bind_eq_some_iff.1 byText
      cases same
      rcases Option.or_eq_some_iff.1 found with found | ⟨-, found⟩
      · exact List.mem_map_of_mem (List.mem_of_find?_eq_some found)
      · exact List.mem_map_of_mem (List.mem_of_find?_eq_some found)
  exact Option.isSome_iff_exists.1 (Assoc.isSome_get?_iff.2 known)

theorem exists_of_decodeLiteral_eq_ok {values : List Json} {v : Json} {i : Instance}
    (h : decodeLiteral values v = .ok i) :
    ∃ l, i = .ofScalar l ∧ (l ∈ values ∨ Json.contains values l = true) := by
  unfold decodeLiteral at h
  split at h
  case isTrue listed =>
    cases h
    exact ⟨v, rfl, .inr listed⟩
  case isFalse =>
    split at h
    case h_1 l isText =>
      cases h
      obtain ⟨s, -, isText⟩ := Option.bind_eq_some_iff.1 isText
      exact ⟨l, rfl, .inl (List.mem_of_find?_eq_some isText)⟩
    case h_2 => cases h

theorem exists_of_decodeEnum_eq_ok {e : EnumType} {v : Json} {i : Instance}
    (h : decodeEnum e v = .ok i) :
    ∃ variant value, i = .enumeration ⟨e.name, variant, value⟩ ∧
      e.valueOf? variant = some value := by
  unfold decodeEnum at h
  split at h
  case h_1 variant isVariant =>
    cases h
    obtain ⟨value, isValue⟩ := exists_of_variant?_eq_some isVariant
    exact ⟨variant, value, by rw [isValue]; rfl, isValue⟩
  case h_2 => cases h

theorem exists_of_decodeList_returns {form : ItemsForm} {item : Decode} {v : Json} {i : Instance}
    (h : (decodeList form item v).Returns i) :
    ∃ items, i = form.build items ∧ ∀ w ∈ items, ∃ u, (item u).Returns w := by
  unfold decodeList at h
  cases found : listItems? v with
  | none =>
    rw [found] at h
    simp at h
  | some vs =>
    rw [found] at h
    simp only [Run.Returns.bind_iff, Run.Returns.pure_iff, decodeItems_returns_iff] at h
    obtain ⟨items, decoded, rfl⟩ := h
    refine ⟨items, rfl, fun w mem => ?_⟩
    obtain ⟨u, -, returns⟩ := exists_of_forall₂ decoded mem
    exact ⟨u, returns⟩

theorem exists_of_decodeTuple_returns {parts : List Decode} {v : Json} {i : Instance}
    (h : (decodeTuple parts v).Returns i) :
    ∃ items, i = .tuple items ∧ items.length = parts.length ∧
      ∀ (k : Nat) (part : Decode) (w : Instance), parts[k]? = some part → items[k]? = some w →
        ∃ u, (part u).Returns w := by
  unfold decodeTuple at h
  cases found : listItems? v with
  | none =>
    rw [found] at h
    simp at h
  | some vs =>
    rw [found] at h
    by_cases even : vs.length = parts.length
    · simp only [if_pos even, Run.Returns.bind_iff, Run.Returns.pure_iff,
        decodeParts_returns_iff even] at h
      obtain ⟨items, decoded, rfl⟩ := h
      have lengths := decoded.length_eq
      rw [List.length_zip, even, Nat.min_self] at lengths
      refine ⟨items, rfl, lengths.symm, fun k part w isPart isItem => ?_⟩
      obtain ⟨u, isValue⟩ : ∃ u, vs[k]? = some u := by
        have inRange := (List.getElem?_eq_some_iff.1 isPart).1
        exact ⟨vs[k], List.getElem?_eq_getElem (by omega)⟩
      have isPair : (parts.zip vs)[k]? = some (part, u) := by
        rw [List.getElem?_zip_eq_some]
        exact ⟨isPart, isValue⟩
      have mem : ((part, u), w) ∈ (parts.zip vs).zip items := by
        refine List.mem_of_getElem? (i := k) ?_
        rw [List.getElem?_zip_eq_some]
        exact ⟨isPair, isItem⟩
      exact ⟨u, (List.forall₂_iff_zip.1 decoded).2 mem⟩
    · simp [if_neg even] at h

theorem exists_of_decodeMapping_returns {build : List (Instance × Instance) → Instance}
    {key item : Decode} {v : Json} {i : Instance}
    (h : (decodeMapping build key item v).Returns i) :
    ∃ entries, i = build entries ∧
      ∀ e ∈ entries, (∃ u, (key u).Returns e.1) ∧ ∃ u, (item u).Returns e.2 := by
  simp only [decodeMapping, Run.Returns.bind_iff, Run.Returns.pure_iff,
    decodeEntries_returns_iff] at h
  obtain ⟨_, -, entries, decoded, rfl⟩ := h
  refine ⟨entries, rfl, fun e mem => ?_⟩
  obtain ⟨_, -, isKey, isItem⟩ := exists_of_forall₂ decoded mem
  exact ⟨⟨_, isKey⟩, ⟨_, isItem⟩⟩

theorem inhabits_of_armPart (declarations : schema.Declared) (sound : SoundNested schema nested)
    {arm : TypeExpr} (resolved : schema.resolve arm = arm) {inner : Decode}
    (typed : ∀ v i, (inner v).Returns i → Inhabits schema arm i) {v : Json} {i : Instance}
    (h : (armPart nested (here.arm schema arm) inner v).Returns i) : Inhabits schema arm i := by
  unfold armPart Position.arm at h
  cases isRecord : arm.shape.recordName? with
  | none =>
    simp only [isRecord] at h
    exact typed v i h
  | some name =>
    simp only [isRecord] at h
    obtain ⟨r, _, _, declared, _⟩ := sound _ _ _ _ h
    have isName : (schema.resolve arm).shape.recordName? = some name := by
      rw [resolved]
      exact isRecord
    have free := (declarations.checked declared).2.1
    exact .of_inhabitsRecord (.of_record isName free) isName (sound _ _ _ _ h)

theorem decodeAs_inhabits (declarations : schema.Declared) (sound : SoundNested schema nested)
    {ty target : TypeExpr} {handler : Handler} (handled : Handled schema .builtin ty handler target)
    (arg : ∀ index v i, (decodeType schema .builtin nested here (target.arg index) v).Returns i →
      Inhabits schema (target.arg index) i)
    (inner : ∀ a ∈ target.args, ∀ v i, (decodeType schema .builtin nested here a v).Returns i →
      Inhabits schema a i) {v : Json} {i : Instance}
    (h : (decodeAs schema nested here target
      (target.args.map (decodeType schema .builtin nested here)) handler v).Returns i) :
    Inhabits schema ty i := by
  have part := @part_decodeType schema _ Registry.keepsAny_builtin nested here target
  cases handler with
  | scalar p =>
    exact .scalar handled (Scalar.decode_holds (Run.Returns.ofExcept_iff.1 h))
  | optional =>
    simp only [decodeAs, part] at h
    split at h
    · cases Run.Returns.pure_iff.1 h
      exact .absent handled
    · exact .given handled (arg 0 _ _ h)
  | sequence =>
    simp only [decodeAs, part] at h
    obtain ⟨items, rfl, decoded⟩ := exists_of_decodeList_returns h
    refine .sequence handled fun w mem => ?_
    obtain ⟨u, returns⟩ := decoded w mem
    exact arg 0 u w returns
  | set =>
    simp only [decodeAs, part] at h
    obtain ⟨items, rfl, decoded⟩ := exists_of_decodeList_returns h
    refine .set handled (fun w mem => ?_) (ItemsForm.pairwise_unique items)
    obtain ⟨u, returns⟩ := decoded w (ItemsForm.mem_of_mem_unique mem)
    exact arg 0 u w returns
  | variadicTuple =>
    simp only [decodeAs, part] at h
    obtain ⟨items, rfl, decoded⟩ := exists_of_decodeList_returns h
    refine .variadicTuple handled fun w mem => ?_
    obtain ⟨u, returns⟩ := decoded w mem
    exact arg 0 u w returns
  | fixedTuple =>
    obtain ⟨items, rfl, even, decoded⟩ := exists_of_decodeTuple_returns h
    rw [List.length_map] at even
    refine .fixedTuple handled even fun e mem => ?_
    obtain ⟨k, isPair⟩ := List.mem_iff_getElem?.1 mem
    obtain ⟨isType, isItem⟩ := List.getElem?_zip_eq_some.1 isPair
    obtain ⟨u, returns⟩ := decoded k _ _ (by rw [List.getElem?_map, isType]; rfl) isItem
    exact inner _ (List.mem_of_getElem? isType) u _ returns
  | mapping =>
    simp only [decodeAs, part] at h
    obtain ⟨entries, rfl, decoded⟩ := exists_of_decodeMapping_returns h
    refine .mapping handled (fun e mem => ?_) fun e mem => ?_
    · obtain ⟨u, returns⟩ := (decoded e mem).1
      exact arg 0 u _ returns
    · obtain ⟨u, returns⟩ := (decoded e mem).2
      exact arg 1 u _ returns
  | defaultMapping =>
    simp only [decodeAs, part] at h
    obtain ⟨entries, rfl, decoded⟩ := exists_of_decodeMapping_returns h
    refine .defaultMapping handled (fun e mem => ?_) fun e mem => ?_
    · obtain ⟨u, returns⟩ := (decoded e mem).1
      exact arg 0 u _ returns
    · obtain ⟨u, returns⟩ := (decoded e mem).2
      exact arg 1 u _ returns
  | literal =>
    obtain ⟨l, rfl, listed⟩ := exists_of_decodeLiteral_eq_ok (Run.Returns.ofExcept_iff.1 h)
    exact .literal handled listed
  | enumeration =>
    obtain ⟨e, isEnum, found⟩ := bind_eq_ok_iff.1 (Run.Returns.ofExcept_iff.1 h)
    obtain ⟨variant, value, rfl, isValue⟩ := exists_of_decodeEnum_eq_ok found
    exact .enumeration handled isEnum isValue
  | union =>
    simp only [decodeAs, armParts_map] at h
    obtain ⟨decode, mem, returns⟩ := exists_of_decodeUnion_returns h
    obtain ⟨arm, isArm, rfl⟩ := List.mem_map.1 mem
    exact .union handled isArm (inhabits_of_armPart declarations sound
      (handled.resolve_of_mem isArm) (inner arm isArm) returns)
  | record =>
    simp only [decodeAs] at h
    cases isRecord : target.shape.recordName? with
    | none => simp [isRecord] at h
    | some name =>
      simp only [isRecord] at h
      exact .of_inhabitsRecord handled isRecord (sound _ _ _ _ h)
  | custom decode encode => exact absurd rfl (Registry.resolve_builtin_ne_custom handled _ _)

theorem decodeType_inhabits_of_resolved (declarations : schema.Declared)
    (sound : SoundNested schema nested) (ty : TypeExpr) (resolved : schema.resolve ty = ty)
    {v : Json} {i : Instance} (h : (decodeType schema .builtin nested here ty v).Returns i) :
    Inhabits schema ty i := by
  induction ty using TypeExpr.induction generalizing v i with
  | node shape args literals ih =>
    cases found : Registry.builtin.resolve schema ⟨shape, args, literals⟩ with
    | error e =>
      rw [decodeType, found] at h
      simp at h
    | ok both =>
      obtain ⟨handler, target⟩ := both
      have handled : Handled schema .builtin ⟨shape, args, literals⟩ handler target := by
        unfold Handled
        rw [resolved, found]
      have inner : ∀ a ∈ target.args, ∀ v i,
          (decodeType schema .builtin nested here a v).Returns i → Inhabits schema a i := by
        intro a mem v i returns
        refine ih a ?_ (handled.resolve_of_mem mem) returns
        rcases handled.target_eq_or with rfl | none
        · rw [resolved] at mem
          exact mem
        · rw [none] at mem
          cases mem
      have arg : ∀ index v i,
          (decodeType schema .builtin nested here (target.arg index) v).Returns i →
          Inhabits schema (target.arg index) i := by
        intro index v i returns
        rcases target.arg_mem_or_any index with mem | isAny
        · exact inner _ mem v i returns
        · rw [isAny, decodeType_any Registry.keepsAny_builtin] at returns
          rw [isAny]
          cases Run.Returns.pure_iff.1 returns
          exact .scalar (handled_any Registry.keepsAny_builtin) trivial
      rw [← resolved, decodeType_of_handled handled] at h
      exact decodeAs_inhabits declarations sound handled arg inner h

/-- What decodes at a type inhabits it. -/
theorem decodeType_inhabits (declarations : schema.Declared) (sound : SoundNested schema nested)
    {ty : TypeExpr} {v : Json} {i : Instance}
    (h : (decodeType schema .builtin nested here (schema.resolve ty) v).Returns i) :
    Inhabits schema ty i :=
  .of_resolve (decodeType_inhabits_of_resolved declarations sound _ (schema.resolve_resolve ty) h)

section Records
variable {record : RecordType} {config : Config} {input : Json} {convert : Field → Decode}

section
variable {typed : Instance → Prop} {convert : Decode} {field : Field}
  (converts : ∀ v i, (convert v).Returns i → typed i)
  (defaults : ∀ v, field.default = some (.value v) ∨ field.default = some (.fresh v) → typed v)
include converts defaults

theorem decodeAbsent_typed {o : Option Instance}
    (h : (decodeAbsent record convert field).Returns o) :
    (∀ i, o = some i → typed i) ∧ (o = none → field.default = none) := by
  unfold decodeAbsent at h
  split at h
  case h_1 v isDefault =>
    cases Run.Returns.pure_iff.1 h
    refine ⟨fun i isValue => ?_, fun isNone => by cases isNone⟩
    cases isValue
    exact defaults v (.inl isDefault)
  case h_2 v isDefault =>
    cases Run.Returns.pure_iff.1 h
    refine ⟨fun i isValue => ?_, fun isNone => by cases isNone⟩
    cases isValue
    exact defaults v (.inr isDefault)
  case h_3 raw isDefault =>
    simp only [Run.Returns.bind_iff, Run.Returns.mapError_iff, Run.Returns.pure_iff] at h
    obtain ⟨w, returns, rfl⟩ := h
    refine ⟨fun i isValue => ?_, fun isNone => by cases isNone⟩
    cases isValue
    exact converts raw w returns
  case h_4 none =>
    cases Run.Returns.pure_iff.1 h
    exact ⟨(fun _ isValue => by cases isValue), fun _ => none⟩

theorem decodeInTurn_typed {index : Nat} {o : Option Instance}
    (h : (decodeInTurn record config input convert index field).Returns o) :
    (∀ i, o = some i → typed i) ∧
      (o = none → field.catchAll = true ∨
        located? record config input index field = none ∧ field.default = none) := by
  unfold decodeInTurn at h
  by_cases last : field.catchAll = true
  · rw [if_pos last] at h
    cases Run.Returns.pure_iff.1 h
    exact ⟨(fun _ isValue => by cases isValue), fun _ => .inl last⟩
  · rw [if_neg last] at h
    unfold decodeField at h
    cases found : located? record config input index field with
    | some raw =>
      simp only [found, Run.Returns.bind_iff, Run.Returns.mapError_iff, Run.Returns.pure_iff] at h
      obtain ⟨i, returns, rfl⟩ := h
      refine ⟨fun w isValue => ?_, fun isNone => by cases isNone⟩
      cases isValue
      exact converts raw i returns
    | none =>
      simp only [found] at h
      obtain ⟨values, noDefault⟩ := decodeAbsent_typed converts defaults h
      exact ⟨values, fun isNone => .inr ⟨rfl, noDefault isNone⟩⟩

end

theorem getElem?_of_catchAllAt {index found : Nat} {fields : List Field} {field : Field}
    (h : catchAllAt index fields = some (field, found)) :
    ∃ k, found = index + k ∧ fields[k]? = some field ∧ field.catchAll = true := by
  induction fields generalizing index with
  | nil => cases h
  | cons f rest ih =>
    rw [catchAllAt] at h
    by_cases first : f.catchAll = true
    · rw [if_pos first] at h
      cases h
      exact ⟨0, rfl, rfl, first⟩
    · rw [if_neg first] at h
      obtain ⟨k, rfl, isField, last⟩ := ih h
      exact ⟨k + 1, by omega, isField, last⟩

theorem decodeLeftOver_returns {values values' : List (Option Instance)}
    (h : (decodeLeftOver record config input convert values).Returns values') :
    (values' = values ∧ ∀ f ∈ record.fields, f.catchAll = false) ∨
      ∃ k field i, record.fields[k]? = some field ∧ field.catchAll = true ∧
        (convert field (gathered record config input)).Returns i ∧
        values' = values.set k (some i) := by
  unfold decodeLeftOver at h
  cases found : catchAllAt 0 record.fields with
  | none =>
    simp only [found] at h
    refine .inl ⟨?_, catchAllAt_eq_none_iff.1 found⟩
    split at h
    · simp at h
    · exact (Run.Returns.pure_iff.1 h).symm
  | some both =>
    obtain ⟨field, index⟩ := both
    simp only [found, Run.Returns.bind_iff, Run.Returns.mapError_iff, Run.Returns.pure_iff] at h
    obtain ⟨i, returns, rfl⟩ := h
    obtain ⟨k, same, isField, last⟩ := getElem?_of_catchAllAt found
    rw [Nat.zero_add] at same
    subst same
    exact .inr ⟨index, field, i, isField, last, returns, rfl⟩

theorem decodeRecord_typed (typed : Field → Instance → Prop) (checked : record.Checked)
    (converts : ∀ f ∈ record.fields, ∀ v i, (convert f v).Returns i → typed f i)
    (defaults : ∀ f ∈ record.fields, ∀ v,
      f.default = some (.value v) ∨ f.default = some (.fresh v) → typed f v) {i : Instance}
    (h : (decodeRecord record config input convert).Returns i) :
    ∃ fields, i = .record record.name fields ∧ record.HasFields fields ∧
      ∀ f ∈ record.fields, ∀ v, (f.name, v) ∈ fields → typed f v := by
  obtain ⟨-, missing, values, values', decoded, completed, rfl⟩ := decodeRecord_returns_iff.1 h
  have required := missingFields_eq_nil_iff.1 missing
  have lengths := (decodeFields_returns_iff.1 decoded).length_eq
  rw [List.length_zipIdx] at lengths
  -- what the fields have before the catch-all
  have before : ∀ k f o, record.fields[k]? = some f → values[k]? = some o →
      (∀ i, o = some i → typed f i) ∧ (o = none → f.catchAll = true ∨
        located? record config input k f = none ∧ f.default = none) := by
    intro k f o isField isValue
    have mem := List.mem_of_getElem? isField
    exact decodeInTurn_typed (converts f mem) (defaults f mem)
      (decodeInTurn_of_decodeFields decoded isField isValue)
  -- and after it
  have after : ∀ k f o, record.fields[k]? = some f → values'[k]? = some o →
      (∀ i, o = some i → typed f i) ∧ (o = none → f.catchAll = false ∧
        located? record config input k f = none ∧ f.default = none) := by
    intro k f o isField isValue
    rcases decodeLeftOver_returns completed with
      ⟨rfl, none⟩ | ⟨k', g, i, isG, last, returns, rfl⟩
    · obtain ⟨typed, absent⟩ := before k f o isField isValue
      have notLast := none f (List.mem_of_getElem? isField)
      refine ⟨typed, fun isNone => ⟨notLast, (absent isNone).resolve_left ?_⟩⟩
      simp [notLast]
    · by_cases same : k = k'
      · subst same
        have inRange : k < values.length := by
          have := (List.getElem?_eq_some_iff.1 isField).1
          omega
        rw [List.getElem?_set_self inRange] at isValue
        cases isValue
        rw [isField] at isG
        cases isG
        refine ⟨fun w isValue => ?_, fun isNone => by cases isNone⟩
        cases isValue
        exact converts f (List.mem_of_getElem? isField) _ i returns
      · rw [List.getElem?_set_ne (Ne.symm same)] at isValue
        obtain ⟨typed, absent⟩ := before k f o isField isValue
        have notLast := checked.not_catchAll isG last isField same
        refine ⟨typed, fun isNone => ⟨notLast, (absent isNone).resolve_left ?_⟩⟩
        simp [notLast]
  have lengths' : values'.length = record.fields.length := by
    rcases decodeLeftOver_returns completed with ⟨rfl, -⟩ | ⟨_, _, _, -, -, -, rfl⟩
    · exact lengths.symm
    · rw [List.length_set]
      exact lengths.symm
  refine ⟨_, rfl, ⟨present_sublist _ _, (present_sublist _ _).nodup checked.distinct, ?_⟩, ?_⟩
  · intro f mem needed
    obtain ⟨k, isField⟩ := List.mem_iff_getElem?.1 mem
    have inRange := (List.getElem?_eq_some_iff.1 isField).1
    obtain ⟨o, isValue⟩ : ∃ o, values'[k]? = some o :=
      ⟨_, List.getElem?_eq_getElem (by omega)⟩
    cases o with
    | none =>
      obtain ⟨_, missed, noDefault⟩ := (after k f none isField isValue).2 rfl
      have isPair : (record.fields.zipIdx 0)[k]? = some (f, k) := by
        simp [List.getElem?_zipIdx, isField]
      have := required _ (List.mem_of_getElem? isPair) missed
      simp [this, noDefault] at needed
    | some v =>
      exact List.mem_map_of_mem (f := Prod.fst) (mem_present_iff.2 ⟨k, f, isField, isValue, rfl⟩)
  · intro f mem v isPresent
    obtain ⟨k, g, isField, isValue, isName⟩ := mem_present_iff.1 isPresent
    have same := List.inj_on_of_nodup_map checked.distinct (List.mem_of_getElem? isField) mem isName
    subst same
    exact (after k g _ isField isValue).1 v rfl

end Records

theorem soundNested_decode (declarations : schema.Declared) (typed : schema.HasTypedDefaults)
    (fuel : Nat) : SoundNested schema (Direct.decode schema .builtin fuel) := by
  induction fuel with
  | zero =>
    intro name config v i h
    cases h
  | succ fuel ih =>
    intro name config v i h
    cases found : schema.record? name with
    | none =>
      simp [Direct.decode, Schema.findRecord, found] at h
    | some r =>
      obtain ⟨isName, -, checked⟩ := declarations.checked found
      rw [Compile.decode_succ found] at h
      obtain ⟨fields, rfl, shape, values⟩ := decodeRecord_typed
        (fun f => Inhabits schema f.type) checked
        (fun f _ v i returns => decodeType_inhabits declarations ih returns)
        (typed name r found) h
      exact ⟨r, fields, by rw [isName], found, shape, values⟩

end Direct

namespace Codec

variable {c : Codec} {record : String} {overrides : Config} {v : Json} {i : Instance}

/-- What decodes comes of the direct interpretation, unless the session took routines over from the
cache and a record is named like another one with a number. -/
theorem direct_of_decode (builtin : c.registry = .builtin)
    (history : c.cache.History c.schema c.registry)
    (apart : c.cache.decoders = [] ∨ c.schema.Unnumbered)
    (h : (c.decode record v overrides).1.Returns i) :
    ∃ config fuel, (Direct.decode c.schema .builtin fuel record config v).Returns i := by
  obtain ⟨r, compiled, called⟩ := Run.Returns.bind_iff.1 h
  obtain ⟨config, -, serves⟩ := decoder_serves history apart compiled
  rw [builtin] at serves
  rw [Decoder.call, serves.callWithin_decode Registry.keepsAny_builtin] at called
  exact ⟨config, _, called⟩

end Codec

/-- Whatever decodes as a record is an instance of the record, unless the session took routines
over from the cache and a record is named like another one with a number. -/
theorem Codec.decode_inhabits {c : Codec} (declarations : c.schema.Declared)
    (builtin : c.registry = .builtin) (typed : c.schema.HasTypedDefaults)
    (history : c.cache.History c.schema c.registry)
    (apart : c.cache.decoders = [] ∨ c.schema.Unnumbered) {record : String} {overrides : Config}
    {v : Json} {i : Instance} (h : (c.decode record v overrides).1.run = some (.ok i)) :
    InhabitsRecord c.schema record i := by
  obtain ⟨config, fuel, decoded⟩ := direct_of_decode builtin history apart h
  exact Direct.soundNested_decode declarations typed fuel record config v i decoded

namespace Sample

theorem handled_tags : Handled schema .builtin (.sequence (.primitive .str)) .sequence
    (.sequence (.primitive .str)) := rfl

theorem schema_hasTypedDefaults : schema.HasTypedDefaults := by
  intro name record found f mem v isDefault
  rw [Schema.record?, schema, Table.get?_insert, Table.get?_insert] at found
  split at found
  · cases found
    simp only [cell, List.mem_cons, List.not_mem_nil, or_false] at mem
    rcases mem with rfl | rfl | rfl
    · simp at isDefault
    · have isEmpty : v = .seq [] := by simpa [eq_comm] using isDefault
      subst isEmpty
      exact .sequence handled_tags fun w mem => absurd mem List.not_mem_nil
    · simp at isDefault
  · split at found
    · cases found
      simp only [point, List.mem_cons, List.not_mem_nil, or_false] at mem
      rcases mem with rfl | rfl <;> simp at isDefault
    · cases found

def codec : Codec where
  schema := schema
  cache := cache

def cells : Json :=
  .object [("point", .array [.number (.whole ⟨1, by decide⟩), .string "2"]),
    ("tags", .string "a,b"),
    ("next", .object [("point", .object [("y", .string " 3"), ("x", .string "+4")])])]

end Sample

theorem Codec.decode_inhabits_cells :
    ∃ i, (Sample.codec.decode "Cell" Sample.cells {}).1.run = some (.ok i) ∧
      InhabitsRecord Sample.schema "Cell" i := by
  have decodes : (Sample.codec.decode "Cell" Sample.cells {}).1.returnsWith
      (fun _ => true) = true := by
    decide +kernel
  obtain ⟨i, decoded, -⟩ := Run.exists_of_returnsWith decodes
  exact ⟨i, decoded, decode_inhabits Sample.schema_declared rfl Sample.schema_hasTypedDefaults
    (.decoder 0 "Point" {} (.empty 0 0)) (.inr Sample.schema_hasIdentifiers.unnumbered) decoded⟩

namespace Clash

def pear : RecordType where
  name := "Pear"
  tag := some "pear"
  fields := [{ name := "size", type := .primitive .int }]

def plum : RecordType where
  name := "Plum"
  tag := some "plum"
  fields := [{ name := "size", type := .primitive .int }]

def fruit : TypeExpr := .union [.named "Pear", .named "Plum"]

def bowl : RecordType where
  name := "Bowl"
  fields := [{ name := "fruit", type := fruit }]

def pearObject (members : List (String × Json)) : Json :=
  .object (members ++ [("size", .number (.whole ⟨0, by decide⟩))])

def pear2 : RecordType where
  name := "Pear#2"
  fields :=
    [{ name := "first", type := .named "Pear", default := some (.declared (pearObject [])) },
      { name := "fruit", type := .optional fruit, default := some (.declared .null) }]

def schema : Schema where
  records := (((Table.empty.insert "Pear" pear).insert "Plum" plum).insert "Bowl" bowl).insert
    "Pear#2" pear2

theorem schema_declared : schema.Declared :=
  .record pear2 (.record bowl (.record plum (.record pear .empty rfl) rfl) rfl) rfl

theorem schema_hasTypedDefaults : schema.HasTypedDefaults := by
  intro name record found f mem v isDefault
  have declared : record ∈ [pear2, bowl, plum, pear] := by
    rw [Schema.record?, schema] at found
    simp only [Table.get?_insert] at found
    split_ifs at found <;> cases found <;> simp
  have later : ∀ r ∈ [pear2, bowl, plum, pear], ∀ f ∈ r.fields,
      f.default ≠ some (.value v) ∧ f.default ≠ some (.fresh v) := by
    simp [pear2, bowl, plum, pear]
  obtain ⟨noValue, noFresh⟩ := later record declared f mem
  exact (isDefault.elim noValue noFresh).elim

def cache : Cache := (({} : Cache).compileDecoder schema .builtin 0 "Bowl" {}).2

theorem cache_history : cache.History schema .builtin := .decoder 0 "Bowl" {} (.empty 0 0)

def codec : Codec where
  schema := schema
  cache := cache

theorem codec_history : codec.cache.History schema .builtin := by
  simp only [codec, cache_history]

def input : Json :=
  .object [("first", pearObject []), ("fruit", pearObject [("__tag__", .string "pear")])]

def isNamed (name : String) : Instance → Bool
  | .record found _ => found == name
  | _ => false

theorem handled_arm {name : String} (free : Primitive.ofName? name = none) :
    Handled schema .builtin (.apply (.record .keyword name) []) .record
      (.apply (.record .keyword name) []) :=
  .of_record rfl free

theorem not_inhabits_fruit {v : Instance} (h : isNamed "Pear#2" v = true) :
    ¬Inhabits schema (.optional fruit) v := by
  intro held
  cases v with
  | record name fields =>
    have same : name = "Pear#2" := by simpa [isNamed] using h
    have optional : Handled schema .builtin (.optional fruit) .optional
        (schema.resolve (.optional fruit)) := rfl
    have union : Handled schema .builtin (schema.resolve fruit) .union (schema.resolve fruit) := rfl
    rcases held.elim optional with isNull | held
    · cases isNull
    · obtain ⟨arm, mem, held⟩ := held.elim union
      have arms : (schema.resolve fruit).args =
          [.apply (.record .keyword "Pear") [], .apply (.record .keyword "Plum") []] := rfl
      simp only [arms, List.mem_cons, List.not_mem_nil, or_false] at mem
      rcases mem with rfl | rfl
      · obtain ⟨_, isPear, _, _, eq, -⟩ := held.elim (handled_arm rfl)
        cases isPear
        cases eq
        simp at same
      · obtain ⟨_, isPlum, _, _, eq, -⟩ := held.elim (handled_arm rfl)
        cases isPlum
        cases eq
        simp at same
  | _ => cases h

def hasPear2 (i : Instance) : Bool := (i.field? "fruit").any (isNamed "Pear#2")

theorem not_inhabits {i : Instance} (h : hasPear2 i = true) :
    ¬InhabitsRecord schema "Pear#2" i := by
  rintro ⟨r, fields, rfl, declared, -, values⟩
  cases declared.symm.trans (show schema.record? "Pear#2" = some pear2 from rfl)
  obtain ⟨v, found, named⟩ := (Option.any_eq_true _ _).1 h
  have mem : pear2.fields[1] ∈ pear2.fields := List.getElem_mem _
  exact not_inhabits_fruit named (values _ mem v (Assoc.mem_of_get? found))

end Clash

/-- A record named like another one with a number. The codec has the decoder of a pear as an arm,
and the session for the record takes it over under the name of the record's own routine. -/
theorem Codec.decode_not_inhabits_pear2 :
    Clash.schema.Declared ∧ Clash.schema.HasTypedDefaults ∧
      Clash.codec.cache.History Clash.schema .builtin ∧
      ∃ i, (Clash.codec.decode "Pear#2" Clash.input {}).1.run = some (.ok i) ∧
        ¬InhabitsRecord Clash.schema "Pear#2" i := by
  refine ⟨Clash.schema_declared, Clash.schema_hasTypedDefaults, Clash.codec_history, ?_⟩
  have decodes : (Clash.codec.decode "Pear#2" Clash.input {}).1.returnsWith
      Clash.hasPear2 = true := by
    decide +kernel
  obtain ⟨i, decoded, named⟩ := Run.exists_of_returnsWith decodes
  exact ⟨i, decoded, Clash.not_inhabits named⟩

end RecordCodec
