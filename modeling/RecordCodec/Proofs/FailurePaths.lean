import RecordCodec.Proofs.Agreement
import RecordCodec.Proofs.Codecs
import RecordCodec.Proofs.SessionFailures
import RecordCodec.Proofs.Soundness

set_option autoImplicit false

/-!
# Where failures point

The path of a failed conversion is a way through the input. A step by the name of a field leads to
the value that the decoder of the record has found for the field, a step by an index to an item, and
a step by a key to the value of an entry, or to the text of the key if this is what cannot be
decoded. At its end is the value that the failure is about.
-/
namespace RecordCodec

open Routine Run Compile
open Converter (Decode listItems? mapEntries)

/-- Where a way through an input ends. -/
structure Arrival where
  value : Json
  /-- The last field that the way led through, with its record. -/
  innermost : Option (String × String) := none
  /-- The way led through the declared default of a field that the input does not have. -/
  byDefault : Bool := false

namespace Arrival

def inside (record field : String) (a : Arrival) : Arrival :=
  { a with innermost := a.innermost.or (some (record, field)) }

def fromDefault (a : Arrival) : Arrival := { a with byDefault := true }

end Arrival

def Converter.IsMapping (key item c : Converter) : Prop :=
  c = .mapping key item ∨ ∃ default, c = .defaultMapping key item default

section
variable (schema : Schema) (registry : Registry)

mutual
/-- The path leads from a value to an arrival, if the routine of a record decodes the value. -/
inductive Walk : String → Config → Decoder → Json → Path → Arrival → Prop where
  | here {name : String} {config : Config} {r : Decoder} {v : Json} :
    Walk name config r v [] { value := v }
  /-- To the value that was found for a field. -/
  | field {name : String} {config : Config} {r : Decoder} {bound : Binding} {record : RecordType}
      {parts : List (Field × Converter)} {index : Nat} {f : Field} {c : Converter} {v w : Json}
      {path : Path} {a : Arrival} :
    Made schema registry .decoding bound name config record parts r.code →
    parts[index]? = some (f, c) → f.catchAll = false →
    Direct.located? record config v index f = some w → WalkIn r c w path a →
    Walk name config r v (.key f.name :: path) (a.inside record.name f.name)
  /-- To the declared default of a field that was not found. -/
  | default {name : String} {config : Config} {r : Decoder} {bound : Binding} {record : RecordType}
      {parts : List (Field × Converter)} {index : Nat} {f : Field} {c : Converter} {v w : Json}
      {path : Path} {a : Arrival} :
    Made schema registry .decoding bound name config record parts r.code →
    parts[index]? = some (f, c) → f.catchAll = false →
    Direct.located? record config v index f = none → f.default = some (.declared w) →
    WalkIn r c w path a →
    Walk name config r v (.key f.name :: path) (a.inside record.name f.name).fromDefault
  /-- To the object of the keys that are left over. -/
  | leftOver {name : String} {config : Config} {r : Decoder} {bound : Binding}
      {record : RecordType} {parts : List (Field × Converter)} {f : Field} {c : Converter}
      {v : Json} {path : Path} {a : Arrival} :
    Made schema registry .decoding bound name config record parts r.code →
    (f, c) ∈ parts → f.catchAll = true →
    WalkIn r c (Direct.gathered record config v) path a →
    Walk name config r v (.key f.name :: path) (a.inside record.name f.name)
/-- The path leads from a value to an arrival, if a converter of the routine decodes the value. -/
inductive WalkIn : Decoder → Converter → Json → Path → Arrival → Prop where
  | here {r : Decoder} {c : Converter} {v : Json} : WalkIn r c v [] { value := v }
  | optional {r : Decoder} {inner : Converter} {v : Json} {path : Path} {a : Arrival} :
    v.isNull = false → WalkIn r inner v path a → WalkIn r (.optional inner) v path a
  /-- To an item of an array or of a text. -/
  | item {r : Decoder} {form : ItemsForm} {item : Converter} {index : Nat} {v w : Json}
      {ws : List Json} {path : Path} {a : Arrival} :
    listItems? v = some ws → ws[index]? = some w → WalkIn r item w path a →
    WalkIn r (.items form item) v (.index index :: path) a
  | part {r : Decoder} {parts : List Converter} {part : Converter} {index : Nat} {v w : Json}
      {ws : List Json} {path : Path} {a : Arrival} :
    listItems? v = some ws → ws[index]? = some w → parts[index]? = some part →
    WalkIn r part w path a → WalkIn r (.tuple parts) v (.index index :: path) a
  /-- To the text of a key that cannot be decoded. -/
  | key {r : Decoder} {key item c : Converter} {k : String} {v w : Json}
      {entries : List (String × Json)} {path : Path} {a : Arrival} :
    Converter.IsMapping key item c → mapEntries v = .ok entries → (k, w) ∈ entries →
    (∃ fuel e, (key.decode (r.calls fuel) (.string k)).Fails e) →
    WalkIn r key (.string k) path a → WalkIn r c v (.key k :: path) a
  /-- To the value of an entry of an object or of a text. -/
  | value {r : Decoder} {key item c : Converter} {k : String} {v w : Json}
      {entries : List (String × Json)} {path : Path} {a : Arrival} :
    Converter.IsMapping key item c → mapEntries v = .ok entries → (k, w) ∈ entries →
    (∃ fuel i, (key.decode (r.calls fuel) (.string k)).Returns i) →
    WalkIn r item w path a → WalkIn r c v (.key k :: path) a
  /-- Stays where it is, in the arm that the tag names. -/
  | arm {r : Decoder} {plan : UnionPlan} {arms : List Converter} {arm : UnionArm} {c : Converter}
      {tag : String} {v : Json} {path : Path} {a : Arrival} :
    plan.isTagged = true → v.get? plan.key = some (.string tag) →
    (plan.arms.zip arms).find? (fun e => e.1.tag == some tag) = some (arm, c) →
    WalkIn r c v path a → WalkIn r (.union plan arms) v path a
  /-- Stays where it is, in the routine that is called. -/
  | record {name : String} {config : Config} {r callee : Decoder} {routine : String} {v : Json}
      {path : Path} {a : Arrival} :
    r.callee? routine = some callee → Walk name config callee v path a →
    WalkIn r (.record routine) v path a
end

end

/-- If the failure is about a value, its path is a way to this value, and the field that it names is
the last one on the way. -/
def Failure.PointsAlong (way : Path → Arrival → Prop) (e : Failure) : Prop :=
  match e.cause with
  | .invalidValue _ found => way e.path { value := found }
  | .fieldConversion record field (some x) _ =>
    ∃ byDefault, way e.path ⟨x, some (record, field), byDefault⟩
  | .fieldConversion _ _ none _ | .custom _ => False
  | _ => True

namespace Failure

variable {way inner : Path → Arrival → Prop} {e : Failure}

theorem Refuses.pointsAlong {v : Json} (h : e.Refuses v) (here : way [] { value := v }) :
    e.PointsAlong way := by
  cases h
  exact here

namespace PointsAlong

theorem along (extend : Path → Path) (h : e.PointsAlong inner)
    (step : ∀ path a, inner path a → way (extend path) a) :
    PointsAlong way { e with path := extend e.path } := by
  obtain ⟨cause, path⟩ := e
  cases cause with
  | invalidValue expected found => exact step path _ h
  | fieldConversion record field value =>
    cases value with
    | none => exact h
    | some x => exact Exists.imp (fun _ => step path _) h
  | custom => exact h
  | _ => exact trivial

theorem mono (h : e.PointsAlong inner) (more : ∀ path a, inner path a → way path a) :
    e.PointsAlong way :=
  h.along id more

theorem atKey {key : String} (h : e.PointsAlong inner)
    (step : ∀ path a, inner path a → way (.key key :: path) a) : (e.atKey key).PointsAlong way :=
  h.along _ step

theorem atIndex {index : Nat} (h : e.PointsAlong inner)
    (step : ∀ path a, inner path a → way (.index index :: path) a) :
    (e.atIndex index).PointsAlong way :=
  h.along _ step

theorem inField {record field : String} (h : e.PointsAlong inner)
    (step : ∀ path a, inner path a →
      ∃ byDefault, way (.key field :: path) { a.inside record field with byDefault }) :
    (e.inField record field).PointsAlong way := by
  obtain ⟨cause, path⟩ := e
  cases cause with
  | invalidValue expected found => exact step path _ h
  | fieldConversion record' field' value =>
    cases value with
    | none => exact h
    | some x =>
      obtain ⟨_, inner⟩ := h
      exact step path _ inner
  | custom => exact h.elim
  | _ => exact trivial

end PointsAlong
end Failure

variable {Q : Failure → Prop}

namespace Converter

theorem decodeItems_fails {decode : Decode} {index : Nat} {vs : List Json}
    (h : ∀ (k : Nat) (v : Json), vs[k]? = some v →
      (decode v).FailsOnly fun e => Q (e.atIndex (index + k))) :
    (decodeItems decode index vs).FailsOnly Q := by
  induction vs generalizing index with
  | nil => exact .pure _
  | cons v rest ih =>
    refine .bind ((h 0 v rfl).mapError fun _ same => same) fun _ _ =>
      .bind (ih fun k w isItem => ?_) fun _ _ => .pure _
    rw [Nat.add_assoc, Nat.add_comm 1 k]
    exact h (k + 1) w isItem

theorem decodeParts_fails {decoders : List Decode} {index : Nat} {vs : List Json}
    (h : ∀ (k : Nat) (decode : Decode) (v : Json), decoders[k]? = some decode → vs[k]? = some v →
      (decode v).FailsOnly fun e => Q (e.atIndex (index + k))) :
    (decodeParts index decoders vs).FailsOnly Q := by
  induction decoders generalizing index vs with
  | nil => exact .pure _
  | cons decode rest ih =>
    cases vs with
    | nil => exact .pure _
    | cons v vs =>
      refine .bind ((h 0 decode v rfl rfl).mapError fun _ same => same) fun _ _ =>
        .bind (ih fun k decode w isPart isItem => ?_) fun _ _ => .pure _
      rw [Nat.add_assoc, Nat.add_comm 1 k]
      exact h (k + 1) decode w isPart isItem

theorem decodeEntries_fails {key item : Decode} {entries : List (String × Json)}
    (keys : ∀ e ∈ entries, (key (.string e.1)).FailsOnly fun x => Q (x.atKey e.1))
    (items : ∀ e ∈ entries, (∃ i, (key (.string e.1)).Returns i) →
      (item e.2).FailsOnly fun x => Q (x.atKey e.1)) :
    (decodeEntries key item entries).FailsOnly Q := by
  induction entries with
  | nil => exact .pure _
  | cons e rest ih =>
    obtain ⟨firstKey, otherKeys⟩ := List.forall_mem_cons.1 keys
    obtain ⟨firstItem, otherItems⟩ := List.forall_mem_cons.1 items
    refine .bind (firstKey.mapError fun _ same => same) fun i decoded => ?_
    have isKey := Returns.mapError_iff.1 decoded
    exact .bind ((firstItem ⟨i, isKey⟩).mapError fun _ same => same) fun _ _ =>
      .bind (ih otherKeys otherItems) fun _ _ => .pure _

end Converter

namespace Direct

variable {record : RecordType} {config : Config} {input : Json} {convert : Field → Decode}

theorem decodeFields_fails {index : Nat} {fields : List Field}
    (h : ∀ (k : Nat) (f : Field), fields[k]? = some f →
      (decodeInTurn record config input (convert f) (index + k) f).FailsOnly Q) :
    (decodeFields record config input convert index fields).FailsOnly Q := by
  induction fields generalizing index with
  | nil => exact .pure _
  | cons f rest ih =>
    refine .bind (h 0 f rfl) fun _ _ => .bind (ih fun k g isField => ?_) fun _ _ => .pure _
    rw [Nat.add_assoc, Nat.add_comm 1 k]
    exact h (k + 1) g isField

theorem refuses_of_checkForm {e : Failure} (h : Compile.Decoder.checkForm record input = .error e) :
    e.Refuses input ∨ e = .of (.missingData record.name) := by
  unfold Compile.Decoder.checkForm at h
  split at h
  case h_1 =>
    cases h
    exact .inr rfl
  case h_2 => cases h
  case h_3 =>
    split at h
    · cases h
      exact .inl ⟨_⟩
    · split at h <;> cases h
      exact .inl ⟨_⟩
  case h_4 =>
    cases h
    exact .inl ⟨_⟩

end Direct

section
variable {schema : Schema} {r : Decoder} {fuel : Nat}

theorem Converter.IsMapping.decodeEntries_pointsAlong {key item c : Converter}
    (isMapping : Converter.IsMapping key item c) {v : Json} {entries : List (String × Json)}
    (found : mapEntries v = .ok entries)
    (keys : ∀ w, (key.decode (r.calls fuel) w).FailsOnly
      (Failure.PointsAlong (WalkIn schema .builtin r key w)))
    (items : ∀ w, (item.decode (r.calls fuel) w).FailsOnly
      (Failure.PointsAlong (WalkIn schema .builtin r item w))) :
    (Converter.decodeEntries (key.decode (r.calls fuel)) (item.decode (r.calls fuel))
      entries).FailsOnly (Failure.PointsAlong (WalkIn schema .builtin r c v)) := by
  apply Converter.decodeEntries_fails
  · intro entry mem e failed
    exact (keys _ e failed).atKey fun path a way =>
      .key isMapping found mem ⟨fuel, e, failed⟩ way
  · rintro entry mem ⟨i, returned⟩ e failed
    exact (items _ e failed).atKey fun path a way =>
      .value isMapping found mem ⟨fuel, i, returned⟩ way

/-- A union fails in one of its arms only if a tag has named the arm. -/
theorem Converter.decodeUnion_pointsAlong {plan : UnionPlan} {arms : List Converter} {v : Json}
    (h : ∀ c ∈ arms, (c.decode (r.calls fuel) v).FailsOnly
      (Failure.PointsAlong (WalkIn schema .builtin r c v))) :
    (Converter.decodeUnion plan (arms.map (Converter.decode (r.calls fuel))) v).FailsOnly
      (Failure.PointsAlong (WalkIn schema .builtin r (.union plan arms) v)) := by
  unfold Converter.decodeUnion
  simp only
  split
  case h_1 tag isTag =>
    split at isTag
    case isTrue tagged =>
      obtain ⟨found, isKey, isText⟩ := Option.bind_eq_some_iff.1 isTag
      split
      case h_1 arm decode named =>
        rw [List.zip_map_right, List.find?_map] at named
        obtain ⟨⟨_, c⟩, isFirst, same⟩ := Option.map_eq_some_iff.1 named
        cases same
        have isTagText : v.get? plan.key = some (.string tag) := by
          cases found <;> cases isText
          exact isKey
        intro e failed
        exact Failure.PointsAlong.mono
          (h c (List.of_mem_zip (List.mem_of_find?_eq_some isFirst)).2 e failed)
          fun path a way => .arm tagged isTagText isFirst way
      case h_2 => exact .throw trivial
    case isFalse => cases isTag
  case h_2 => exact .firstSuccess trivial

variable (calls : ∀ (routine : String) (callee : Decoder), r.callee? routine = some callee →
    ∀ v, (callee.callWithin fuel v).FailsOnly (Failure.PointsAlong fun path a =>
      ∃ name config, Walk schema .builtin name config callee v path a))
include calls

theorem Routine.Linked.calls_pointsAlong (routine : String) (v : Json) :
    (r.calls fuel routine v).FailsOnly
      (Failure.PointsAlong (WalkIn schema .builtin r (.record routine) v)) := by
  unfold Linked.calls
  split
  case h_1 callee isCallee =>
    intro e failed
    refine Failure.PointsAlong.mono (calls routine callee isCallee v e failed) ?_
    rintro path a ⟨name, config, way⟩
    exact .record isCallee way
  case h_2 => exact .throw trivial

theorem Compile.Compiles.decode_pointsAlong {bound : Binding} {here : Direct.Position}
    {ty : TypeExpr} {c : Converter} (h : Compiles schema .builtin bound here ty c) (v : Json) :
    (c.decode (r.calls fuel) v).FailsOnly
      (Failure.PointsAlong (WalkIn schema .builtin r c v)) := by
  induction h generalizing v with
  | scalar => exact .ofExcept fun e h => (Scalar.refuses_of_decode h).pointsAlong .here
  | optional _ _ ih =>
    simp only [Converter.decode]
    split
    case isTrue => exact .pure _
    case isFalse present =>
      intro e failed
      exact Failure.PointsAlong.mono (ih v e failed) fun path a way =>
        .optional (by simpa using present) way
  | items form _ _ ih =>
    simp only [Converter.decode]
    split
    case h_1 ws isList =>
      refine .bind (Converter.decodeItems_fails fun k w isItem e failed => ?_) fun _ _ => .pure _
      exact (ih w e failed).atIndex fun path a way =>
        .item isList ((Nat.zero_add k).symm ▸ isItem) way
    case h_2 => exact .throw .here
  | @tuple _ _ parts _ count _ ih =>
    simp only [Converter.decode, Converter.decodeTuple, Compiles.decodeAll_eq, List.length_map]
    split
    case h_1 ws isList =>
      split
      case isTrue =>
        refine .bind (Converter.decodeParts_fails fun k decode w isPart isItem e failed => ?_)
          fun _ _ => .pure _
        rw [List.getElem?_map] at isPart
        obtain ⟨part, atPart, rfl⟩ := Option.map_eq_some_iff.1 isPart
        have isIndex := (List.getElem?_eq_some_iff.1 atPart).1
        have atType := List.getElem?_eq_getElem (count ▸ isIndex)
        refine Failure.PointsAlong.atIndex (ih k _ part atType atPart w e failed)
          fun path a way => ?_
        rw [Nat.zero_add]
        exact .part isList isItem atPart way
      case isFalse => exact .throw .here
    case h_2 => exact .throw .here
  | mapping _ _ _ ihKey ihItem =>
    refine .bind (.ofExcept fun e h => (Converter.refuses_of_mapEntries h).pointsAlong .here)
      fun entries found => .bind ?_ fun _ _ => .pure _
    exact Converter.IsMapping.decodeEntries_pointsAlong (.inl rfl) (Returns.ofExcept_iff.1 found)
      ihKey ihItem
  | defaultMapping _ _ _ ihKey ihItem =>
    refine .bind (.ofExcept fun e h => (Converter.refuses_of_mapEntries h).pointsAlong .here)
      fun entries found => .bind ?_ fun _ _ => .pure _
    exact Converter.IsMapping.decodeEntries_pointsAlong (.inr ⟨_, rfl⟩)
      (Returns.ofExcept_iff.1 found) ihKey ihItem
  | literal => exact .ofExcept fun e h => (Converter.refuses_of_decodeLiteral h).pointsAlong .here
  | enumeration => exact .ofExcept fun e h => (Converter.refuses_of_decodeEnum h).pointsAlong .here
  | record => exact Linked.calls_pointsAlong calls _ v
  | union _ count _ records _ ih =>
    rw [Converter.decode, Compiles.decodeAll_eq]
    refine Converter.decodeUnion_pointsAlong fun c mem => ?_
    obtain ⟨i, isArm⟩ := List.mem_iff_getElem?.1 mem
    have isIndex := (List.getElem?_eq_some_iff.1 isArm).1
    have atType := List.getElem?_eq_getElem (count ▸ isIndex)
    cases planned : (Direct.Position.arm _ _ _).record with
    | none => exact ih i _ c atType isArm planned v
    | some key =>
      obtain ⟨routine, rfl, -⟩ := records i _ c atType isArm key.1 key.2 planned
      exact Linked.calls_pointsAlong calls routine v
  | custom handled => exact absurd rfl (Registry.resolve_builtin_ne_custom handled _ _)

theorem Compile.Made.decodeInTurn_pointsAlong {bound : Binding} {name : String} {config : Config}
    {record : RecordType} {parts : List (Field × Converter)}
    (made : Made schema .builtin .decoding bound name config record parts r.code) {k : Nat}
    {f : Field} {c : Converter} (isPart : parts[k]? = some (f, c)) (v : Json) :
    (Direct.decodeInTurn record config v (c.decode (r.calls fuel)) k f).FailsOnly
      (Failure.PointsAlong (Walk schema .builtin name config r v)) := by
  have converts := made.compiled f c (List.mem_of_getElem? isPart)
  unfold Direct.decodeInTurn
  split
  case isTrue => exact .pure _
  case isFalse own =>
    have own : f.catchAll = false := by simpa using own
    unfold Direct.decodeField
    split
    case h_1 w found =>
      refine .bind (.mapError (converts.decode_pointsAlong calls w) fun e points => ?_)
        fun _ _ => .pure _
      exact points.inField fun path a way => ⟨a.byDefault, .field made isPart own found way⟩
    case h_2 absent =>
      unfold Direct.decodeAbsent
      split
      case h_3 raw declared =>
        refine .bind (.mapError (converts.decode_pointsAlong calls raw) fun e points => ?_)
          fun _ _ => .pure _
        exact points.inField fun path a way => ⟨true, .default made isPart own absent declared way⟩
      all_goals exact .pure _

/-- What a call of a decoder fails with points along the way that the decoder goes. -/
theorem Compile.Made.callWithin_pointsAlong (declarations : schema.Declared) {bound : Binding}
    {name : String} {config : Config} {record : RecordType} {parts : List (Field × Converter)}
    (made : Made schema .builtin .decoding bound name config record parts r.code) (v : Json) :
    (r.callWithin (fuel + 1) v).FailsOnly
      (Failure.PointsAlong (Walk schema .builtin name config r v)) := by
  have distinct := made.distinct declarations (.refl _)
  have fields : parts.map Prod.fst = record.fields := made.fields
  rw [made.callWithin_decode declarations]
  refine .bind (.ofExcept fun e refused => ?_) fun _ _ =>
    .bind (Direct.decodeFields_fails fun k f isField => ?_) fun values _ =>
      .bind ?_ fun values _ => ?_
  · rcases Direct.refuses_of_checkForm refused with found | rfl
    · exact found.pointsAlong .here
    · exact trivial
  · rw [← fields, List.getElem?_map] at isField
    obtain ⟨⟨_, c⟩, isPart, rfl⟩ := Option.map_eq_some_iff.1 isField
    rw [convertBy_of_mem distinct (List.mem_of_getElem? isPart), Nat.zero_add]
    exact made.decodeInTurn_pointsAlong calls isPart v
  · unfold Direct.decodeLeftOver
    split
    case h_1 f index isCatchAll =>
      obtain ⟨isField, own⟩ := Direct.mem_of_catchAllAt isCatchAll
      obtain ⟨c, isPart⟩ := made.exists_part isField
      rw [convertBy_of_mem distinct isPart]
      refine .bind (.mapError ((made.compiled _ c isPart).decode_pointsAlong calls _)
        fun e points => ?_) fun _ _ => .pure _
      exact points.inField fun path a way => ⟨a.byDefault, .leftOver made isPart own way⟩
    case h_2 =>
      split
      · exact .throw trivial
      · exact .pure _
  · split
    · exact .pure _
    · exact .throw trivial

end

theorem Compile.TracedTo.callWithin_pointsAlong {schema : Schema} (declarations : schema.Declared)
    (fuel : Nat) {key : RoutineKey} {r : Decoder}
    (h : TracedTo schema .builtin .decoding key r) (v : Json) :
    (r.callWithin fuel v).FailsOnly
      (Failure.PointsAlong (Walk schema .builtin key.record key.config r v)) := by
  induction fuel generalizing key r v with
  | zero =>
    intro e failed
    cases failed
  | succ fuel ih =>
    obtain ⟨bound, record, parts, made, -⟩ := h.code
    refine made.callWithin_pointsAlong (fun routine callee isCallee w e failed => ?_) declarations v
    obtain ⟨key', tracedTo⟩ := (h.traced.callee isCallee).exists_key
    exact (ih tracedTo w e failed).mono fun path a way => ⟨_, _, way⟩

namespace Codec

variable {c : Codec} {record : String} {overrides : Config}

theorem decoder_isCompilation : (c.decoder record overrides).1.FailsOnly Failure.IsCompilation := by
  unfold decoder
  split
  case h_1 e refused =>
    refine .throw ?_
    simp only [resolvedConfig, bind, Except.bind] at refused
    split at refused
    case h_1 failed =>
      cases refused
      exact (Schema.isDeclaration_of_findRecord failed).isCompilation
    case h_2 => cases refused
  case h_2 =>
    split
    · exact .pure _
    · simp only [Cache.compileDecoder_fst]
      exact (compile_isCompilation _ _ _).bind fun _ _ => .pure _

/-- Whatever the codec did before, the path of a failed conversion of a value leads from the input
to this value, and the field that the failure names is the last one on the way. Unless the way leads
through a declared default, it stays within the input. -/
theorem decode_points (declarations : c.schema.Declared) (builtin : c.registry = .builtin)
    (history : c.cache.History c.schema c.registry) {v x : Json} {e : Failure}
    {owner field : String} {cause : Cause}
    (failed : (c.decode record v overrides).1.Fails e)
    (conversion : e.cause = .fieldConversion owner field (some x) cause) :
    ∃ (r : Decoder) (config : Config) (byDefault : Bool),
      c.resolvedConfig record overrides = .ok config ∧
      (c.decoder record overrides).1.Returns r ∧
      TracedTo c.schema c.registry .decoding ⟨record, config, .decode⟩ r ∧
      Walk c.schema c.registry record config r v e.path ⟨x, some (owner, field), byDefault⟩ := by
  rcases Fails.bind_iff.1 failed with uncompiled | ⟨r, isDecoder, failed⟩
  · have isCompilation := decoder_isCompilation e uncompiled
    rw [Failure.IsCompilation, conversion] at isCompilation
    cases isCompilation
  · obtain ⟨config, resolved, traced⟩ := decoder_traced history isDecoder
    have points := TracedTo.callWithin_pointsAlong declarations (r.callBound v.weight)
      (builtin ▸ traced) v e failed
    rw [Failure.PointsAlong, conversion] at points
    obtain ⟨byDefault, way⟩ := points
    exact ⟨r, config, byDefault, resolved, isDecoder, traced, builtin.symm ▸ way⟩

end Codec

namespace Sample

/-- Two cells, with a word for a coordinate of the last one. -/
def wordCells : Json :=
  .object [("point", .array [.ofInt64 1, .string "2"]),
    ("next", .object [("point", .object [("y", .string "three"), ("x", .string "+4")])])]

def wayToWord : Path := [.key "next", .key "point", .key "y"]

def pointsToWord (e : Failure) : Bool :=
  match e with
  | ⟨.fieldConversion owner field (some (.string text)) _, path⟩ =>
    owner == "Point" && field == "y" && text == "three" && path == wayToWord
  | _ => false

end Sample

theorem Codec.decode_points_cells :
    ∃ (e : Failure) (r : Decoder) (config : Config) (byDefault : Bool),
      (Sample.codec.decode "Cell" Sample.wordCells {}).1.Fails e ∧
      (Sample.codec.decoder "Cell" {}).1.Returns r ∧ e.path = Sample.wayToWord ∧
      Walk Sample.schema .builtin "Cell" config r Sample.wordCells e.path
        ⟨.string "three", some ("Point", "y"), byDefault⟩ := by
  have fails : (Sample.codec.decode "Cell" Sample.wordCells {}).1.failsWith
      Sample.pointsToWord = true := by
    decide +kernel
  obtain ⟨e, failed, points⟩ := Run.exists_of_failsWith fails
  unfold Sample.pointsToWord at points
  split at points
  case h_1 owner field text cause path =>
    simp only [Bool.and_eq_true, beq_iff_eq] at points
    obtain ⟨⟨⟨rfl, rfl⟩, rfl⟩, isPath⟩ := points
    obtain ⟨r, config, byDefault, -, isDecoder, -, way⟩ := decode_points (c := Sample.codec)
      Sample.schema_declared rfl (.decoder 0 "Point" {} (.empty 0 0)) failed rfl
    exact ⟨_, r, config, byDefault, failed, isDecoder, isPath, way⟩
  case h_2 => cases points

end RecordCodec
