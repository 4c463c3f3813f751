import RecordCodec.Proofs.Codecs
import RecordCodec.Proofs.Compositional
import RecordCodec.Proofs.Correctness
import RecordCodec.Proofs.Documents
import RecordCodec.Proofs.Rereading
import RecordCodec.Proofs.Soundness
import RecordCodec.Proofs.Variants

set_option autoImplicit false

/-!
# Whatever decodes can be encoded

Encoding returns on every instance of a type. A union may try arms first that the instance is none
of, so encoding has to end on every instance, of the type or not. Defaults of a document hold no
records, so no default is encoded inside itself.
-/
namespace RecordCodec

open Routine

open Routine.Run

namespace Converter

theorem firstSuccess_succeeds {failure : Failure} {v : Instance} {candidates : List Encode}
    (h : ∀ f ∈ candidates, (f v).Ends) {f : Encode} (mem : f ∈ candidates)
    (succeeds : (f v).Succeeds) : (firstSuccess failure v candidates).Succeeds := by
  induction candidates with
  | nil => cases mem
  | cons g rest ih =>
    obtain ⟨first, others⟩ := List.forall_mem_cons.1 h
    obtain ⟨result, ran⟩ := first
    rw [firstSuccess, ran]
    cases result with
    | ok a => exact ⟨a, .pure_iff.2 rfl⟩
    | error e =>
      rcases List.mem_cons.1 mem with rfl | mem
      · obtain ⟨a, returns⟩ := succeeds
        cases ran.symm.trans returns
      · exact ih others mem

theorem encodeUnion_succeeds {plan : UnionPlan} {encoders : List Encode} {v : Instance}
    (even : plan.arms.length = encoders.length) (h : ∀ encode ∈ encoders, (encode v).Ends)
    {encode : Encode} (mem : encode ∈ encoders) (succeeds : (encode v).Succeeds) :
    (encodeUnion plan encoders v).Succeeds := by
  obtain ⟨k, isEncoder⟩ := List.mem_iff_getElem?.1 mem
  have inRange := (List.getElem?_eq_some_iff.1 isEncoder).1
  have isArm : plan.arms[k]? = some plan.arms[k] := List.getElem?_eq_getElem (by omega)
  have isPair : (plan.arms[k], encode) ∈ plan.arms.zip encoders :=
    List.mem_of_getElem? (List.getElem?_zip_eq_some.2 ⟨isArm, isEncoder⟩)
  refine firstSuccess_succeeds (fun f tried => ?_)
    (List.mem_map.2 ⟨_, mem_trialOrder.2 isPair, rfl⟩) succeeds
  obtain ⟨⟨arm, other⟩, mem, rfl⟩ := List.mem_map.1 tried
  exact h _ (List.of_mem_zip (mem_trialOrder.1 mem)).2

end Converter

theorem Scalar.exists_encode {p : Primitive} {v : Instance} (holds : p.Holds v) :
    ∃ j, encode p v = .ok j := by
  cases p with
  | any => exact ⟨_, rfl⟩
  | _ =>
    cases v with
    | _ => first
      | exact ⟨_, rfl⟩
      | exact holds.elim

namespace Instance

theorem hereditary_hollow : Hereditary Hollow where
  items hollow isItems w mem := by
    have none := hollow.items
    rw [isItems, Option.getD_some] at none
    rw [none] at mem
    cases mem
  entries hollow isEntries e mem := by
    have none := hollow.entries
    rw [isEntries, Option.getD_some] at none
    rw [none] at mem
    cases mem

end Instance

namespace Direct

open Converter Compile

variable {schema : Schema} {registry : Registry} {nested : Nested Instance Json} {here : Position}

theorem encodeType_ends {P : Instance → Prop} (hereditary : Instance.Hereditary P)
    (records : ∀ name config v, P v → (nested name config v).Ends) (ty : TypeExpr) :
    ∀ v, P v → (encodeType schema registry nested here ty v).Ends :=
  encodeType_compositional compositional_ends hereditary records
    (fun _ _ _ _ _ _ => .ofExcept _) ty

section Records
variable {record : RecordType} {config : Config} {input : Instance} {convert : Field → Encode}

theorem splatMembers_succeeds {encode : Encode} {field : Field}
    (h : ∀ v, input.field? field.name = some v → ∃ members, (encode v).Returns (.object members)) :
    (splatMembers record input encode field).Succeeds := by
  unfold splatMembers
  split
  · exact sequential_succeeds.pure _
  case h_2 v present =>
    obtain ⟨members, returns⟩ := h v present
    refine sequential_succeeds.mapError (.field _ _) ⟨members, ?_⟩
    exact Run.Returns.bind_iff.2 ⟨_, returns, Run.Returns.pure_iff.2 rfl⟩

theorem encodeRecord_succeeds {fields : List (String × Instance)} (shape : record.HasFields fields)
    (parts : ∀ f ∈ record.fields, ∀ v, Assoc.get? f.name fields = some v →
      (convert f v).Succeeds)
    (objects : ∀ f ∈ record.fields, f.catchAll = true → ∀ v j, (convert f v).Returns j →
      ∃ members, j = .object members) :
    (encodeRecord record config (.record record.name fields) convert).Succeeds := by
  have isField : ∀ f ∈ Encoder.fields record config, f ∈ record.fields :=
    fun f mem => (List.mem_filter.1 mem).1
  have given : ∀ f ∈ Encoder.fields record config, Assoc.get? f.name fields = none →
      f.isRequired record.kind = false ∧ f.default = none := by
    intro f mem absent
    have needed := mt (shape.complete f (isField f mem)) (Assoc.get?_eq_none_iff.1 absent)
    simpa using needed
  have output : (encodeOutput record config (.record record.name fields) convert
      (Encoder.fields record config)).Succeeds := by
    refine encodeOutput_sequential sequential_succeeds (fun f mem => parts f (isField f mem))
      (fun f mem absent => ?_) fun f mem last => splatMembers_succeeds fun v present => ?_
    · rw [(given f mem absent).2]
      exact sequential_succeeds.pure _
    · obtain ⟨j, returns⟩ := parts f (isField f mem) v present
      obtain ⟨members, rfl⟩ := objects f (isField f mem) last v j returns
      exact ⟨members, returns⟩
  obtain ⟨j, encoded⟩ := output
  refine ⟨j, encodeRecord_returns_iff.2 ⟨by simp [Encoder.checkType], ?_, encoded⟩⟩
  simp only [absentFields, List.map_eq_nil_iff, List.filter_eq_nil_iff]
  intro f mem
  cases absent : Assoc.get? f.name fields with
  | none => simp [given f mem absent]
  | some v => simp [Instance.field?, absent]

end Records

/-- The fuel that a default of a document takes: none of it is a record. -/
theorem encode_ends_of_hollow (fuel : Nat) (name : String) (config : Config) {v : Instance}
    (hollow : v.Hollow) : (Direct.encode schema registry (fuel + 1) name config v).Ends := by
  rw [Direct.encode]
  refine .bind (.ofExcept _) fun record _ =>
    encodeRecord_compositional compositional_ends fun checked => ?_
  unfold Encoder.checkType at checked
  split at checked
  case h_1 type fields => exact absurd rfl (hollow.notRecord type fields)
  case h_2 => cases checked

theorem exists_of_checkType {record : RecordType} {v : Instance}
    (h : Encoder.checkType record v = .ok ()) : ∃ fields, v = .record record.name fields := by
  unfold Encoder.checkType at h
  split at h
  case h_1 type fields =>
    split at h
    case isTrue same => exact ⟨fields, same ▸ rfl⟩
    case isFalse => cases h
  case h_2 => cases h

theorem encode_ends (documented : schema.Documented) (fuel : Nat) : ∀ (name : String)
    (config : Config) (v : Instance), v.depth < fuel →
    (Direct.encode schema registry fuel name config v).Ends := by
  induction fuel with
  | zero => exact fun _ _ _ impossible => absurd impossible (Nat.not_lt_zero _)
  | succ fuel ih =>
    intro name config v small
    rw [Direct.encode]
    refine .bind (.ofExcept _) fun record found =>
      encodeRecord_compositional compositional_ends fun checked => ?_
    have declared := findRecord_eq_ok.1 (Run.Returns.ofExcept_iff.1 found)
    have deep : 0 < v.depth := by
      obtain ⟨fields, rfl⟩ := exists_of_checkType checked
      exact Nat.succ_pos _
    obtain ⟨fuel, rfl⟩ : ∃ n, fuel = n + 1 := Nat.exists_eq_add_one.2 (by omega)
    have parts : ∀ (f : Field) w, v.field? f.name = some w →
        (encodeType schema registry (Direct.encode schema registry (fuel + 1))
          ⟨config, f.discriminator⟩ (schema.resolve f.type) w).Ends := by
      intro f w present
      have smaller := Instance.depth_lt_of_field? present
      exact encodeType_ends (Instance.hereditary_depth (fuel + 1)) ih _ w (by omega)
    have defaults : ∀ f ∈ record.fields, ∀ w, w.Hollow →
        (encodeType schema registry (Direct.encode schema registry (fuel + 1))
          ⟨config, f.discriminator⟩ (schema.resolve f.type) w).Ends := fun f _ =>
      encodeType_ends Instance.hereditary_hollow
        (fun name config _ hollow => encode_ends_of_hollow fuel name config hollow) _
    refine encodeOutput_sequential compositional_ends.toSequential (fun f _ => parts f)
      (fun f mem _ => ?_) fun f _ _ => splatMembers_compositional compositional_ends (parts f)
    have isField := (List.mem_filter.1 mem).1
    have hollow := (documented.fields name record declared f isField).default
    unfold Encoder.encodeDefault
    split
    case h_1 w given => exact defaults f isField w (hollow w (.inl given))
    case h_2 w given => exact defaults f isField w (hollow w (.inr given))
    all_goals exact compositional_ends.pure _

theorem armPart_succeeds (declarations : schema.Declared) {arm : TypeExpr} {v : Instance}
    (accepts : ∀ name config, InhabitsRecord schema name v → (nested name config v).Succeeds)
    (written : arm.Written schema) (resolved : schema.resolve arm = arm)
    (inhabits : Inhabits schema arm v)
    (h : (encodeType schema .builtin nested here arm v).Succeeds) :
    (armPart nested (here.arm schema arm) (encodeType schema .builtin nested here arm)
      v).Succeeds := by
  unfold armPart Position.arm
  cases isName : arm.shape.recordName? with
  | none => exact h
  | some name =>
    obtain ⟨r, found⟩ := written.record isName
    have free := (declarations.checked found).2.1
    have handled : Handled schema .builtin arm .record (schema.resolve arm) :=
      .of_record (resolved.symm ▸ isName) free
    rw [resolved] at handled
    obtain ⟨name', isName', isRecord⟩ := inhabits.elim handled
    cases isName.symm.trans isName'
    exact accepts name _ isRecord

theorem armPart_ends {arm : TypeExpr} {v : Instance}
    (ends : ∀ name config, (nested name config v).Ends)
    (h : (encodeType schema .builtin nested here arm v).Ends) :
    (armPart nested (here.arm schema arm) (encodeType schema .builtin nested here arm) v).Ends := by
  unfold armPart
  cases (here.arm schema arm).record with
  | none => exact h
  | some key => exact ends key.1 key.2

theorem encodeType_succeeds (declarations : schema.Declared) {fuel : Nat}
    (ends : ∀ name config v, v.depth < fuel → (nested name config v).Ends)
    (accepts : ∀ name config v, InhabitsRecord schema name v → v.depth < fuel →
      (nested name config v).Succeeds) {ty : TypeExpr} {v : Instance}
    (inhabits : Inhabits schema ty v) (written : ty.Written schema) (small : v.depth < fuel) :
    (encodeType schema .builtin nested here (schema.resolve ty) v).Succeeds := by
  have part := @part_encodeType schema _ Registry.keepsAny_builtin nested here
  have seq := sequential_succeeds
  induction inhabits with
  | scalar handled holds =>
    rw [encodeType_of_handled handled]
    obtain ⟨j, encoded⟩ := Scalar.exists_encode holds
    exact ⟨j, Run.Returns.ofExcept_iff.2 encoded⟩
  | absent handled =>
    rw [encodeType_of_handled handled]
    exact seq.pure _
  | given handled _ ih =>
    have inner := ih ((handled.written written).arg 0) small
    rw [handled.resolve_arg] at inner
    rw [encodeType_of_handled handled]
    simp only [encodeAs, part]
    split
    · exact seq.pure _
    · exact inner
  | sequence handled _ ih | variadicTuple handled _ ih | set handled _ _ ih =>
    rw [encodeType_of_handled handled]
    simp only [encodeAs, encodeList, Instance.items?, part]
    refine seq.bind (encodeItems_sequential seq 0 fun w mem => ?_) fun _ _ => seq.pure _
    have inner := ih w mem ((handled.written written).arg 0)
      (Nat.lt_of_le_of_lt (Instance.depth_le_of_mem_items? rfl mem) small)
    rwa [handled.resolve_arg] at inner
  | fixedTuple handled even _ ih =>
    rw [encodeType_of_handled handled]
    simp only [encodeAs, encodeTuple, Instance.items?, List.length_map, even, if_true]
    refine seq.bind (encodeParts_sequential seq 0 fun e mem => ?_) fun _ _ => seq.pure _
    rw [List.zip_map_left] at mem
    obtain ⟨⟨arg, w⟩, isPair, rfl⟩ := List.mem_map.1 mem
    obtain ⟨isArg, isItem⟩ := List.of_mem_zip isPair
    have inner := ih _ isPair ((handled.written written).args arg isArg)
      (Nat.lt_of_le_of_lt (Instance.depth_le_of_mem_items? rfl isItem) small)
    rwa [handled.resolve_of_mem isArg] at inner
  | mapping handled _ _ ihKey ihItem | defaultMapping handled _ _ ihKey ihItem =>
    rw [encodeType_of_handled handled]
    simp only [encodeAs, encodeMapping, Instance.entries?, part]
    refine seq.bind (encodeEntries_sequential seq (fun e mem => ?_) []) fun _ _ => seq.pure _
    have key := ihKey e mem ((handled.written written).arg 0)
      (Nat.lt_of_le_of_lt (Instance.depth_le_of_mem_entries? rfl mem).1 small)
    have item := ihItem e mem ((handled.written written).arg 1)
      (Nat.lt_of_le_of_lt (Instance.depth_le_of_mem_entries? rfl mem).2 small)
    rw [handled.resolve_arg] at key item
    exact ⟨key, item⟩
  | literal handled listed =>
    rw [encodeType_of_handled handled]
    have encoded := (decodeLiteral_encodeLiteral (handled.written written).literals listed).1
    exact ⟨_, Run.Returns.ofExcept_iff.2 encoded⟩
  | @enumeration ty target e variant value handled isEnum isValue =>
    rw [encodeType_of_handled handled]
    have encoded : encodeEnum e (.enumeration ⟨e.name, variant, value⟩) = .ok value := by
      simp [encodeEnum, isValue]
    refine ⟨value, Run.Returns.ofExcept_iff.2 ?_⟩
    rw [isEnum]
    exact encoded
  | @union ty target arm v handled mem inhabits ih =>
    have inner := ih ((handled.written written).args arm mem) small
    rw [handled.resolve_of_mem mem] at inner
    rw [encodeType_of_handled handled]
    simp only [encodeAs, armParts_map]
    refine encodeUnion_succeeds (by simp [Position.plan]) (fun encode isPart => ?_)
      (List.mem_map.2 ⟨arm, mem, rfl⟩) ?_
    · obtain ⟨other, isArm, rfl⟩ := List.mem_map.1 isPart
      refine armPart_ends (fun name config => ends name config v small) ?_
      exact encodeType_ends (Instance.hereditary_depth fuel) ends other v small
    · exact armPart_succeeds declarations (fun name config isRecord =>
        accepts name config v isRecord small) ((handled.written written).args arm mem)
        (handled.resolve_of_mem mem) inhabits inner
  | record handled isName declared shape values =>
    rw [encodeType_of_handled handled]
    simp only [encodeAs, isName]
    exact accepts _ _ _ ⟨_, _, rfl, declared, shape, values⟩ small

theorem exists_object_of_encodeType {ty : TypeExpr} {v : Instance} {j : Json}
    (isMapping : ty.shape.kind = .mapping ∨ ty.shape.kind = .defaultMapping)
    (h : (encodeType schema .builtin nested here (schema.resolve ty) v).Returns j) :
    ∃ members, j = .object members := by
  obtain ⟨handler, handled, isMapping⟩ := handled_mapping schema isMapping
  rw [encodeType_of_handled handled] at h
  rcases isMapping with rfl | rfl <;>
    (simp only [encodeAs, encodeMapping] at h
     split at h
     · obtain ⟨members, -, same⟩ := Run.Returns.bind_iff.1 h
       exact ⟨members, (Run.Returns.pure_iff.1 same).symm⟩
     · simp at h)

theorem encode_succeeds (documented : schema.Documented) (fuel : Nat) : ∀ (name : String)
    (config : Config) (v : Instance), InhabitsRecord schema name v → v.depth < fuel →
    (Direct.encode schema .builtin fuel name config v).Succeeds := by
  induction fuel with
  | zero => exact fun _ _ _ _ impossible => absurd impossible (Nat.not_lt_zero _)
  | succ fuel ih =>
    intro name config v inhabits small
    obtain ⟨r, fields, rfl, declared, shape, values⟩ := inhabits
    obtain ⟨isName, -, checked⟩ := documented.declared.checked declared
    subst isName
    rw [encode_succ declared]
    refine encodeRecord_succeeds shape (fun f mem w present => ?_) fun f mem last w j =>
      exists_object_of_encodeType (checked.isMapping mem last)
    have smaller : w.depth < (Instance.record r.name fields).depth :=
      Instance.depth_lt_of_field? present
    exact encodeType_succeeds documented.declared (encode_ends documented fuel) ih
      (values f mem w (Assoc.mem_of_get? present))
      ((documented.fields _ r declared f mem).type schema) (by omega)

end Direct

namespace Codec

open Compile

/-- An encoder that a session of the codec has compiled for a type by itself. The session may have
taken over encoders from the cache, and it was linked. -/
structure TypeEncoder (c : Codec) (ty : TypeExpr) where
  converter : Converter
  session : Session Instance Json
  compiled : ∃ config site fuel s stamp,
    (converterFor (Cache.context c.schema c.registry .encoding c.cache.encoders) fuel ty).run
      { config, site } = some (.ok converter, s) ∧
    s.synthesis.finalize s.environment stamp = .ok session

variable {c : Codec}

/-- Encodes with the routines of the session; the fuel counts the calls nested in one another. -/
def TypeEncoder.encode {ty : TypeExpr} (e : c.TypeEncoder ty) (fuel : Nat) : Instance → Run Json :=
  e.converter.encode fun name => (({ name } : Handle Instance Json).bind e.session).callWithin fuel

def typeEncoder? (ty : TypeExpr) (fuel : Nat) (c : Codec) : Option (c.TypeEncoder ty) :=
  match ran : (converterFor (Cache.context c.schema c.registry .encoding c.cache.encoders) fuel
      ty).run {} with
  | some (.ok converter, s) =>
    match linked : s.synthesis.finalize s.environment c.cache.stamp with
    | .ok session => some { converter, session, compiled := ⟨{}, none, fuel, s, _, ran, linked⟩ }
    | .error _ => none
  | some (.error _, _) | none => none

/-- A compiled encoder is the direct interpretation of its type. -/
theorem TypeEncoder.encode_eq {ty : TypeExpr} (declarations : c.schema.Declared)
    (builtin : c.registry = .builtin) (history : c.cache.History c.schema c.registry)
    (apart : c.cache.encoders = [] ∨ c.schema.Unnumbered) (e : c.TypeEncoder ty) :
    ∃ here, ∀ fuel, e.encode fuel = Direct.encodeType c.schema .builtin
      (Direct.encode c.schema .builtin fuel) here (c.schema.resolve ty) := by
  obtain ⟨config, site, n, s, stamp, ran, linked⟩ := e.compiled
  have held := encoders_serving history apart
  rw [builtin] at ran held
  have start : (Cache.context c.schema .builtin .encoding c.cache.encoders).Apart :=
    Cache.apart_context apart
  obtain ⟨sound, more, compiled⟩ := converterFor_gives Mode.named_encoding held.valid n
    ((sound_start start).relocate config site) ran
  have idle : s.guard.active = [] := by rw [more.guard]
  obtain ⟨codes, lowered, isSession⟩ := finalize_eq_ok linked
  have lowered : Synthesis.lowerAll s.synthesis.drafts = .ok e.session.codes := by rwa [isSession]
  have environment : e.session.environment = s.environment := by rw [isSession]
  refine ⟨({ config, site } : Compilation Instance Json).position, fun fuel => ?_⟩
  refine compiled.encode_eq Registry.keepsAny_builtin fun routine name config' bound => ?_
  obtain ⟨r, resolved⟩ := sound.exists_resolved idle lowered environment bound
  have serves : Serves c.schema .builtin .encoding r name config' :=
    sound.serves idle lowered environment bound resolved
  rw [← serves.callWithin_encode Registry.keepsAny_builtin declarations]
  funext v
  simp only [Handle.callWithin, Handle.bind, resolved]

theorem encode_of_inhabits {record : String} {overrides : Config}
    (documented : c.schema.Documented) (builtin : c.registry = .builtin)
    (history : c.cache.History c.schema c.registry)
    (apart : c.cache.encoders = [] ∨ c.schema.Unnumbered) {e : Encoder} {v : Instance}
    (inhabits : InhabitsRecord c.schema record v)
    (compiled : (c.encoder record overrides).1.Returns e) :
    (c.encode record v overrides).1.Succeeds := by
  obtain ⟨config, -, serves⟩ := encoder_serves history apart compiled
  rw [builtin] at serves
  obtain ⟨j, encoded⟩ := Direct.encode_succeeds documented (v.depth + 1) record config v inhabits
    (Nat.lt_succ_self _)
  refine ⟨j, Run.Returns.bind_iff.2 ⟨e, compiled, ?_⟩⟩
  exact (serves.call_encode_iff documented.declared v).2 ⟨_, encoded⟩

/-- Whatever decodes can be encoded, and so can every instance of a record or of a type expression
that has a compiled encoder, unless the session took routines over from the cache and a record is
named like another one with a number. -/
theorem encode_of_decode {d : Document} (document : (Schema.ofDocument d).Returns c.schema)
    (builtin : c.registry = .builtin) (typed : c.schema.HasTypedDefaults)
    (history : c.cache.History c.schema c.registry)
    (apartDecoders : c.cache.decoders = [] ∨ c.schema.Unnumbered)
    (apartEncoders : c.cache.encoders = [] ∨ c.schema.Unnumbered) :
    (∀ record overrides v i e, (c.decode record v overrides).1.run = some (.ok i) →
      ((c.decode record v overrides).2.encoder record overrides).1.run = some (.ok e) →
      ∃ j, ((c.decode record v overrides).2.encode record i overrides).1.run = some (.ok j)) ∧
    (∀ record overrides i e, InhabitsRecord c.schema record i →
      (c.encoder record overrides).1.run = some (.ok e) →
      ∃ j, (c.encode record i overrides).1.run = some (.ok j)) ∧
    ∀ text ty, TypeExpr.parse text = some (.ok ty) → ∀ (e : c.TypeEncoder ty) i,
      Inhabits c.schema ty i → ∀ fuel > i.depth, ∃ j, (e.encode fuel i).run = some (.ok j) := by
  have documented := Schema.documented_of_ofDocument document
  refine ⟨?_, ?_, ?_⟩
  · intro record overrides v i e decoded compiled
    obtain ⟨config, fuel, direct⟩ := direct_of_decode builtin history apartDecoders decoded
    have inhabits :=
      Direct.soundNested_decode documented.declared typed fuel record config v i direct
    obtain ⟨cache, after, history, same⟩ := decoder_snd record overrides history
    have successor : (c.decode record v overrides).2 = { c with cache } := after
    rw [successor] at compiled ⊢
    exact encode_of_inhabits (c := { c with cache }) documented builtin history
      (same ▸ apartEncoders) inhabits compiled
  · intro record overrides i e inhabits compiled
    exact encode_of_inhabits documented builtin history apartEncoders inhabits compiled
  · intro text ty parsed e i inhabits fuel enough
    obtain ⟨here, isDirect⟩ :=
      e.encode_eq documented.declared builtin history apartEncoders
    rw [isDirect]
    exact Direct.encodeType_succeeds documented.declared (Direct.encode_ends documented fuel)
      (Direct.encode_succeeds documented fuel) inhabits (TypeExpr.written_of_parse parsed) enough

end Codec

namespace Schema

/-- A default of the field that stands ready is an empty list, and the field takes lists. -/
def defaultsToList (f : Field) : Bool :=
  match f.default, f.type.shape with
  | some (.fresh (.seq [])), .sequence => true
  | some (.fresh _), _ | some (.value _), _ => false
  | _, _ => true

theorem typed_of_defaultsToList {schema : Schema}
    (h : schema.records.values.all (fun r => r.fields.all defaultsToList) = true) :
    schema.HasTypedDefaults := by
  intro name r found f mem v isDefault
  have isRecord : r ∈ schema.records.values :=
    List.mem_map_of_mem (f := Prod.snd) (Assoc.mem_of_get? found)
  have checked := List.all_eq_true.1 (List.all_eq_true.1 h r isRecord) f mem
  obtain ⟨_, ⟨shape, args, literals⟩, default⟩ := f
  rcases isDefault with rfl | rfl
  · cases checked
  · unfold defaultsToList at checked
    split at checked
    case h_1 same isList =>
      cases same
      cases isList
      exact .sequence rfl fun w mem => absurd mem List.not_mem_nil
    all_goals simp_all

end Schema

namespace Sample

def document : Document where
  records :=
    [{ name := "Point", kind := .positional
       fields := [{ name := "x", type := "int" }, { name := "y", type := "int" }] },
      { name := "Cell"
        fields := [{ name := "point", type := "Point" },
          { name := "tags", type := "list[str]", defaultFactory := some "list" },
          { name := "next", type := "Cell | None", default := some .null }] }]

def cellsType : TypeExpr := .union [.named "Cell", .sequence (.named "Cell")]

theorem parse_cellsType : TypeExpr.parse cellsType.text = some (.ok cellsType) :=
  have cell : (TypeExpr.named "Cell").Canonical := .named (by decide) rfl rfl
  have canonical : cellsType.Canonical :=
    .union (by decide) (by decide +kernel)
      (List.forall_mem_cons.2 ⟨cell, List.forall_mem_singleton.2 (.sequence cell)⟩)
      (by simp [TypeExpr.named, TypeExpr.sequence, TypeExpr.apply, TypeExpr.isNull])
  TypeExpr.parse_of_parsesAs canonical.printable canonical.parsesAs

/-- A new codec decodes two cells and has encoders for what comes of them. -/
def recodes (schema : Schema) : Bool :=
  let outcome := Codec.decode "Cell" cells {} { schema }
  schema.records.values.all (fun r => r.fields.all Schema.defaultsToList) &&
    outcome.1.returnsWith (fun _ => true) &&
    (outcome.2.encoder "Cell" {}).1.returnsWith (fun _ => true) &&
    (Codec.encoder "Cell" {} { schema }).1.returnsWith (fun _ => true) &&
    (Codec.typeEncoder? cellsType (Compile.fuelFor schema) { schema }).isSome

theorem inhabits_cellsType {schema : Schema} (declarations : schema.Declared) {i : Instance}
    (inhabits : InhabitsRecord schema "Cell" i) : Inhabits schema cellsType (.seq [i]) := by
  have ⟨_, _, _, declared, _⟩ := inhabits
  have isName : (schema.resolve (.named "Cell")).shape.recordName? = some "Cell" := by
    show (schema.classify "Cell").recordName? = _
    rw [Schema.classify, declared]
    rfl
  have handled : Handled schema .builtin (.named "Cell") .record (schema.resolve (.named "Cell")) :=
    .of_record isName (declarations.checked declared).2.1
  have isCell : Inhabits schema (schema.resolve (.named "Cell")) i :=
    .of_inhabitsRecord (handled.of_resolve_eq (schema.resolve_resolve _).symm) isName inhabits
  have isList : Inhabits schema (.sequence (schema.resolve (.named "Cell"))) (.seq [i]) := by
    refine .sequence rfl fun v mem => ?_
    obtain rfl := List.mem_singleton.1 mem
    show Inhabits schema (schema.resolve (schema.resolve (.named "Cell"))) v
    rw [schema.resolve_resolve]
    exact isCell
  exact .union rfl (List.mem_cons_of_mem _ List.mem_cons_self) isList

end Sample

theorem Codec.encode_of_decode_cells : ∃ schema,
    (Schema.ofDocument Sample.document).Returns schema ∧
    ∃ i, (Codec.decode "Cell" Sample.cells {} { schema }).1.run = some (.ok i) ∧
      (∃ j, ((Codec.decode "Cell" Sample.cells {} { schema }).2.encode "Cell" i {}).1.run =
        some (.ok j)) ∧
      (∃ j, (Codec.encode "Cell" i {} { schema }).1.run = some (.ok j)) ∧
      ∃ (e : Codec.TypeEncoder { schema } Sample.cellsType) (j : _),
        (e.encode ((Instance.seq [i]).depth + 1) (.seq [i])).run = some (.ok j) := by
  have passes : (Schema.ofDocument Sample.document).returnsWith Sample.recodes = true := by
    decide +kernel
  obtain ⟨schema, document, recodes⟩ := Run.exists_of_returnsWith passes
  simp only [Sample.recodes, Bool.and_eq_true] at recodes
  obtain ⟨⟨⟨⟨typed, decodes⟩, recompiles⟩, compiles⟩, ofType⟩ := recodes
  obtain ⟨i, decoded, -⟩ := Run.exists_of_returnsWith decodes
  obtain ⟨again, recompiled, -⟩ := Run.exists_of_returnsWith recompiles
  obtain ⟨e, compiled, -⟩ := Run.exists_of_returnsWith compiles
  obtain ⟨cells, -⟩ := Option.isSome_iff_exists.1 ofType
  have typed := Schema.typed_of_defaultsToList typed
  have declared := (Schema.documented_of_ofDocument document).declared
  obtain ⟨config, fuel, direct⟩ :=
    direct_of_decode (c := { schema }) rfl (.empty 0 0) (.inl rfl) decoded
  have inhabits := Direct.soundNested_decode declared typed fuel "Cell" config _ i direct
  obtain ⟨ofDecoded, ofRecord, ofType⟩ :=
    encode_of_decode (c := { schema }) document rfl typed (.empty 0 0) (.inl rfl) (.inl rfl)
  exact ⟨schema, document, i, decoded, ofDecoded "Cell" {} Sample.cells i again decoded recompiled,
    ofRecord "Cell" {} i e inhabits compiled, cells,
    ofType Sample.cellsType.text _ Sample.parse_cellsType cells _
      (Sample.inhabits_cellsType declared inhabits) _ (Nat.lt_succ_self _)⟩

namespace Orchard

/-- The last record is named like the first one with a number, and holds one that is never
written. -/
def document : Document where
  records :=
    [{ name := "Pear", tag := some "pear", fields := [{ name := "size", type := "int" }] },
      { name := "Plum", tag := some "plum", fields := [{ name := "size", type := "int" }] },
      { name := "Bowl", fields := [{ name := "fruit", type := "Pear | Plum" }] },
      { name := "Pear#2"
        fields :=
          [{ name := "first", type := "Pear", default := some (Clash.pearObject [])
             skip := some ⟨true, false, false⟩ },
            { name := "fruit", type := "Pear | Plum | None", default := some .null }] }]

def fruit : Json := Clash.pearObject [("__tag__", .string "pear")]

def codec (schema : Schema) : Codec :=
  (Codec.decode "Bowl" (.object [("fruit", fruit)]) {} { schema }).2

def fails (schema : Schema) : Bool :=
  let outcome := (codec schema).decode "Pear#2" Clash.input {}
  schema.records.values.all (fun r => r.fields.all Schema.defaultsToList) &&
    outcome.1.returnsWith fun i =>
      (outcome.2.encoder "Pear#2" {}).1.returnsWith (fun _ => true) &&
        !(outcome.2.encode "Pear#2" i {}).1.returnsWith fun _ => true

end Orchard

/-- A pear that the cache has a decoder for comes out as a record that is no pear, and its encoder
refuses that. -/
theorem Codec.not_encode_pear2 : ∃ schema, (Schema.ofDocument Orchard.document).Returns schema ∧
    schema.HasTypedDefaults ∧
    ∃ i e, ((Orchard.codec schema).decode "Pear#2" Clash.input {}).1.run = some (.ok i) ∧
      (((Orchard.codec schema).decode "Pear#2" Clash.input {}).2.encoder "Pear#2" {}).1.run =
        some (.ok e) ∧
      ¬∃ j, (((Orchard.codec schema).decode "Pear#2" Clash.input {}).2.encode "Pear#2" i {}).1.run =
        some (.ok j) := by
  have passes : (Schema.ofDocument Orchard.document).returnsWith Orchard.fails = true := by
    decide +kernel
  obtain ⟨schema, document, fails⟩ := Run.exists_of_returnsWith passes
  simp only [Orchard.fails, Bool.and_eq_true] at fails
  obtain ⟨typed, decodes⟩ := fails
  obtain ⟨i, decoded, fails⟩ := Run.exists_of_returnsWith decodes
  rw [Bool.and_eq_true] at fails
  obtain ⟨e, compiled, -⟩ := Run.exists_of_returnsWith fails.1
  refine ⟨schema, document, Schema.typed_of_defaultsToList typed, i, e, decoded, compiled, ?_⟩
  rintro ⟨j, encoded⟩
  simp [Run.returnsWith, encoded] at fails

end RecordCodec
