import RecordCodec.Proofs.FirstKeys
import RecordCodec.Proofs.FlatForms
import RecordCodec.Proofs.LoneRecords
import RecordCodec.Proofs.MissingFields
import RecordCodec.Proofs.NamedHandlers
import RecordCodec.Proofs.Shuffling

set_option autoImplicit false

/-!
# Records in flat texts

A record with flat types only mentions no other record, so it has a decoder whatever else there is
in its schema. This finds the text of each field under the first of its keys, in whatever order the
texts are given, and its converters read the values of an instance back.
-/
namespace RecordCodec

open Routine Run Compile Direct Locator

/-- The fields of a record have flat types, and are found under their keys. -/
structure RecordType.IsFlat (r : RecordType) : Prop where
  types : ∀ f ∈ r.fields, ∃ t : FlatType, f.type = t.type
  noPaths : ∀ f ∈ r.fields, f.path = none
  noCatchAll : ∀ f ∈ r.fields, f.catchAll = false

def Instance.fieldText? (v : Instance) (f : Field) : Option String :=
  (v.field? f.name).map flatText

/-- The texts of the fields that an instance has, each under the first key of its field. -/
def Instance.flatEntries (config : Config) (fields : List Field) (v : Instance) :
    List (String × String) :=
  fields.filterMap fun f => (v.fieldText? f).map fun text => (firstKey config f, text)

theorem Instance.map_flatEntries (config : Config) (fields : List Field) (v : Instance) :
    (v.flatEntries config fields).map (fun e => (e.1, Json.string e.2)) =
      firstMembers config (valuesOf (fun f => (v.fieldText? f).map .string) fields) := by
  simp only [flatEntries, firstMembers, valuesOf, List.map_filterMap, Option.map_map]
  rfl

theorem Compile.Locator.HoldsFirst.perm {config : Config} {members members' : List (String × Json)}
    {f : Field} {value : Option Json} (h : HoldsFirst config members f value)
    (distinct : (Assoc.keys members).Nodup) (permuted : members.Perm members') :
    HoldsFirst config members' f value := fun key isKey => by
  rw [← Assoc.get?_perm distinct permuted, h key isKey]

namespace Codec

variable {c : Codec} {name : String} {overrides config : Config} {r : RecordType}

theorem exists_decoder_of_isFlat (declarations : c.schema.Declared)
    (declared : c.schema.record? name = some r)
    (resolved : c.resolvedConfig name overrides = .ok config)
    (valid : overrides.Valid (r.fields.map Field.name)) (isFlat : r.IsFlat)
    (keeps : ∀ f ∈ r.fields, c.registry.KeepsBuiltin f.type) :
    ∃ d, (c.decoder name overrides).1.Returns d := by
  have isConfig : overrides.overlay r.ownConfig = config := by
    rw [resolvedConfig, findRecord_eq_ok.2 declared] at resolved
    exact Except.ok.inj resolved
  have accepted : r.checkConfig config = .ok () := by
    rw [← isConfig]
    exact Config.check_eq_ok_iff.2 (valid.overlay (declarations.checked declared).2.2.config)
  simp only [decoder, resolved]
  cases cached : c.cache.decoder? name config with
  | some d => exact ⟨d, rfl⟩
  | none =>
    let cx := Cache.context c.schema c.registry .decoding c.cache.decoders
    have each : ∀ f ∈ r.fields, Stays (converterFor cx (fuelFor c.schema) f.type) := by
      intro f isField
      obtain ⟨t, isType⟩ := isFlat.types f isField
      obtain ⟨fuel, enough⟩ : ∃ fuel, fuelFor c.schema = fuel + 2 :=
        Nat.exists_eq_add_of_le' (Nat.le_mul_of_pos_left _ (Nat.succ_pos _) |>.trans' (by omega))
      rw [enough, isType]
      exact FlatType.converterFor_stays (isType ▸ keeps f isField) fuel
    have lawful : cx.mode.Lawful := Mode.lawful_decoding
    obtain ⟨compiled, ran⟩ :=
      exists_compile_lone lawful declared accepted cached each c.cache.stamp
    refine ⟨compiled.routine, ?_⟩
    simp only [Cache.compileDecoder_fst, Run.Returns.bind_iff]
    exact ⟨compiled, ran, Run.Returns.pure_iff.2 rfl⟩

theorem decodes_of_isFlat {bound : Binding} {parts : List (Field × Converter)} {d : Decoder}
    (made : Made c.schema c.registry .decoding bound name config r parts d.code)
    (declarations : c.schema.Declared) (isFlat : r.IsFlat)
    (keeps : ∀ f ∈ r.fields, c.registry.KeepsBuiltin f.type) {fields : List (String × Instance)}
    (inhabits : ∀ f ∈ r.fields, ∀ v, (f.name, v) ∈ fields → Inhabits c.schema f.type v)
    (flat : ∀ f ∈ r.fields, ∀ v, Assoc.get? f.name fields = some v → v.HasFlatText) (input : Json)
    {f : Field} (isField : f ∈ r.fields) :
    Decodes (d.convertFor parts input)
      (fun f => ((Instance.record name fields).fieldText? f).map .string) fields f := by
  change Option.Rel _ (((Assoc.get? f.name fields).map Instance.flatText).map Json.string) _
  cases isValue : Assoc.get? f.name fields with
  | none => exact .none
  | some v =>
    refine .some ?_
    obtain ⟨t, isType⟩ := isFlat.types f isField
    obtain ⟨converter, isPart⟩ := made.exists_part isField
    have isConverter : converter = t.converter :=
      FlatType.eq_converter (isType ▸ keeps f isField) (isType ▸ made.compiled f converter isPart)
    subst isConverter
    rw [Linked.convertFor, convertBy_of_mem (made.distinct declarations (.refl _)) isPart]
    exact FlatType.decode_flatText
      (isType ▸ inhabits f isField v (Assoc.mem_of_get? isValue)) (flat f isField v isValue) _

/-- Whatever a codec did before: an instance of a flat record comes back from the texts of its
fields, each under the first key of its field and in any order, if the handlers of their types are
the built-in ones, no key belongs to two fields, and the texts tell their values. -/
theorem decodeFlat_returns (declarations : c.schema.Declared)
    (history : c.cache.History c.schema c.registry) (declared : c.schema.record? name = some r)
    (resolved : c.resolvedConfig name overrides = .ok config)
    (valid : overrides.Valid (r.fields.map Field.name)) (isFlat : r.IsFlat)
    (keeps : ∀ f ∈ r.fields, c.registry.KeepsBuiltin f.type)
    (cased : config.decodesWith ≠ .caseInsensitive) (apart : KeysApart config r.fields)
    {v : Instance} (inhabits : InhabitsRecord c.schema name v)
    (flat : ∀ f ∈ r.fields, ∀ w, v.field? f.name = some w → w.HasFlatText)
    {entries : List (String × String)} (texts : entries.Perm (v.flatEntries config r.fields)) :
    (c.decodeFlat name entries overrides).1.Returns v := by
  obtain ⟨r', fields, rfl, declared', shape, inhabits⟩ := inhabits
  obtain rfl := Option.some.inj (declared.symm.trans declared')
  obtain ⟨d, isDecoder⟩ :=
    exists_decoder_of_isFlat declarations declared resolved valid isFlat keeps
  obtain ⟨bound, parts, made, -, decodes⟩ :=
    exists_made_of_decoder declarations history declared resolved isDecoder
  obtain ⟨named, -, checked⟩ := declarations.checked declared
  let text? (f : Field) : Option Json := ((Instance.record name fields).fieldText? f).map .string
  let given := entries.map fun e => (e.1, Json.string e.2)
  let members := firstMembers config (valuesOf text? r.fields)
  have permuted : given.Perm members :=
    (texts.map _).trans (.of_eq (Instance.map_flatEntries config r.fields _))
  have distinct : (Assoc.keys members).Nodup :=
    nodup_keys_firstMembers (apart.sublist (map_fst_valuesOf_sublist text? r.fields))
  have holds : ∀ f ∈ r.fields, HoldsFirst config given f (text? f) := fun f isField =>
    (holdsFirst_valuesOf apart text? isField).perm distinct permuted.symm
  have input : Json.ofMembers given = .object given := by
    rw [Json.ofMembers, Assoc.ofList_eq_self ((permuted.map Prod.fst).nodup_iff.2 distinct)]
  have nothing : leftOver r config (.object given) = [] := by
    refine leftOver_of_holdsFirst isFlat.noPaths cased isFlat.noCatchAll fun key isKey => ?_
    obtain ⟨e, isValue, rfl⟩ :=
      exists_of_mem_keys_firstMembers ((permuted.map Prod.fst).mem_iff.1 isKey)
    obtain ⟨isField, isText⟩ := mem_valuesOf.1 isValue
    exact ⟨e.1, isField, e.2, isText ▸ holds e.1 isField, rfl⟩
  rw [decodeFlat, input, decodes, ← named]
  refine decodeRecord_returns checked.distinct isFlat.noCatchAll rfl (fun e mem => ?_) nothing
    (fun f => decodes_of_isFlat made declarations isFlat keeps inhabits flat _) shape
  have isField := List.fst_mem_of_mem_zipIdx mem
  exact located?_of_holdsFirst (isFlat.noPaths _ isField) cased (holds _ isField) e.2

end Codec

namespace Servers

def host : Field := { name := "host", type := .primitive .str }

def ports : Field := { name := "ports", type := .sequence (.primitive .int) }

def limits : Field where
  name := "limits"
  type := .apply .mapping [.primitive .str, .primitive .int]

def server : RecordType where
  name := "Server"
  fields := [host, ports, limits]

def codec : Codec where
  schema := { records := Table.empty.insert "Server" server }

theorem declared : codec.schema.Declared := .record server .empty rfl

theorem history : codec.cache.History codec.schema codec.registry := .empty 0 0

theorem isFlat : server.IsFlat where
  types f isField := by
    simp only [server, List.mem_cons, List.not_mem_nil, or_false] at isField
    rcases isField with rfl | rfl | rfl
    · exact ⟨.scalar .str, rfl⟩
    · exact ⟨.items .list .int, rfl⟩
    · exact ⟨.mapping .int, rfl⟩
  noPaths := by simp [server, host, ports, limits]
  noCatchAll := by simp [server, host, ports, limits]

theorem apart : KeysApart {} server.fields := by
  unfold KeysApart server
  decide

def fields : List (String × Instance) :=
  [("host", .str " a,b "), ("ports", .seq [.int 80, .int (-1)]),
    ("limits", .map [(.str "open", .int 12)])]

theorem inhabits : InhabitsRecord codec.schema "Server" (.record "Server" fields) := by
  have builtin : ∀ t : FlatType, Handled codec.schema .builtin t.type t.handler t.type :=
    fun t => FlatType.handled (Registry.keepsBuiltin_builtin t.type)
  have number : ∀ n, Inhabits codec.schema (.primitive .int) (.int n) :=
    fun _ => .scalar (builtin (.scalar .int)) trivial
  have text : ∀ s, Inhabits codec.schema (.primitive .str) (.str s) :=
    fun _ => .scalar (builtin (.scalar .str)) trivial
  refine ⟨server, fields, rfl, rfl, ⟨.refl _, by simp [fields], ?_⟩, ?_⟩
  · simp [server, fields, host, ports, limits]
  intro f isField v isValue
  simp only [server, List.mem_cons, List.not_mem_nil, or_false] at isField
  rcases isField with rfl | rfl | rfl
  · obtain rfl : v = .str " a,b " := by simpa [fields, host] using isValue
    exact text _
  · obtain rfl : v = .seq [.int 80, .int (-1)] := by simpa [fields, ports] using isValue
    refine .sequence (builtin (.items .list .int)) fun w mem => ?_
    rcases List.mem_pair.1 mem with rfl | rfl <;> exact number _
  · obtain rfl : v = .map [(.str "open", .int 12)] := by simpa [fields, limits] using isValue
    refine .mapping (builtin (.mapping .int)) (fun e mem => ?_) fun e mem => ?_ <;>
      obtain rfl := List.mem_singleton.1 mem
    · exact text _
    · exact number _

theorem hasFlatText : ∀ f ∈ server.fields, ∀ v,
    (Instance.record "Server" fields).field? f.name = some v → v.HasFlatText := by
  intro f isField v isValue
  simp only [server, List.mem_cons, List.not_mem_nil, or_false] at isField
  rcases isField with rfl | rfl | rfl <;> cases isValue
  · trivial
  · exact ⟨by simp [Instance.IsTidy], fun _ => by decide⟩
  · intro e mem
    obtain rfl := List.mem_singleton.1 mem
    refine ⟨?_, nofun, by simp [Instance.itemText]⟩
    rintro _ ⟨⟩
    exact ⟨rfl, by simp⟩

theorem flatEntries_fields : (Instance.record "Server" fields).flatEntries {} server.fields =
    [("host", " a,b "), ("ports", "80,-1"), ("limits", "open=12")] := by
  rfl

/-- Reads a text as its length. -/
def measuring : Codec := codec.register (.type "str") (.custom Columns.measure Columns.draw)

end Servers

theorem Codec.decodeFlat_returns_server : (Servers.codec.decodeFlat "Server"
    [("limits", "open=12"), ("host", " a,b "), ("ports", "80,-1")] {}).1.Returns
      (.record "Server" Servers.fields) := by
  have isServer : Servers.codec.schema.record? "Server" = some Servers.server := rfl
  have resolved : Servers.codec.resolvedConfig "Server" {} = .ok {} := rfl
  refine decodeFlat_returns Servers.declared Servers.history isServer resolved (.empty _)
    Servers.isFlat (fun f _ => Registry.keepsBuiltin_builtin f.type) nofun Servers.apart
    Servers.inhabits Servers.hasFlatText ?_
  rw [Servers.flatEntries_fields]
  decide

/-- With a handler of its own for texts, the host of a server is read as its length. -/
theorem Codec.not_decodeFlat_returns_server :
    Servers.measuring.schema.Declared ∧ Servers.server.IsFlat ∧
      KeysApart {} Servers.server.fields ∧
      InhabitsRecord Servers.measuring.schema "Server" (.record "Server" Servers.fields) ∧
      (∀ f ∈ Servers.server.fields, ∀ v,
        (Instance.record "Server" Servers.fields).field? f.name = some v → v.HasFlatText) ∧
      ¬(Servers.measuring.decodeFlat "Server"
        ((Instance.record "Server" Servers.fields).flatEntries {} Servers.server.fields)
        {}).1.Returns (.record "Server" Servers.fields) := by
  refine ⟨Servers.declared, Servers.isFlat, Servers.apart, Servers.inhabits, Servers.hasFlatText,
    fun same => ?_⟩
  have decodes : (Servers.measuring.decodeFlat "Server"
      [("host", " a,b "), ("ports", "80,-1"), ("limits", "open=12")] {}).1.returnsWith
        (fun back => (back.field? "host").any fun v => v.kindName == "int") = true := rfl
  obtain ⟨back, decoded, isLength⟩ := exists_of_returnsWith decodes
  rw [Servers.flatEntries_fields, decoded.eq_pure] at same
  obtain rfl := Returns.pure_iff.1 same
  cases isLength

end RecordCodec
