import RecordCodec.Proofs.Caches
import RecordCodec.Proofs.Progress
import RecordCodec.Proofs.RoundTrip
import RecordCodec.Proofs.Soundness

set_option autoImplicit false

/-!
# Codecs give back what they have encoded

A codec compiles both routines of a record if its types can be compiled and the settings make sense
for it. The encoder writes each field where the decoder looks for it, so decoding gives back the
instance, whatever routines the codec had before.
-/
namespace RecordCodec

open Routine Compile

/-- The settings make sense for the record, and the types of the record and of all that it reaches
can be compiled. -/
structure Convertible (schema : Schema) (record : String) (config : Config) : Prop where
  checked : ∀ r, schema.record? record = some r → r.checkConfig config = .ok ()
  types : ∀ name config' r, Reaches schema (record, config) name config' →
    schema.record? name = some r → ∀ f ∈ r.fields, Reversible schema f.type

/-- The settings make sense for the record, and the record and all that it reaches can be read as
they are written. -/
structure RoundTrips (schema : Schema) (record : String) (config : Config) : Prop where
  checked : ∀ r, schema.record? record = some r → r.checkConfig config = .ok ()
  invertible : ∀ name config' r, Reaches schema (record, config) name config' →
    schema.record? name = some r → Invertible schema r config'

theorem RoundTrips.of_closed {schema : Schema} {record : String} {config : Config}
    {r : RecordType} (records : List RecordType) (configs : List Config)
    (found : schema.record? record = some r) (checked : r.checkConfig config = .ok ())
    (declared : ∀ name r, schema.record? name = some r → r ∈ records) (first : config ∈ configs)
    (closed : ∀ config ∈ configs, ∀ r ∈ records, r.ownConfig.inherit config ∈ configs)
    (invertible : ∀ r ∈ records, ∀ config ∈ configs, Invertible schema r config) :
    RoundTrips schema record config where
  checked other isRecord := by
    cases found.symm.trans isRecord
    exact checked
  invertible := Reaches.forall_of_closed declared first closed invertible

theorem RoundTrips.convertible {schema : Schema} {record : String} {config : Config}
    (trips : RoundTrips schema record config) : Convertible schema record config where
  checked := trips.checked
  types name config' r reached found := (trips.invertible name config' r reached found).types

namespace Codec

variable {c : Codec} {record : String} {overrides config : Config}

theorem exists_of_resolvedConfig (resolved : c.resolvedConfig record overrides = .ok config) :
    ∃ r, c.schema.record? record = some r := by
  obtain ⟨r, found, -⟩ := bind_eq_ok_iff.1 resolved
  exact ⟨r, findRecord_eq_ok.1 found⟩

theorem ready {I O : Type} {mode : Mode I O} {held : List (RoutineKey × Linked I O)}
    (declarations : c.schema.Declared) (builtin : c.registry = .builtin)
    (unnumbered : c.schema.Unnumbered)
    (resolved : c.resolvedConfig record overrides = .ok config)
    (convertible : Convertible c.schema record config)
    (holds : Cache.Holds c.schema c.registry mode held) (lawful : mode.Lawful) :
    (Cache.context c.schema c.registry mode held).Ready (record, config) where
  builtin := builtin
  declarations := declarations
  regular := holds.regular lawful unnumbered
  declared := by
    obtain ⟨r, found⟩ := exists_of_resolvedConfig resolved
    exact ⟨r, found, Config.check_eq_ok_iff.1 (convertible.checked r found)⟩
  types := convertible.types

section
variable (declarations : c.schema.Declared) (builtin : c.registry = .builtin)
  (history : c.cache.History c.schema c.registry) (unnumbered : c.schema.Unnumbered)
  (resolved : c.resolvedConfig record overrides = .ok config)
  (convertible : Convertible c.schema record config)
include declarations builtin history unnumbered resolved convertible

theorem exists_decoder : ∃ r, (c.decoder record overrides).1.Returns r := by
  have ready := ready declarations builtin unnumbered resolved convertible
    (history.holds unnumbered).1 Mode.lawful_decoding
  obtain ⟨compiled, ran⟩ := compile_succeeds ready c.cache.stamp
  simp only [decoder, resolved]
  cases cached : c.cache.decoder? record config with
  | some r => exact ⟨r, rfl⟩
  | none =>
    refine ⟨compiled.routine, ?_⟩
    simp only [Cache.compileDecoder_fst, Run.Returns.bind_iff]
    exact ⟨compiled, ran, Run.Returns.pure_iff.2 rfl⟩

theorem exists_encoder : ∃ r, (c.encoder record overrides).1.Returns r := by
  have ready := ready declarations builtin unnumbered resolved convertible
    (history.holds unnumbered).2 Mode.lawful_encoding
  obtain ⟨compiled, ran⟩ := compile_succeeds ready c.cache.stamp
  simp only [encoder, resolved]
  cases cached : c.cache.encoder? record config with
  | some r => exact ⟨r, rfl⟩
  | none =>
    refine ⟨compiled.routine, ?_⟩
    simp only [Cache.compileEncoder_fst, Run.Returns.bind_iff]
    exact ⟨compiled, ran, Run.Returns.pure_iff.2 rfl⟩

end

theorem encoder_snd (record : String) (overrides : Config)
    (history : c.cache.History c.schema c.registry) :
    ∃ cache, (c.encoder record overrides).2 = { c with cache } ∧
      cache.History c.schema c.registry := by
  unfold encoder
  split
  case h_1 => exact ⟨c.cache, rfl, history⟩
  case h_2 =>
    split
    case h_1 => exact ⟨c.cache, rfl, history⟩
    case h_2 => exact ⟨_, rfl, .encoder _ _ _ history⟩

section
variable {fuel : Nat} {v w : Instance} {j : Json} (declarations : c.schema.Declared)
  (builtin : c.registry = .builtin) (history : c.cache.History c.schema c.registry)
  (unnumbered : c.schema.Unnumbered) (resolved : c.resolvedConfig record overrides = .ok config)
  (convertible : Convertible c.schema record config)
include declarations builtin history unnumbered resolved convertible

theorem encode_returns
    (written : (Direct.encode c.schema .builtin fuel record config w).Returns j) :
    (c.encode record w overrides).1.Returns j := by
  obtain ⟨r, isEncoder⟩ :=
    exists_encoder declarations builtin history unnumbered resolved convertible
  obtain ⟨config', resolved', serves⟩ := encoder_serves history (.inr unnumbered) isEncoder
  cases resolved.symm.trans resolved'
  rw [builtin] at serves
  exact Run.Returns.bind_iff.2
    ⟨r, isEncoder, (serves.call_encode_iff declarations w).2 ⟨fuel, written⟩⟩

theorem decode_returns
    (read : (Direct.decode c.schema .builtin fuel record config j).Returns v) :
    (c.decode record j overrides).1.Returns v := by
  obtain ⟨r, isDecoder⟩ :=
    exists_decoder declarations builtin history unnumbered resolved convertible
  obtain ⟨config', resolved', serves⟩ := decoder_serves history (.inr unnumbered) isDecoder
  cases resolved.symm.trans resolved'
  rw [builtin] at serves
  exact Run.Returns.bind_iff.2
    ⟨r, isDecoder, (serves.call_decode_iff declarations j).2 ⟨fuel, read⟩⟩

theorem decode_returns_of_encoded (w : Instance)
    (read : (Direct.decode c.schema .builtin fuel record config j).Returns v) :
    ((c.encode record w overrides).2.decode record j overrides).1.Returns v := by
  obtain ⟨cache, after, history⟩ := encoder_snd record overrides history
  have successor : (c.encode record w overrides).2 = { c with cache } := after
  rw [successor]
  exact decode_returns (c := { c with cache }) declarations builtin history unnumbered resolved
    convertible read

end

/-- Whatever the codec did before, an instance comes back from its encoded form, with the fields of
its records in declared order. -/
theorem decode_of_encode (declarations : c.schema.Declared) (builtin : c.registry = .builtin)
    (history : c.cache.History c.schema c.registry) (unnumbered : c.schema.Unnumbered)
    (resolved : c.resolvedConfig record overrides = .ok config)
    (trips : RoundTrips c.schema record config) {v w : Instance}
    (inhabits : InhabitsRecord c.schema record v) (regular : v.Regular)
    (rearranged : v.Rearranged w) :
    ∃ j, (c.encode record w overrides).1.run = some (.ok j) ∧
      ((c.encode record w overrides).2.decode record j overrides).1.run = some (.ok v) ∧
      Instance.same v w = true := by
  obtain ⟨j, written, read⟩ := Direct.trip_of_inhabitsRecord (Direct.lawful_recovers c.schema)
    declarations trips.invertible .refl inhabits rearranged regular trivial
  have encoded := encode_returns declarations builtin history unnumbered resolved
    trips.convertible written
  have decoded := decode_returns_of_encoded declarations builtin history unnumbered resolved
    trips.convertible w read
  exact ⟨j, encoded, decoded, rearranged.same regular⟩

end Codec

namespace Sample

theorem mem_of_record? {name : String} {r : RecordType} (h : schema.record? name = some r) :
    r ∈ [cell, point] := by
  rw [Schema.record?, schema] at h
  simp only [Table.get?_insert] at h
  split_ifs at h <;> cases h <;> simp

theorem handled_point : Handled schema .builtin (.named "Point") .record
    (schema.resolve (.named "Point")) := rfl

theorem handled_cell : Handled schema .builtin (.apply (.record .keyword "Cell") []) .record
    (.apply (.record .keyword "Cell") []) := rfl

theorem handled_next : Handled schema .builtin (.optional (.named "Cell")) .optional
    (schema.resolve (.optional (.named "Cell"))) := rfl

theorem reversible : ∀ r ∈ [cell, point], ∀ f ∈ r.fields, Reversible schema f.type := by
  have isInt : Reversible schema (.primitive .int) := .scalar rfl (by decide)
  have isStr : Reversible schema (.primitive .str) := .scalar rfl (by decide)
  have isPoint : Reversible schema (.named "Point") := .record handled_point rfl rfl
  have isCell : Reversible schema (.apply (.record .keyword "Cell") []) :=
    .record handled_cell rfl rfl
  have areTags : Reversible schema (.sequence (.primitive .str)) :=
    .items handled_tags (.inl rfl) isStr
  have isNext : Reversible schema (.optional (.named "Cell")) :=
    .optional handled_next isCell (.of_record handled_cell)
  simp [cell, point, isInt, isPoint, areTags, isNext]

theorem roundTrips : RoundTrips schema "Cell" {} := by
  refine .of_closed [cell, point] [{}] (r := cell) rfl rfl (fun _ _ => mem_of_record?)
    (by decide) (by decide +kernel) ?_
  intro r memR config memC
  refine ⟨reversible r memR, ?_, ?_, ?_, ?_, ?_, ?_, ?_, ?_⟩
  all_goals
    revert r config
    decide +kernel

def pointAt (x y : Int64) : Instance := .record "Point" [("x", .int x), ("y", .int y)]

def lastCell : Instance :=
  .record "Cell" [("point", pointAt 3 4), ("tags", .seq []), ("next", .null)]

def cellInstance : Instance :=
  .record "Cell" [("point", pointAt 1 2), ("tags", .seq [.str "a,b"]), ("next", lastCell)]

def rearrangedCell : Instance :=
  .record "Cell" [("next", lastCell), ("point", pointAt 1 2), ("tags", .seq [.str "a,b"])]

theorem inhabits_point (x y : Int64) : Inhabits schema (.named "Point") (pointAt x y) := by
  have isInt : ∀ n, Inhabits schema (.primitive .int) (.int n) := fun n => .scalar rfl trivial
  refine .of_inhabitsRecord handled_point rfl ?_
  exact .of_values (r := point) rfl (by decide) (.cons (isInt x) (.cons (isInt y) .nil))

theorem inhabits_tags (tags : List String) :
    Inhabits schema (.sequence (.primitive .str)) (.seq (tags.map .str)) := by
  refine .sequence handled_tags fun v mem => ?_
  obtain ⟨tag, -, rfl⟩ := List.mem_map.1 mem
  exact .scalar rfl trivial

theorem inhabits_lastCell : InhabitsRecord schema "Cell" lastCell :=
  .of_values (r := cell) rfl (by decide)
    (.cons (inhabits_point 3 4) (.cons (inhabits_tags []) (.cons (.absent handled_next) .nil)))

theorem inhabits_cellInstance : InhabitsRecord schema "Cell" cellInstance := by
  have next : Inhabits schema (.optional (.named "Cell")) lastCell :=
    .given handled_next (.of_inhabitsRecord handled_cell rfl inhabits_lastCell)
  exact .of_values (r := cell) rfl (by decide)
    (.cons (inhabits_point 1 2) (.cons (inhabits_tags ["a,b"]) (.cons next .nil)))

theorem regular_cellInstance : cellInstance.Regular := by
  have points : ∀ x y, (pointAt x y).Regular := fun x y =>
    .record (by simp [Assoc.keys]) (by simp [Instance.Regular.int])
  have last : lastCell.Regular := by
    refine .record (by simp [Assoc.keys]) ?_
    simp [points, Instance.Regular.null, Instance.Regular.seq]
  have tags : (Instance.seq [.str "a,b"]).Regular := .seq (by simp [Instance.Regular.str])
  refine .record (by simp [Assoc.keys]) ?_
  simp [points, last, tags]

theorem rearranged_cellInstance : cellInstance.Rearranged rearrangedCell := by
  refine .record rfl (fun e mem => ?_) (@List.perm_append_comm _ [_, _] [_])
  rw [(mem_of_mem_zip_self mem).2]
  exact .refl _

end Sample

theorem Codec.decode_of_encode_cells :
    ∃ j, (Sample.codec.encode "Cell" Sample.rearrangedCell {}).1.run = some (.ok j) ∧
      ((Sample.codec.encode "Cell" Sample.rearrangedCell {}).2.decode "Cell" j {}).1.run =
        some (.ok Sample.cellInstance) ∧
      Instance.same Sample.cellInstance Sample.rearrangedCell = true :=
  decode_of_encode Sample.schema_declared rfl (.decoder 0 "Point" {} (.empty 0 0))
    Sample.schema_hasIdentifiers.unnumbered rfl Sample.roundTrips Sample.inhabits_cellInstance
    Sample.regular_cellInstance Sample.rearranged_cellInstance

namespace Grove

def handedDown : Config := { recursive := some true }

def leaf : RecordType where
  name := "Leaf"
  fields := [{ name := "size", type := .primitive .int }]

def twig : RecordType where
  name := "Twig"
  fields := [{ name := "leaf", type := .named "Leaf" }]
  config := some handedDown

def leaf2 : RecordType where
  name := "Leaf#2"
  fields := [{ name := "leaf", type := .named "Leaf" }, { name := "twig", type := .named "Twig" }]

def schema : Schema where
  records := ((Table.empty.insert "Leaf" leaf).insert "Twig" twig).insert "Leaf#2" leaf2

theorem schema_declared : schema.Declared :=
  .record leaf2 (.record twig (.record leaf .empty rfl) rfl) rfl

theorem mem_of_record? {name : String} {r : RecordType} (h : schema.record? name = some r) :
    r ∈ [leaf2, twig, leaf] := by
  rw [Schema.record?, schema] at h
  simp only [Table.get?_insert] at h
  split_ifs at h <;> cases h <;> simp

theorem handled_leaf : Handled schema .builtin (.named "Leaf") .record
    (schema.resolve (.named "Leaf")) := rfl

theorem handled_twig : Handled schema .builtin (.named "Twig") .record
    (schema.resolve (.named "Twig")) := rfl

theorem reversible : ∀ r ∈ [leaf2, twig, leaf], ∀ f ∈ r.fields, Reversible schema f.type := by
  have isInt : Reversible schema (.primitive .int) := .scalar rfl (by decide)
  have isLeaf : Reversible schema (.named "Leaf") := .record handled_leaf rfl rfl
  have isTwig : Reversible schema (.named "Twig") := .record handled_twig rfl rfl
  simp [leaf2, twig, leaf, isInt, isLeaf, isTwig]

theorem roundTrips : RoundTrips schema "Leaf#2" {} := by
  refine .of_closed [leaf2, twig, leaf] [{}, handedDown] (r := leaf2) rfl rfl
    (fun _ _ => mem_of_record?) (by decide) (by decide +kernel) ?_
  intro r memR config memC
  refine ⟨reversible r memR, ?_, ?_, ?_, ?_, ?_, ?_, ?_, ?_⟩
  all_goals
    revert r config
    decide +kernel

def leafInstance : Instance := .record "Leaf" [("size", .int 1)]

def twigInstance : Instance := .record "Twig" [("leaf", leafInstance)]

def leaf2Instance : Instance :=
  .record "Leaf#2" [("leaf", leafInstance), ("twig", twigInstance)]

theorem inhabits_leaf2Instance : InhabitsRecord schema "Leaf#2" leaf2Instance := by
  have isInt : Inhabits schema (.primitive .int) (.int 1) := .scalar rfl trivial
  have isLeaf : Inhabits schema (.named "Leaf") leafInstance :=
    .of_inhabitsRecord handled_leaf rfl (.of_values (r := leaf) rfl (by decide) (.cons isInt .nil))
  have isTwig : Inhabits schema (.named "Twig") twigInstance :=
    .of_inhabitsRecord handled_twig rfl (.of_values (r := twig) rfl (by decide) (.cons isLeaf .nil))
  exact .of_values (r := leaf2) rfl (by decide) (.cons isLeaf (.cons isTwig .nil))

theorem regular_leaf2Instance : leaf2Instance.Regular := by
  have isLeaf : leafInstance.Regular :=
    .record (by simp [Assoc.keys]) (by simp [Instance.Regular.int])
  have isTwig : twigInstance.Regular := .record (by simp [Assoc.keys]) (by simp [isLeaf])
  exact .record (by simp [Assoc.keys]) (by simp [isLeaf, isTwig])

def codec : Codec where
  schema := schema

end Grove

/-- A record named like another one with a number. A new codec numbers the second routine of a leaf,
which gives it the name that the record's own routine has already. -/
theorem Codec.not_encode_leaf2 :
    Grove.schema.Declared ∧ RoundTrips Grove.schema "Leaf#2" {} ∧
      Grove.codec.resolvedConfig "Leaf#2" {} = .ok {} ∧
      InhabitsRecord Grove.schema "Leaf#2" Grove.leaf2Instance ∧ Grove.leaf2Instance.Regular ∧
      ¬∃ j, (Grove.codec.encode "Leaf#2" Grove.leaf2Instance {}).1.run = some (.ok j) := by
  refine ⟨Grove.schema_declared, Grove.roundTrips, rfl, Grove.inhabits_leaf2Instance,
    Grove.regular_leaf2Instance, ?_⟩
  rintro ⟨j, encoded⟩
  have fails : (Grove.codec.encode "Leaf#2" Grove.leaf2Instance {}).1.returnsWith
      (fun _ => true) = false := by
    decide +kernel
  simp [Run.returnsWith, encoded] at fails

end RecordCodec
