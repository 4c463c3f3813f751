import Mathlib.Data.Fin.VecNotation
import Mathlib.Data.Fintype.BigOperators
import Mathlib.Data.Fintype.Option
import Mathlib.Data.Fintype.Prod
import Mathlib.Tactic.GCongr
import Mathlib.Tactic.Ring
import RecordCodec.Compile.Session
import RecordCodec.Proofs.Entries

set_option autoImplicit false

/-!
# How many routines are compiled inside one another

A record that is nested in another one is compiled under its own settings, some of them filled in
from the record around it. There are finitely many ways to do that, so there are finitely many keys.
-/
namespace RecordCodec

instance : Fintype Casing where
  elems := {.preserve, .snake, .camel, .pascal, .kebab, .screamingSnake, .caseInsensitive}
  complete c := by cases c <;> decide

instance : Fintype UnknownKeys where
  elems := {.ignore, .warn, .raise}
  complete p := by cases p <;> decide

/-- The settings that are handed down: two casings, the policy for unknown keys and six switches. -/
abbrev Settings := Option Casing × Option Casing × Option UnknownKeys × (Fin 6 → Option Bool)

namespace Config

def settings (c : Config) : Settings :=
  (c.decodeCasing, c.encodeCasing, c.unknownKeys, ![c.omitNone, c.omitDefault, c.encodeByAlias,
    c.positionalAsMap, c.allowAmbiguousUnions, c.recursive])

/-- The configuration with other settings, but its own aliases and discriminator. -/
def withSettings (own : Config) : Settings → Config
  | (decodeCasing, encodeCasing, unknownKeys, switches) =>
    { own with
      decodeCasing, encodeCasing, unknownKeys
      omitNone := switches 0
      omitDefault := switches 1
      encodeByAlias := switches 2
      positionalAsMap := switches 3
      allowAmbiguousUnions := switches 4
      recursive := switches 5 }

theorem inherit_eq_withSettings (own outer : Config) :
    own.inherit outer = own.withSettings (own.inherit outer).settings := by
  unfold inherit
  split <;> rfl

end Config

namespace Compile

theorem card_settings : Fintype.card Settings = settingChoices := by
  simp only [Fintype.card_prod, Fintype.card_option, Fintype.card_fun, Fintype.card_bool,
    Fintype.card_fin]
  rfl

/-- The discriminator keys of the unions in a session that starts under a configuration. -/
def tagKeys (schema : Schema) (start : Config) : List String :=
  Config.defaultTagKey :: (start.tagKey?.toList ++ schema.records.values.flatMap fun r =>
    r.ownConfig.tagKey?.toList ++ r.fields.filterMap Field.discriminator)

theorem length_tagKeys (schema : Schema) (start : Config) :
    (tagKeys schema start).length ≤ tagKeyChoices schema := by
  have atMostOne : ∀ key : Option String, key.toList.length ≤ 1 := fun key => by
    cases key <;> simp
  have ofRecords : ∀ records : List RecordType,
      (records.flatMap fun r =>
        r.ownConfig.tagKey?.toList ++ r.fields.filterMap Field.discriminator).length ≤
        Routine.total (records.map fun r => r.fields.length + 1) := by
    intro records
    induction records with
    | nil => exact Nat.le_refl _
    | cons r rest ih =>
      have own := atMostOne r.ownConfig.tagKey?
      have fields := List.length_filterMap_le Field.discriminator r.fields
      simp only [List.flatMap_cons, List.length_append, List.map_cons, Routine.total]
      omega
  have first := atMostOne start.tagKey?
  have others := ofRecords schema.records.values
  rw [tagKeys, tagKeyChoices, List.length_cons, List.length_append]
  omega

/-- The configurations of a record in a session: its own one with any settings, and the same as an
arm of a union. -/
noncomputable def recordConfigs (schema : Schema) (start : Config) (r : RecordType) : List Config :=
  (Finset.univ : Finset Settings).toList.flatMap fun settings =>
    let nested := r.ownConfig.withSettings settings
    nested :: (tagKeys schema start).flatMap fun key =>
      [armConfig key false nested, armConfig key true nested]

noncomputable def sessionKeys (schema : Schema) (start : String × Config) :
    List (String × Config) :=
  start :: schema.records.entries.flatMap fun (name, r) =>
    (recordConfigs schema start.2 r).map fun config => (name, config)

variable {schema : Schema} {start : String × Config} {name : String} {record : RecordType}

theorem mem_tagKeys {key : String} : key ∈ tagKeys schema start.2 ↔ key = Config.defaultTagKey ∨
    start.2.tagKey? = some key ∨ ∃ name record, (name, record) ∈ schema.records.entries ∧
      (record.ownConfig.tagKey? = some key ∨
        ∃ f ∈ record.fields, f.discriminator = some key) := by
  simp only [tagKeys, Table.values, List.mem_cons, List.mem_append, Option.mem_toList,
    List.mem_flatMap, List.mem_map, List.mem_filterMap, Prod.exists]
  constructor
  · rintro (h | h | ⟨_, ⟨name, record, mem, rfl⟩, h⟩)
    · exact .inl h
    · exact .inr (.inl h)
    · exact .inr (.inr ⟨name, record, mem, h⟩)
  · rintro (h | h | ⟨name, record, mem, h⟩)
    · exact .inl h
    · exact .inr (.inl h)
    · exact .inr (.inr ⟨record, ⟨name, record, mem, rfl⟩, h⟩)

theorem mem_recordConfigs {config : Config} :
    config ∈ recordConfigs schema start.2 record ↔
      ∃ settings, config = record.ownConfig.withSettings settings ∨
        ∃ key ∈ tagKeys schema start.2, ∃ autoTag,
          config = armConfig key autoTag (record.ownConfig.withSettings settings) := by
  simp only [recordConfigs, List.mem_flatMap, Finset.mem_toList, Finset.mem_univ, true_and,
    List.mem_cons, List.not_mem_nil, or_false, Bool.exists_bool]

theorem mem_sessionKeys {key : String × Config} : key ∈ sessionKeys schema start ↔ key = start ∨
    ∃ record, (key.1, record) ∈ schema.records.entries ∧
      key.2 ∈ recordConfigs schema start.2 record := by
  obtain ⟨name, config⟩ := key
  simp only [sessionKeys, List.mem_cons, List.mem_flatMap, List.mem_map, Prod.mk.injEq,
    Prod.exists]
  constructor
  · rintro (h | ⟨name, record, mem, config, isConfig, rfl, rfl⟩)
    · exact .inl h
    · exact .inr ⟨record, mem, isConfig⟩
  · rintro (h | ⟨record, mem, isConfig⟩)
    · exact .inl h
    · exact .inr ⟨name, record, mem, config, isConfig, rfl, rfl⟩

theorem start_mem_sessionKeys : start ∈ sessionKeys schema start := List.mem_cons_self

theorem inherit_mem_sessionKeys (declared : schema.record? name = some record) (outer : Config) :
    (name, record.ownConfig.inherit outer) ∈ sessionKeys schema start := by
  refine mem_sessionKeys.2 (.inr ⟨record, Assoc.mem_of_get? declared, mem_recordConfigs.2 ?_⟩)
  exact ⟨_, .inl (Config.inherit_eq_withSettings _ _)⟩

theorem armConfig_mem_sessionKeys (declared : schema.record? name = some record) (outer : Config)
    {key : String} (isKey : key ∈ tagKeys schema start.2) (autoTag : Bool) :
    (name, armConfig key autoTag (record.ownConfig.inherit outer)) ∈ sessionKeys schema start := by
  refine mem_sessionKeys.2 (.inr ⟨record, Assoc.mem_of_get? declared, mem_recordConfigs.2 ?_⟩)
  refine ⟨(record.ownConfig.inherit outer).settings, .inr ⟨key, isKey, autoTag, ?_⟩⟩
  rw [← Config.inherit_eq_withSettings]

theorem tagKey?_armConfig (key : String) (autoTag : Bool) (nested : Config) :
    (armConfig key autoTag nested).tagKey? = some key := by
  simp only [armConfig]
  split <;> rfl

theorem tagKey_mem_tagKeys {key : String × Config} (mem : key ∈ sessionKeys schema start)
    {tagKey : String} (isTagKey : key.2.tagKey? = some tagKey) :
    tagKey ∈ tagKeys schema start.2 := by
  rcases mem_sessionKeys.1 mem with rfl | ⟨record, isEntry, isConfig⟩
  · exact mem_tagKeys.2 (.inr (.inl isTagKey))
  · obtain ⟨settings, same | ⟨armKey, isArmKey, autoTag, same⟩⟩ := mem_recordConfigs.1 isConfig
    · rw [same] at isTagKey
      exact mem_tagKeys.2 (.inr (.inr ⟨key.1, record, isEntry, .inl isTagKey⟩))
    · rw [same, tagKey?_armConfig] at isTagKey
      cases isTagKey
      exact isArmKey

theorem length_sessionKeys (schema : Schema) (start : String × Config) :
    (sessionKeys schema start).length ≤
      schema.records.entries.length * (settingChoices * (2 * tagKeyChoices schema + 1)) + 1 := by
  have pairs : ∀ (keys : List String) (nested : Config), (keys.flatMap fun key =>
      [armConfig key false nested, armConfig key true nested]).length = 2 * keys.length := by
    intro keys nested
    simp [List.length_flatMap, Nat.mul_comm]
  have ofRecord : ∀ r : RecordType, (recordConfigs schema start.2 r).length =
      settingChoices * (2 * (tagKeys schema start.2).length + 1) := by
    intro r
    simp only [recordConfigs, List.length_flatMap, List.length_cons, pairs, List.map_const',
      Finset.length_toList, Finset.card_univ, card_settings, List.sum_replicate_nat]
  have ofAll : (sessionKeys schema start).length = schema.records.entries.length *
      (settingChoices * (2 * (tagKeys schema start.2).length + 1)) + 1 := by
    rw [sessionKeys, List.length_cons, List.length_flatMap]
    simp only [List.length_map, ofRecord, List.map_const', List.sum_replicate_nat]
  have few := length_tagKeys schema start.2
  rw [ofAll]
  gcongr

/-- There are no more keys than the fuel of a session is made for. -/
theorem length_le_keyChoices (declared : schema.record? name = some record)
    {keys : List (String × Config)} (distinct : keys.Nodup)
    (among : ∀ k ∈ keys, k ∈ sessionKeys schema start) : keys.length ≤ keyChoices schema := by
  have bounded := distinct.length_le_of_subset among
  have all := length_sessionKeys schema start
  have some : 1 ≤ schema.records.entries.length :=
    List.length_pos_of_mem (Assoc.mem_of_get? declared)
  calc
    keys.length
      ≤ schema.records.entries.length * (settingChoices * (2 * tagKeyChoices schema + 1)) + 1 :=
        bounded.trans all
    _ ≤ schema.records.entries.length * (settingChoices * (2 * tagKeyChoices schema + 1)) +
        schema.records.entries.length := by omega
    _ = keyChoices schema := by
      rw [keyChoices, configChoices]
      ring

end Compile
end RecordCodec
