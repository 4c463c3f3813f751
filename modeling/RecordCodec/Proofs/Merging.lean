import Mathlib.Data.List.Sort
import RecordCodec.Proofs.Actions
import RecordCodec.Proofs.Declarations

set_option autoImplicit false

/-!
# Merged configurations

Settings are merged one by one, aliases name by name and a discriminator half by half, and what
comes first counts. So it does not matter in which order three configurations are merged, nor
whether one is merged in again. No merge of configurations that pass their checks fails them.
-/
namespace RecordCodec

namespace Table

variable {α : Type}

theorem mem_entries_iff {t : Table α} {e : String × α} : e ∈ t.entries ↔ t.get? e.1 = some e.2 :=
  ⟨Assoc.get?_of_mem t.nodup_names, Assoc.mem_of_get?⟩

theorem ext_get? {a b : Table α} (same : ∀ name, a.get? name = b.get? name) : a = b := by
  have : Std.Irrefl fun e e' : String × α => e.1 < e'.1 := ⟨fun _ => String.lt_irrefl _⟩
  have : Std.Antisymm fun e e' : String × α => e.1 < e'.1 :=
    ⟨fun _ _ first last => (String.lt_irrefl _ (String.lt_trans first last)).elim⟩
  have entries : a.entries = b.entries := a.sorted.eq_of_mem_iff b.sorted fun e => by
    rw [mem_entries_iff, mem_entries_iff, same]
  cases a
  cases b
  cases entries
  rfl

theorem overlay_assoc (a b c : Table α) : (a.overlay b).overlay c = a.overlay (b.overlay c) :=
  ext_get? fun name => by simp only [get?_overlay, Option.or_assoc]

theorem overlay_self (t : Table α) : t.overlay t = t :=
  ext_get? fun name => by rw [get?_overlay, Option.or_self]

theorem overlay_empty (t : Table α) : t.overlay empty = t :=
  ext_get? fun name => by rw [get?_overlay, show empty.get? name = none from rfl, Option.or_none]

end Table

/-- The settings that are handed down to nested records. -/
inductive Setting where
  | decodeCasing | encodeCasing | unknownKeys | omitNone | omitDefault | encodeByAlias
  | positionalAsMap | allowAmbiguousUnions | recursive

namespace Setting

def Value : Setting → Type
  | decodeCasing | encodeCasing => Casing
  | unknownKeys => UnknownKeys
  | omitNone | omitDefault | encodeByAlias | positionalAsMap | allowAmbiguousUnions | recursive =>
    Bool

/-- What a configuration says on a setting, if anything. -/
def given : (setting : Setting) → Config → Option setting.Value
  | decodeCasing, c => c.decodeCasing
  | encodeCasing, c => c.encodeCasing
  | unknownKeys, c => c.unknownKeys
  | omitNone, c => c.omitNone
  | omitDefault, c => c.omitDefault
  | encodeByAlias, c => c.encodeByAlias
  | positionalAsMap, c => c.positionalAsMap
  | allowAmbiguousUnions, c => c.allowAmbiguousUnions
  | recursive, c => c.recursive

theorem given_empty (setting : Setting) : setting.given {} = none := by cases setting <;> rfl

theorem given_overlay (setting : Setting) (upper base : Config) :
    setting.given (upper.overlay base) = (setting.given upper).or (setting.given base) := by
  cases setting <;> rfl

theorem given_inherit (setting : Setting) (own outer : Config) :
    setting.given (own.inherit outer) =
      if outer.isRecursive then (setting.given own).or (setting.given outer)
      else setting.given own := by
  unfold Config.inherit
  split
  · cases setting <;> rfl
  · rfl

end Setting

namespace Config

variable {a b c p : Config}

theorem ext_given (settings : ∀ setting : Setting, setting.given a = setting.given b)
    (decodeAliases : a.decodeAliases = b.decodeAliases)
    (encodeAliases : a.encodeAliases = b.encodeAliases)
    (discriminator : a.discriminator = b.discriminator) : a = b := by
  have decodeCasing := settings .decodeCasing
  have encodeCasing := settings .encodeCasing
  have unknownKeys := settings .unknownKeys
  have omitNone := settings .omitNone
  have omitDefault := settings .omitDefault
  have encodeByAlias := settings .encodeByAlias
  have positionalAsMap := settings .positionalAsMap
  have allowAmbiguousUnions := settings .allowAmbiguousUnions
  have recursive := settings .recursive
  cases a
  cases b
  simp_all only [Setting.given]

/-- Aliases and the discriminator are not handed down. -/
theorem locals_inherit (own outer : Config) :
    (own.inherit outer).decodeAliases = own.decodeAliases ∧
      (own.inherit outer).encodeAliases = own.encodeAliases ∧
      (own.inherit outer).discriminator = own.discriminator := by
  unfold inherit
  split <;> exact ⟨rfl, rfl, rfl⟩

theorem overlayDiscriminator_assoc (a b c : Option Discriminator) :
    overlayDiscriminator (overlayDiscriminator a b) c =
      overlayDiscriminator a (overlayDiscriminator b c) := by
  cases a <;> cases b <;> cases c <;>
    simp [overlayDiscriminator, Discriminator.overlay, Option.or_assoc]

theorem overlayDiscriminator_self (a : Option Discriminator) : overlayDiscriminator a a = a := by
  cases a <;> simp [overlayDiscriminator, Discriminator.overlay]

theorem overlay_assoc (a b c : Config) : (a.overlay b).overlay c = a.overlay (b.overlay c) := by
  refine ext_given (fun setting => ?_) (Table.overlay_assoc _ _ _) (Table.overlay_assoc _ _ _)
    (overlayDiscriminator_assoc _ _ _)
  simp only [Setting.given_overlay, Option.or_assoc]

theorem overlay_self (a : Config) : a.overlay a = a := by
  refine ext_given (fun setting => ?_) (Table.overlay_self _) (Table.overlay_self _)
    (overlayDiscriminator_self _)
  rw [Setting.given_overlay, Option.or_self]

theorem empty_overlay (a : Config) : Config.overlay {} a = a := by
  obtain ⟨_, _, _, _, _, discriminator, _, _, _, _, _, _⟩ := a
  cases discriminator <;> rfl

theorem overlay_empty (a : Config) : a.overlay {} = a := by
  refine ext_given (fun setting => ?_) (Table.overlay_empty _) (Table.overlay_empty _) ?_
  · rw [Setting.given_overlay, Setting.given_empty, Option.or_none]
  · cases discriminator : a.discriminator <;> simp [overlay, overlayDiscriminator, discriminator]

/-- Settings of a caller may be laid over those of a record before or after it is nested. -/
theorem inherit_overlay (a b p : Config) : (a.overlay b).inherit p = a.overlay (b.inherit p) := by
  obtain ⟨decode, encode, discriminator⟩ := locals_inherit (a.overlay b) p
  obtain ⟨decode', encode', discriminator'⟩ := locals_inherit b p
  refine ext_given (fun setting => ?_) ?_ ?_ ?_
  · rw [Setting.given_inherit, Setting.given_overlay, Setting.given_overlay, Setting.given_inherit]
    split
    · exact Option.or_assoc
    · rfl
  · rw [decode, overlay, overlay, decode']
  · rw [encode, overlay, overlay, encode']
  · rw [discriminator, overlay, overlay, discriminator']

theorem inherit_inherit (c p : Config) : (c.inherit p).inherit p = c.inherit p := by
  obtain ⟨decode, encode, discriminator⟩ := locals_inherit (c.inherit p) p
  refine ext_given (fun setting => ?_) decode encode discriminator
  rw [Setting.given_inherit, Setting.given_inherit]
  split
  · rw [Option.or_assoc, Option.or_self]
  · rfl

end Config

open Compile

/-- A record that is nested in another one passes its checks if it was declared, and so does the
other one. -/
theorem Compile.checkConfig_of_nestedConfig {I O : Type} {cx : Context I O} {s s' : Compilation I O}
    {name : String} {config : Config} {outer : RecordType} (declarations : cx.schema.Declared)
    (checked : outer.checkConfig s.config = .ok ()) (h : Gives (nestedConfig cx name) s config s') :
    ∃ r, cx.schema.record? name = some r ∧ r.checkConfig config = .ok () := by
  obtain ⟨r, found, rfl, -⟩ := gives_nestedConfig_iff.1 h
  have own := (declarations.checked found).2.2.config
  exact ⟨r, found, Config.check_eq_ok_iff.2 (own.inherit (Config.check_eq_ok_iff.1 checked))⟩

/-- The laws of merging, and that it keeps configurations valid. -/
theorem Config.merging_lawful :
    (∀ a b c : Config, (a.overlay b).overlay c = a.overlay (b.overlay c)) ∧
      (∀ a : Config, a.overlay a = a) ∧
      (∀ a : Config, Config.overlay {} a = a ∧ a.overlay {} = a) ∧
      (∀ a b p : Config, (a.overlay b).inherit p = a.overlay (b.inherit p)) ∧
      (∀ c p : Config, (c.inherit p).inherit p = c.inherit p) ∧
      (∀ (r : RecordType) (a b : Config), r.checkConfig a = .ok () → r.checkConfig b = .ok () →
        r.checkConfig (a.overlay b) = .ok ()) ∧
      (∀ (r r' : RecordType) (c p : Config), r.checkConfig c = .ok () →
        r'.checkConfig p = .ok () → r.checkConfig (c.inherit p) = .ok ()) ∧
      ∀ (I O : Type) (cx : Context I O) (outer : RecordType) (name : String)
        (s s' : Compilation I O) (config : Config), cx.schema.Declared →
        outer.checkConfig s.config = .ok () → Gives (nestedConfig cx name) s config s' →
        ∃ r, cx.schema.record? name = some r ∧ r.checkConfig config = .ok () := by
  refine ⟨overlay_assoc, overlay_self, fun a => ⟨empty_overlay a, overlay_empty a⟩,
    inherit_overlay, inherit_inherit, fun r a b upper base => ?_, fun r r' c p own outer => ?_,
    fun _ _ _ _ _ _ _ _ => checkConfig_of_nestedConfig⟩
  · exact check_eq_ok_iff.2 ((check_eq_ok_iff.1 upper).overlay (check_eq_ok_iff.1 base))
  · exact check_eq_ok_iff.2 ((check_eq_ok_iff.1 own).inherit (check_eq_ok_iff.1 outer))

namespace Fleets

def label : RecordType where
  name := "Label"
  fields := [{ name := "label_text", type := .primitive .str }]

/-- A record that stops handing down settings. -/
def crate : RecordType where
  name := "Crate"
  fields := [{ name := "front_label", type := .named "Label" }]
  config := some { recursive := some false }

def truckConfig : Config where
  encodeAliases := Table.empty.insert "number_plate" "plate"
  discriminator := some { key := some "kind" }
  omitNone := some false

def truck : RecordType where
  name := "Truck"
  fields := [{ name := "number_plate", type := .primitive .str },
    { name := "top_crate", type := .named "Crate" }]
  config := some truckConfig

def fleetConfig : Config where
  encodeCasing := some .camel
  omitNone := some true
  recursive := some true

def fleet : RecordType where
  name := "Fleet"
  fields := [{ name := "first_truck", type := .named "Truck" }]
  config := some fleetConfig

def context : Context Json Instance where
  schema := { records := (((Table.empty.insert "Label" label).insert "Crate" crate).insert
    "Truck" truck).insert "Fleet" fleet }
  registry := .builtin
  cached := fun _ => none
  mode := .decoding

theorem declared : context.schema.Declared :=
  .record fleet (.record truck (.record crate (.record label .empty rfl) rfl) rfl) rfl

def overrides : Config where
  encodeAliases := Table.empty.insert "top_crate" "top"
  discriminator := some { autoTag := some true }

end Fleets

theorem Config.merging_lawful_fleet :
    Fleets.truck.checkConfig (Fleets.overrides.overlay Fleets.truckConfig) = .ok () ∧
      Fleets.truck.checkConfig (Fleets.truckConfig.inherit Fleets.fleetConfig) = .ok () ∧
      ∃ r, Fleets.context.schema.record? "Truck" = some r ∧
        r.checkConfig (Fleets.truckConfig.inherit Fleets.fleetConfig) = .ok () := by
  obtain ⟨-, -, -, -, -, overlay, inherit, nested⟩ := Config.merging_lawful
  have isNested : Gives (nestedConfig Fleets.context "Truck") { config := Fleets.fleetConfig }
      (Fleets.truckConfig.inherit Fleets.fleetConfig) { config := Fleets.fleetConfig } :=
    gives_nestedConfig_iff.2 ⟨Fleets.truck, rfl, rfl, rfl⟩
  exact ⟨overlay Fleets.truck _ _ rfl rfl, inherit Fleets.truck Fleets.fleet _ _ rfl rfl,
    nested _ _ _ Fleets.fleet _ _ _ _ Fleets.declared rfl isNested⟩

end RecordCodec
