import RecordCodec.Proofs.Places

set_option autoImplicit false

/-!
# One place for both directions

Without configured aliases a field has one place for the decoder and one for the encoder. They are
the same as long as both directions spell names alike, except for a field with an alias: the decoder
looks for its alias in any case, while the encoder writes the alias only if the configuration says
so.
-/
namespace RecordCodec.Compile

open Routine

def Target.location : Target → Location
  | .key k => .key k
  | .path keys => .path keys

/-- The encoder writes the field under its name, and the decoder looks for another key, the alias
of the field. -/
def isWrittenAside (config : Config) (field : Field) : Bool :=
  field.path.isNone && !config.encodesByAlias &&
    field.aliasKey.any (· != config.encodesWith.apply field.name)

theorem Target.fetch_write (v : Json) {target : Target} (ne : target ≠ .path []) :
    target.location.fetch (.object (target.write v [])) = some v := by
  cases target with
  | key k => simp [location, Location.fetch, write, Json.get?]
  | path keys =>
    have notEmpty : keys ≠ [] := fun isEmpty => ne (isEmpty ▸ rfl)
    exact fetchPath_writePath v notEmpty []

theorem Target.ofField_of_noAliases {config : Config} {field : Field}
    (noPath : field.path = none) (none : config.encodeAliases = .empty) :
    ofField config field = .key (if config.encodesByAlias then
      field.aliasKey.getD (config.encodesWith.apply field.name)
      else config.encodesWith.apply field.name) := by
  have noKey : config.encodeAliases.get? field.name = Option.none := by rw [none]; rfl
  cases isAlias : field.aliasKey <;> cases byAlias : config.encodesByAlias <;>
    simp [ofField, noPath, noKey, isAlias, byAlias]

namespace Locator

theorem keysOf_of_noAliases {config : Config} (none : config.decodeAliases = .empty)
    (field : Field) :
    keysOf config field = [field.aliasKey.getD (config.decodesWith.apply field.name)] := by
  have noKeys : config.decodeAliases.get? field.name = Option.none := by rw [none]; rfl
  cases isAlias : field.aliasKey <;> simp [keysOf, declaredKeys, noKeys, isAlias]

theorem isSome_fetchPath_writePath (v : Json) (path : List String)
    (members : List (String × Json)) :
    (fetchPath path (.object (Target.writePath v path members))).isSome = true := by
  cases path with
  | nil => rfl
  | cons first rest => rw [Target.fetchPath_writePath v (List.cons_ne_nil _ _)]; rfl

variable {config : Config} {field : Field} {index : Option Nat}

theorem locate_of_path {path : List String} (isPath : field.path = some path) (v : Json) :
    (ofField config index field).locate (.object (Target.writePath v path [])) =
      some (.path path) := by
  simp only [locate, ofField, isPath, isSome_fetchPath_writePath, if_true]

theorem locate_single (noPath : field.path = none) (cased : config.decodesWith ≠ .caseInsensitive)
    {key other : String} (only : keysOf config field = [key]) (v : Json) :
    (ofField config index field).locate (.object [(other, v)]) =
      if key = other then some (.key other) else none := by
  have noCase : (config.decodesWith == Casing.caseInsensitive) = false := by simpa using cased
  simp only [locate, ofField, noPath, keyAmong?, only, noCase, Json.keys, Assoc.keys]
  by_cases same : key = other
  · simp [same]
  · simp [same]

end Locator

/-- Where both directions spell names alike and no aliases are configured, the decoder finds a field
in the object that holds nothing else just where the encoder writes it, and finds the value there,
unless the field is written aside: then it is not found. -/
theorem Locator.locate_write {config : Config} (noKeys : config.decodeAliases = .empty)
    (noKey : config.encodeAliases = .empty) (alike : config.decodesWith = config.encodesWith)
    (cased : config.decodesWith ≠ .caseInsensitive) (index : Option Nat) (field : Field)
    (v : Json) :
    let target := Target.ofField config field
    (ofField config index field).locate (.object (target.write v [])) =
        (if isWrittenAside config field then none else some target.location) ∧
      (field.path ≠ some [] → target.location.fetch (.object (target.write v [])) = some v) := by
  simp only
  cases isPath : field.path with
  | some path =>
    have target : Target.ofField config field = .path path := by simp [Target.ofField, isPath]
    have notAside : isWrittenAside config field = false := by simp [isWrittenAside, isPath]
    rw [target, notAside]
    refine ⟨locate_of_path isPath v, fun ne => Target.fetch_write v fun isEmpty => ne ?_⟩
    rw [Target.path.inj isEmpty]
  | none =>
    rw [Target.ofField_of_noAliases isPath noKey]
    refine ⟨?_, fun _ => Target.fetch_write v (by simp)⟩
    -- Both directions use the alias or the name, and the two differ just if the alias is not used.
    simp only [Target.write, Assoc.insert, Target.location, isWrittenAside, isPath,
      locate_single isPath cased (keysOf_of_noAliases noKeys field), alike]
    cases field.aliasKey with
    | none => simp
    | some key =>
      cases config.encodesByAlias with
      | true => simp
      | false => by_cases same : key = config.encodesWith.apply field.name <;> simp [same]

def loginField : Field := { name := "user_name", type := .primitive .str, aliasKey := some "login" }

/-- Encodes under aliases, and spells names in camel case in both directions. -/
def aliasing : Config where
  decodeCasing := some .camel
  encodeCasing := some .camel
  encodeByAlias := some true

theorem Locator.locate_write_loginField :
    aliasing.decodeAliases = .empty ∧ aliasing.encodeAliases = .empty ∧
      aliasing.decodesWith = aliasing.encodesWith ∧ aliasing.decodesWith ≠ .caseInsensitive ∧
      (ofField aliasing none loginField).locate
          (.object ((Target.ofField aliasing loginField).write (.string "ada") [])) =
        some (.key "login") := by
  have cased : aliasing.decodesWith ≠ .caseInsensitive := by decide
  exact ⟨rfl, rfl, rfl, cased, (locate_write rfl rfl rfl cased none loginField (.string "ada")).1⟩

/-- Under the default configuration the field is written under its name, and its alias is looked
for. -/
theorem Locator.not_locate_write_loginField :
    ({} : Config).decodeAliases = .empty ∧ ({} : Config).encodeAliases = .empty ∧
      ({} : Config).decodesWith = ({} : Config).encodesWith ∧
      ({} : Config).decodesWith ≠ .caseInsensitive ∧ loginField.catchAll = false ∧
      (Target.ofField {} loginField).write (.string "ada") [] = [("user_name", .string "ada")] ∧
      (ofField {} none loginField).locate
          (.object ((Target.ofField {} loginField).write (.string "ada") [])) = none :=
  ⟨rfl, rfl, rfl, by decide, rfl, rfl, rfl⟩

end RecordCodec.Compile
