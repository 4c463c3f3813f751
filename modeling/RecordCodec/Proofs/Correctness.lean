import RecordCodec.Proofs.CallBound
import RecordCodec.Proofs.Results

set_option autoImplicit false

/-!
# Compilation is correct

A compiled decoder or encoder gives, on every input, just what the direct interpretation of its
record gives, whatever routines it was linked with.
-/
namespace RecordCodec

open Routine Compile

namespace Cache

variable {schema : Schema} {c : Cache} {epoch : Nat} {record : String} {config : Config}

/-- A decoder has the results of the direct interpretation, and no others. -/
theorem compileDecoder_correct (declarations : schema.Declared)
    (identifiers : schema.HasIdentifiers)
    (history : History schema .builtin c) {r : Decoder}
    (compiled : (c.compileDecoder schema .builtin epoch record config).1.run = some (.ok r))
    (v : Json) (result : Except Failure Instance) :
    (Decoder.call r v).run = some result ↔
      ∃ fuel, (Direct.decode schema .builtin fuel record config v).run = some result := by
  have unnumbered := identifiers.unnumbered
  obtain ⟨serves, -⟩ :=
    compileDecoder_serves (history.serving unnumbered).1 (.inr unnumbered) epoch record config
  exact (serves r compiled).call_decode_iff declarations v

end Cache

namespace Sample

/-- A list that ends in null, of which each cell holds a point. -/
def cell : RecordType where
  name := "Cell"
  fields :=
    [{ name := "point", type := .named "Point" },
      { name := "tags", type := .sequence (.primitive .str), default := some (.fresh (.seq [])) },
      { name := "next", type := .optional (.named "Cell"), default := some (.declared .null) }]

def point : RecordType where
  name := "Point"
  kind := .positional
  fields := [{ name := "x", type := .primitive .int }, { name := "y", type := .primitive .int }]

def schema : Schema where
  records := (Table.empty.insert "Point" point).insert "Cell" cell

theorem schema_declared : schema.Declared :=
  .record cell (.record point .empty rfl) rfl

theorem schema_hasIdentifiers : schema.HasIdentifiers := by
  intro name record found
  rw [Schema.record?, schema, Table.get?_insert, Table.get?_insert] at found
  split at found
  case isTrue eq =>
    subst eq
    rfl
  case isFalse =>
    split at found
    case isTrue eq =>
      subst eq
      rfl
    case isFalse => cases found

def cache : Cache := (({} : Cache).compileDecoder schema .builtin 0 "Point" {}).2

end Sample

/-- The decoder of cells takes the one of points from the cache. -/
theorem Cache.compileDecoder_correct_cell : ∃ r : Decoder,
    (Sample.cache.compileDecoder Sample.schema .builtin 0 "Cell" {}).1.run = some (.ok r) ∧
    ∀ v result, (Decoder.call r v).run = some result ↔
      ∃ fuel, (Direct.decode Sample.schema .builtin fuel "Cell" {} v).run = some result := by
  have compiles : (Sample.cache.compileDecoder Sample.schema .builtin 0 "Cell" {}).1.returnsWith
      (fun _ => true) = true := by decide +kernel
  obtain ⟨r, compiled, -⟩ := Run.exists_of_returnsWith compiles
  exact ⟨r, compiled, compileDecoder_correct Sample.schema_declared Sample.schema_hasIdentifiers
    (.decoder 0 "Point" {} (.empty 0 0)) compiled⟩

namespace Cache

variable {schema : Schema} {c : Cache} {epoch : Nat} {record : String} {config : Config}

/-- An encoder has the results of the direct interpretation, and no others. -/
theorem compileEncoder_correct (declarations : schema.Declared)
    (identifiers : schema.HasIdentifiers)
    (history : History schema .builtin c) {r : Encoder}
    (compiled : (c.compileEncoder schema .builtin epoch record config).1.run = some (.ok r))
    (v : Instance) (result : Except Failure Json) :
    (Encoder.call r v).run = some result ↔
      ∃ fuel, (Direct.encode schema .builtin fuel record config v).run = some result := by
  have unnumbered := identifiers.unnumbered
  obtain ⟨serves, -⟩ :=
    compileEncoder_serves (history.serving unnumbered).2 (.inr unnumbered) epoch record config
  exact (serves r compiled).call_encode_iff declarations v

end Cache

theorem Cache.compileEncoder_correct_cell : ∃ r : Encoder,
    (Sample.cache.compileEncoder Sample.schema .builtin 0 "Cell" {}).1.run = some (.ok r) ∧
    ∀ v result, (Encoder.call r v).run = some result ↔
      ∃ fuel, (Direct.encode Sample.schema .builtin fuel "Cell" {} v).run = some result := by
  have compiles : (Sample.cache.compileEncoder Sample.schema .builtin 0 "Cell" {}).1.returnsWith
      (fun _ => true) = true := by decide +kernel
  obtain ⟨r, compiled, -⟩ := Run.exists_of_returnsWith compiles
  exact ⟨r, compiled, compileEncoder_correct Sample.schema_declared Sample.schema_hasIdentifiers
    (.decoder 0 "Point" {} (.empty 0 0)) compiled⟩

end RecordCodec
