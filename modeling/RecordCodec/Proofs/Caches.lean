import RecordCodec.Proofs.Outcomes

set_option autoImplicit false

/-!
# What caches hold

Every routine in a cache serves the record and the configuration that it is kept for, and these can
be compiled. So a session ends in the same way whatever there is in the cache.
-/
namespace RecordCodec.Cache

open Routine Compile

section
variable {I O : Type} {schema : Schema} {registry : Registry} {mode : Mode I O}
  {held routines : List (RoutineKey × Linked I O)}

structure Holds (schema : Schema) (registry : Registry) (mode : Mode I O)
    (held : List (RoutineKey × Linked I O)) : Prop where
  serving : Serving schema registry mode held
  good : ∀ e ∈ held, Good (context schema registry mode []) [] (e.1.record, e.1.config)

namespace Holds

theorem nil : Holds schema registry mode [] :=
  ⟨fun _ mem => absurd mem List.not_mem_nil, fun _ mem => absurd mem List.not_mem_nil⟩

theorem insertAll (new : Holds schema registry mode routines)
    (old : Holds schema registry mode held) :
    Holds schema registry mode (insertAll routines held) :=
  ⟨new.serving.insertAll old.serving, fun e mem =>
    (mem_insertAll mem).elim (new.good e) (old.good e)⟩

theorem regular (h : Holds schema registry mode held) (lawful : mode.Lawful)
    (unnumbered : schema.Unnumbered) : (context schema registry mode held).Regular where
  lawful := lawful
  unnumbered := unnumbered
  valid := h.serving.valid
  good _ _ _ present := h.good _ (Assoc.mem_of_get? present)

theorem compile (h : Holds schema registry mode held) (lawful : mode.Lawful)
    (unnumbered : schema.Unnumbered) (stamp : Nat) (record : String) (config : Config) :
    (do let _ ← Compile.compile (context schema registry mode held) stamp record config; pure ()) =
        (context schema registry mode []).verdict (record, config) ∧
      ∀ compiled, (Compile.compile (context schema registry mode held) stamp record config).Returns
          compiled →
        Serves schema registry mode compiled.routine record config ∧
          Holds schema registry mode (Cache.insertAll compiled.all held) := by
  obtain ⟨outcome, good⟩ := compile_outcome (h.regular lawful unnumbered) stamp record config
  refine ⟨outcome, fun compiled returns => ?_⟩
  obtain ⟨serves, all⟩ :=
    compile_serves lawful.named h.serving.valid (apart_context (.inr unnumbered)) returns
  exact ⟨serves, .insertAll ⟨fun e mem => (all e mem).2, good compiled returns⟩ h⟩

end Holds
end

variable {schema : Schema} {registry : Registry} {c : Cache}

section
variable (held : Holds schema registry .decoding c.decoders) (unnumbered : schema.Unnumbered)
  (epoch : Nat) (record : String) (config : Config)
include held unnumbered

theorem compileDecoder_outcome :
    (do let _ ← (c.compileDecoder schema registry epoch record config).1; pure ()) =
      (context schema registry .decoding []).verdict (record, config) := by
  rw [compileDecoder_fst, bind_assoc]
  simp only [pure_bind]
  exact (held.compile Mode.lawful_decoding unnumbered c.stamp record config).1

theorem compileDecoder_holds : Holds schema registry .decoding
    (c.compileDecoder schema registry epoch record config).2.decoders := by
  rcases compileDecoder_decoders schema registry c epoch record config with same | ⟨_, ran, added⟩
  · exact same ▸ held
  · exact added ▸
      ((held.compile Mode.lawful_decoding unnumbered c.stamp record config).2 _ ran).2

end

section
variable (held : Holds schema registry .encoding c.encoders) (unnumbered : schema.Unnumbered)
  (epoch : Nat) (record : String) (config : Config)
include held unnumbered

theorem compileEncoder_outcome :
    (do let _ ← (c.compileEncoder schema registry epoch record config).1; pure ()) =
      (context schema registry .encoding []).verdict (record, config) := by
  rw [compileEncoder_fst, bind_assoc]
  simp only [pure_bind]
  exact (held.compile Mode.lawful_encoding unnumbered c.stamp record config).1

theorem compileEncoder_holds : Holds schema registry .encoding
    (c.compileEncoder schema registry epoch record config).2.encoders := by
  rcases compileEncoder_encoders schema registry c epoch record config with same | ⟨_, ran, added⟩
  · exact same ▸ held
  · exact added ▸
      ((held.compile Mode.lawful_encoding unnumbered c.stamp record config).2 _ ran).2

end

theorem History.holds (unnumbered : schema.Unnumbered) (h : History schema registry c) :
    Holds schema registry .decoding c.decoders ∧ Holds schema registry .encoding c.encoders := by
  induction h with
  | empty => exact ⟨.nil, .nil⟩
  | decoder epoch record config _ ih =>
    rw [encoders_compileDecoder]
    exact ⟨compileDecoder_holds ih.1 unnumbered epoch record config, ih.2⟩
  | encoder epoch record config _ ih =>
    rw [decoders_compileEncoder]
    exact ⟨ih.1, compileEncoder_holds ih.2 unnumbered epoch record config⟩

end RecordCodec.Cache
