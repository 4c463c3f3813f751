import RecordCodec.Codec
import RecordCodec.Proofs.Fuel
import RecordCodec.Proofs.Linking
import RecordCodec.Proofs.Origins
import RecordCodec.Proofs.Results

set_option autoImplicit false

/-!
# Routines of codecs

A codec takes a routine from its cache or compiles it. Either way the routine serves the record
under the configuration that the caller's settings and those of the record make.
-/
namespace RecordCodec.Codec

open Routine Compile

variable {c : Codec} {record : String} {overrides : Config}

theorem decoders_serving (history : c.cache.History c.schema c.registry)
    (apart : c.cache.decoders = [] ∨ c.schema.Unnumbered) :
    Cache.Serving c.schema c.registry .decoding c.cache.decoders := by
  rcases apart with none | unnumbered
  · rw [none]
    exact fun e mem => absurd mem List.not_mem_nil
  · exact (history.serving unnumbered).1

theorem encoders_serving (history : c.cache.History c.schema c.registry)
    (apart : c.cache.encoders = [] ∨ c.schema.Unnumbered) :
    Cache.Serving c.schema c.registry .encoding c.cache.encoders := by
  rcases apart with none | unnumbered
  · rw [none]
    exact fun e mem => absurd mem List.not_mem_nil
  · exact (history.serving unnumbered).2

theorem exists_of_decoder_returns {r : Decoder} (h : (c.decoder record overrides).1.Returns r) :
    ∃ config, c.resolvedConfig record overrides = .ok config ∧
      (c.cache.decoder? record config = some r ∨
        (c.cache.compileDecoder c.schema c.registry c.cache.epoch record config).1.Returns r) := by
  unfold decoder at h
  split at h
  case h_1 => simp at h
  case h_2 config resolved =>
    refine ⟨config, resolved, ?_⟩
    split at h
    case h_1 found => exact .inl (Run.Returns.pure_iff.1 h ▸ found)
    case h_2 => exact .inr h

theorem exists_of_encoder_returns {r : Encoder} (h : (c.encoder record overrides).1.Returns r) :
    ∃ config, c.resolvedConfig record overrides = .ok config ∧
      (c.cache.encoder? record config = some r ∨
        (c.cache.compileEncoder c.schema c.registry c.cache.epoch record config).1.Returns r) := by
  unfold encoder at h
  split at h
  case h_1 => simp at h
  case h_2 config resolved =>
    refine ⟨config, resolved, ?_⟩
    split at h
    case h_1 found => exact .inl (Run.Returns.pure_iff.1 h ▸ found)
    case h_2 => exact .inr h

theorem decoder_serves_of_serving
    (held : Cache.Serving c.schema c.registry .decoding c.cache.decoders)
    (apart : c.cache.decoders = [] ∨ c.schema.Unnumbered) {r : Decoder}
    (h : (c.decoder record overrides).1.Returns r) :
    ∃ config, c.resolvedConfig record overrides = .ok config ∧
      Serves c.schema c.registry .decoding r record config := by
  obtain ⟨config, resolved, found | compiled⟩ := exists_of_decoder_returns h
  · exact ⟨config, resolved, held _ (Assoc.mem_of_get? found)⟩
  · exact ⟨config, resolved, (Cache.compileDecoder_serves held apart _ _ _).1 r compiled⟩

theorem encoder_serves_of_serving
    (held : Cache.Serving c.schema c.registry .encoding c.cache.encoders)
    (apart : c.cache.encoders = [] ∨ c.schema.Unnumbered) {r : Encoder}
    (h : (c.encoder record overrides).1.Returns r) :
    ∃ config, c.resolvedConfig record overrides = .ok config ∧
      Serves c.schema c.registry .encoding r record config := by
  obtain ⟨config, resolved, found | compiled⟩ := exists_of_encoder_returns h
  · exact ⟨config, resolved, held _ (Assoc.mem_of_get? found)⟩
  · exact ⟨config, resolved, (Cache.compileEncoder_serves held apart _ _ _).1 r compiled⟩

theorem decoder_serves (history : c.cache.History c.schema c.registry)
    (apart : c.cache.decoders = [] ∨ c.schema.Unnumbered) {r : Decoder}
    (h : (c.decoder record overrides).1.Returns r) :
    ∃ config, c.resolvedConfig record overrides = .ok config ∧
      Serves c.schema c.registry .decoding r record config :=
  decoder_serves_of_serving (decoders_serving history apart) apart h

theorem encoder_serves (history : c.cache.History c.schema c.registry)
    (apart : c.cache.encoders = [] ∨ c.schema.Unnumbered) {r : Encoder}
    (h : (c.encoder record overrides).1.Returns r) :
    ∃ config, c.resolvedConfig record overrides = .ok config ∧
      Serves c.schema c.registry .encoding r record config :=
  encoder_serves_of_serving (encoders_serving history apart) apart h

/-- The decoder that a codec takes for a record was made of this record, in any schema. -/
theorem decoder_traced (history : c.cache.History c.schema c.registry) {r : Decoder}
    (h : (c.decoder record overrides).1.Returns r) :
    ∃ config, c.resolvedConfig record overrides = .ok config ∧
      TracedTo c.schema c.registry .decoding ⟨record, config, .decode⟩ r := by
  obtain ⟨config, resolved, found | compiled⟩ := exists_of_decoder_returns h
  · exact ⟨config, resolved, history.tracing.1 _ (Assoc.mem_of_get? found)⟩
  · exact ⟨config, resolved, (Cache.compileDecoder_traced history.tracing.1 _ _ _).1 r compiled⟩

theorem encoder_traced (history : c.cache.History c.schema c.registry) {r : Encoder}
    (h : (c.encoder record overrides).1.Returns r) :
    ∃ config, c.resolvedConfig record overrides = .ok config ∧
      TracedTo c.schema c.registry .encoding ⟨record, config, .encode⟩ r := by
  obtain ⟨config, resolved, found | compiled⟩ := exists_of_encoder_returns h
  · exact ⟨config, resolved, history.tracing.2 _ (Assoc.mem_of_get? found)⟩
  · exact ⟨config, resolved, (Cache.compileEncoder_traced history.tracing.2 _ _ _).1 r compiled⟩

theorem decoder_snd (record : String) (overrides : Config)
    (history : c.cache.History c.schema c.registry) :
    ∃ cache, (c.decoder record overrides).2 = { c with cache } ∧
      cache.History c.schema c.registry ∧ cache.encoders = c.cache.encoders := by
  unfold decoder
  split
  case h_1 => exact ⟨c.cache, rfl, history, rfl⟩
  case h_2 =>
    split
    case h_1 => exact ⟨c.cache, rfl, history, rfl⟩
    case h_2 => exact ⟨_, rfl, .decoder _ _ _ history, Cache.encoders_compileDecoder _ _ _ _⟩

theorem decode_of_decoder {d : Decoder} (compiled : (c.decoder record overrides).1.Returns d)
    (input : Json) : (c.decode record input overrides).1 = Decoder.call d input := by
  have decodes : (c.decode record input overrides).1 =
      (c.decoder record overrides).1 >>= fun d => Decoder.call d input := rfl
  rw [decodes, compiled.eq_pure, pure_bind]

theorem encode_of_encoder {e : Encoder}
    (compiled : (c.encoder record overrides).1.Returns e) (given : Instance) :
    (c.encode record given overrides).1 = Encoder.call e given := by
  have encodes : (c.encode record given overrides).1 =
      (c.encoder record overrides).1 >>= fun e => Encoder.call e given := rfl
  rw [encodes, compiled.eq_pure, pure_bind]

end RecordCodec.Codec
