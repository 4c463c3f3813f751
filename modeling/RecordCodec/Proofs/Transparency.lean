import RecordCodec.Proofs.Caches
import RecordCodec.Proofs.Codecs
import RecordCodec.Proofs.Correctness

set_option autoImplicit false

/-!
# The cache cannot be told from outside

Whatever a codec was used for before, the next operation comes out as it does on a codec that has
compiled nothing yet. Two codecs with the same schema and the same handlers differ in their caches
only, and every routine in either cache is one that both could have compiled.
-/
namespace RecordCodec

open Routine Compile

namespace Routine.Run

variable {α β : Type} {r r' : Run α}

/-- Nothing comes of either run, or the same error, or results that are alike. -/
inductive Agree (alike : α → α → Prop) : Run α → Run α → Prop where
  | unfinished : Agree alike (ExceptT.mk none) (ExceptT.mk none)
  | error (e : Failure) : Agree alike (throw e) (throw e)
  | result {a b : α} : alike a b → Agree alike (pure a) (pure b)

namespace Agree

variable {alike : α → α → Prop}

theorem of_discard (same : (do let _ ← r; pure () : Run Unit) = (do let _ ← r'; pure ()))
    (results : ∀ a b, r.Returns a → r'.Returns b → alike a b) : Agree alike r r' := by
  have same : r.run.map (Except.map fun _ => ()) = r'.run.map (Except.map fun _ => ()) := by
    rw [← discard_run, ← discard_run, same]
  have ends : ∀ (x : Run α) result, x.run = result → x = ExceptT.mk result := fun _ _ h => h
  cases ran : r.run with
  | none =>
    cases ran' : r'.run with
    | none =>
      rw [ends r _ ran, ends r' _ ran']
      exact .unfinished
    | some result' => simp [ran, ran'] at same
  | some result =>
    cases ran' : r'.run with
    | none => simp [ran, ran'] at same
    | some result' =>
      rw [ran, ran'] at same
      rw [ends r _ ran, ends r' _ ran']
      cases result with
      | error e =>
        cases result' with
        | error e' =>
          cases same
          exact .error e
        | ok b => cases same
      | ok a =>
        cases result' with
        | error e' => cases same
        | ok b => exact .result (results a b ran ran')

theorem bind_eq (h : Agree alike r r') {next : α → Run β}
    (same : ∀ a b, alike a b → next a = next b) : r >>= next = r' >>= next := by
  cases h with
  | unfinished => rfl
  | error e => rfl
  | result isAlike => rw [pure_bind, pure_bind, same _ _ isAlike]

theorem exists_of_returns (h : Agree alike r r') {a : α} (returns : r.Returns a) :
    ∃ b, r'.Returns b ∧ alike a b := by
  cases h with
  | unfinished => cases returns
  | error e => cases returns
  | result isAlike =>
    obtain rfl := Returns.pure_iff.1 returns
    exact ⟨_, Returns.pure_iff.2 rfl, isAlike⟩

end Agree
end Routine.Run

namespace Codec

structure Consistent (c : Codec) : Prop where
  declared : c.schema.Declared
  unnumbered : c.schema.Unnumbered
  decoders : Cache.Holds c.schema c.registry .decoding c.cache.decoders
  encoders : Cache.Holds c.schema c.registry .encoding c.cache.encoders

structure Twins (c c' : Codec) : Prop where
  schema : c'.schema = c.schema
  registry : c'.registry = c.registry
  first : c.Consistent
  second : c'.Consistent

variable {c c' : Codec} {record : String} {overrides : Config}

theorem Consistent.start {schema : Schema} (declared : schema.Declared)
    (unnumbered : schema.Unnumbered) (registry : Registry) : Consistent { schema, registry } :=
  ⟨declared, unnumbered, .nil, .nil⟩

/-- Nothing in the cache was compiled with other handlers. -/
theorem Consistent.register (h : c.Consistent) (key : HandlerKey) (handler : Handler) :
    (c.register key handler).Consistent :=
  ⟨h.declared, h.unnumbered, .nil, .nil⟩

def verdict {I O : Type} (mode : Mode I O) (record : String) (overrides : Config) (c : Codec) :
    Run Unit := do
  let config ← Run.ofExcept (c.resolvedConfig record overrides)
  (Cache.context c.schema c.registry mode []).verdict (record, config)

theorem Twins.verdict {I O : Type} (h : c.Twins c') (mode : Mode I O) (record : String)
    (overrides : Config) : c'.verdict mode record overrides = c.verdict mode record overrides := by
  simp only [Codec.verdict, resolvedConfig, h.schema, h.registry]

theorem Twins.symm (h : c.Twins c') : c'.Twins c :=
  ⟨h.schema.symm, h.registry.symm, h.second, h.first⟩

theorem Twins.trans {c'' : Codec} (h : c.Twins c') (h' : c'.Twins c'') : c.Twins c'' :=
  ⟨h'.schema.trans h.schema, h'.registry.trans h.registry, h.first, h'.second⟩

theorem verdict_of_holds {I O : Type} {mode : Mode I O} {held : List (RoutineKey × Linked I O)}
    (lawful : mode.Lawful) (holds : Cache.Holds c.schema c.registry mode held) {config : Config}
    {direction : Direction} {r : Linked I O}
    (found : Assoc.get? ⟨record, config, direction⟩ held = some r) :
    (Cache.context c.schema c.registry mode []).verdict (record, config) = pure () :=
  Good.verdict lawful.own (holds.good _ (Assoc.mem_of_get? found))

namespace Consistent

variable (h : c.Consistent) (record : String) (overrides : Config)
include h

theorem refl : c.Twins c := ⟨rfl, rfl, h, h⟩

theorem decoder_outcome :
    (do let _ ← (c.decoder record overrides).1; pure ()) =
      c.verdict .decoding record overrides := by
  unfold decoder verdict
  cases c.resolvedConfig record overrides with
  | error e => rfl
  | ok config =>
    simp only [Run.ofExcept_ok, pure_bind]
    cases found : c.cache.decoder? record config with
    | some r => exact (verdict_of_holds Mode.lawful_decoding h.decoders found).symm
    | none => exact Cache.compileDecoder_outcome h.decoders h.unnumbered _ record config

theorem encoder_outcome :
    (do let _ ← (c.encoder record overrides).1; pure ()) =
      c.verdict .encoding record overrides := by
  unfold encoder verdict
  cases c.resolvedConfig record overrides with
  | error e => rfl
  | ok config =>
    simp only [Run.ofExcept_ok, pure_bind]
    cases found : c.cache.encoder? record config with
    | some r => exact (verdict_of_holds Mode.lawful_encoding h.encoders found).symm
    | none => exact Cache.compileEncoder_outcome h.encoders h.unnumbered _ record config

theorem decoder_twins : c.Twins (c.decoder record overrides).2 := by
  unfold decoder
  split
  case h_1 => exact h.refl
  case h_2 config _ =>
    split
    case h_1 => exact h.refl
    case h_2 =>
      refine ⟨rfl, rfl, h, h.declared, h.unnumbered,
        Cache.compileDecoder_holds h.decoders h.unnumbered _ record config, ?_⟩
      simp only [Cache.encoders_compileDecoder]
      exact h.encoders

theorem encoder_twins : c.Twins (c.encoder record overrides).2 := by
  unfold encoder
  split
  case h_1 => exact h.refl
  case h_2 config _ =>
    split
    case h_1 => exact h.refl
    case h_2 =>
      refine ⟨rfl, rfl, h, h.declared, h.unnumbered, ?_,
        Cache.compileEncoder_holds h.encoders h.unnumbered _ record config⟩
      simp only [Cache.decoders_compileEncoder]
      exact h.decoders

omit overrides

theorem checkRecord_twins : c.Twins (c.checkRecord record).2 := by
  have decoders := h.decoder_twins record {}
  unfold checkRecord
  generalize c.decoder record {} = first at decoders
  obtain ⟨r, c₁⟩ := first
  dsimp only at decoders ⊢
  split
  case h_1 => exact decoders.trans (decoders.second.encoder_twins record {})
  case h_2 => exact decoders
  case h_3 => exact decoders

omit record

theorem checkAll_twins (records : List String) : c.Twins (checkAll records c).2 := by
  induction records generalizing c with
  | nil => exact h.refl
  | cons record rest ih =>
    have first := h.checkRecord_twins record
    exact first.trans (ih first.second)

end Consistent

namespace Twins

variable (h : c.Twins c') (record : String) (overrides : Config)
include h

theorem decoders : (c.decoder record overrides).2.Twins (c'.decoder record overrides).2 :=
  (h.first.decoder_twins record overrides).symm.trans
    (h.trans (h.second.decoder_twins record overrides))

theorem decoder_agree : Run.Agree (fun d d' => ∀ v, Decoder.call d v = Decoder.call d' v)
    (c.decoder record overrides).1 (c'.decoder record overrides).1 := by
  refine .of_discard ?_ fun d d' returns returns' v => ?_
  · rw [h.first.decoder_outcome, h.second.decoder_outcome, h.verdict]
  · obtain ⟨config, resolved, serves⟩ :=
      decoder_serves_of_serving h.first.decoders.serving (.inr h.first.unnumbered) returns
    obtain ⟨config', resolved', serves'⟩ :=
      decoder_serves_of_serving h.second.decoders.serving (.inr h.second.unnumbered) returns'
    simp only [resolvedConfig, h.schema] at resolved resolved'
    cases resolved.symm.trans resolved'
    rw [h.schema, h.registry] at serves'
    exact serves.call_eq (Mode.decodingLocality h.first.declared c.registry) serves' v

theorem encoder_agree : Run.Agree (fun e e' => ∀ v, Encoder.call e v = Encoder.call e' v)
    (c.encoder record overrides).1 (c'.encoder record overrides).1 := by
  refine .of_discard ?_ fun e e' returns returns' v => ?_
  · rw [h.first.encoder_outcome, h.second.encoder_outcome, h.verdict]
  · obtain ⟨config, resolved, serves⟩ :=
      encoder_serves_of_serving h.first.encoders.serving (.inr h.first.unnumbered) returns
    obtain ⟨config', resolved', serves'⟩ :=
      encoder_serves_of_serving h.second.encoders.serving (.inr h.second.unnumbered) returns'
    simp only [resolvedConfig, h.schema] at resolved resolved'
    cases resolved.symm.trans resolved'
    rw [h.schema, h.registry] at serves'
    exact serves.call_eq (Mode.encodingLocality h.first.declared c.registry) serves' v

theorem decode (v : Json) : (c.decode record v overrides).1 = (c'.decode record v overrides).1 :=
  (h.decoder_agree record overrides).bind_eq fun _ _ same => same v

theorem encode (v : Instance) :
    (c.encode record v overrides).1 = (c'.encode record v overrides).1 :=
  (h.encoder_agree record overrides).bind_eq fun _ _ same => same v

omit overrides

theorem checkRecord : (c.checkRecord record).1 = (c'.checkRecord record).1 := by
  have agree := h.decoder_agree record {}
  have next := h.decoders record {}
  unfold Codec.checkRecord
  generalize c.decoder record {} = first at agree next
  generalize c'.decoder record {} = second at agree next
  obtain ⟨r, c₁⟩ := first
  obtain ⟨r', c₁'⟩ := second
  dsimp only at agree next ⊢
  cases agree with
  | unfinished => rfl
  | error e => rfl
  | result _ => exact (next.encoder_agree record {}).bind_eq fun _ _ _ => rfl

omit record

theorem checkAll (records : List String) :
    (Codec.checkAll records c).1 = (Codec.checkAll records c').1 := by
  induction records generalizing c c' with
  | nil => rfl
  | cons record rest ih =>
    have next := (h.first.checkRecord_twins record).symm.trans
      (h.trans (h.second.checkRecord_twins record))
    rw [Codec.checkAll, Codec.checkAll]
    exact congrArg₂ (fun result others => (record, result) :: others) (h.checkRecord record)
      (ih next)

theorem check : c.check.1 = c'.check.1 := by
  rw [Codec.check, Codec.check, h.schema]
  exact h.checkAll _

end Twins
end Codec

/-- What a caller can do with a codec. -/
inductive Operation where
  | decoder (record : String) (overrides : Config)
  | encoder (record : String) (overrides : Config)
  | decode (record : String) (v : Json) (overrides : Config)
  | encode (record : String) (v : Instance) (overrides : Config)
  | decodeFlat (record : String) (entries : List (String × String)) (overrides : Config)
  | check
  | register (key : HandlerKey) (handler : Handler)

inductive Answer where
  | decoder (r : Run Decoder)
  | encoder (r : Run Encoder)
  | decoded (r : Run Instance)
  | encoded (r : Run Json)
  | checked (results : List (String × Run Unit))
  | registered

/-- The answers are the same to a caller, who tells routines apart by their results only. -/
inductive Answer.Same : Answer → Answer → Prop where
  | decoder {r r' : Run Decoder} :
    Run.Agree (fun d d' => ∀ v, Decoder.call d v = Decoder.call d' v) r r' →
    Same (.decoder r) (.decoder r')
  | encoder {r r' : Run Encoder} :
    Run.Agree (fun e e' => ∀ v, Encoder.call e v = Encoder.call e' v) r r' →
    Same (.encoder r) (.encoder r')
  | decoded (r : Run Instance) : Same (.decoded r) (.decoded r)
  | encoded (r : Run Json) : Same (.encoded r) (.encoded r)
  | checked (results : List (String × Run Unit)) : Same (.checked results) (.checked results)
  | registered : Same .registered .registered

theorem Answer.Same.agree {r r' : Run Decoder} (h : Answer.Same (.decoder r) (.decoder r')) :
    Run.Agree (fun d d' => ∀ v, Decoder.call d v = Decoder.call d' v) r r' := by
  cases h with
  | decoder agree => exact agree

namespace Operation

def run : Operation → Codec → Answer × Codec
  | decoder record overrides, c =>
    let (r, c) := c.decoder record overrides
    (.decoder r, c)
  | encoder record overrides, c =>
    let (r, c) := c.encoder record overrides
    (.encoder r, c)
  | decode record v overrides, c =>
    let (r, c) := c.decode record v overrides
    (.decoded r, c)
  | encode record v overrides, c =>
    let (r, c) := c.encode record v overrides
    (.encoded r, c)
  | decodeFlat record entries overrides, c =>
    let (r, c) := c.decodeFlat record entries overrides
    (.decoded r, c)
  | check, c =>
    let (results, c) := c.check
    (.checked results, c)
  | register key handler, c => (.registered, c.register key handler)

theorem run_decoder (record : String) (overrides : Config) (c : Codec) :
    ((decoder record overrides).run c).1 = .decoder (c.decoder record overrides).1 := rfl

def runAll : List Operation → Codec → Codec
  | [], c => c
  | op :: rest, c => runAll rest (op.run c).2

theorem run_consistent {c : Codec} (h : c.Consistent) (op : Operation) :
    (op.run c).2.Consistent ∧ (op.run c).2.schema = c.schema := by
  have twins : ∀ {c'}, c.Twins c' → c'.Consistent ∧ c'.schema = c.schema :=
    fun twins => ⟨twins.second, twins.schema⟩
  cases op with
  | decoder record overrides => exact twins (h.decoder_twins record overrides)
  | encoder record overrides => exact twins (h.encoder_twins record overrides)
  | decode record _ overrides => exact twins (h.decoder_twins record overrides)
  | encode record _ overrides => exact twins (h.encoder_twins record overrides)
  | decodeFlat record _ overrides => exact twins (h.decoder_twins record overrides)
  | check => exact twins (h.checkAll_twins _)
  | register key handler => exact ⟨h.register key handler, rfl⟩

theorem runAll_consistent {c : Codec} (h : c.Consistent) (ops : List Operation) :
    (runAll ops c).Consistent ∧ (runAll ops c).schema = c.schema := by
  induction ops generalizing c with
  | nil => exact ⟨h, rfl⟩
  | cons op rest ih =>
    obtain ⟨next, schema⟩ := run_consistent h op
    obtain ⟨last, same⟩ := ih next
    exact ⟨last, same.trans schema⟩

/-- Codecs that differ in their caches only give the same answers. -/
theorem run_same {c c' : Codec} (h : c.Twins c') (op : Operation) :
    (op.run c).1.Same (op.run c').1 := by
  cases op with
  | decoder record overrides => exact .decoder (h.decoder_agree record overrides)
  | encoder record overrides => exact .encoder (h.encoder_agree record overrides)
  | decode record v overrides =>
    simp only [run, h.decode record overrides v]
    exact .decoded _
  | encode record v overrides =>
    simp only [run, h.encode record overrides v]
    exact .encoded _
  | decodeFlat record entries overrides =>
    simp only [run, Codec.decodeFlat, h.decode record overrides]
    exact .decoded _
  | check =>
    simp only [run, h.check]
    exact .checked _
  | register key handler => exact .registered

/-- Whatever was done before, the next operation is answered as by a codec with the same schema and
the handlers of now that has compiled nothing yet. -/
theorem same_as_fresh {schema : Schema} (declarations : schema.Declared)
    (identifiers : schema.HasIdentifiers) (registry : Registry) (before : List Operation)
    (op : Operation) :
    (op.run (runAll before { schema, registry })).1.Same
      (op.run { schema, registry := (runAll before { schema, registry }).registry }).1 := by
  have start := Codec.Consistent.start declarations identifiers.unnumbered registry
  obtain ⟨consistent, same⟩ := runAll_consistent start before
  have twins : (runAll before { schema, registry }).Twins
      { schema, registry := (runAll before { schema, registry }).registry } :=
    ⟨same.symm, rfl, consistent, .start declarations identifiers.unnumbered _⟩
  exact run_same twins op

end Operation

/-- All records were checked, integers got another handler, and points were compiled again. -/
def Sample.operations : List Operation :=
  [.check, .register (.type "int") (.scalar .float), .decoder "Point" {}]

theorem Operation.same_as_fresh_cell : ∃ d d' : Decoder,
    ((Operation.runAll Sample.operations { schema := Sample.schema }).decoder "Cell" {}).1.Returns
      d ∧
    (Codec.decoder "Cell" {} { schema := Sample.schema, registry :=
      (Operation.runAll Sample.operations { schema := Sample.schema }).registry }).1.Returns d' ∧
    ∀ v, Decoder.call d v = Decoder.call d' v := by
  have compiles : ((Operation.runAll Sample.operations { schema := Sample.schema }).decoder
      "Cell" {}).1.returnsWith (fun _ => true) = true := by decide +kernel
  obtain ⟨d, returns, -⟩ := Run.exists_of_returnsWith compiles
  have same := same_as_fresh Sample.schema_declared Sample.schema_hasIdentifiers .builtin
    Sample.operations (.decoder "Cell" {})
  simp only [run_decoder] at same
  obtain ⟨d', returns', sameCalls⟩ := same.agree.exists_of_returns returns
  exact ⟨d, d', returns, returns', sameCalls⟩

end RecordCodec
