import Mathlib.Algebra.Order.BigOperators.Group.List
import RecordCodec.Proofs.CodecRoundTrip
import RecordCodec.Proofs.Codecs
import RecordCodec.Proofs.Compositional
import RecordCodec.Proofs.Reach

set_option autoImplicit false

/-!
# Decoders that come to an end

What a decoder hands to the routines that it calls weighs less than its input, so the nesting of
calls is bounded by the input. A declared default is no part of the input: it is decoded whenever
its field is absent, and one that lacks the same field again is decoded without end. With defaults
that can be decoded, decoding comes to an end on every input.
-/
namespace RecordCodec

open Routine Run Compile Converter

namespace Routine.Run

variable {α β : Type}

theorem Below.ends {r r' : Run α} (h : Below r r') (ends : r.Ends) : r'.Ends := by
  obtain ⟨result, ran⟩ := ends
  exact ⟨result, h result ran⟩

namespace Ends

variable {r : Run α}

theorem of_mapError {f : Failure → Failure} (h : (r.mapError f).Ends) : r.Ends := by
  obtain ⟨result, ran⟩ := h
  obtain ⟨ending, ran, -⟩ := Option.map_eq_some_iff.1 ran
  exact ⟨ending, ran⟩

theorem of_bind {f : α → Run β} (h : (r >>= f).Ends) : r.Ends := by
  obtain ⟨result, ran⟩ := h
  rw [bind_run] at ran
  cases first : r.run with
  | none =>
    rw [first] at ran
    cases ran
  | some ending => exact ⟨ending, first⟩

theorem of_ofExcept_bind {x : Except Failure α} {a : α} {f : α → Run β} (isOk : x = .ok a)
    (h : (Run.ofExcept x >>= f).Ends) : (f a).Ends := by
  subst isOk
  exact h

end Ends

/-- Fails where a conversion does not end. -/
def endedBy (failure : Failure) (convert : α → Run β) (v : α) : Run β :=
  match (convert v).run with
  | some _ => convert v
  | none => throw failure

theorem endedBy_ends (failure : Failure) (convert : α → Run β) (v : α) :
    (endedBy failure convert v).Ends := by
  unfold endedBy
  split
  case h_1 result ran => exact ⟨result, ran⟩
  case h_2 => exact .throw _

theorem endedBy_below {failure : Failure} {convert : α → Run β} {v : α} (h : (convert v).Ends) :
    Below (endedBy failure convert v) (convert v) := by
  obtain ⟨result, ran⟩ := h
  unfold endedBy
  rw [ran]
  exact .refl _

end Routine.Run

namespace Json

/-- Neither an array nor an object. -/
def IsScalar : Json → Prop
  | array _ | object _ => False
  | _ => True

theorem hereditary_isScalar : Hereditary IsScalar where
  items := by
    intro v items scalar isItems w mem
    cases v with
    | array => cases scalar
    | string s =>
      cases isItems
      obtain ⟨item, -, rfl⟩ := List.mem_map.1 mem
      trivial
    | _ => cases isItems
  entries := by
    intro v entries scalar isEntries e mem
    refine ⟨trivial, ?_⟩
    cases v with
    | object => cases scalar
    | string s =>
      simp only [mapEntries] at isEntries
      split at isEntries
      case h_1 found all =>
        cases isEntries
        obtain ⟨item, -, isEntry⟩ := exists_of_mem_mapM all mem
        obtain ⟨_, -, rfl⟩ := Option.map_eq_some_iff.1 isEntry
        trivial
      case h_2 => cases isEntries
    | _ => cases isEntries

end Json

namespace Direct

variable {schema : Schema} {here : Position} {nested : Nested Json Instance}

theorem decodeType_endedBy (failure : Failure) (ty : TypeExpr) (v : Json) :
    (decodeType schema .builtin (fun name config => endedBy failure (nested name config)) here ty
      v).Ends :=
  decodeType_compositional compositional_ends (fun _ _ v => endedBy_ends _ _ v)
    (fun _ _ _ _ _ _ => .ofExcept _) ty v

theorem decodeType_ends {P : Json → Prop} (hereditary : Json.Hereditary P) (ty : TypeExpr)
    (ends : ∀ key, Leads schema .builtin here ty key → ∀ w, P w → (nested key.1 key.2 w).Ends)
    {v : Json} (holds : P v) :
    (decodeType schema .builtin nested here (schema.resolve ty) v).Ends :=
  (decodeType_below hereditary ty (fun key leads w holds => endedBy_below (ends key leads w holds))
    holds).ends (decodeType_endedBy (.of (.custom "")) _ v)

theorem decodeType_ends_of_mapping {ty : TypeExpr}
    (isMapping : ty.shape.kind = .mapping ∨ ty.shape.kind = .defaultMapping)
    {members : List (String × Json)}
    (ends : ∀ key, Leads schema .builtin here ty key → ∀ w : Json,
      w.weight < (Json.object members).weight → (nested key.1 key.2 w).Ends) :
    (decodeType schema .builtin nested here (schema.resolve ty) (.object members)).Ends :=
  (decodeType_below_of_mapping isMapping fun key leads w small =>
    endedBy_below (ends key leads w small)).ends (decodeType_endedBy (.of (.custom "")) _ _)

theorem decodeRecord_ends {record : RecordType} {config : Config} {input : Json}
    {convert : Field → Decode} (checked : record.Checked)
    (parts : ∀ f ∈ record.fields, ∀ raw : Json, raw.weight < input.weight → (convert f raw).Ends)
    (defaults : ∀ f ∈ record.fields, ∀ raw, f.default = some (.declared raw) →
      (convert f raw).Ends)
    (rest : ∀ f ∈ record.fields, f.catchAll = true → ∀ members,
      .object members = input ∨ (Json.object members).weight < input.weight →
      (convert f (.object members)).Ends) :
    (decodeRecord record config input convert).Ends := by
  have all : (decodeRecord record config input fun f =>
      endedBy (.of (.custom "")) (convert f)).Ends :=
    decodeRecord_compositional compositional_ends fun f v => endedBy_ends _ _ v
  refine (decodeRecord_below checked (fun f mem raw less => ?_) (fun f mem raw given => ?_)
    fun f mem last members le => ?_).ends all
  · exact endedBy_below (parts f mem raw less)
  · exact endedBy_below (defaults f mem raw given)
  · exact endedBy_below (rest f mem last members le)

def decodeDefault (schema : Schema) (fuel : Nat) (config : Config) (f : Field) : Decode :=
  decodeType schema .builtin (decode schema .builtin fuel) ⟨config, f.discriminator⟩
    (schema.resolve f.type)

/-- The declared defaults of the records that decoding may reach can be decoded. -/
def DefaultsEnd (schema : Schema) (start : String × Config) : Prop :=
  ∀ key record, Reach schema .builtin start key → schema.record? key.1 = some record →
    ∀ f ∈ record.fields, ∀ raw, f.default = some (.declared raw) →
      ∃ fuel, (decodeDefault schema fuel key.2 f raw).Ends

theorem decodeDefault_below (declarations : schema.Declared) {fuel fuel' : Nat} (le : fuel ≤ fuel')
    (config : Config) (f : Field) (v : Json) :
    Below (decodeDefault schema fuel config f v) (decodeDefault schema fuel' config f v) := by
  exact decodeType_below Json.hereditary_true f.type
    (fun key _ w _ => decode_below declarations le _ _ w) trivial

theorem decode_ends_of_isScalar {v : Json} (scalar : v.IsScalar) (name : String) (config : Config) :
    (decode schema .builtin 1 name config v).Ends := by
  cases found : schema.findRecord name with
  | error e =>
    rw [decode_of_undeclared found]
    exact .throw e
  | ok record =>
    have refused : ∃ e, Decoder.checkForm record v = .error e := by
      cases v with
      | array | object => cases scalar
      | _ => exact ⟨_, rfl⟩
    obtain ⟨e, refused⟩ := refused
    rw [decode_succ (findRecord_eq_ok.1 found), decodeRecord, refused]
    exact .throw e

/-- Defaults can be decoded that are scalars or stand at types without records. -/
theorem DefaultsEnd.of_isScalar {start : String × Config}
    (h : ∀ key record, Reach schema .builtin start key → schema.record? key.1 = some record →
      ∀ f ∈ record.fields, ∀ raw, f.default = some (.declared raw) →
        raw.IsScalar ∨ ∀ key', ¬ Leads schema .builtin ⟨key.2, f.discriminator⟩ f.type key') :
    DefaultsEnd schema start := by
  intro key record reached declared f mem raw given
  refine ⟨1, ?_⟩
  rcases h key record reached declared f mem raw given with scalar | none
  · exact decodeType_ends Json.hereditary_isScalar f.type
      (fun key' _ w scalar => decode_ends_of_isScalar scalar _ _) scalar
  · exact decodeType_ends Json.hereditary_true f.type
      (fun key' leads => absurd leads (none key')) trivial

theorem exists_forall_of_mono {α : Type} {p : α → Nat → Prop}
    (mono : ∀ a m n, m ≤ n → p a m → p a n) {as : List α} (h : ∀ a ∈ as, ∃ n, p a n) :
    ∃ n, ∀ a ∈ as, p a n := by
  choose! n holds using h
  refine ⟨(as.map n).sum, fun a mem => mono a _ _ ?_ (holds a mem)⟩
  exact List.le_sum_of_mem (List.mem_map_of_mem mem)

/-- There are finitely many defaults, so some fuel is enough for all of them. -/
theorem DefaultsEnd.exists_fuel (declarations : schema.Declared) {start : String × Config}
    (h : DefaultsEnd schema start) :
    ∃ fuel, ∀ key record, Reach schema .builtin start key → schema.record? key.1 = some record →
      ∀ f ∈ record.fields, ∀ raw, f.default = some (.declared raw) →
        (decodeDefault schema fuel key.2 f raw).Ends := by
  let fields := (sessionKeys schema start).flatMap fun key =>
    (schema.record? key.1).toList.flatMap fun record => record.fields.map fun f => (key, f)
  have mem_fields {key : String × Config} {record : RecordType} {f : Field}
      (reached : Reach schema .builtin start key) (declared : schema.record? key.1 = some record)
      (mem : f ∈ record.fields) : (key, f) ∈ fields := by
    refine List.mem_flatMap.2 ⟨key, reached.mem_sessionKeys declared, ?_⟩
    exact List.mem_flatMap.2 ⟨record, Option.mem_toList.2 declared, List.mem_map_of_mem mem⟩
  have bounded : ∃ fuel, ∀ e ∈ fields, Reach schema .builtin start e.1 → ∀ raw,
      e.2.default = some (.declared raw) → (decodeDefault schema fuel e.1.2 e.2 raw).Ends := by
    refine exists_forall_of_mono (fun e m n le ends reached raw given => ?_) ?_
    · exact (decodeDefault_below declarations le _ _ _).ends (ends reached raw given)
    rintro ⟨key, f⟩ mem
    obtain ⟨_, -, mem⟩ := List.mem_flatMap.1 mem
    obtain ⟨record, declared, mem⟩ := List.mem_flatMap.1 mem
    obtain ⟨_, isField, same⟩ := List.mem_map.1 mem
    cases same
    by_cases given : Reach schema .builtin start key ∧ ∃ raw, f.default = some (.declared raw)
    · obtain ⟨reached, raw, given⟩ := given
      obtain ⟨fuel, ends⟩ := h key record reached (Option.mem_toList.1 declared) f isField raw given
      refine ⟨fuel, fun _ raw' given' => ?_⟩
      cases given.symm.trans given'
      exact ends
    · exact ⟨0, fun reached raw isRaw => absurd ⟨reached, raw, isRaw⟩ given⟩
  obtain ⟨fuel, enough⟩ := bounded
  exact ⟨fuel, fun key record reached declared f mem =>
    enough (key, f) (mem_fields reached declared mem) reached⟩

/-- With enough fuel for all defaults, what decoding takes beyond that is bounded by the weight of
the value. -/
theorem decode_ends (declarations : schema.Declared) {start : String × Config} {fuel : Nat}
    (defaults : ∀ key record, Reach schema .builtin start key →
      schema.record? key.1 = some record → ∀ f ∈ record.fields, ∀ raw,
      f.default = some (.declared raw) → (decodeDefault schema fuel key.2 f raw).Ends)
    (n : Nat) {key : String × Config} (reached : Reach schema .builtin start key) {v : Json}
    (small : v.weight < n) : (decode schema .builtin (fuel + n) key.1 key.2 v).Ends := by
  induction n generalizing key v with
  | zero => exact absurd small (Nat.not_lt_zero _)
  | succ n ih =>
    cases found : schema.findRecord key.1 with
    | error e =>
      rw [← Nat.add_assoc, decode_of_undeclared found]
      exact .throw e
    | ok record =>
      have declared := findRecord_eq_ok.1 found
      have checked := (declarations.checked declared).2.2
      have le : v.weight ≤ n := Nat.le_of_lt_succ small
      have next {f : Field} (mem : f ∈ record.fields) (key' : String × Config)
          (leads : Leads schema .builtin ⟨key.2, f.discriminator⟩ f.type key') (w : Json)
          (less : w.weight < n) : (decode schema .builtin (fuel + n) key'.1 key'.2 w).Ends :=
        ih (reached.field declared mem leads) less
      rw [← Nat.add_assoc, decode_succ declared]
      refine decodeRecord_ends checked (fun f mem raw less => ?_) (fun f mem raw given => ?_)
        fun f mem last members part => ?_
      · exact decodeType_ends (Json.hereditary_weight n) f.type (next mem)
          (Nat.lt_of_lt_of_le less le)
      · exact (decodeDefault_below declarations (Nat.le_add_right fuel n) _ f raw).ends
          (defaults key record reached declared f mem raw given)
      · have less : (Json.object members).weight ≤ n := by
          rcases part with rfl | less
          · exact le
          · exact Nat.le_trans (Nat.le_of_lt less) le
        exact decodeType_ends_of_mapping (checked.isMapping mem last) fun key' leads w small =>
          next mem key' leads w (Nat.lt_of_lt_of_le small less)

end Direct

namespace Compile.Serves

theorem call_ends {schema : Schema} (declarations : schema.Declared) {d : Decoder} {name : String}
    {config : Config} (serves : Serves schema .builtin .decoding d name config)
    (defaults : Direct.DefaultsEnd schema (name, config)) (v : Json) : (Decoder.call d v).Ends := by
  obtain ⟨fuel, enough⟩ := defaults.exists_fuel declarations
  obtain ⟨result, ran⟩ :=
    Direct.decode_ends declarations enough (v.weight + 1) .start (Nat.lt_succ_self _)
  exact ⟨result, (serves.call_decode_iff declarations v).2 ⟨_, ran⟩⟩

end Compile.Serves

namespace Codec

/-- A decoder comes to an end on every input, for records that are nested in themselves as well, if
the defaults that it may decode can be decoded. -/
theorem decoder_ends {c : Codec} (declarations : c.schema.Declared)
    (builtin : c.registry = .builtin) (history : c.cache.History c.schema c.registry)
    (apart : c.cache.decoders = [] ∨ c.schema.Unnumbered) {record : String}
    {overrides config : Config} (resolved : c.resolvedConfig record overrides = .ok config)
    (defaults : Direct.DefaultsEnd c.schema (record, config)) {d : Decoder}
    (isDecoder : (c.decoder record overrides).1.Returns d) (v : Json) :
    (Decoder.call d v).Ends := by
  obtain ⟨config', resolved', serves⟩ := decoder_serves history apart isDecoder
  cases resolved.symm.trans resolved'
  exact (builtin ▸ serves).call_ends declarations defaults v

end Codec

namespace Sample

theorem defaultsEnd (start : String × Config) : Direct.DefaultsEnd schema start := by
  refine .of_isScalar fun key record _ declared f mem raw given => .inl ?_
  have cases : record = cell ∨ record = point := by simpa using mem_of_record? declared
  rcases cases with rfl | rfl
  · simp only [cell, List.mem_cons, List.not_mem_nil, or_false] at mem
    rcases mem with rfl | rfl | rfl <;> cases given
    trivial
  · simp only [point, List.mem_cons, List.not_mem_nil, or_false] at mem
    rcases mem with rfl | rfl <;> cases given

end Sample

/-- The decoder of cells, whose rest is a cell again, ends on every input. -/
theorem Codec.decoder_ends_cells : ∃ d : Decoder,
    (Codec.decoder "Cell" {} { schema := Sample.schema }).1.Returns d ∧
    ∀ v, (Decoder.call d v).Ends := by
  have compiles : (Codec.decoder "Cell" {} { schema := Sample.schema }).1.returnsWith
      (fun _ => true) = true := by
    decide +kernel
  obtain ⟨d, isDecoder, -⟩ := exists_of_returnsWith compiles
  exact ⟨d, isDecoder, Codec.decoder_ends Sample.schema_declared rfl (.empty _ _) (.inl rfl) rfl
    (Sample.defaultsEnd _) isDecoder⟩

namespace Endless

def next : Field where
  name := "next"
  type := .named "Node"
  default := some (.declared (.object []))

/-- A node without a next one gets a node without a next one. -/
def node : RecordType where
  name := "Node"
  fields := [next]

def schema : Schema where
  records := Table.empty.insert "Node" node

theorem schema_declared : schema.Declared := .record node .empty rfl

theorem next_ends {convert : Field → Decode}
    (h : (Direct.decodeRecord node {} (.object []) convert).Ends) :
    (convert next (.object [])).Ends := by
  have fields : (Direct.decodeFields node {} (.object []) convert 0 node.fields).Ends :=
    (Ends.of_ofExcept_bind rfl h).of_bind
  have absent : (Direct.decodeInTurn node {} (.object []) (convert next) 0 next).Ends :=
    fields.of_bind
  exact (Ends.of_bind absent).of_mapError

theorem not_decode_ends (fuel : Nat) :
    ¬ (Direct.decode schema .builtin fuel "Node" {} (.object [])).Ends := by
  induction fuel with
  | zero =>
    rintro ⟨result, ran⟩
    cases ran
  | succ fuel ih =>
    intro ends
    have declared : schema.record? "Node" = some node := rfl
    have handled : Handled schema .builtin next.type .record (schema.resolve next.type) := rfl
    rw [decode_succ declared] at ends
    have again := next_ends ends
    rw [Direct.decodeType_of_handled handled] at again
    exact ih again

end Endless

/-- The decoder of nodes compiles, but it does not end on the empty object. -/
theorem Codec.not_decoder_ends_node : ∃ d : Decoder,
    (Codec.decoder "Node" {} { schema := Endless.schema }).1.Returns d ∧
    ¬ (Decoder.call d (.object [])).Ends := by
  have compiles : (Codec.decoder "Node" {} { schema := Endless.schema }).1.returnsWith
      (fun _ => true) = true := by
    decide +kernel
  obtain ⟨d, isDecoder, -⟩ := exists_of_returnsWith compiles
  refine ⟨d, isDecoder, fun ⟨result, ran⟩ => ?_⟩
  obtain ⟨config, resolved, serves⟩ := Codec.decoder_serves (.empty _ _) (.inl rfl) isDecoder
  cases resolved
  obtain ⟨fuel, ran⟩ := (serves.call_decode_iff Endless.schema_declared _).1 ran
  exact Endless.not_decode_ends fuel ⟨result, ran⟩

end RecordCodec
