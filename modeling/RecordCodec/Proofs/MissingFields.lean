import RecordCodec.Proofs.DecoderEnds
import RecordCodec.Proofs.UnknownKeys

set_option autoImplicit false

/-!
# Missing fields

A decoder converts what it finds for the fields of a record, and the declared defaults of those that
it does not find, in the order of the fields. Decoding fails as the first of these conversions that
fails, whatever is missing. If none fails, the fields that are required and missing are reported,
all of them at once. But a failure is not reported if a default before it is decoded without an end.
-/
namespace RecordCodec

open Routine Run Compile
open Converter (Decode)

namespace Direct

section Sources
variable (record : RecordType) (config : Config) (input : Json)

/-- What the value of a field is converted from: what the input has for it, or its declared default.
A catch-all field has to wait. -/
def source? (index : Nat) (field : Field) : Option Json :=
  if field.catchAll then none
  else (located? record config input index field).or
    (match field.default with
      | some (.declared raw) => some raw
      | _ => none)

def sourcesFrom : Nat → List Field → List (Field × Json)
  | _, [] => []
  | index, field :: rest =>
    ((source? record config input index field).map (field, ·)).toList ++
      sourcesFrom (index + 1) rest

def sources : List (Field × Json) := sourcesFrom record config input 0 record.fields

def absentRequired : List String :=
  (record.fields.zipIdx.filter fun e => (located? record config input e.2 e.1).isNone &&
    e.1.isRequired record.kind).map fun e => e.1.name

end Sources

section
variable {record : RecordType} {config : Config} {input : Json} {convert : Field → Decode}

theorem decodeInTurn_of_source {index : Nat} {f : Field} {raw : Json}
    (isSource : source? record config input index f = some raw) :
    decodeInTurn record config input (convert f) index f = (do
      let v ← (convert f raw).mapError (Failure.inField record.name f.name)
      pure (some v)) := by
  unfold source? at isSource
  unfold decodeInTurn decodeField decodeAbsent
  split at isSource
  case isTrue => cases isSource
  case isFalse own =>
    rw [if_neg own]
    cases found : located? record config input index f with
    | some w =>
      rw [found] at isSource
      cases isSource
      rfl
    | none =>
      rw [found, Option.none_or] at isSource
      split at isSource
      case h_1 declared =>
        cases isSource
        rw [declared]
      case h_2 => cases isSource

theorem decodeInTurn_returns {index : Nat} {f : Field} {raw : Json} {v : Instance}
    (isSource : source? record config input index f = some raw)
    (converted : (convert f raw).Returns v) :
    (decodeInTurn record config input (convert f) index f).Returns (some v) := by
  rw [decodeInTurn_of_source isSource]
  exact Returns.bind_iff.2 ⟨v, Returns.mapError_iff.2 converted, Returns.pure_iff.2 rfl⟩

theorem decodeInTurn_of_none (convert : Field → Decode) {index : Nat} {f : Field}
    (noSource : source? record config input index f = none) :
    ∃ o, decodeInTurn record config input (convert f) index f = pure o := by
  unfold source? at noSource
  unfold decodeInTurn decodeField decodeAbsent
  split at noSource
  case isTrue last => exact ⟨none, if_pos last⟩
  case isFalse own =>
    rw [if_neg own]
    obtain ⟨absent, noDefault⟩ := Option.or_eq_none_iff.1 noSource
    rw [absent]
    cases isDefault : f.default with
    | none => exact ⟨none, rfl⟩
    | some default =>
      cases default with
      | declared raw =>
        rw [isDefault] at noDefault
        cases noDefault
      | _ => exact ⟨_, rfl⟩

theorem decodeFields_fails_of_split {index : Nat} {fields : List Field} {f : Field} {raw : Json}
    {earlier later : List (Field × Json)} {e : Failure}
    (split : sourcesFrom record config input index fields = earlier ++ (f, raw) :: later)
    (returned : ∀ x ∈ earlier, ∃ v, (convert x.1 x.2).Returns v)
    (failed : (convert f raw).Fails e) :
    (decodeFields record config input convert index fields).Fails
      (e.inField record.name f.name) := by
  induction fields generalizing index earlier with
  | nil => cases earlier <;> cases split
  | cons g rest ih =>
    rw [sourcesFrom] at split
    rw [decodeFields]
    cases isSource : source? record config input index g with
    | none =>
      rw [isSource] at split
      obtain ⟨o, nothing⟩ := decodeInTurn_of_none convert isSource
      rw [nothing]
      refine Fails.bind_iff.2 (.inr ⟨o, Returns.pure_iff.2 rfl, ?_⟩)
      exact Fails.bind_iff.2 (.inl (ih split returned))
    | some w =>
      rw [isSource] at split
      cases earlier with
      | nil =>
        cases split
        rw [decodeInTurn_of_source isSource]
        refine Fails.bind_iff.2 (.inl (Fails.bind_iff.2 (.inl ?_)))
        exact Fails.mapError_iff.2 ⟨e, failed, rfl⟩
      | cons x earlier =>
        rw [Option.map_some, Option.toList_some, List.singleton_append, List.cons_append] at split
        obtain ⟨rfl, others⟩ := List.cons.inj split
        obtain ⟨⟨v, converted⟩, returned⟩ := List.forall_mem_cons.1 returned
        refine Fails.bind_iff.2 (.inr ⟨some v, decodeInTurn_returns isSource converted, ?_⟩)
        exact Fails.bind_iff.2 (.inl (ih others returned))

theorem exists_decodeFields_returns {index : Nat} {fields : List Field}
    (returned : ∀ x ∈ sourcesFrom record config input index fields,
      ∃ v, (convert x.1 x.2).Returns v) :
    ∃ values, (decodeFields record config input convert index fields).Returns values := by
  induction fields generalizing index with
  | nil => exact ⟨[], Returns.pure_iff.2 rfl⟩
  | cons f rest ih =>
    rw [sourcesFrom, List.forall_mem_append] at returned
    obtain ⟨values, others⟩ := ih returned.2
    have first : ∃ o, (decodeInTurn record config input (convert f) index f).Returns o := by
      cases isSource : source? record config input index f with
      | none =>
        obtain ⟨o, nothing⟩ := decodeInTurn_of_none convert isSource
        exact ⟨o, nothing ▸ Returns.pure_iff.2 rfl⟩
      | some w =>
        obtain ⟨v, converted⟩ := returned.1 (f, w) (by simp [isSource])
        exact ⟨some v, decodeInTurn_returns isSource converted⟩
    obtain ⟨o, first⟩ := first
    exact ⟨o :: values, Returns.bind_iff.2
      ⟨o, first, Returns.bind_iff.2 ⟨values, others, Returns.pure_iff.2 rfl⟩⟩⟩

/-- If conversions end, they all return, or one of them is the first that fails. -/
theorem returns_or_first_fails {xs : List (Field × Json)}
    (ends : ∀ x ∈ xs, (convert x.1 x.2).Ends) :
    (∀ x ∈ xs, ∃ v, (convert x.1 x.2).Returns v) ∨
      ∃ earlier f raw later e, xs = earlier ++ (f, raw) :: later ∧
        (∀ x ∈ earlier, ∃ v, (convert x.1 x.2).Returns v) ∧ (convert f raw).Fails e := by
  induction xs with
  | nil => exact .inl fun _ mem => absurd mem List.not_mem_nil
  | cons x rest ih =>
    obtain ⟨⟨result, ran⟩, others⟩ := List.forall_mem_cons.1 ends
    cases result with
    | error e =>
      exact .inr ⟨[], x.1, x.2, rest, e, rfl, fun _ mem => absurd mem List.not_mem_nil, ran⟩
    | ok v =>
      rcases ih others with all | ⟨earlier, f, raw, later, e, rfl, returned, failed⟩
      · exact .inl (List.forall_mem_cons.2 ⟨⟨v, ran⟩, all⟩)
      · exact .inr ⟨x :: earlier, f, raw, later, e, rfl,
          List.forall_mem_cons.2 ⟨⟨v, ran⟩, returned⟩, failed⟩

theorem missingFields_eq_filter (index : Nat) (fields : List Field) :
    missingFields record config input index fields =
      ((fields.zipIdx index).filter fun e => (located? record config input e.2 e.1).isNone &&
        e.1.isRequired record.kind).map fun e => e.1.name := by
  induction fields generalizing index with
  | nil => rfl
  | cons f rest ih =>
    rw [missingFields, ih, List.zipIdx_cons, List.filter_cons]
    split <;> rfl

theorem exists_decodeLeftOver_returns
    (caught : ∀ f ∈ record.fields, f.catchAll = true →
      ∃ v, (convert f (gathered record config input)).Returns v)
    (known : (∀ f ∈ record.fields, f.catchAll = false) → config.policy = .raise →
      leftOver record config input = []) (values : List (Option Instance)) :
    ∃ values', (decodeLeftOver record config input convert values).Returns values' := by
  unfold decodeLeftOver
  split
  case h_1 f index isCatchAll =>
    obtain ⟨isField, last⟩ := mem_of_catchAllAt isCatchAll
    obtain ⟨v, converted⟩ := caught f isField last
    exact ⟨_, Returns.bind_iff.2 ⟨v, Returns.mapError_iff.2 converted, Returns.pure_iff.2 rfl⟩⟩
  case h_2 noCatchAll =>
    split
    case h_1 isRaise isLeft =>
      cases isLeft.symm.trans (known (catchAllAt_eq_none_iff.1 noCatchAll) isRaise)
    case h_2 => exact ⟨values, Returns.pure_iff.2 rfl⟩

section Accepted
variable (accepted : Decoder.checkForm record input = .ok ())
include accepted

theorem decodeRecord_fails_of_split {f : Field} {raw : Json} {earlier later : List (Field × Json)}
    {e : Failure} (split : sources record config input = earlier ++ (f, raw) :: later)
    (returned : ∀ x ∈ earlier, ∃ v, (convert x.1 x.2).Returns v)
    (failed : (convert f raw).Fails e) :
    (decodeRecord record config input convert).Fails (e.inField record.name f.name) := by
  refine Fails.bind_iff.2 (.inr ⟨(), Returns.ofExcept_iff.2 accepted, ?_⟩)
  exact Fails.bind_iff.2 (.inl (decodeFields_fails_of_split split returned failed))

/-- If every conversion returns, and no key is refused, only missing fields are an obstacle. -/
theorem decodeRecord_of_returns
    (returned : ∀ x ∈ sources record config input, ∃ v, (convert x.1 x.2).Returns v)
    (caught : ∀ f ∈ record.fields, f.catchAll = true →
      ∃ v, (convert f (gathered record config input)).Returns v)
    (known : (∀ f ∈ record.fields, f.catchAll = false) → config.policy = .raise →
      leftOver record config input = []) :
    (absentRequired record config input = [] →
        ∃ back, (decodeRecord record config input convert).Returns back) ∧
      (absentRequired record config input ≠ [] →
        (decodeRecord record config input convert).Fails
          (.of (.missingFields record.name (absentRequired record config input)))) := by
  obtain ⟨values, decoded⟩ := exists_decodeFields_returns returned
  obtain ⟨values', completed⟩ := exists_decodeLeftOver_returns caught known values
  have missing : missingFields record config input 0 record.fields =
      absentRequired record config input := missingFields_eq_filter 0 record.fields
  constructor
  · intro nothing
    exact ⟨_, decodeRecord_returns_iff.2
      ⟨accepted, missing.trans nothing, values, values', decoded, completed, rfl⟩⟩
  · intro some
    refine Fails.bind_iff.2 (.inr ⟨(), Returns.ofExcept_iff.2 accepted, ?_⟩)
    refine Fails.bind_iff.2 (.inr ⟨values, decoded, ?_⟩)
    refine Fails.bind_iff.2 (.inr ⟨values', completed, ?_⟩)
    rw [missing]
    split
    case h_1 nothing => exact absurd nothing some
    case h_2 => exact Fails.throw_iff.2 rfl

theorem decodeRecord_fails_first {g : Field} {raw : Json} {before after : List (Field × Json)}
    {e : Failure} (split : sources record config input = before ++ (g, raw) :: after)
    (ends : ∀ x ∈ before, (convert x.1 x.2).Ends) (failed : (convert g raw).Fails e) :
    ∃ earlier f raw' later e', before ++ [(g, raw)] = earlier ++ (f, raw') :: later ∧
      (∀ x ∈ earlier, ∃ v, (convert x.1 x.2).Returns v) ∧ (convert f raw').Fails e' ∧
      (decodeRecord record config input convert).Fails (e'.inField record.name f.name) := by
  have upTo : ∀ x ∈ before ++ [(g, raw)], (convert x.1 x.2).Ends :=
    List.forall_mem_append.2 ⟨ends, List.forall_mem_singleton.2 ⟨_, failed⟩⟩
  rcases returns_or_first_fails upTo with all | ⟨earlier, f, raw', later, e', same, returned, first⟩
  · obtain ⟨v, converted⟩ := all (g, raw) (by simp)
    cases failed.symm.trans converted
  · refine ⟨earlier, f, raw', later, e', same, returned, first, ?_⟩
    have split' : sources record config input = earlier ++ (f, raw') :: (later ++ after) := calc
      sources record config input = (before ++ [(g, raw)]) ++ after := by simp [split]
      _ = earlier ++ (f, raw') :: (later ++ after) := by simp [same]
    exact decodeRecord_fails_of_split accepted split' returned first

end Accepted
end
end Direct

/-- What a decoder makes of a value for a field, while it is called for an input. -/
def Routine.Linked.convertFor (d : Decoder) (parts : List (Field × Converter)) (input : Json) :
    Field → Decode :=
  convertBy (fun c => c.decode (d.calls (d.callBound input.weight - 1))) parts

namespace Codec

open Direct

/-- What a codec does with a decoder of a record is what the converters of its fields make of an
input, whatever the codec did before. -/
theorem exists_made_of_decoder {c : Codec} (declarations : c.schema.Declared)
    (history : c.cache.History c.schema c.registry) {name : String} {overrides config : Config}
    {r : RecordType} (declared : c.schema.record? name = some r)
    (resolved : c.resolvedConfig name overrides = .ok config) {d : Decoder}
    (isDecoder : (c.decoder name overrides).1.Returns d) :
    ∃ bound parts, Made c.schema c.registry .decoding bound name config r parts d.code ∧
      CallsAsBound c.schema c.registry .decoding bound d ∧
      ∀ input, (c.decode name input overrides).1 =
        decodeRecord r config input (d.convertFor parts input) := by
  obtain ⟨config', resolved', traced⟩ := decoder_traced history isDecoder
  obtain rfl := Except.ok.inj (resolved.symm.trans resolved')
  obtain ⟨bound, r', parts, made, callsAsBound⟩ := traced.code
  obtain rfl := Option.some.inj (declared.symm.trans made.declared)
  refine ⟨bound, parts, made, callsAsBound, fun input => ?_⟩
  obtain ⟨fuel, enough⟩ := d.exists_callBound input.weight
  rw [decode_of_decoder isDecoder, Decoder.call, enough, made.callWithin_decode declarations]
  unfold Linked.convertFor
  rw [enough]
  rfl

/-- Whatever a codec did before, and with whatever handlers, for an input of a form that the record
accepts. If what is found converts, and each declared default of what is not, and what is left over
to a catch-all field, and no key is refused, then decoding returns, unless required fields are
missing, and then it fails with all of them. If some of this does not convert, decoding fails as the
first conversion that does not, if those before it end, and not for missing fields. -/
theorem decode_missing_fields {c : Codec} (declarations : c.schema.Declared)
    (history : c.cache.History c.schema c.registry) {name : String} {overrides config : Config}
    {r : RecordType} (declared : c.schema.record? name = some r)
    (resolved : c.resolvedConfig name overrides = .ok config) {d : Decoder}
    (isDecoder : (c.decoder name overrides).1.Returns d) {input : Json}
    (accepted : Decoder.checkForm r input = .ok ()) :
    ∃ bound parts, Made c.schema c.registry .decoding bound name config r parts d.code ∧
      CallsAsBound c.schema c.registry .decoding bound d ∧
      ((∀ x ∈ sources r config input, ∃ v, (d.convertFor parts input x.1 x.2).Returns v) →
        (∀ f ∈ r.fields, f.catchAll = true →
          ∃ v, (d.convertFor parts input f (gathered r config input)).Returns v) →
        ((∀ f ∈ r.fields, f.catchAll = false) → config.policy = .raise →
          leftOver r config input = []) →
        (absentRequired r config input = [] →
            ∃ back, (c.decode name input overrides).1.Returns back) ∧
          (absentRequired r config input ≠ [] → (c.decode name input overrides).1.Fails
            (.of (.missingFields r.name (absentRequired r config input))))) ∧
      ∀ before g raw after e, sources r config input = before ++ (g, raw) :: after →
        (∀ x ∈ before, (d.convertFor parts input x.1 x.2).Ends) →
        (d.convertFor parts input g raw).Fails e →
        ∃ earlier f raw' later e', before ++ [(g, raw)] = earlier ++ (f, raw') :: later ∧
          (∀ x ∈ earlier, ∃ v, (d.convertFor parts input x.1 x.2).Returns v) ∧
          (d.convertFor parts input f raw').Fails e' ∧
          (c.decode name input overrides).1.Fails (e'.inField r.name f.name) ∧
          ∀ missing, e'.inField r.name f.name ≠ .of (.missingFields r.name missing) := by
  obtain ⟨bound, parts, made, callsAsBound, decodes⟩ :=
    exists_made_of_decoder declarations history declared resolved isDecoder
  rw [decodes input]
  refine ⟨bound, parts, made, callsAsBound, decodeRecord_of_returns accepted, ?_⟩
  intro before g raw after e split ends failed
  obtain ⟨earlier, f, raw', later, e', same, returned, first, fails⟩ :=
    decodeRecord_fails_first accepted split ends failed
  refine ⟨earlier, f, raw', later, e', same, returned, first, fails, fun missing isMissing => ?_⟩
  -- the failure has the field in its path, and missing fields are those of the record itself
  cases congrArg Failure.path isMissing

end Codec

theorem Compile.Made.convertFor_of_scalar {schema : Schema} {registry : Registry}
    (declarations : schema.Declared) {bound : Binding} {name : String} {config : Config}
    {record : RecordType} {parts : List (Field × Converter)} {d : Decoder}
    (made : Made schema registry .decoding bound name config record parts d.code) {f : Field}
    (isField : f ∈ record.fields) {p : Primitive} {target : TypeExpr}
    (handled : Handled schema registry f.type (.scalar p) target) (input raw : Json) :
    d.convertFor parts input f raw = .ofExcept (Scalar.decode p raw) := by
  obtain ⟨c, isPart⟩ := made.exists_part isField
  rw [Linked.convertFor, convertBy_of_mem (made.distinct declarations (.refl _)) isPart]
  obtain rfl : c = .scalar p := (made.compiled f c isPart).compiledBy handled
  rfl

namespace Trips

def startField : Field := { name := "start", type := .primitive .int }

def stopField : Field := { name := "stop", type := .primitive .int }

def legsField : Field where
  name := "legs"
  type := .primitive .int
  default := some (.declared (.string "1"))

def noteField : Field := { name := "note", type := .primitive .str }

def trip : RecordType where
  name := "Trip"
  fields := [startField, stopField, legsField, noteField]

def codec : Codec where
  schema := { records := Table.empty.insert "Trip" trip }

theorem declared : codec.schema.Declared := .record trip .empty rfl

theorem history : codec.cache.History codec.schema codec.registry := .empty 0 0

def begun : Json := .object [("start", .ofInt64 1)]

def vague : Json := .object [("stop", .string "soon")]

theorem convertFor_int {bound : Binding} {parts : List (Field × Converter)} {d : Decoder}
    (made : Made codec.schema codec.registry .decoding bound "Trip" {} trip parts d.code)
    {f : Field} (isField : f ∈ trip.fields) (isInt : f.type = .primitive .int) (input raw : Json) :
    d.convertFor parts input f raw = .ofExcept (Scalar.decode .int raw) := by
  have handled : Handled codec.schema codec.registry f.type (.scalar .int) (.primitive .int) := by
    rw [isInt]
    rfl
  exact made.convertFor_of_scalar declared isField handled input raw

theorem sources_begun :
    Direct.sources trip {} begun = [(startField, .ofInt64 1), (legsField, .string "1")] := rfl

theorem sources_vague :
    Direct.sources trip {} vague = [(stopField, .string "soon"), (legsField, .string "1")] := rfl

end Trips

theorem Codec.decode_missing_fields_trip :
    (Trips.codec.decode "Trip" Trips.begun {}).1.Fails
        (.of (.missingFields "Trip" ["stop", "note"])) ∧
      ∃ e, Scalar.decode .int (.string "soon") = .error e ∧
        (Trips.codec.decode "Trip" Trips.vague {}).1.Fails (e.inField "Trip" "stop") := by
  have compiles : (Trips.codec.decoder "Trip" {}).1.returnsWith (fun _ => true) = true := rfl
  obtain ⟨d, isDecoder, -⟩ := exists_of_returnsWith compiles
  have isTrip : Trips.codec.schema.record? "Trip" = some Trips.trip := rfl
  have resolved : Trips.codec.resolvedConfig "Trip" {} = .ok {} := rfl
  constructor
  · have accepted : Decoder.checkForm Trips.trip Trips.begun = .ok () := rfl
    obtain ⟨bound, parts, made, -, reports, -⟩ := Codec.decode_missing_fields Trips.declared
      Trips.history isTrip resolved isDecoder accepted
    have ignores : ({} : Config).policy ≠ .raise := nofun
    refine (reports ?_ ?_ fun _ raises => absurd raises ignores).2 (List.cons_ne_nil _ _)
    · rw [Trips.sources_begun, List.forall_mem_cons, List.forall_mem_singleton]
      rw [Trips.convertFor_int made (by simp [Trips.trip]) rfl,
        Trips.convertFor_int made (by simp [Trips.trip]) rfl]
      exact ⟨⟨.int 1, rfl⟩, .int 1, rfl⟩
    · have noCatchAll : ∀ f ∈ Trips.trip.fields, f.catchAll = false := by decide
      intro f isField last
      cases last.symm.trans (noCatchAll f isField)
  · have accepted : Decoder.checkForm Trips.trip Trips.vague = .ok () := rfl
    obtain ⟨bound, parts, made, -, -, reports⟩ := Codec.decode_missing_fields Trips.declared
      Trips.history isTrip resolved isDecoder accepted
    have isStop : Trips.stopField ∈ Trips.trip.fields := by simp [Trips.trip]
    have converts := Trips.convertFor_int made isStop rfl Trips.vague
    cases refused : Scalar.decode .int (.string "soon") with
    | ok v => cases refused
    | error e =>
      have failed : (d.convertFor parts Trips.vague Trips.stopField (.string "soon")).Fails e := by
        rw [converts]
        exact Fails.ofExcept_iff.2 refused
      have nothing : ∀ x ∈ ([] : List (Field × Json)),
          (d.convertFor parts Trips.vague x.1 x.2).Ends := fun _ mem => absurd mem List.not_mem_nil
      obtain ⟨earlier, f, raw, later, e', first, -, failed', fails, -⟩ :=
        reports [] _ _ _ e Trips.sources_vague nothing failed
      cases earlier with
      | nil =>
        cases first
        cases failed.symm.trans failed'
        exact ⟨e, rfl, fails⟩
      | cons x earlier => cases earlier <;> cases first

namespace Knotted

def nextField : Field where
  name := "next"
  type := .named "Knot"
  default := some (.declared (.object []))

def sizeField : Field := { name := "size", type := .primitive .int }

/-- A knot without a next one gets a knot without a next one, before its size is looked at. -/
def knot : RecordType where
  name := "Knot"
  fields := [nextField, sizeField]

def codec : Codec where
  schema := { records := Table.empty.insert "Knot" knot }

theorem declared : codec.schema.Declared := .record knot .empty rfl

def worded : Json := .object [("size", .string "big")]

theorem next_ends {input : Json} (accepted : Decoder.checkForm knot input = .ok ())
    (absent : Direct.located? knot {} input 0 nextField = none) {convert : Field → Decode}
    (h : (Direct.decodeRecord knot {} input convert).Ends) :
    (convert nextField (.object [])).Ends := by
  have fields : (Direct.decodeFields knot {} input convert 0 knot.fields).Ends :=
    (Ends.of_ofExcept_bind accepted h).of_bind
  have first : (Direct.decodeInTurn knot {} input (convert nextField) 0 nextField).Ends :=
    fields.of_bind
  have isSource : Direct.source? knot {} input 0 nextField = some (.object []) := by
    rw [Direct.source?, absent]
    rfl
  rw [Direct.decodeInTurn_of_source isSource] at first
  exact first.of_bind.of_mapError

theorem not_decode_ends (fuel : Nat) {input : Json}
    (accepted : Decoder.checkForm knot input = .ok ())
    (absent : Direct.located? knot {} input 0 nextField = none) :
    ¬(Direct.decode codec.schema .builtin fuel "Knot" {} input).Ends := by
  induction fuel generalizing input with
  | zero =>
    rintro ⟨result, ran⟩
    cases ran
  | succ fuel ih =>
    intro ends
    have isKnot : codec.schema.record? "Knot" = some knot := rfl
    have handled : Handled codec.schema .builtin nextField.type .record
      (codec.schema.resolve nextField.type) := rfl
    rw [decode_succ isKnot] at ends
    have again := next_ends accepted absent ends
    rw [Direct.decodeType_of_handled handled] at again
    exact ih rfl rfl again

end Knotted

/-- The size of the knot is located and fails to convert, and decoding does not fail. -/
theorem Codec.not_decode_fails_knot : ∃ d : Decoder,
    (Knotted.codec.decoder "Knot" {}).1.Returns d ∧
      Decoder.checkForm Knotted.knot Knotted.worded = .ok () ∧
      Direct.located? Knotted.knot {} Knotted.worded 1 Knotted.sizeField = some (.string "big") ∧
      (∀ bound parts, Made Knotted.codec.schema Knotted.codec.registry .decoding bound "Knot" {}
        Knotted.knot parts d.code →
        ∃ e, (d.convertFor parts Knotted.worded Knotted.sizeField (.string "big")).Fails e) ∧
      ∀ e, ¬(Knotted.codec.decode "Knot" Knotted.worded {}).1.Fails e := by
  have compiles : (Knotted.codec.decoder "Knot" {}).1.returnsWith (fun _ => true) = true := rfl
  obtain ⟨d, isDecoder, -⟩ := exists_of_returnsWith compiles
  refine ⟨d, isDecoder, rfl, rfl, fun bound parts made => ?_, fun e failed => ?_⟩
  · have isSize : Knotted.sizeField ∈ Knotted.knot.fields := by simp [Knotted.knot]
    have handled : Handled Knotted.codec.schema Knotted.codec.registry Knotted.sizeField.type
      (.scalar .int) (.primitive .int) := rfl
    rw [made.convertFor_of_scalar Knotted.declared isSize handled]
    exact ⟨_, rfl⟩
  · obtain ⟨config, resolved, serves⟩ := Codec.decoder_serves (.empty _ _) (.inl rfl) isDecoder
    cases resolved
    rw [Codec.decode_of_decoder isDecoder] at failed
    obtain ⟨fuel, ran⟩ := (serves.call_decode_iff Knotted.declared _).1 failed
    exact Knotted.not_decode_ends fuel rfl rfl ⟨_, ran⟩

end RecordCodec
