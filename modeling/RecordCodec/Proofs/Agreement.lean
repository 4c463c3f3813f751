import Mathlib.Data.List.Nodup
import RecordCodec.Proofs.Interpretation
import RecordCodec.Proofs.Locality

set_option autoImplicit false

/-!
# Routines of the same record

Two routines that serve one record under one configuration give the same results, whatever sessions
they come from and whatever names these gave to the routines that they call. For each direction it
is said once what a routine converts; the rest is the same for both.
-/
namespace RecordCodec

open Routine Run

namespace Routine.Run.Below

variable {α : Type} {r r' : Run α}

theorem antisymm (h : Below r r') (h' : Below r' r) : r = r' := by
  change r.run = r'.run
  refine Option.ext fun result => ?_
  exact ⟨h result, h' result⟩

end Routine.Run.Below

namespace Compile

variable {I O : Type} {schema : Schema} {registry : Registry}

def convertBy (convert : Converter → I → Run O) (parts : List (Field × Converter)) (f : Field) :
    I → Run O :=
  match parts.find? fun e => e.1.name == f.name with
  | some e => convert e.2
  | none => fun _ => ExceptT.mk none

theorem convertBy_of_mem {convert : Converter → I → Run O} {parts : List (Field × Converter)}
    (distinct : (parts.map fun e => e.1.name).Nodup) {e : Field × Converter} (mem : e ∈ parts) :
    convertBy convert parts e.1 = convert e.2 := by
  unfold convertBy
  cases found : parts.find? fun e' => e'.1.name == e.1.name with
  | none => simpa using List.find?_eq_none.1 found e mem
  | some e' =>
    have sameName : e'.1.name = e.1.name := by simpa using List.find?_some found
    rw [List.inj_on_of_nodup_map distinct (List.mem_of_find?_eq_some found) mem sameName]

/-- What the converters of a direction are run on. Calls of other routines get parts of a value,
the value itself or parts of defaults; what comes of them is all that matters of them. -/
structure Mode.Locality (schema : Schema) (registry : Registry) (mode : Mode I O) where
  measure : I → Nat
  default? : Field → Option I
  convert : Calls I O → Converter → I → Run O
  reach : ∀ record config name parts, (mode.draft record config name parts).reach =
    total (parts.map fun e => ((default? e.1).map fun v => measure v + 1).getD 0)
  part : ∀ {bound bound' here ty c c' calls calls' v} (n : Nat),
    Compiles schema registry bound here ty c → Compiles schema registry bound' here ty c' →
    (∀ routine routine' name config, bound routine name config → bound' routine' name config →
      ∀ w, measure w < n → Below (calls routine w) (calls' routine' w)) →
    measure v < n → Below (convert calls c v) (convert calls' c' v)
  routine : ∀ {name config record bound bound' parts parts' code code' calls calls'} (v : I),
    Made schema registry mode bound name config record parts code →
    Made schema registry mode bound' name config record parts' code' →
    (∀ routine routine' name config, bound routine name config → bound' routine' name config →
      ∀ w, measure w < measure v ∨ w = v → Below (calls routine w) (calls' routine' w)) →
    (∀ f c c' w, (f, c) ∈ parts → (f, c') ∈ parts' → default? f = some w →
      Below (convert calls c w) (convert calls' c' w)) →
    Below (code.run calls v) (code'.run calls' v)

namespace Made

variable {mode : Mode I O} {bound bound' : Binding} {name : String} {config : Config}
  {record : RecordType} {parts parts' : List (Field × Converter)} {code code' : Code I O}

theorem distinct (declarations : schema.Declared)
    (h : Made schema registry mode bound name config record parts code)
    (own : (mode.fields record config).Sublist record.fields) :
    (parts.map fun e => e.1.name).Nodup := by
  have names : ((mode.fields record config).map Field.name).Nodup :=
    (own.map Field.name).nodup (declarations.checked h.declared).2.2.distinct
  rw [← h.fields, List.map_map] at names
  exact names

theorem exists_part (h : Made schema registry mode bound name config record parts code) {f : Field}
    (mem : f ∈ mode.fields record config) : ∃ c, (f, c) ∈ parts := by
  obtain ⟨⟨_, c⟩, isPart, rfl⟩ := List.mem_map.1 (h.fields ▸ mem : f ∈ parts.map Prod.fst)
  exact ⟨c, isPart⟩

theorem exists_parts (h : Made schema registry mode bound name config record parts code)
    (h' : Made schema registry mode bound' name config record parts' code') {f : Field}
    (mem : f ∈ mode.fields record config) : ∃ c c', (f, c) ∈ parts ∧ (f, c') ∈ parts' := by
  obtain ⟨c, isPart⟩ := h.exists_part mem
  obtain ⟨c', isPart'⟩ := h'.exists_part mem
  exact ⟨c, c', isPart, isPart'⟩

end Made

end Compile

def Field.rawDefault? (f : Field) : Option Json :=
  match f.default with
  | some (.declared raw) => some raw
  | _ => none

def Field.presetDefault? (f : Field) : Option Instance :=
  match f.default with
  | some (.value v) | some (.fresh v) => some v
  | _ => none

namespace Compile

variable {I O : Type} {schema : Schema}

theorem Decoder.reachOf_eq (f : Field) :
    Decoder.reachOf f = (f.rawDefault?.map fun v => v.weight + 1).getD 0 := by
  unfold Decoder.reachOf Field.rawDefault?
  cases f.default with
  | none => rfl
  | some given => cases given <;> rfl

theorem Encoder.reachOf_eq (f : Field) :
    Encoder.reachOf f = (f.presetDefault?.map fun v => v.depth + 1).getD 0 := by
  unfold Encoder.reachOf Field.presetDefault?
  cases f.default with
  | none => rfl
  | some given => cases given <;> rfl

def Mode.decodingLocality (declarations : schema.Declared) (registry : Registry) :
    Mode.Locality schema registry .decoding where
  measure := Json.weight
  default? := Field.rawDefault?
  convert := Converter.decode
  reach record config name parts :=
    congrArg total (List.map_congr_left fun e _ => Decoder.reachOf_eq e.1)
  part n h h' same small := h.decode_below (Json.hereditary_weight n) same h' small
  routine := by
    intro name config record bound bound' parts parts' code code' calls calls' v h h' same defaults
    have own : (Mode.decoding.fields record config).Sublist record.fields := .refl _
    have distinct := h.distinct declarations own
    have distinct' := h'.distinct declarations own
    rw [Decoder.run_of_lower record config v calls h.fields
        (fun f c mem => (convertBy_of_mem distinct mem).symm) h.lowers,
      Decoder.run_of_lower record config v calls' h'.fields
        (fun f c mem => (convertBy_of_mem distinct' mem).symm) h'.lowers]
    have checked := (declarations.checked h.declared).2.2
    refine Direct.decodeRecord_below checked (fun f mem raw lt => ?_) (fun f mem raw given => ?_)
      fun f mem _ members le => ?_ <;>
      obtain ⟨c, c', inParts, inParts'⟩ := h.exists_parts h' mem <;>
      rw [convertBy_of_mem distinct inParts, convertBy_of_mem distinct' inParts']
    · refine (h.compiled f c inParts).decode_below (Json.hereditary_weight v.weight)
        (fun routine routine' name config known known' w small => ?_) (h'.compiled f c' inParts') lt
      exact same routine routine' name config known known' w (.inl small)
    · exact defaults f c c' raw inParts inParts' (by rw [Field.rawDefault?, given])
    · refine (h.compiled f c inParts).decode_below (Json.hereditary_object members)
        (fun routine routine' name config known known' w part => ?_) (h'.compiled f c' inParts')
        (.inl rfl)
      refine same routine routine' name config known known' w ?_
      rcases part with rfl | small
      · exact le.symm
      · rcases le with whole | less
        · exact .inl (whole ▸ small)
        · exact .inl (Nat.lt_trans small less)

def Mode.encodingLocality (declarations : schema.Declared) (registry : Registry) :
    Mode.Locality schema registry .encoding where
  measure := Instance.depth
  default? := Field.presetDefault?
  convert := Converter.encode
  reach record config name parts :=
    congrArg total (List.map_congr_left fun e _ => Encoder.reachOf_eq e.1)
  part n h h' same small := h.encode_below (Instance.hereditary_depth n) same h' small
  routine := by
    intro name config record bound bound' parts parts' code code' calls calls' v h h' same defaults
    have own : (Mode.encoding.fields record config).Sublist record.fields := List.filter_sublist
    have distinct := h.distinct declarations own
    have distinct' := h'.distinct declarations own
    have plain := (declarations.checked h.declared).2.2.plain config
    rw [Encoder.run_of_lower record config v calls h.fields plain
        (fun f c mem => (convertBy_of_mem distinct mem).symm) h.lowers,
      Encoder.run_of_lower record config v calls' h'.fields plain
        (fun f c mem => (convertBy_of_mem distinct' mem).symm) h'.lowers]
    refine Direct.encodeRecord_below (fun f mem w lt => ?_) fun f mem w given => ?_ <;>
      obtain ⟨c, c', inParts, inParts'⟩ := h.exists_parts h' mem <;>
      rw [convertBy_of_mem distinct inParts, convertBy_of_mem distinct' inParts']
    · refine (h.compiled f c inParts).encode_below (Instance.hereditary_depth v.depth)
        (fun routine routine' name config known known' w small => ?_) (h'.compiled f c' inParts') lt
      exact same routine routine' name config known known' w (.inl small)
    · exact defaults f c c' w inParts inParts' (by rcases given with given | given <;>
        rw [Field.presetDefault?, given])

end Compile

namespace Routine.Linked

variable {I O : Type}

def calls (fuel : Nat) (r : Linked I O) : Calls I O := fun name v =>
  match r.callee? name with
  | some callee => callee.callWithin fuel v
  | none => throw (.of (.unlinkedRoutine name))

theorem calls_of_callee {r callee : Linked I O} {name : String} (fuel : Nat)
    (h : r.callee? name = some callee) : r.calls fuel name = callee.callWithin fuel := by
  funext v
  rw [calls, h]

end Routine.Linked

namespace Compile.Made

variable {schema : Schema} {registry : Registry} {bound : Binding} {name : String}
  {config : Config} {record : RecordType} {parts : List (Field × Converter)}
  (declarations : schema.Declared)
include declarations

theorem callWithin_decode {r : Linked Json Instance}
    (made : Made schema registry .decoding bound name config record parts r.code) (fuel : Nat)
    (v : Json) :
    r.callWithin (fuel + 1) v =
      Direct.decodeRecord record config v (convertBy (fun c => c.decode (r.calls fuel)) parts) := by
  have distinct := made.distinct declarations (.refl _)
  exact Decoder.run_of_lower record config v (r.calls fuel) made.fields
    (fun f c mem => (convertBy_of_mem distinct mem).symm) made.lowers

theorem callWithin_encode {r : Linked Instance Json}
    (made : Made schema registry .encoding bound name config record parts r.code) (fuel : Nat)
    (v : Instance) :
    r.callWithin (fuel + 1) v =
      Direct.encodeRecord record config v (convertBy (fun c => c.encode (r.calls fuel)) parts) := by
  have distinct := made.distinct declarations List.filter_sublist
  exact Encoder.run_of_lower record config v (r.calls fuel) made.fields
    ((declarations.checked made.declared).2.2.plain config)
    (fun f c mem => (convertBy_of_mem distinct mem).symm) made.lowers

end Compile.Made

namespace Compile.Serves

variable {I O : Type} {schema : Schema} {registry : Registry} {mode : Mode I O}
  {r r' : Linked I O} {name : String} {config : Config}

theorem callWithin_below (locality : mode.Locality schema registry) (fuel : Nat)
    (h : Serves schema registry mode r name config)
    (h' : Serves schema registry mode r' name config) (v : I) :
    Below (r.callWithin fuel v) (r'.callWithin fuel v) := by
  induction fuel generalizing r r' name config v with
  | zero => exact .of_none rfl
  | succ fuel ih =>
    obtain ⟨bound, record, parts, made, callees⟩ := h.elim
    obtain ⟨bound', record', parts', made', callees'⟩ := h'.elim
    cases made.declared.symm.trans made'.declared
    have calls : ∀ routine routine' name config, bound routine name config →
        bound' routine' name config →
        ∀ w, Below (r.calls fuel routine w) (r'.calls fuel routine' w) := by
      intro routine routine' name config known known' w
      obtain ⟨callee, isCallee, serves⟩ := callees routine name config known
      obtain ⟨callee', isCallee', serves'⟩ := callees' routine' name config known'
      rw [Linked.calls_of_callee fuel isCallee, Linked.calls_of_callee fuel isCallee']
      exact ih serves serves' w
    refine locality.routine v made made'
      (fun routine routine' name config known known' w _ =>
        calls routine routine' name config known known' w)
      fun f c c' w inParts inParts' _ => ?_
    exact locality.part _ (made.compiled f c inParts) (made'.compiled f c' inParts')
      (fun routine routine' name config known known' w _ =>
        calls routine routine' name config known known' w) (Nat.lt_succ_self _)

/-- Routines that serve the same record do the same, call for call. -/
theorem callWithin_eq (locality : mode.Locality schema registry) (fuel : Nat)
    (h : Serves schema registry mode r name config)
    (h' : Serves schema registry mode r' name config) :
    r.callWithin fuel = r'.callWithin fuel :=
  funext fun v =>
    (h.callWithin_below locality fuel h' v).antisymm (h'.callWithin_below locality fuel h v)

end Compile.Serves
end RecordCodec
