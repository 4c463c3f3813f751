import RecordCodec.Proofs.FirstKeys
import RecordCodec.Proofs.MissingFields
import RecordCodec.Proofs.Termination

set_option autoImplicit false

/-!
# The two forms of a positional record

A positional record is read from an array by the index of each field and from an object by its keys.
If no key belongs to two fields, an array and the object with its elements under the first keys of
the fields have the same value for each field, and neither leaves anything over. So they are decoded
to the same result.
-/
namespace RecordCodec

open Routine Run Compile
open Converter (Decode)

namespace Compile.Locator

variable {config : Config} {fields : List Field} {items : List Json}

/-- The elements of an array under the first keys of the fields. -/
def membersFor (config : Config) (fields : List Field) (items : List Json) :
    List (String × Json) :=
  firstMembers config (fields.zip items)

theorem map_fst_zip_sublist (fields : List Field) (items : List Json) :
    ((fields.zip items).map Prod.fst).Sublist fields := by
  induction fields generalizing items with
  | nil => exact .slnil
  | cons f rest ih =>
    cases items with
    | nil => exact List.nil_sublist _
    | cons v items => exact (ih items).cons_cons f

theorem holdsFirst_membersFor (apart : KeysApart config fields) {k : Nat} {f : Field}
    (isField : fields[k]? = some f) :
    HoldsFirst config (membersFor config fields items) f items[k]? := by
  have sublist := map_fst_zip_sublist fields items
  cases isItem : items[k]? with
  | some v =>
    have mem : (f, v) ∈ fields.zip items :=
      List.mem_of_getElem? (List.getElem?_zip_eq_some.2 ⟨isField, isItem⟩)
    exact holdsFirst_some (apart.sublist sublist) mem
  | none =>
    refine holdsFirst_none apart (List.mem_of_getElem? isField) sublist.subset fun mem => ?_
    obtain ⟨⟨_, v⟩, isPair, rfl⟩ := List.mem_map.1 mem
    obtain ⟨j, isPair⟩ := List.mem_iff_getElem?.1 isPair
    obtain ⟨isField', isItem'⟩ := List.getElem?_zip_eq_some.1 isPair
    -- the field stands at one index only, which has no element
    obtain ⟨inRange, -⟩ := List.getElem?_eq_some_iff.1 isField
    obtain rfl := (List.getElem?_inj inRange apart.nodup).1 (isField.trans isField'.symm)
    cases isItem.symm.trans isItem'

end Compile.Locator

theorem Json.weight_membersFor (config : Config) {fields : List Field} {items : List Json}
    (fits : items.length ≤ fields.length) :
    (Json.object (Locator.membersFor config fields items)).weight = (Json.array items).weight := by
  simp only [weight]
  induction fields generalizing items with
  | nil =>
    cases items with
    | nil => rfl
    | cons => cases fits
  | cons f rest ih =>
    cases items with
    | nil => rfl
    | cons v items =>
      exact congrArg (v.weight + 1 + ·) (ih (Nat.le_of_succ_le_succ fits))

namespace Direct

section Forms
variable {record : RecordType} {config : Config} {input input' : Json} {convert : Field → Decode}

theorem decodeFields_congr (convert : Field → Decode) {index : Nat} {fields : List Field}
    (located : ∀ k f, fields[k]? = some f →
      located? record config input (index + k) f = located? record config input' (index + k) f) :
    decodeFields record config input convert index fields =
        decodeFields record config input' convert index fields ∧
      missingFields record config input index fields =
        missingFields record config input' index fields := by
  induction fields generalizing index with
  | nil => exact ⟨rfl, rfl⟩
  | cons f rest ih =>
    have first := located 0 f rfl
    have others : ∀ k g, rest[k]? = some g → located? record config input (index + 1 + k) g =
        located? record config input' (index + 1 + k) g := by
      intro k g isField
      simpa [Nat.add_assoc, Nat.add_comm 1 k] using located (k + 1) g isField
    obtain ⟨decoded, missing⟩ := ih others
    rw [Nat.add_zero] at first
    simp only [decodeFields, decodeInTurn, decodeField, missingFields, first, decoded, missing,
      and_self]

theorem decodeRecord_congr (accepted : Decoder.checkForm record input = .ok ())
    (accepted' : Decoder.checkForm record input' = .ok ())
    (noCatchAll : ∀ f ∈ record.fields, f.catchAll = false)
    (located : ∀ k f, record.fields[k]? = some f →
      located? record config input k f = located? record config input' k f)
    (nothing : leftOver record config input = []) (nothing' : leftOver record config input' = []) :
    decodeRecord record config input convert = decodeRecord record config input' convert := by
  have fromStart : ∀ k f, record.fields[k]? = some f →
      located? record config input (0 + k) f = located? record config input' (0 + k) f := by
    simpa using located
  obtain ⟨decoded, missing⟩ := decodeFields_congr convert fromStart
  have left : ∀ values, decodeLeftOver record config input convert values =
      decodeLeftOver record config input' convert values := fun values =>
    (decodeLeftOver_of_none noCatchAll nothing values).eq_pure.trans
      (decodeLeftOver_of_none noCatchAll nothing' values).eq_pure.symm
  simp only [decodeRecord, accepted, accepted', decoded, missing, left]

theorem located?_array {items : List Json} (positional : record.kind = .positional) (k : Nat)
    (f : Field) : located? record config (.array items) k f = items[k]? := by
  unfold located? place?
  rw [if_pos positional]
  simp only [Locator.ofField, Locator.locate, Option.filter_some, decide_eq_true_eq]
  split
  case isTrue => rfl
  case isFalse beyond => exact (List.getElem?_eq_none_iff.2 (Nat.le_of_not_lt beyond)).symm

theorem decodeRecord_membersFor {items : List Json} (positional : record.kind = .positional)
    (noPaths : ∀ f ∈ record.fields, f.path = none) (cased : config.decodesWith ≠ .caseInsensitive)
    (apart : Locator.KeysApart config record.fields)
    (noCatchAll : ∀ f ∈ record.fields, f.catchAll = false)
    (fits : items.length ≤ record.fields.length) :
    decodeRecord record config (.array items) convert =
      decodeRecord record config (.object (Locator.membersFor config record.fields items))
        convert := by
  have accepted : Decoder.checkForm record (.array items) = .ok () := by
    simp [Decoder.checkForm, positional, Nat.not_lt.2 fits]
  refine decodeRecord_congr accepted rfl noCatchAll (fun k f isField => ?_) rfl
    (leftOver_of_holdsFirst noPaths cased noCatchAll fun key mem => ?_)
  · have noPath := noPaths f (List.mem_of_getElem? isField)
    rw [located?_array positional,
      located?_of_holdsFirst noPath cased (Locator.holdsFirst_membersFor apart isField)]
  · obtain ⟨e, isValue, rfl⟩ := Locator.exists_of_mem_keys_firstMembers mem
    have sublist := Locator.map_fst_zip_sublist record.fields items
    exact ⟨e.1, sublist.subset (List.mem_map_of_mem isValue), e.2,
      Locator.holdsFirst_some (apart.sublist sublist) isValue, rfl⟩

end Forms
end Direct

theorem Compile.compile_ends {I O : Type} {cx : Context I O} (keeps : cx.registry.KeepsAny)
    (own : cx.mode.Own) (stamp : Nat) (record : String) (config : Config) :
    (compile cx stamp record config).Ends := by
  obtain ⟨result, s, ended, -⟩ := endsOnce keeps own record config
  unfold compile
  simp only [ended _ (Nat.le_refl _)]
  cases result with
  | ok name => exact .ofExcept _
  | error e => exact .throw e

namespace Codec

open Direct

theorem decoder_fst_ends {c : Codec} (keeps : c.registry.KeepsAny) (name : String)
    (overrides : Config) : (c.decoder name overrides).1.Ends := by
  unfold decoder
  split
  case h_1 e _ => exact .throw e
  case h_2 config _ =>
    split
    case h_1 r _ => exact .ofExcept (.ok r)
    case h_2 =>
      simp only [Cache.compileDecoder_fst]
      exact (compile_ends keeps Mode.own_decoding c.cache.stamp name config).bind
        fun compiled _ => .ofExcept (.ok compiled.routine)

/-- Whatever a codec did before, and with whatever handlers: an array for a positional record is
decoded to just what comes of its elements under the first keys of the fields, whether this is an
instance or a failure. A longer array is refused for its length if the record has a decoder, and
never decoded. -/
theorem decode_positional {c : Codec} (declarations : c.schema.Declared)
    (history : c.cache.History c.schema c.registry) {name : String} {overrides config : Config}
    {r : RecordType} (declared : c.schema.record? name = some r)
    (resolved : c.resolvedConfig name overrides = .ok config) (positional : r.kind = .positional)
    (noPaths : ∀ f ∈ r.fields, f.path = none) (cased : config.decodesWith ≠ .caseInsensitive)
    (apart : Locator.KeysApart config r.fields) (items : List Json) :
    (items.length ≤ r.fields.length →
      (c.decode name (.array items) overrides).1 =
        (c.decode name (.object (Locator.membersFor config r.fields items)) overrides).1) ∧
    (r.fields.length < items.length →
      (∀ back, ¬(c.decode name (.array items) overrides).1.Returns back) ∧
      (c.registry.KeepsAny → ∃ e, (c.decode name (.array items) overrides).1.Fails e) ∧
      ∀ d, (c.decoder name overrides).1.Returns d →
        (c.decode name (.array items) overrides).1.Fails
          (.invalid ("at most " ++ toString r.fields.length ++ " element(s) for \x60" ++ r.name ++
            "\x60") (.array items))) := by
  have noCatchAll := (declarations.checked declared).2.2.noCatchAll positional
  constructor
  · intro fits
    refine bind_congr_of fun d isDecoder => ?_
    obtain ⟨bound, parts, made, -, decodes⟩ :=
      exists_made_of_decoder declarations history declared resolved isDecoder
    have same : d.convertFor parts (.array items) =
        d.convertFor parts (.object (Locator.membersFor config r.fields items)) := by
      unfold Linked.convertFor
      rw [Json.weight_membersFor config fits]
    rw [← decode_of_decoder isDecoder, ← decode_of_decoder isDecoder, decodes, decodes, same]
    exact decodeRecord_membersFor positional noPaths cased apart noCatchAll fits
  · intro beyond
    have refused : ∀ d, (c.decoder name overrides).1.Returns d →
        (c.decode name (.array items) overrides).1.Fails
          (.invalid ("at most " ++ toString r.fields.length ++ " element(s) for \x60" ++ r.name ++
            "\x60") (.array items)) := by
      intro d isDecoder
      obtain ⟨bound, parts, made, -, decodes⟩ :=
        exists_made_of_decoder declarations history declared resolved isDecoder
      rw [decodes]
      refine Fails.bind_iff.2 (.inl (Fails.ofExcept_iff.2 ?_))
      simp [Decoder.checkForm, positional, beyond]
    refine ⟨fun back decoded => ?_, fun keeps => ?_, refused⟩
    · obtain ⟨d, isDecoder, -⟩ := Returns.bind_iff.1 decoded
      cases decoded.symm.trans (refused d isDecoder)
    · obtain ⟨result, ended⟩ := decoder_fst_ends keeps name overrides
      cases result with
      | ok d => exact ⟨_, refused d ended⟩
      | error e => exact ⟨e, Fails.bind_iff.2 (.inl ended)⟩

end Codec

namespace Points

def across : Field := { name := "x", type := .primitive .int }

def upwards : Field where
  name := "y"
  type := .primitive .int
  default := some (.declared (.string "0"))

def point : RecordType where
  name := "Point"
  kind := .positional
  fields := [across, upwards]

def codec : Codec where
  schema := { records := Table.empty.insert "Point" point }

theorem declared : codec.schema.Declared := .record point .empty rfl

theorem history : codec.cache.History codec.schema codec.registry := .empty 0 0

end Points

theorem Codec.decode_positional_point :
    (Points.codec.decode "Point" (.array [.string "7"]) {}).1 =
        (Points.codec.decode "Point" (.object [("x", .string "7")]) {}).1 ∧
      ∃ e, (Points.codec.decode "Point" (.array [.null, .null, .null]) {}).1.Fails e := by
  have isPoint : Points.codec.schema.record? "Point" = some Points.point := rfl
  have resolved : Points.codec.resolvedConfig "Point" {} = .ok {} := rfl
  have noPaths : ∀ f ∈ Points.point.fields, f.path = none := by
    simp [Points.point, Points.across, Points.upwards]
  have apart : Locator.KeysApart {} Points.point.fields := by
    rw [Locator.KeysApart, Points.point, List.pairwise_pair]
    decide
  have agree := Codec.decode_positional Points.declared Points.history isPoint resolved rfl noPaths
    nofun apart
  exact ⟨(agree [.string "7"]).1 (by simp [Points.point]),
    ((agree [.null, .null, .null]).2 (by simp [Points.point])).2.1 Registry.keepsAny_builtin⟩

end RecordCodec
