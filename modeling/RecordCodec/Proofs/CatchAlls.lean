import RecordCodec.Proofs.NamedHandlers
import RecordCodec.Proofs.OmittedDefaults

set_option autoImplicit false

/-!
# Catch-all fields

A catch-all field takes what is left over of an object: each key at which no field was found, but
not the discriminator. An encoder writes it back last, and only under keys that are free, so that it
does not hide a field or the tag. As far as the handlers of a codec convert texts and values of any
type to themselves, what was left over comes out as it went in.
-/
namespace RecordCodec

open Routine Run Compile Direct
open Converter (Decode Encode)

/-! ### Mappings of texts to any values -/

def TypeExpr.dictOfAny : TypeExpr := apply .mapping [primitive .str, any]

/-- Objects are mappings with texts for keys and with values of any type. -/
structure Registry.KeepsObjects (registry : Registry) : Prop where
  mapping : registry.lookup? .dictOfAny = some .mapping
  key : registry.lookup? (.primitive .str) = some (.scalar .str)
  item : registry.lookup? .any = some (.scalar .any)

theorem Registry.keepsObjects_builtin : Registry.builtin.KeepsObjects := ⟨rfl, rfl, rfl⟩

def Instance.ofObject (members : List (String × Json)) : Instance :=
  .map (members.map fun m => (.str m.1, .dynamic m.2))

namespace Converter

def dictOfAny : Converter := .mapping (.scalar .str) (.scalar .any)

variable {members : List (String × Json)}

theorem decodeEntries_dictOfAny (members : List (String × Json)) :
    decodeEntries (fun v => .ofExcept (Scalar.decode .str v))
      (fun v => .ofExcept (Scalar.decode .any v)) members =
      pure (members.map fun m => (Instance.str m.1, Instance.dynamic m.2)) := by
  induction members with
  | nil => rfl
  | cons m rest ih =>
    rw [decodeEntries, ih]
    rfl

theorem decode_dictOfAny (calls : Calls Json Instance) (members : List (String × Json)) :
    dictOfAny.decode calls (.object members) = pure (.ofObject members) := by
  show (decodeEntries (fun v => .ofExcept (Scalar.decode .str v))
    (fun v => .ofExcept (Scalar.decode .any v)) members >>= fun entries =>
      pure (Instance.map entries)) = _
  rw [decodeEntries_dictOfAny, pure_bind]
  rfl

theorem encodeEntries_dictOfAny (members out : List (String × Json)) :
    encodeEntries (fun v => .ofExcept (Scalar.encode .str v))
      (fun v => .ofExcept (Scalar.encode .any v))
      (members.map fun m => (Instance.str m.1, Instance.dynamic m.2)) out =
      pure (members.foldl (fun acc m => Assoc.insert m.1 m.2 acc) out) := by
  induction members generalizing out with
  | nil => rfl
  | cons m rest ih =>
    rw [List.map_cons, List.foldl_cons, ← ih]
    rfl

theorem encode_dictOfAny (calls : Calls Instance Json) (distinct : (Assoc.keys members).Nodup) :
    dictOfAny.encode calls (.ofObject members) = pure (.object members) := by
  have asWritten : members.foldl (fun acc m => Assoc.insert m.1 m.2 acc) [] = members :=
    Assoc.ofList_eq_self distinct
  show (encodeEntries (fun v => .ofExcept (Scalar.encode .str v))
    (fun v => .ofExcept (Scalar.encode .any v))
    (members.map fun m => (Instance.str m.1, Instance.dynamic m.2)) [] >>=
      fun members => pure (Json.object members)) = _
  rw [encodeEntries_dictOfAny, asWritten, pure_bind]

end Converter

theorem Compile.Compiles.eq_dictOfAny {schema : Schema} {registry : Registry} {bound : Binding}
    {here : Position} {c : Converter} (keeps : registry.KeepsObjects)
    (compiles : Compiles schema registry bound here .dictOfAny c) : c = .dictOfAny := by
  have handled : Handled schema registry .dictOfAny .mapping .dictOfAny := by
    show registry.resolve schema .dictOfAny = _
    rw [Registry.resolve, keeps.mapping]
  have isKey : Handled schema registry (.primitive .str) (.scalar .str) (.primitive .str) := by
    show registry.resolve schema (.primitive .str) = _
    rw [Registry.resolve, keeps.key]
  have isItem : Handled schema registry .any (.scalar .any) .any := by
    show registry.resolve schema .any = _
    rw [Registry.resolve, keeps.item]
  obtain ⟨key, item, rfl, compilesKey, compilesItem⟩ := compiles.compiledBy handled
  obtain rfl : key = .scalar .str := compilesKey.compiledBy isKey
  obtain rfl : item = .scalar .any := compilesItem.compiledBy isItem
  rfl

theorem RecordType.Checked.eq_of_catchAll {record : RecordType} (checked : record.Checked)
    {f g : Field} (isField : f ∈ record.fields) (last : f.catchAll = true)
    (isField' : g ∈ record.fields) (last' : g.catchAll = true) : g = f := by
  obtain ⟨k, isF⟩ := List.mem_iff_getElem?.1 isField
  obtain ⟨k', isG⟩ := List.mem_iff_getElem?.1 isField'
  by_cases same : k = k'
  · subst same
    exact Option.some.inj (isG.symm.trans isF)
  · cases last.symm.trans (checked.not_catchAll isG last' isF same)

/-! ### What is left over -/

namespace Direct

section Decoding
variable {record : RecordType} {config : Config} {input : Json} {convert : Field → Decode}
  {members : List (String × Json)}

theorem mem_takenKeys_iff {index : Nat} {fields : List Field} {key : String} :
    key ∈ takenKeys record config input index fields ↔
      ∃ k g place, fields[k]? = some g ∧ g.catchAll = false ∧
        place? record config input (index + k) g = some place ∧ takenKey? place = some key := by
  induction fields generalizing index with
  | nil => simp [takenKeys]
  | cons f rest ih =>
    rw [takenKeys, List.mem_append, ih, Option.mem_toList]
    constructor
    · rintro (own | ⟨k, g, place, isField, others⟩)
      · split at own
        case isTrue => cases own
        case isFalse plain =>
          obtain ⟨place, found, takes⟩ := Option.bind_eq_some_iff.1 own
          exact ⟨0, f, place, rfl, by simpa using plain, found, takes⟩
      · refine ⟨k + 1, g, place, isField, ?_⟩
        rwa [Nat.add_assoc, Nat.add_comm 1 k] at others
    · rintro ⟨_ | k, g, place, isField, plain, found, takes⟩
      · cases isField
        rw [plain]
        exact .inl (Option.bind_eq_some_iff.2 ⟨place, found, takes⟩)
      · refine .inr ⟨k, g, place, isField, plain, ?_, takes⟩
        rwa [Nat.add_assoc, Nat.add_comm 1 k]

theorem mem_leftOver_iff {key : String} :
    key ∈ leftOver record config input ↔ key ∈ input.keys ∧
      (∀ k g place, record.fields[k]? = some g → g.catchAll = false →
        place? record config input k g = some place → takenKey? place ≠ some key) ∧
      tagKeyOf? record config ≠ some key := by
  have untaken : key ∉ takenKeys record config input 0 record.fields ↔
      ∀ k g place, record.fields[k]? = some g → g.catchAll = false →
        place? record config input k g = some place → takenKey? place ≠ some key := by
    rw [mem_takenKeys_iff]
    simp only [Nat.zero_add, not_exists, not_and, ne_eq]
  simp only [leftOver, List.mem_filter, Bool.and_eq_true, Bool.not_eq_true', bne_iff_ne,
    List.contains_eq_mem, decide_eq_false_iff_not, untaken]

def leftMembers (record : RecordType) (config : Config) (members : List (String × Json)) :
    List (String × Json) :=
  members.filter fun m => decide (m.1 ∈ leftOver record config (.object members))

theorem nodup_leftMembers (distinct : (Assoc.keys members).Nodup) :
    (Assoc.keys (leftMembers record config members)).Nodup :=
  distinct.sublist (List.filter_sublist.map Prod.fst)

theorem gathered_eq (distinct : (Assoc.keys members).Nodup) :
    gathered record config (.object members) = .object (leftMembers record config members) := by
  let isLeft (key : String) : Bool := decide (key ∈ leftOver record config (.object members))
  have keys : leftOver record config (.object members) = (Assoc.keys members).filter isLeft := by
    refine List.filter_congr fun key isKey => ?_
    have isKey : key ∈ (Json.object members).keys := isKey
    simp only [isLeft, leftOver, List.mem_filter, isKey, true_and, Bool.decide_eq_true]
  have asTheyAre : (leftOver record config (.object members)).map
      (fun key => (key, ((Json.object members).get? key).getD .null)) =
        leftMembers record config members := by
    rw [keys, Assoc.keys, List.filter_map, List.map_map]
    refine (List.map_congr_left fun m mem => ?_).trans (List.map_id _)
    have isThere : (Json.object members).get? m.1 = some m.2 :=
      Assoc.get?_of_mem distinct (List.mem_filter.1 mem).1
    simp only [Function.comp_apply, isThere, Option.getD_some, id_eq]
  rw [gathered, asTheyAre, Json.ofMembers, Assoc.ofList_eq_self (nodup_leftMembers distinct)]

theorem catchAll_of_decodeRecord (checked : record.Checked) {back : Instance}
    (decoded : (decodeRecord record config input convert).Returns back) {f : Field}
    (isField : f ∈ record.fields) (last : f.catchAll = true) :
    ∃ x, back.field? f.name = some x ∧ (convert f (gathered record config input)).Returns x := by
  obtain ⟨-, -, values, values', filled, completed, rfl⟩ := decodeRecord_returns_iff.1 decoded
  rcases decodeLeftOver_returns completed with ⟨-, none⟩ | ⟨k, g, x, isLast, last', returns, rfl⟩
  · cases last.symm.trans (none f isField)
  obtain rfl := checked.eq_of_catchAll isField last (List.mem_of_getElem? isLast) last'
  have inRange : k < values.length := by
    rw [← (decodeFields_returns_iff.1 filled).length_eq, List.length_zipIdx]
    exact (List.getElem?_eq_some_iff.1 isLast).1
  have isPresent : (g.name, x) ∈ present record.fields (values.set k (some x)) :=
    mem_present_iff.2 ⟨k, g, isLast, List.getElem?_set_self inRange, rfl⟩
  have names := checked.distinct.sublist (present_sublist record.fields (values.set k (some x)))
  exact ⟨x, Assoc.get?_of_mem names isPresent, returns⟩

end Decoding

/-! ### What is written back -/

section Encoding
variable {record : RecordType} {config : Config} {given : Instance} {convert : Field → Encode}
  {members extra : List (String × Json)} {key : String}

theorem get?_addFree_of_none (free : Assoc.get? key members = none) :
    Assoc.get? key (Encoder.addFree extra members) = Assoc.get? key extra := by
  induction extra generalizing members with
  | nil => exact free
  | cons e rest ih =>
    obtain ⟨other, w⟩ := e
    rw [Encoder.addFree, List.foldl_cons]
    by_cases same : other = key
    · subst same
      have new : Assoc.contains other members = false := by rw [Assoc.contains, free]; rfl
      have added : Assoc.get? other (members ++ [(other, w)]) = some w := by
        rw [Assoc.get?_append, free]
        simp [Assoc.get?]
      simp only [new, Bool.false_eq_true, if_false]
      rw [← Encoder.addFree, Encoder.get?_addFree added]
      simp [Assoc.get?]
    · have later : Assoc.get? key ((other, w) :: rest) = Assoc.get? key rest := by
        simp [Assoc.get?, same]
      rw [later]
      refine ih ?_
      simp only
      split
      · exact free
      · rw [Assoc.get?_append, free]
        simp [Assoc.get?, same]

theorem get?_tagMembers_of_ne (other : tagKeyOf? record config ≠ some key) :
    Assoc.get? key (tagMembers record config) = none := by
  unfold tagMembers
  split
  case h_1 tagKey tag isKey _ =>
    have ne : tagKey ≠ key := by
      rintro rfl
      exact other (by rw [tagKeyOf?, isKey])
    simp [Assoc.get?, ne]
  case h_2 => rfl

theorem inArrayForm_of_catchAll (checked : record.Checked) {f : Field}
    (isField : f ∈ record.fields) (last : f.catchAll = true) (config : Config) :
    Encoder.inArrayForm record config = false := by
  rcases checked.catchAll with none | ⟨notPositional, -⟩
  · have mem : f ∈ record.fields.filter Field.catchAll := List.mem_filter.2 ⟨isField, last⟩
    rw [none] at mem
    cases mem
  · simp [Encoder.inArrayForm, notPositional]

theorem exists_splat (checked : record.Checked) {f : Field} (isField : f ∈ record.fields)
    (last : f.catchAll = true) (sometimes : f.skip.always = false) {j : Json}
    (h : (encodeRecord record config given convert).Returns j) :
    ∃ written extra, j = .object (Encoder.addFree extra written) ∧
      (encodeMembers record config given convert (Encoder.fields record config)
        (tagMembers record config)).Returns written ∧
      (splatMembers record given (convert f) f).Returns extra := by
  have form := inArrayForm_of_catchAll checked isField last config
  have inFields : f ∈ Encoder.fields record config :=
    List.mem_filter.2 ⟨isField, by simp [sometimes]⟩
  have found : (Encoder.fields record config).find? Field.catchAll = some f := by
    have isSome : ((Encoder.fields record config).find? Field.catchAll).isSome = true :=
      List.find?_isSome.2 ⟨f, inFields, last⟩
    obtain ⟨g, isG⟩ := Option.isSome_iff_exists.1 isSome
    have isField' := (List.mem_filter.1 (List.mem_of_find?_eq_some isG)).1
    rw [isG, checked.eq_of_catchAll isField last isField' (List.find?_some isG)]
  obtain ⟨-, -, h⟩ := encodeRecord_returns_iff.1 h
  rw [encodeOutput, form, if_neg Bool.false_ne_true] at h
  obtain ⟨written, isWritten, h⟩ := Returns.bind_iff.1 h
  rw [found] at h
  obtain ⟨extra, isExtra, isObject⟩ := Returns.bind_iff.1 h
  exact ⟨written, extra, (Returns.pure_iff.1 isObject).symm, isWritten, isExtra⟩

/-- No field and no tag is written under a key that is left over, if no field starts with it. -/
theorem get?_of_mem_leftOver (checked : record.Checked) {f : Field} (isField : f ∈ record.fields)
    (last : f.catchAll = true) {input : Json} (isLeft : key ∈ leftOver record config input)
    (off : ∀ g ∈ record.fields, g.catchAll = false → g.skip.always = false →
      (Target.ofField config g).place.head? ≠ some key)
    {written : List (String × Json)}
    (h : (encodeMembers record config given convert (Encoder.fields record config)
      (tagMembers record config)).Returns written) : Assoc.get? key written = none := by
  rw [get?_of_encodeMembers (fun g inFields plain _ => ?_) h]
  · exact get?_tagMembers_of_ne (mem_leftOver_iff.1 isLeft).2.2
  · obtain ⟨isField', kept⟩ := List.mem_filter.1 inFields
    rw [inArrayForm_of_catchAll checked isField last, Bool.false_or, Bool.not_eq_true'] at kept
    exact off g isField' plain kept

end Encoding
end Direct

section Calls
variable {schema : Schema} {registry : Registry} {bound : Binding} {name : String}
  {config : Config} {record : RecordType} {parts : List (Field × Converter)}
  {members : List (String × Json)} {f : Field}

theorem Compile.Made.field?_of_decode {code : Code Json Instance}
    (made : Made schema registry .decoding bound name config record parts code)
    (declarations : schema.Declared) (keeps : registry.KeepsObjects) (isField : f ∈ record.fields)
    (last : f.catchAll = true) (isDict : f.type = .dictOfAny)
    (distinct : (Assoc.keys members).Nodup) {calls : Calls Json Instance} {back : Instance}
    (decoded : (decodeRecord record config (.object members)
      (convertBy (fun c => c.decode calls) parts)).Returns back) :
    back.field? f.name = some (.ofObject (leftMembers record config members)) := by
  have checked := (declarations.checked made.declared).2.2
  obtain ⟨x, isValue, returns⟩ := catchAll_of_decodeRecord checked decoded isField last
  obtain ⟨c, isPart⟩ := made.exists_part isField
  obtain rfl := (isDict ▸ made.compiled f c isPart).eq_dictOfAny keeps
  rw [convertBy_of_mem (made.distinct declarations (.refl _)) isPart, gathered_eq distinct,
    Converter.decode_dictOfAny] at returns
  rw [isValue, Returns.pure_iff.1 returns]

theorem Compile.Made.eq_of_splatMembers {code : Code Instance Json}
    (made : Made schema registry .encoding bound name config record parts code)
    (declarations : schema.Declared) (keeps : registry.KeepsObjects) (isField : f ∈ record.fields)
    (isDict : f.type = .dictOfAny) (sometimes : f.skip.always = false)
    (distinct : (Assoc.keys members).Nodup) {calls : Calls Instance Json} {given : Instance}
    (held : given.field? f.name = some (.ofObject members)) {extra : List (String × Json)}
    (splat : (splatMembers record given (convertBy (fun c => c.encode calls) parts f) f).Returns
      extra) : extra = members := by
  have inFields : f ∈ Encoder.fields record config :=
    List.mem_filter.2 ⟨isField, by simp [sometimes]⟩
  obtain ⟨c, isPart⟩ := made.exists_part inFields
  obtain rfl := (isDict ▸ made.compiled f c isPart).eq_dictOfAny keeps
  rw [splatMembers, held] at splat
  simp only [convertBy_of_mem (made.distinct declarations List.filter_sublist) isPart,
    Converter.encode_dictOfAny _ distinct, pure_bind] at splat
  exact (Returns.pure_iff.1 (Returns.mapError_iff.1 splat)).symm

end Calls

namespace Codec

theorem exists_encodeRecord_of_encode {c : Codec} (declarations : c.schema.Declared)
    (history : c.cache.History c.schema c.registry) {record : String} {overrides config : Config}
    {r : RecordType} (declared : c.schema.record? record = some r)
    (resolved : c.resolvedConfig record overrides = .ok config) {given : Instance} {j : Json}
    (encoded : (c.encode record given overrides).1.Returns j) :
    ∃ bound parts calls code, Made c.schema c.registry .encoding bound record config r parts code ∧
      (encodeRecord r config given (convertBy (fun c => c.encode calls) parts)).Returns j := by
  obtain ⟨e, isEncoder, called⟩ := Returns.bind_iff.1 encoded
  obtain ⟨config', resolved', traced⟩ := encoder_traced history isEncoder
  obtain rfl := Except.ok.inj (resolved.symm.trans resolved')
  obtain ⟨bound, r', parts, made, -⟩ := traced.code
  obtain rfl := Option.some.inj (declared.symm.trans made.declared)
  obtain ⟨fuel, enough⟩ := e.exists_callBound given.depth
  rw [Encoder.call, enough, made.callWithin_encode declarations] at called
  exact ⟨bound, parts, e.calls fuel, e.code, made, called⟩

/-- Whatever a codec did before: a catch-all field of texts and values of any type, if the handlers
keep these, holds the members of an object, in their order, at whose keys no field was found and
which are not the discriminator. When an instance is encoded, what the fields and the tag have
written stays, and what was decoded has each of these members again at whose key no field starts. -/
theorem catchAll_conserves {c : Codec} (declarations : c.schema.Declared)
    (history : c.cache.History c.schema c.registry) (keeps : c.registry.KeepsObjects)
    {name : String} {overrides config : Config} {r : RecordType}
    (declared : c.schema.record? name = some r)
    (resolved : c.resolvedConfig name overrides = .ok config) {f : Field}
    (isField : f ∈ r.fields) (last : f.catchAll = true) (isDict : f.type = .dictOfAny)
    (sometimes : f.skip.always = false) {members : List (String × Json)}
    (distinct : (Assoc.keys members).Nodup) {back : Instance}
    (decoded : (c.decode name (.object members) overrides).1.Returns back) :
    (∀ m, m ∈ leftMembers r config members ↔ m ∈ members ∧
      (∀ k g place, r.fields[k]? = some g → g.catchAll = false →
        place? r config (.object members) k g = some place → takenKey? place ≠ some m.1) ∧
      tagKeyOf? r config ≠ some m.1) ∧
    back.field? f.name = some (.ofObject (leftMembers r config members)) ∧
    ∀ given j, ((c.decode name (.object members) overrides).2.encode name given overrides).1.Returns
        j → ∃ bound parts calls code written,
      Made c.schema c.registry .encoding bound name config r parts code ∧
      (encodeMembers r config given (convertBy (fun c => c.encode calls) parts)
        (Encoder.fields r config) (tagMembers r config)).Returns written ∧
      (∃ out, j = .object out) ∧
      (∀ key w, Assoc.get? key written = some w → j.get? key = some w) ∧
      (given = back → ∀ m ∈ leftMembers r config members,
        (∀ g ∈ r.fields, g.catchAll = false → g.skip.always = false →
          (Target.ofField config g).place.head? ≠ some m.1) → j.get? m.1 = some m.2) := by
  have checked := (declarations.checked declared).2.2
  obtain ⟨bound, parts, calls, code, made, isBack⟩ :=
    exists_decodeRecord_of_decode declarations history declared resolved decoded
  have held := made.field?_of_decode declarations keeps isField last isDict distinct isBack
  refine ⟨fun m => ?_, held, fun given j encoded => ?_⟩
  · rw [leftMembers, List.mem_filter, decide_eq_true_iff, mem_leftOver_iff]
    refine and_congr_right fun isMember => ?_
    have isKey : m.1 ∈ (Json.object members).keys := List.mem_map_of_mem isMember
    simp only [isKey, true_and]
  · -- the codec has the same schema and handlers as before
    obtain ⟨cache, after, later, -⟩ := decoder_snd name overrides history
    have successor : (c.decode name (.object members) overrides).2 = { c with cache } := after
    rw [successor] at encoded
    obtain ⟨bound, parts, calls, code, made, isJson⟩ :=
      exists_encodeRecord_of_encode (c := { c with cache }) declarations later declared resolved
        encoded
    obtain ⟨written, extra, rfl, isWritten, splat⟩ :=
      exists_splat checked isField last sometimes isJson
    refine ⟨bound, parts, calls, code, written, made, isWritten, ⟨_, rfl⟩,
      fun key w isThere => Encoder.get?_addFree isThere, ?_⟩
    rintro rfl m isLeft off
    have distinct' : (Assoc.keys (leftMembers r config members)).Nodup :=
      nodup_leftMembers distinct
    obtain rfl := made.eq_of_splatMembers declarations keeps isField isDict sometimes distinct'
      held splat
    have isLeftOver := of_decide_eq_true (List.mem_filter.1 isLeft).2
    show Assoc.get? m.1 _ = _
    rw [get?_addFree_of_none (get?_of_mem_leftOver checked isField last isLeftOver off isWritten)]
    exact Assoc.get?_of_mem distinct' isLeft

end Codec

namespace Notes

def titleField : Field := { name := "title", type := .primitive .str }

def extrasField : Field := { name := "extras", type := .dictOfAny, catchAll := true }

def note : RecordType where
  name := "Note"
  fields := [titleField, extrasField]

def codec : Codec where
  schema := { records := Table.empty.insert "Note" note }

theorem declared : codec.schema.Declared := .record note .empty rfl

theorem history : codec.cache.History codec.schema codec.registry := .empty 0 0

def members : List (String × Json) :=
  [("pages", .array [.ofInt64 2]), ("title", .string "a"), ("label", .string "abc")]

theorem leftMembers_note :
    leftMembers note {} members = [("pages", .array [.ofInt64 2]), ("label", .string "abc")] := by
  rfl

/-- Reads a text as its length, whatever the type says of it. -/
def measuring : Codec := codec.register (.type "Any") (.custom Columns.measure Columns.draw)

def labelled : List (String × Json) := [("title", .string "a"), ("label", .string "abc")]

end Notes

theorem Codec.catchAll_conserves_note : ∃ back j,
    (Notes.codec.decode "Note" (.object Notes.members) {}).1.Returns back ∧
      back.field? "extras" =
        some (.ofObject [("pages", .array [.ofInt64 2]), ("label", .string "abc")]) ∧
      ((Notes.codec.decode "Note" (.object Notes.members) {}).2.encode "Note" back {}).1.Returns j ∧
      j.get? "label" = some (.string "abc") := by
  have decodes : (Notes.codec.decode "Note" (.object Notes.members) {}).1.returnsWith
      (fun back => ((Notes.codec.decode "Note" (.object Notes.members) {}).2.encode "Note" back
        {}).1.returnsWith fun _ => true) = true := rfl
  obtain ⟨back, decoded, encodes⟩ := exists_of_returnsWith decodes
  obtain ⟨j, encoded, -⟩ := exists_of_returnsWith encodes
  have isNote : Notes.codec.schema.record? "Note" = some Notes.note := rfl
  have resolved : Notes.codec.resolvedConfig "Note" {} = .ok {} := rfl
  have isField : Notes.extrasField ∈ Notes.note.fields := by simp [Notes.note]
  have distinct : (Assoc.keys Notes.members).Nodup := by simp [Assoc.keys, Notes.members]
  obtain ⟨-, held, conserves⟩ := catchAll_conserves Notes.declared Notes.history
    Registry.keepsObjects_builtin isNote resolved isField rfl rfl rfl distinct decoded
  rw [Notes.leftMembers_note] at held conserves
  obtain ⟨_, _, _, _, _, -, -, -, -, again⟩ := conserves back j encoded
  refine ⟨back, j, decoded, held, encoded, again rfl ("label", .string "abc") (by simp) ?_⟩
  intro g isField plain _
  have isTitle : g = Notes.titleField := by
    simp only [Notes.note, List.mem_cons, List.not_mem_nil, or_false] at isField
    rcases isField with rfl | rfl
    · rfl
    · cases plain
  rw [isTitle]
  decide

/-- With a handler of its own for values of any type, the label of a note is kept as its length. -/
theorem Codec.not_catchAll_conserves_label : ∃ back,
    Notes.measuring.schema.Declared ∧ Notes.extrasField.type = .dictOfAny ∧
      (Notes.measuring.decode "Note" (.object Notes.labelled) {}).1.Returns back ∧
      leftMembers Notes.note {} Notes.labelled = [("label", .string "abc")] ∧
      back.field? "extras" ≠ some (.ofObject [("label", .string "abc")]) := by
  have decodes : (Notes.measuring.decode "Note" (.object Notes.labelled) {}).1.returnsWith
      (fun back => ((back.field? "extras").bind Instance.entries?).any fun entries =>
        entries.map (fun e => e.2.kindName) == ["int"]) = true := rfl
  obtain ⟨back, decoded, isLength⟩ := exists_of_returnsWith decodes
  refine ⟨back, Notes.declared, rfl, decoded, rfl, fun held => ?_⟩
  rw [held] at isLength
  cases isLength

end RecordCodec
