import Mathlib.Data.List.Nodup
import RecordCodec.Proofs.Containers
import RecordCodec.Proofs.Equality

set_option autoImplicit false

/-!
# Fields are read as they were written

The fields of a record are written at places that branch off from one another, or in the order of
their declaration, so the decoder finds each of them and no key is left over.
-/
namespace RecordCodec.Direct

open Routine Compile Converter

section
variable {α β : Type} {R : α → β → Prop} {a : Option α} {b : Option β}

theorem rel_cases (h : Option.Rel R a b) :
    (a = none ∧ b = none) ∨ ∃ x y, a = some x ∧ b = some y ∧ R x y := by
  cases h with
  | none => exact .inl ⟨rfl, rfl⟩
  | some related => exact .inr ⟨_, _, rfl, rfl, related⟩

theorem isSome_of_rel (h : Option.Rel R a b) : a.isSome = b.isSome := by
  cases h <;> rfl

end

theorem exists_forall_mem {α β : Type} {P : α → Option β → Prop} {as : List α}
    (h : ∀ a ∈ as, ∃ o, P a o) : ∃ f : α → Option β, ∀ a ∈ as, P a (f a) := by
  have all : ∀ a, ∃ o, a ∈ as → P a o := fun a => by
    by_cases mem : a ∈ as
    · obtain ⟨o, holds⟩ := h a mem
      exact ⟨o, fun _ => holds⟩
    · exact ⟨none, fun is => absurd is mem⟩
  choose f holds using all
  exact ⟨f, holds⟩

def Encodes (convert : Field → Encode) (given : Instance) (json : Field → Option Json)
    (field : Field) : Prop :=
  Option.Rel (fun v j => (convert field v).Returns j) (given.field? field.name) (json field)

def Decodes (convert : Field → Decode) (json : Field → Option Json)
    (back : List (String × Instance)) (field : Field) : Prop :=
  Option.Rel (fun j v => (convert field j).Returns v) (json field) (Assoc.get? field.name back)

section Encoding
variable {record : RecordType} {config : Config} {given : Instance} {convert : Field → Encode}
  {json : Field → Option Json}

theorem omits_eq_false {field : Field} (noSkip : field.skip.isAny = false)
    (keepsNone : config.omitsNone = false) (keepsDefault : config.omitsDefault = false)
    (v : Instance) (j : Json) :
    (Omission.ofField config field).omits v = false ∧
      (Omission.ofField config field).omitsEncoded j = false := by
  simp only [SkipRule.isAny, Bool.or_eq_false_iff, Option.isSome_eq_false_iff,
    Option.isNone_iff_eq_none] at noSkip
  obtain ⟨⟨⟨-, ifDefault⟩, ifNone⟩, none⟩ := noSkip
  constructor
  · simp [Omission.omits, Omission.ofField, ifNone, ifDefault, none, keepsNone, keepsDefault]
  · unfold Omission.omitsEncoded
    split <;> simp [Omission.ofField, ifDefault, keepsDefault]

/-- Where the encoded forms of fields go. -/
def writes (config : Config) (json : Field → Option Json) (fields : List Field) :
    List (List String × Json) :=
  fields.filterMap fun f => (json f).map fun j => ((Target.ofField config f).place, j)

def withMember (config : Config) (field : Field) (members : List (String × Json)) :
    Option Json → List (String × Json)
  | some j => (Target.ofField config field).write j members
  | none => members

theorem encodeInTurn_returns {field : Field} (notLast : field.catchAll = false)
    (noSkip : field.skip.isAny = false) (keepsNone : config.omitsNone = false)
    (keepsDefault : config.omitsDefault = false) (h : Encodes convert given json field)
    (members : List (String × Json)) :
    (encodeInTurn record config given (convert field) field members).Returns
      (withMember config field members (json field)) := by
  have omits := omits_eq_false noSkip keepsNone keepsDefault
  simp only [encodeInTurn, notLast, Bool.false_eq_true, if_false, encodeMember]
  rcases rel_cases h with ⟨isGiven, isJson⟩ | ⟨v, j, isGiven, isJson, returns⟩
  · simp [isGiven, isJson, withMember]
  · simp only [isGiven, isJson, (omits v j).1, Bool.false_eq_true, if_false,
      Run.Returns.bind_iff, Run.Returns.mapError_iff, Run.Returns.pure_iff]
    exact ⟨j, returns, by simp [(omits v j).2, withMember]⟩

theorem encodeMembers_returns {fields : List Field}
    (h : ∀ f ∈ fields, ∀ members,
      (encodeInTurn record config given (convert f) f members).Returns
        (withMember config f members (json f))) (members : List (String × Json)) :
    (encodeMembers record config given convert fields members).Returns
      (Target.writeAll (writes config json fields) members) := by
  induction fields generalizing members with
  | nil => simp [encodeMembers, writes, Target.writeAll]
  | cons f rest ih =>
    obtain ⟨first, others⟩ := List.forall_mem_cons.1 h
    rw [encodeMembers, Run.Returns.bind_iff]
    refine ⟨_, first members, ?_⟩
    cases isJson : json f with
    | none =>
      have same : writes config json (f :: rest) = writes config json rest := by
        simp [writes, isJson]
      rw [same]
      exact ih others members
    | some j =>
      have same : writes config json (f :: rest) =
          ((Target.ofField config f).place, j) :: writes config json rest := by
        simp [writes, isJson]
      rw [same, Target.writeAll, ← Target.write_eq]
      exact ih others _

theorem encodeElements_returns {fields : List Field}
    (h : ∀ f ∈ fields, Encodes convert given json f)
    (all : ∀ f ∈ fields, (json f).isSome = true) :
    (encodeElements record given convert fields).Returns (fields.filterMap json) := by
  induction fields with
  | nil => simp [encodeElements]
  | cons f rest ih =>
    obtain ⟨encodes, others⟩ := List.forall_mem_cons.1 h
    obtain ⟨first, later⟩ := List.forall_mem_cons.1 all
    rcases rel_cases encodes with ⟨-, isJson⟩ | ⟨v, j, isGiven, isJson, returns⟩
    · simp [isJson] at first
    · simp only [encodeElements, Run.Returns.bind_iff, Run.Returns.pure_iff, encodeElement,
        isGiven, Run.Returns.mapError_iff, List.filterMap_cons, isJson]
      exact ⟨j, returns, _, ih others later, rfl⟩

end Encoding

section Decoding
variable {record : RecordType} {config : Config} {input : Json} {convert : Field → Decode}
  {json : Field → Option Json} {back : List (String × Instance)}

/-- Fields that are a part of the declared ones, in their order, are put together from what is
looked up for each declared one. -/
theorem present_get? {fields : List Field} (distinct : (fields.map Field.name).Nodup)
    (order : (back.map Prod.fst).Sublist (fields.map Field.name)) :
    present fields (fields.map fun f => Assoc.get? f.name back) = back := by
  induction fields generalizing back with
  | nil =>
    have none : back = [] := by simpa using order
    simp [present, none]
  | cons f rest ih =>
    obtain ⟨new, distinct⟩ := List.nodup_cons.1 distinct
    rcases List.sublist_cons_iff.1 order with order | ⟨names, isCons, order⟩
    · have absent : Assoc.get? f.name back = none :=
        Assoc.get?_eq_none_iff.2 fun mem => new (order.subset mem)
      rw [List.map_cons, absent, present]
      exact ih distinct order
    · cases back with
      | nil => cases isCons
      | cons e back =>
        obtain ⟨name, v⟩ := e
        obtain ⟨rfl, rfl⟩ := List.cons.inj isCons
        have others : ∀ g ∈ rest,
            Assoc.get? g.name ((f.name, v) :: back) = Assoc.get? g.name back := by
          intro g mem
          have ne : f.name ≠ g.name := fun same => new (same ▸ List.mem_map_of_mem mem)
          rw [Assoc.get?, if_neg ne]
        rw [List.map_cons, List.map_congr_left others, Assoc.get?, if_pos rfl, present,
          ih distinct order]

theorem decodeFields_returns {index : Nat} {fields : List Field}
    (noCatchAll : ∀ f ∈ fields, f.catchAll = false)
    (located : ∀ e ∈ fields.zipIdx index, located? record config input e.2 e.1 = json e.1)
    (decodes : ∀ f ∈ fields, Decodes convert json back f)
    (defaults : ∀ f ∈ fields, f.default.isSome = true → f.name ∈ back.map Prod.fst) :
    (decodeFields record config input convert index fields).Returns
      (fields.map fun f => Assoc.get? f.name back) := by
  induction fields generalizing index with
  | nil => simp [decodeFields]
  | cons f rest ih =>
    obtain ⟨notLast, notLasts⟩ := List.forall_mem_cons.1 noCatchAll
    rw [List.zipIdx_cons] at located
    obtain ⟨isAt, areAt⟩ := List.forall_mem_cons.1 located
    obtain ⟨first, others⟩ := List.forall_mem_cons.1 decodes
    obtain ⟨default, later⟩ := List.forall_mem_cons.1 defaults
    simp only [decodeFields, Run.Returns.bind_iff, Run.Returns.pure_iff, decodeInTurn, notLast,
      Bool.false_eq_true, if_false, decodeField, isAt, List.map_cons]
    refine ⟨Assoc.get? f.name back, ?_, _, ih notLasts areAt others later, rfl⟩
    rcases rel_cases first with ⟨isJson, isBack⟩ | ⟨j, v, isJson, isBack, returns⟩
    · have noDefault : f.default = none := by
        by_contra some
        exact Assoc.get?_eq_none_iff.1 isBack (default (Option.isSome_iff_ne_none.2 some))
      simp [isJson, isBack, decodeAbsent, noDefault]
    · simp only [isJson, isBack, Run.Returns.bind_iff, Run.Returns.mapError_iff,
        Run.Returns.pure_iff]
      exact ⟨v, returns, rfl⟩

theorem decodeLeftOver_of_none (noCatchAll : ∀ f ∈ record.fields, f.catchAll = false)
    (nothing : leftOver record config input = []) (values : List (Option Instance)) :
    (decodeLeftOver record config input convert values).Returns values := by
  unfold decodeLeftOver
  rw [catchAllAt_eq_none_iff.2 noCatchAll, nothing]
  cases config.policy <;> simp

theorem mem_takenKeys {index : Nat} {fields : List Field} {f : Field} (mem : f ∈ fields)
    (notLast : f.catchAll = false) {key : String}
    (taken : ∀ index, ∃ spot, place? record config input index f = some spot ∧
      takenKey? spot = some key) :
    key ∈ takenKeys record config input index fields := by
  induction fields generalizing index with
  | nil => cases mem
  | cons g rest ih =>
    rw [takenKeys, List.mem_append]
    rcases List.mem_cons.1 mem with rfl | mem
    · obtain ⟨spot, isSpot, isKey⟩ := taken index
      exact .inl (by simp [notLast, isSpot, isKey])
    · exact .inr (ih mem)

/-- A record is decoded if each field is found and nothing else. -/
theorem decodeRecord_returns (distinct : (record.fields.map Field.name).Nodup)
    (noCatchAll : ∀ f ∈ record.fields, f.catchAll = false)
    (form : Compile.Decoder.checkForm record input = .ok ())
    (located : ∀ e ∈ record.fields.zipIdx, located? record config input e.2 e.1 = json e.1)
    (nothing : leftOver record config input = [])
    (decodes : ∀ f ∈ record.fields, Decodes convert json back f) (shape : record.HasFields back) :
    (decodeRecord record config input convert).Returns (.record record.name back) := by
  rw [decodeRecord_returns_iff]
  refine ⟨form, ?_, record.fields.map fun f => Assoc.get? f.name back, _, ?_,
    decodeLeftOver_of_none noCatchAll nothing _, by rw [present_get? distinct shape.order]⟩
  · refine missingFields_eq_nil_iff.2 fun e mem missed => ?_
    have isField := List.fst_mem_of_mem_zipIdx mem
    rw [located e mem] at missed
    rcases rel_cases (decodes _ isField) with ⟨-, isBack⟩ | ⟨j, -, isJson, -⟩
    · by_contra required
      have needed := shape.complete _ isField (.inl (by simpa using required))
      exact Assoc.get?_eq_none_iff.1 isBack needed
    · rw [missed] at isJson
      cases isJson
  · exact decodeFields_returns noCatchAll located decodes fun f mem has =>
      shape.complete f mem (.inr has)

end Decoding

section Objects
variable {record : RecordType} {config : Config} {json : Field → Option Json}

theorem mem_writes {fields : List Field} {e : List String × Json} :
    e ∈ writes config json fields ↔
      ∃ f ∈ fields, json f = some e.2 ∧ (Target.ofField config f).place = e.1 := by
  obtain ⟨p, v⟩ := e
  simp [writes, and_comm]

def written (record : RecordType) (config : Config) (json : Field → Option Json) :
    List (String × Json) :=
  Target.writeAll (writes config json record.fields) (tagMembers record config)

theorem ne_nil_of_mem_decodePlaces (checked : record.Checked) {f : Field} (mem : f ∈ record.fields)
    {p : List String} (isPlace : p ∈ decodePlaces config f) : p ≠ [] := by
  unfold decodePlaces at isPlace
  cases isPath : f.path with
  | some keys =>
    rw [isPath] at isPlace
    obtain rfl := List.mem_singleton.1 isPlace
    exact checked.path f mem p isPath
  | none =>
    rw [isPath] at isPlace
    obtain ⟨key, -, rfl⟩ := List.mem_map.1 isPlace
    exact List.cons_ne_nil _ _

theorem fetchPath_tagMembers {p : List String} (ne : p ≠ [])
    (offTag : ∀ e ∈ tagMembers record config, ¬p <+: [e.1]) :
    fetchPath p (.object (tagMembers record config)) = none := by
  cases p with
  | nil => contradiction
  | cons first rest =>
    unfold tagMembers at offTag ⊢
    split at offTag
    case h_1 key tag isKey isTag =>
      have off := offTag (key, .string tag) List.mem_cons_self
      by_cases same : key = first
      · subst same
        cases rest with
        | nil => exact absurd (List.prefix_refl _) off
        | cons second more => simp [fetchPath, Json.get?, Assoc.get?]
      · simp [fetchPath, Json.get?, Assoc.get?, same]
    case h_2 => simp [fetchPath, Json.get?, Assoc.get?]

variable (locates : Locates record config)
include locates

theorem diverge_of_ne {f g : Field} (memF : f ∈ record.fields) (memG : g ∈ record.fields)
    (other : f.name ≠ g.name) {p q : List String} (isF : p ∈ decodePlaces config f)
    (isG : q ∈ decodePlaces config g) : Diverge p q :=
  ⟨locates.apart f memF g memG other p isF q isG,
    locates.apart g memG f memF other.symm q isG p isF⟩

theorem place_mem_decodePlaces {f : Field} (mem : f ∈ record.fields) :
    (Target.ofField config f).place ∈ decodePlaces config f :=
  List.mem_of_mem_head? (locates.written f mem)

variable (checked : record.Checked)
include checked

theorem diverge_writes :
    (writes config json record.fields).Pairwise fun a b => Diverge a.1 b.1 := by
  rw [writes, List.pairwise_filterMap]
  refine (List.pairwise_map.1 checked.distinct).imp_of_mem fun memF memG other => ?_
  intro a isA b isB
  obtain ⟨v, -, rfl⟩ := Option.map_eq_some_iff.1 isA
  obtain ⟨w, -, rfl⟩ := Option.map_eq_some_iff.1 isB
  exact diverge_of_ne locates memF memG other (place_mem_decodePlaces locates memF)
    (place_mem_decodePlaces locates memG)

theorem place?_of_some {f : Field} (mem : f ∈ record.fields) {v : Json} (isJson : json f = some v)
    (index : Nat) :
    ∃ spot, place? record config (.object (written record config json)) index f = some spot ∧
      spot.fetch (.object (written record config json)) = some v ∧
      takenKey? spot = (Target.ofField config f).place.head? := by
  obtain ⟨others, places⟩ := List.head?_eq_some_iff.1 (locates.written f mem)
  have ne := ne_nil_of_mem_decodePlaces checked mem (place_mem_decodePlaces locates mem)
  exact Locator.locate_eq_some places (Target.fetchPath_writeAll (diverge_writes locates checked) ne
    (mem_writes.2 ⟨f, mem, isJson, rfl⟩) _)

theorem place?_of_none (offTag : ∀ f ∈ record.fields, ∀ p ∈ decodePlaces config f,
      ∀ e ∈ tagMembers record config, ¬p <+: [e.1]) {f : Field} (mem : f ∈ record.fields)
    (isJson : json f = none) (index : Nat) :
    place? record config (.object (written record config json)) index f = none := by
  refine Locator.locate_eq_none locates.cased fun p isPlace => ?_
  have apart : ∀ e ∈ writes config json record.fields, Diverge e.1 p := by
    intro e isWrite
    obtain ⟨g, memG, isOther, isTarget⟩ := mem_writes.1 isWrite
    have other : g.name ≠ f.name := by
      intro same
      rw [List.inj_on_of_nodup_map checked.distinct memG mem same, isJson] at isOther
      cases isOther
    rw [← isTarget]
    exact diverge_of_ne locates memG mem other (place_mem_decodePlaces locates memG) isPlace
  rw [written, Target.fetchPath_writeAll_of_diverge apart]
  exact fetchPath_tagMembers (ne_nil_of_mem_decodePlaces checked mem isPlace)
    (offTag f mem p isPlace)

theorem located?_written (offTag : ∀ f ∈ record.fields, ∀ p ∈ decodePlaces config f,
      ∀ e ∈ tagMembers record config, ¬p <+: [e.1]) {f : Field} (mem : f ∈ record.fields)
    (index : Nat) :
    located? record config (.object (written record config json)) index f = json f := by
  rw [located?]
  cases isJson : json f with
  | none => rw [place?_of_none locates checked offTag mem isJson, Option.bind_none]
  | some v =>
    obtain ⟨spot, isSpot, fetched, -⟩ := place?_of_some locates checked mem isJson index
    rw [isSpot, Option.bind_some, fetched]

/-- All keys of the object are taken by fields, or it is the tag's. -/
theorem leftOver_written :
    leftOver record config (.object (written record config json)) = [] := by
  refine List.filter_eq_nil_iff.2 fun key isKey => ?_
  rcases Target.mem_keys_writeAll isKey with isTag | ⟨e, isWrite, isHead⟩
  · have tagKey : tagKeyOf? record config = some key := by
      unfold tagMembers at isTag
      split at isTag
      case h_1 key' tag isTagKey _ =>
        have same : key = key' := by simpa [Assoc.keys] using isTag
        rw [tagKeyOf?, isTagKey, same]
      case h_2 => cases isTag
    simp [tagKey]
  · obtain ⟨f, mem, isJson, isTarget⟩ := mem_writes.1 isWrite
    have taken : key ∈ takenKeys record config (.object (written record config json)) 0
        record.fields := by
      refine mem_takenKeys mem (locates.noCatchAll f mem) fun index => ?_
      obtain ⟨spot, isSpot, -, takes⟩ := place?_of_some locates checked mem isJson index
      exact ⟨spot, isSpot, takes.trans (isTarget ▸ isHead)⟩
    simp [taken]

end Objects

section Arrays
variable {record : RecordType} {config : Config} {json : Field → Option Json}

theorem getElem?_filterMap {fields : List Field} (all : ∀ f ∈ fields, (json f).isSome = true)
    (k : Nat) : (fields.filterMap json)[k]? = fields[k]?.bind json := by
  induction fields generalizing k with
  | nil => simp
  | cons f rest ih =>
    obtain ⟨first, others⟩ := List.forall_mem_cons.1 all
    obtain ⟨v, isJson⟩ := Option.isSome_iff_exists.1 first
    rw [List.filterMap_cons, isJson]
    cases k with
    | zero => simp [isJson]
    | succ k => simpa using ih others k

theorem located?_elements (positional : record.kind = .positional)
    (all : ∀ f ∈ record.fields, (json f).isSome = true) {e : Field × Nat}
    (mem : e ∈ record.fields.zipIdx) :
    located? record config (.array (record.fields.filterMap json)) e.2 e.1 = json e.1 := by
  have isField : record.fields[e.2]? = some e.1 := List.mem_zipIdx_iff_getElem?.1 mem
  have found : (record.fields.filterMap json)[e.2]? = json e.1 := by
    rw [getElem?_filterMap all, isField, Option.bind_some]
  obtain ⟨v, isJson⟩ := Option.isSome_iff_exists.1 (all e.1 (List.mem_of_getElem? isField))
  have inRange := (List.getElem?_eq_some_iff.1 (found.trans isJson)).1
  have isPlace : place? record config (.array (record.fields.filterMap json)) e.2 e.1 =
      some (.index e.2) := by
    simp only [place?, Locator.locate, Locator.ofField, positional, if_true, Option.filter,
      inRange, decide_true, Option.map_some]
  rw [located?, isPlace, Option.bind_some]
  exact found

end Arrays

section Records
variable {schema : Schema} {record : RecordType} {config : Config} {given : Instance}
  {back : List (String × Instance)} {encode : Field → Encode} {decode : Field → Decode}

theorem isSome_of_positional (positional : record.kind = .positional)
    (noCatchAll : ∀ f ∈ record.fields, f.catchAll = false) (shape : record.HasFields back)
    {f : Field} (mem : f ∈ record.fields) : (Assoc.get? f.name back).isSome = true := by
  refine Assoc.isSome_get?_iff.2 (shape.complete f mem ?_)
  cases isDefault : f.default.isSome with
  | true => exact .inr rfl
  | false => exact .inl (by simp [Field.isRequired, noCatchAll f mem, isDefault, positional])

theorem absentFields_eq_nil (shape : record.HasFields back)
    (same : ∀ f ∈ record.fields, (given.field? f.name).isSome = (Assoc.get? f.name back).isSome) :
    absentFields record given record.fields = [] := by
  rw [absentFields, List.map_eq_nil_iff, List.filter_eq_nil_iff]
  intro f mem missed
  simp only [Bool.and_eq_true, Option.isNone_iff_eq_none] at missed
  have present := Assoc.isSome_get?_iff.2 (shape.complete f mem (.inl missed.1))
  rw [← same f mem, missed.2] at present
  cases present

/-- What a record is encoded to decodes to the record. -/
theorem recovers_record (checked : record.Checked) (inv : Invertible schema record config)
    (shape : record.HasFields back) (isRecord : Encoder.checkType record given = .ok ())
    (h : ∀ f ∈ record.fields, Option.Rel (Recovers (encode f) (decode f)) (given.field? f.name)
      (Assoc.get? f.name back)) :
    Recovers (fun v => encodeRecord record config v encode)
      (fun j => decodeRecord record config j decode) given (.record record.name back) := by
  have forms : ∀ f ∈ record.fields, ∃ o : Option Json,
      Option.Rel (fun v j => (encode f v).Returns j) (given.field? f.name) o ∧
        Option.Rel (fun j v => (decode f j).Returns v) o (Assoc.get? f.name back) := by
    intro f mem
    rcases rel_cases (h f mem) with ⟨isGiven, isBack⟩ | ⟨v, w, isGiven, isBack, both⟩
    · rw [isGiven, isBack]
      exact ⟨none, .none, .none⟩
    · obtain ⟨j, encoded, decoded⟩ := both
      rw [isGiven, isBack]
      exact ⟨some j, .some encoded, .some decoded⟩
  obtain ⟨json, forms⟩ := exists_forall_mem forms
  have encodes : ∀ f ∈ record.fields, Encodes encode given json f := fun f mem => (forms f mem).1
  have decodes : ∀ f ∈ record.fields, Decodes decode json back f := fun f mem => (forms f mem).2
  have present := absentFields_eq_nil shape fun f mem => isSome_of_rel (h f mem)
  have allFields : Encoder.fields record config = record.fields := by
    refine List.filter_eq_self.2 fun f mem => ?_
    have noSkip := inv.noSkip f mem
    simp only [SkipRule.isAny, Bool.or_eq_false_iff] at noSkip
    simp [noSkip.1.1.1]
  cases isArray : Encoder.inArrayForm record config with
  | true =>
    have positional : record.kind = .positional := by
      simp only [Encoder.inArrayForm, Bool.and_eq_true, beq_iff_eq] at isArray
      exact isArray.1
    have all : ∀ f ∈ record.fields, (json f).isSome = true := fun f mem => by
      rw [isSome_of_rel (decodes f mem)]
      exact isSome_of_positional positional inv.noCatchAll shape mem
    refine ⟨.array (record.fields.filterMap json), encodeRecord_returns_iff.2 ?_, ?_⟩
    · rw [allFields, encodeOutput, if_pos isArray]
      exact ⟨isRecord, present,
        Run.Returns.bind_iff.2 ⟨_, encodeElements_returns encodes all, rfl⟩⟩
    · have short := List.length_filterMap_le json record.fields
      have form : Decoder.checkForm record (.array (record.fields.filterMap json)) = .ok () := by
        simp [Decoder.checkForm, positional, short]
      exact decodeRecord_returns checked.distinct inv.noCatchAll form
        (fun e mem => located?_elements positional all mem) rfl decodes shape
  | false =>
    refine ⟨.object (written record config json), encodeRecord_returns_iff.2 ?_, ?_⟩
    · have noLast : record.fields.find? Field.catchAll = none := by
        simpa using inv.noCatchAll
      rw [allFields, encodeOutput, isArray, encodeObject, noLast]
      have members : (encodeMembers record config given encode record.fields
          (tagMembers record config)).Returns (written record config json) :=
        encodeMembers_returns (fun f mem => encodeInTurn_returns (inv.noCatchAll f mem)
          (inv.noSkip f mem) inv.keepsNone inv.keepsDefault (encodes f mem)) _
      exact ⟨isRecord, present, Run.Returns.bind_iff.2 ⟨_, members, rfl⟩⟩
    · exact decodeRecord_returns checked.distinct inv.noCatchAll rfl
        (fun e mem => located?_written inv.locates checked (inv.offTag isArray)
          (List.fst_mem_of_mem_zipIdx mem) e.2)
        (leftOver_written inv.locates checked) decodes shape

end Records

end RecordCodec.Direct
