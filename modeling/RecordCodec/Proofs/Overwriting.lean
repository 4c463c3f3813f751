import RecordCodec.Proofs.UnionKeys

set_option autoImplicit false

/-!
# Fields written over others

An encoder writes its fields one after another, each at its own target, and looks at nothing that
stands there. So a value stays where it was written as long as the targets of the fields after it
branch off from its own; the entries of a catch-all field come last and only under keys that are
free. Nothing keeps the targets of a record apart, though: a path may lead through another field.
-/
namespace RecordCodec

open Routine Run Compile Direct
open Converter (Encode)

/-- The encoder writes the field, as this value: it is no catch-all, the instance has it, and no
rule leaves it out. -/
structure Direct.WrittenAs (config : Config) (given : Instance) (convert : Encode) (f : Field)
    (w : Json) : Prop where
  plain : f.catchAll = false
  encoded : ∃ v, given.field? f.name = some v ∧ (Omission.ofField config f).omits v = false ∧
    (convert v).Returns w
  kept : (Omission.ofField config f).omitsEncoded w = false

theorem Compile.Target.place_ne_nil {record : RecordType} (checked : record.Checked)
    (config : Config) {f : Field} (isField : f ∈ record.fields) :
    (ofField config f).place ≠ [] := by
  unfold ofField
  split
  case h_1 keys isPath => exact checked.path f isField keys isPath
  case h_2 => exact List.cons_ne_nil _ _
  case h_3 => split <;> exact List.cons_ne_nil _ _
  case h_4 => exact List.cons_ne_nil _ _

theorem Compile.Encoder.fetchPath_addFree {members extra : List (String × Json)}
    {path : List String} (ne : path ≠ []) {w : Json}
    (found : fetchPath path (.object members) = some w) :
    fetchPath path (.object (addFree extra members)) = some w := by
  obtain ⟨key, rest, rfl⟩ := List.exists_cons_of_ne_nil ne
  obtain ⟨v, isThere, below⟩ := Option.bind_eq_some_iff.1 found
  rw [fetchPath, Json.get?, get?_addFree isThere]
  exact below

section Members
variable {record : RecordType} {config : Config} {given : Instance}
  {members out : List (String × Json)}

theorem Direct.of_encodeInTurn {convert : Encode} {f : Field}
    (h : (encodeInTurn record config given convert f members).Returns out) :
    (∃ w, WrittenAs config given convert f w ∧
      out = Target.writePath w (Target.ofField config f).place members) ∨
    (out = members ∧ ∀ w, ¬WrittenAs config given convert f w) := by
  unfold encodeInTurn at h
  split at h
  case isTrue catches =>
    exact .inr ⟨(Returns.pure_iff.1 h).symm, fun w written => by simp [written.plain] at catches⟩
  case isFalse notLast =>
    have plain : f.catchAll = false := by simpa using notLast
    unfold encodeMember at h
    simp only at h
    split at h
    case h_1 absent =>
      refine .inr ⟨(Returns.pure_iff.1 h).symm, fun w written => ?_⟩
      obtain ⟨v, isGiven, -⟩ := written.encoded
      cases absent.symm.trans isGiven
    case h_2 v isGiven =>
      split at h
      case isTrue omitted =>
        refine .inr ⟨(Returns.pure_iff.1 h).symm, fun w written => ?_⟩
        obtain ⟨v', isGiven', taken, -⟩ := written.encoded
        cases isGiven.symm.trans isGiven'
        cases omitted.symm.trans taken
      case isFalse taken =>
        obtain ⟨w, returns, h⟩ := Returns.bind_iff.1 h
        have returns := Returns.mapError_iff.1 returns
        have isOut := Returns.pure_iff.1 h
        split at isOut
        case isTrue omitted =>
          refine .inr ⟨isOut.symm, fun w' written => ?_⟩
          obtain ⟨v', isGiven', -, returns'⟩ := written.encoded
          cases isGiven.symm.trans isGiven'
          cases returns.symm.trans returns'
          cases omitted.symm.trans written.kept
        case isFalse kept =>
          refine .inl ⟨w, ⟨plain, ⟨v, isGiven, by simpa using taken, returns⟩,
            by simpa using kept⟩, ?_⟩
          rw [← isOut, Target.write_eq]

variable {convert : Field → Encode}

theorem Direct.exists_encoded {fields : List Field}
    (h : (encodeMembers record config given convert fields members).Returns out) {f : Field}
    (isField : f ∈ fields) (plain : f.catchAll = false) {v : Instance}
    (isGiven : given.field? f.name = some v)
    (taken : (Omission.ofField config f).omits v = false) : ∃ w, (convert f v).Returns w := by
  induction fields generalizing members with
  | nil => cases isField
  | cons g rest ih =>
    obtain ⟨next, isNext, h⟩ := Returns.bind_iff.1 h
    rcases List.mem_cons.1 isField with rfl | later
    · simp only [encodeInTurn, plain, Bool.false_eq_true, if_false, encodeMember, isGiven,
        taken] at isNext
      obtain ⟨w, returns, -⟩ := Returns.bind_iff.1 isNext
      exact ⟨w, Returns.mapError_iff.1 returns⟩
    · exact ih h later

theorem Direct.fetchPath_of_encodeMembers {fields : List Field} {path : List String}
    (off : ∀ g ∈ fields, ∀ w, WrittenAs config given (convert g) g w →
      Diverge path (Target.ofField config g).place)
    (h : (encodeMembers record config given convert fields members).Returns out) :
    fetchPath path (.object out) = fetchPath path (.object members) := by
  induction fields generalizing members with
  | nil => rw [Returns.pure_iff.1 h]
  | cons g rest ih =>
    obtain ⟨first, others⟩ := List.forall_mem_cons.1 off
    obtain ⟨next, isNext, h⟩ := Returns.bind_iff.1 h
    rw [ih others h]
    rcases of_encodeInTurn isNext with ⟨w, written, rfl⟩ | ⟨rfl, -⟩
    · exact Target.fetchPath_writePath_of_diverge w (first w written).symm members
    · rfl

/-- A field that is written is found at its target, if the fields after it are written elsewhere. -/
theorem Direct.fetchPath_of_writtenAs {before after : List Field} {f : Field} {w : Json}
    (ne : (Target.ofField config f).place ≠ [])
    (written : WrittenAs config given (convert f) f w)
    (off : ∀ g ∈ after, ∀ w', WrittenAs config given (convert g) g w' →
      Diverge (Target.ofField config f).place (Target.ofField config g).place)
    (h : (encodeMembers record config given convert (before ++ f :: after) members).Returns out) :
    fetchPath (Target.ofField config f).place (.object out) = some w := by
  induction before generalizing members with
  | nil =>
    obtain ⟨next, isNext, h⟩ := Returns.bind_iff.1 h
    rw [fetchPath_of_encodeMembers off h]
    rcases of_encodeInTurn isNext with ⟨w', written', rfl⟩ | ⟨-, unwritten⟩
    · obtain ⟨v, isGiven, -, returns⟩ := written.encoded
      obtain ⟨v', isGiven', -, returns'⟩ := written'.encoded
      cases isGiven.symm.trans isGiven'
      cases returns.symm.trans returns'
      exact Target.fetchPath_writePath w ne members
    · exact absurd written (unwritten w)
  | cons g rest ih =>
    obtain ⟨next, -, h⟩ := Returns.bind_iff.1 h
    exact ih h

/-- The object of a record comes of writing its fields; what a catch-all adds hides nothing. -/
theorem Direct.exists_members (form : Encoder.inArrayForm record config = false) {j : Json}
    (h : (encodeRecord record config given convert).Returns j) :
    ∃ written all, j = .object all ∧
      (encodeMembers record config given convert (Encoder.fields record config)
        (tagMembers record config)).Returns written ∧
      ∀ path ≠ [], ∀ w, fetchPath path (.object written) = some w →
        fetchPath path (.object all) = some w := by
  obtain ⟨-, -, h⟩ := encodeRecord_returns_iff.1 h
  rw [encodeOutput, if_neg (by simp [form])] at h
  obtain ⟨written, isWritten, h⟩ := Returns.bind_iff.1 h
  split at h
  case h_1 =>
    obtain ⟨extra, -, isObject⟩ := Returns.bind_iff.1 h
    exact ⟨written, _, (Returns.pure_iff.1 isObject).symm, isWritten,
      fun path ne w found => Encoder.fetchPath_addFree ne found⟩
  case h_2 =>
    exact ⟨written, written, (Returns.pure_iff.1 h).symm, isWritten, fun _ _ _ found => found⟩

theorem Direct.fetchPath_of_encodeRecord (checked : record.Checked)
    (form : Encoder.inArrayForm record config = false) {j : Json}
    (h : (encodeRecord record config given convert).Returns j) {before after : List Field}
    {f : Field} (fields : Encoder.fields record config = before ++ f :: after) {w : Json}
    (written : WrittenAs config given (convert f) f w)
    (off : ∀ g ∈ after, ∀ w', WrittenAs config given (convert g) g w' →
      Diverge (Target.ofField config f).place (Target.ofField config g).place) :
    fetchPath (Target.ofField config f).place j = some w := by
  obtain ⟨members, all, rfl, isWritten, keeps⟩ := exists_members form h
  have isField : f ∈ Encoder.fields record config :=
    fields ▸ List.mem_append_right _ List.mem_cons_self
  have ne := Target.place_ne_nil checked config (List.mem_filter.1 isField).1
  rw [fields] at isWritten
  exact keeps _ ne w (fetchPath_of_writtenAs ne written off isWritten)

end Members

/-- Whatever record a codec encodes to an object, under whatever overrides and with whatever
handlers: each field that the instance has and no rule leaves out was encoded, by the converter that
was compiled for it, and what came of it is found at the target of the field, unless the target of a
field that is declared later and written as well is this one, leads to it or starts with it. -/
theorem Codec.fetchPath_of_encode {c : Codec} (declarations : c.schema.Declared)
    (history : c.cache.History c.schema c.registry) {record : String} {overrides : Config}
    {given : Instance} {j : Json} (encoded : (c.encode record given overrides).1.Returns j) :
    ∃ e fuel config r bound parts, (c.encoder record overrides).1.Returns e ∧
      e.callBound given.depth = fuel + 1 ∧ c.resolvedConfig record overrides = .ok config ∧
      Made c.schema c.registry .encoding bound record config r parts e.code ∧
      CallsAsBound c.schema c.registry .encoding bound e ∧
      (Encoder.inArrayForm r config = false → ∀ f ∈ r.fields, f.catchAll = false →
        f.skip.always = false → ∀ v, given.field? f.name = some v →
        (Omission.ofField config f).omits v = false →
        ∃ before converter after w, parts = before ++ (f, converter) :: after ∧
          (converter.encode (e.calls fuel) v).Returns w ∧
          ((Omission.ofField config f).omitsEncoded w = false →
            (∀ g ∈ after, ∀ w', WrittenAs config given (g.2.encode (e.calls fuel)) g.1 w' →
              Diverge (Target.ofField config f).place (Target.ofField config g.1).place) →
            fetchPath (Target.ofField config f).place j = some w)) := by
  obtain ⟨e, isEncoder, called⟩ := Returns.bind_iff.1 encoded
  obtain ⟨config, resolved, traced⟩ := encoder_traced history isEncoder
  obtain ⟨bound, r, parts, made, calls⟩ := traced.code
  obtain ⟨fuel, enough⟩ := e.exists_callBound given.depth
  refine ⟨e, fuel, config, r, bound, parts, isEncoder, enough, resolved, made, calls, ?_⟩
  intro form f isField plain sometimes v isGiven taken
  have checked := (declarations.checked made.declared).2.2
  have distinct := made.distinct declarations List.filter_sublist
  have fields : parts.map Prod.fst = Encoder.fields r config := made.fields
  have converts : ∀ g c', (g, c') ∈ parts →
      c'.encode (e.calls fuel) = convertBy (fun c' => c'.encode (e.calls fuel)) parts g :=
    fun g c' mem => (convertBy_of_mem distinct mem).symm
  have ran : e.callWithin (fuel + 1) given = e.code.run (e.calls fuel) given := rfl
  rw [Encoder.call, enough, ran, Encoder.run_of_lower r config given (e.calls fuel) fields
    (checked.plain config) converts made.lowers] at called
  have inFields : f ∈ Encoder.fields r config :=
    List.mem_filter.2 ⟨isField, by simp [sometimes]⟩
  obtain ⟨members, _, -, isWritten, -⟩ := exists_members form called
  obtain ⟨w, returns⟩ := exists_encoded isWritten inFields plain isGiven taken
  rw [← fields] at inFields
  obtain ⟨⟨g, converter⟩, isPart, same⟩ := List.mem_map.1 inFields
  obtain rfl : g = f := same
  obtain ⟨before, after, isSplit⟩ := List.append_of_mem isPart
  refine ⟨before, converter, after, w, isSplit, converts g _ isPart ▸ returns, fun kept off => ?_⟩
  have split : Encoder.fields r config = before.map Prod.fst ++ g :: after.map Prod.fst := by
    rw [← fields, isSplit, List.map_append, List.map_cons]
  refine fetchPath_of_encodeRecord checked form called split
    ⟨plain, ⟨v, isGiven, taken, returns⟩, kept⟩ fun g isAfter w' other => ?_
  obtain ⟨⟨_, c'⟩, mem, rfl⟩ := List.mem_map.1 isAfter
  refine off _ mem w' ?_
  rw [converts _ c' (isSplit ▸ List.mem_append_right _ (List.mem_cons_of_mem _ mem))]
  exact other

namespace Stones

def weightField : Field := { name := "weight", type := .primitive .int }

def columnField : Field := { name := "column", type := .primitive .int, path := some ["at", "x"] }

def stone : RecordType where
  name := "Stone"
  fields := [weightField, columnField]

def rankField : Field := { name := "rank", type := .primitive .int }

def innerField : Field := { name := "inner", type := .primitive .int, path := some ["rank", "x"] }

/-- The target of one field leads through the other. -/
def pebble : RecordType where
  name := "Pebble"
  fields := [rankField, innerField]

def codec : Codec where
  schema := { records := (Table.empty.insert "Stone" stone).insert "Pebble" pebble }

theorem declared : codec.schema.Declared := .record pebble (.record stone .empty rfl) rfl

theorem history : codec.cache.History codec.schema codec.registry := .empty 0 0

def stoneInstance : Instance := .record "Stone" [("weight", .int 3), ("column", .int 4)]

def pebbleInstance : Instance := .record "Pebble" [("rank", .int 1), ("inner", .int 2)]

end Stones

theorem Codec.fetchPath_of_encode_stone :
    ∃ e fuel converter j w, (Stones.codec.encode "Stone" Stones.stoneInstance {}).1.Returns j ∧
      (Stones.codec.encoder "Stone" {}).1.Returns e ∧
      (Converter.encode (e.calls fuel) converter (.int 3)).Returns w ∧
      fetchPath ["weight"] j = some w := by
  have encodes : (Stones.codec.encode "Stone" Stones.stoneInstance {}).1.returnsWith
      (fun _ => true) = true := by decide +kernel
  obtain ⟨j, encoded, -⟩ := exists_of_returnsWith encodes
  obtain ⟨e, fuel, config, r, bound, parts, isEncoder, -, resolved, made, -, fetched⟩ :=
    fetchPath_of_encode Stones.declared Stones.history encoded
  have isStone : Stones.codec.schema.record? "Stone" = some Stones.stone := rfl
  obtain rfl := Option.some.inj (made.declared.symm.trans isStone)
  obtain rfl := Except.ok.inj (resolved.symm.trans (resolvedConfig_of_record isStone))
  obtain ⟨before, converter, after, w, split, returns, found⟩ :=
    fetched rfl Stones.weightField List.mem_cons_self rfl rfl (.int 3) rfl rfl
  have fields : parts.map Prod.fst = [Stones.weightField, Stones.columnField] := made.fields
  have isLater : after.map Prod.fst = [Stones.columnField] := by
    rw [split, List.map_append, List.map_cons] at fields
    cases before with
    | nil => exact (List.cons.inj fields).2
    | cons g rest =>
      obtain ⟨-, others⟩ := List.cons.inj fields
      have mem : Stones.weightField ∈ [Stones.columnField] :=
        others ▸ List.mem_append_right _ List.mem_cons_self
      exact absurd (congrArg Field.name (List.mem_singleton.1 mem)) (by decide)
  refine ⟨e, fuel, converter, j, w, encoded, isEncoder, returns, found rfl fun g isAfter _ _ => ?_⟩
  have isColumn := List.mem_singleton.1 (isLater ▸ List.mem_map_of_mem isAfter)
  rw [isColumn]
  exact ⟨by decide, by decide⟩

/-- A rank is encoded to 1, but at its target there is what another field put in its place. -/
theorem Codec.not_fetchPath_of_encode_pebble :
    ∃ j, Stones.codec.schema.Declared ∧
      (Stones.codec.encode "Pebble" Stones.pebbleInstance {}).1.Returns j ∧
      Stones.pebbleInstance.field? "rank" = some (.int 1) ∧
      (Omission.ofField {} Stones.rankField).omits (.int 1) = false ∧
      (encodeType Stones.codec.schema .builtin (Direct.encode Stones.codec.schema .builtin 1)
        ⟨{}, none⟩ Stones.rankField.type (.int 1)).Returns (.ofInt64 1) ∧
      fetchPath (Target.ofField {} Stones.rankField).place j ≠ some (.ofInt64 1) := by
  have encodes : (Stones.codec.encode "Pebble" Stones.pebbleInstance {}).1.returnsWith
      (fun j => (fetchPath ["rank"] j).any (·.same (.object [("x", .ofInt64 2)]))) = true := by
    decide +kernel
  obtain ⟨j, encoded, isOther⟩ := exists_of_returnsWith encodes
  refine ⟨j, Stones.declared, encoded, rfl, rfl, rfl, fun found => ?_⟩
  have place : (Target.ofField {} Stones.rankField).place = ["rank"] := by decide
  rw [← place, found] at isOther
  cases isOther

end RecordCodec
