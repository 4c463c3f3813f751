import RecordCodec.Proofs.Agreement
import RecordCodec.Proofs.Codecs
import RecordCodec.Proofs.Keys
import RecordCodec.Proofs.Places
import RecordCodec.Proofs.Soundness

set_option autoImplicit false

/-!
# Unions tell their arms apart

The encoder of a union picks an arm by the kind of an instance, and its decoder picks one by the tag
or by the kind of a value. Where no two arms write values of one kind, and no record writes over its
tag, both pick the same arm. The first arm of the right kind is the one to follow: the encoder tries
it first, and so does the decoder, unless there is a tag, which only this arm has.
-/
namespace RecordCodec

open Routine Run Compile Direct
open Converter (Decode Encode fitsInstance fitsValue firstSuccess trialOrder)

/-- What tells an arm of a union from the others. -/
inductive ArmKind where
  | scalar (p : Primitive)
  | items
  | entries
  | record (name : String)
deriving DecidableEq

namespace ArmKind

/-- The scalars that have a kind of value for themselves. -/
def scalars : List Primitive := [.null, .bool, .int, .str]

/-- Arms of these kinds may write values that nothing tells apart. -/
def clashes : ArmKind → ArmKind → Bool
  | items, items | entries, entries | entries, record _ | record _, entries => true
  | _, _ => false

theorem clashes_comm (k l : ArmKind) : k.clashes l = l.clashes k := by
  cases k <;> cases l <;> rfl

end ArmKind

def Shape.armKind? : Shape → Option ArmKind
  | .primitive p => if p ∈ ArmKind.scalars then some (.scalar p) else none
  | .sequence | .set | .fixedTuple | .variadicTuple => some .items
  | .mapping => some .entries
  | .record _ name => some (.record name)
  | _ => none

def TypeExpr.armKind? (ty : TypeExpr) : Option ArmKind := ty.shape.armKind?

/-- The kind of arm that makes such instances. -/
def Instance.armKind? : Instance → Option ArmKind
  | .null => some (.scalar .null)
  | .bool _ => some (.scalar .bool)
  | .int _ => some (.scalar .int)
  | .str _ => some (.scalar .str)
  | .seq _ | .set _ | .tuple _ => some .items
  | .map _ => some .entries
  | .record name _ => some (.record name)
  | _ => none

/-- The kind of arm that writes such values without a tag. -/
def Json.armKind? : Json → Option ArmKind
  | .null => some (.scalar .null)
  | .bool _ => some (.scalar .bool)
  | .number (.whole _) => some (.scalar .int)
  | .string _ => some (.scalar .str)
  | .array _ => some .items
  | .object _ => some .entries
  | _ => none

/-- The arms of a union are scalars, at most one container of items, and at most one mapping or any
number of records. The records are written as objects with their tags, and no field of theirs is
written at the key of the tag. -/
structure Direct.Position.Separable (schema : Schema) (here : Position) (arms : List TypeExpr) :
    Prop where
  kinds : ∀ arm ∈ arms, arm.armKind?.isSome = true
  apart : (arms.filterMap TypeExpr.armKind?).Pairwise fun k l => k.clashes l = false
  records : ∀ arm ∈ arms, ∀ name config, (here.arm schema arm).record = some (name, config) →
    ∃ r tag, schema.record? name = some r ∧ r.kind ≠ .positional ∧
      (here.arm schema arm).tag = some tag ∧ ∀ f ∈ r.fields, f.catchAll = false →
        (Target.ofField config f).place.head? ≠ some here.unionKey

/-- A type with its kind of arm and the handler that compiles it. -/
inductive OfKind : TypeExpr → ArmKind → Handler → Prop where
  | scalar {p : Primitive} {args : List TypeExpr} {literals : List Json} : p ∈ ArmKind.scalars →
    OfKind ⟨.primitive p, args, literals⟩ (.scalar p) (.scalar p)
  | sequence {args : List TypeExpr} {literals : List Json} :
    OfKind ⟨.sequence, args, literals⟩ .items .sequence
  | set {args : List TypeExpr} {literals : List Json} : OfKind ⟨.set, args, literals⟩ .items .set
  | fixedTuple {args : List TypeExpr} {literals : List Json} :
    OfKind ⟨.fixedTuple, args, literals⟩ .items .fixedTuple
  | variadicTuple {args : List TypeExpr} {literals : List Json} :
    OfKind ⟨.variadicTuple, args, literals⟩ .items .variadicTuple
  | mapping {args : List TypeExpr} {literals : List Json} :
    OfKind ⟨.mapping, args, literals⟩ .entries .mapping
  | record {kind : RecordKind} {name : String} {args : List TypeExpr} {literals : List Json} :
    OfKind ⟨.record kind name, args, literals⟩ (.record name) .record

section Kinds
variable {schema : Schema} {ty other : TypeExpr} {v : Instance} {j : Json} {k : ArmKind}
  {handler : Handler}

theorem TypeExpr.exists_ofKind (isKind : ty.armKind? = some k) :
    ∃ handler, OfKind ty k handler := by
  obtain ⟨shape, args, literals⟩ := ty
  cases shape with
  | primitive p =>
    obtain ⟨known, same⟩ := Option.ite_none_right_eq_some.1 isKind
    cases same
    exact ⟨_, .scalar known⟩
  | sequence => cases isKind; exact ⟨_, .sequence⟩
  | set => cases isKind; exact ⟨_, .set⟩
  | fixedTuple => cases isKind; exact ⟨_, .fixedTuple⟩
  | variadicTuple => cases isKind; exact ⟨_, .variadicTuple⟩
  | mapping => cases isKind; exact ⟨_, .mapping⟩
  | record => cases isKind; exact ⟨_, .record⟩
  | _ => cases isKind

theorem TypeExpr.recordName?_iff (isKind : ty.armKind? = some k) {name : String} :
    ty.shape.recordName? = some name ↔ k = .record name := by
  obtain ⟨handler, ofKind⟩ := ty.exists_ofKind isKind
  cases ofKind <;> simp [Shape.recordName?]

def ArmKind.Free : ArmKind → Prop
  | record name => Primitive.ofName? name = none
  | _ => True

namespace OfKind

theorem handled (h : OfKind ty k handler) (free : k.Free) :
    Handled schema .builtin ty handler (schema.resolve ty) := by
  cases h with
  | @scalar p => cases p <;> rfl
  | record => exact .of_record rfl free
  | _ => rfl

theorem fits (h : OfKind ty k handler) (free : k.Free) (inhabits : Inhabits schema ty v) :
    v.armKind? = some k ∧ fitsInstance ty v = true := by
  have made := inhabits.elim (h.handled free)
  cases h with
  | @scalar p args literals known =>
    cases v with
    | null | bool | int | str =>
      cases p <;> first | exact made.elim | exact ⟨rfl, rfl⟩
    | _ =>
      simp only [ArmKind.scalars, List.mem_cons, List.not_mem_nil, or_false] at known
      rcases known with rfl | rfl | rfl | rfl <;> exact made.elim
  | sequence | set | variadicTuple | mapping =>
    obtain ⟨_, rfl, -⟩ := made
    exact ⟨rfl, rfl⟩
  | fixedTuple =>
    obtain ⟨items, rfl, even, -⟩ := made
    rw [schema.resolve_args, List.length_map] at even
    exact ⟨rfl, by simp [fitsInstance, even]⟩
  | record =>
    obtain ⟨name, isName, r, fields, rfl, -⟩ := made
    cases isName
    exact ⟨rfl, by simp [fitsInstance]⟩

theorem armKind?_of_fits (h : OfKind ty k handler) {l : ArmKind} (isKind : v.armKind? = some l)
    (free : l.Free) (fits : fitsInstance ty v = true) : l = k := by
  cases h with
  | @scalar p _ _ known =>
    have named : p.name = v.kindName := by simpa [fitsInstance] using fits
    simp only [ArmKind.scalars, List.mem_cons, List.not_mem_nil, or_false] at known
    cases v with
    | record name fields =>
      cases isKind
      rw [ArmKind.Free, show name = p.name from named.symm] at free
      rcases known with rfl | rfl | rfl | rfl <;> cases free
    | null | bool | int | str | seq | set | tuple | map =>
      cases isKind
      rcases known with rfl | rfl | rfl | rfl <;>
        simp [Primitive.name, Instance.kindName] at named ⊢
    | _ => cases isKind
  | sequence | set | fixedTuple | variadicTuple | mapping =>
    cases v with
    | seq | set | tuple | map =>
      cases isKind
      first | rfl | cases fits
    | _ => cases fits
  | record =>
    cases v with
    | record name fields =>
      cases isKind
      obtain rfl : _ = name := by simpa [fitsInstance] using fits
      rfl
    | _ => cases fits

/-- An arm whose instances take part in other arms of the kind as well. -/
theorem transfer (h : OfKind ty k handler) {handler' : Handler} (h' : OfKind other k handler')
    (alone : k.clashes k = false) (free : k.Free) (inhabits : Inhabits schema ty v) :
    Inhabits schema other v := by
  have made := inhabits.elim (h.handled free)
  have handled : Handled schema .builtin other handler' (schema.resolve other) := h'.handled free
  cases h with
  | scalar =>
    cases h' with
    | scalar => exact .scalar handled made
  | sequence | set | fixedTuple | variadicTuple | mapping => cases alone
  | record =>
    cases h' with
    | record =>
      obtain ⟨name, isName, isRecord⟩ := made
      cases isName
      exact .of_inhabitsRecord handled rfl isRecord

/-- Without a tag, an arm that fits a value is of the value's kind. -/
theorem fitsValue_iff (h : OfKind ty k handler) {l : ArmKind} (isKind : j.armKind? = some l) :
    fitsValue ty j = true ↔ k = l := by
  cases h with
  | @scalar p _ _ known =>
    simp only [ArmKind.scalars, List.mem_cons, List.not_mem_nil, or_false] at known
    cases j with
    | number n =>
      cases n with
      | whole => cases isKind; rcases known with rfl | rfl | rfl | rfl <;> simp [fitsValue]
      | float => cases isKind
    | _ => cases isKind; rcases known with rfl | rfl | rfl | rfl <;> simp [fitsValue]
  | _ =>
    cases j with
    | number n => cases n <;> cases isKind; simp [fitsValue]
    | _ => cases isKind; simp [fitsValue]

theorem armKind?_of_encode (h : OfKind ty k handler) (free : k.Free)
    (plain : ∀ name, k ≠ .record name) (inhabits : Inhabits schema ty v) {bound : Binding}
    {here : Position} {c : Converter} (compiled : Compiles schema .builtin bound here ty c)
    {calls : Calls Instance Json} (encoded : (c.encode calls v).Returns j) :
    j.armKind? = some k := by
  have made := inhabits.elim (h.handled free)
  have form := compiled.form (h.handled free)
  cases h with
  | @scalar p _ _ known =>
    obtain rfl := form
    have isEncoded := Returns.ofExcept_iff.1 encoded
    simp only [ArmKind.scalars, List.mem_cons, List.not_mem_nil, or_false] at known
    rcases known with rfl | rfl | rfl | rfl <;> cases v <;>
      first | exact made.elim | (cases isEncoded; rfl)
  | sequence | set | variadicTuple =>
    obtain ⟨item, rfl, -⟩ := form
    obtain ⟨items, rfl, -⟩ := made
    obtain ⟨js, -, isArray⟩ := Returns.bind_iff.1 encoded
    obtain rfl := Returns.pure_iff.1 isArray
    rfl
  | fixedTuple =>
    obtain ⟨parts, rfl, -⟩ := form
    obtain ⟨items, rfl, -⟩ := made
    simp only [Converter.encode, Converter.encodeTuple, Instance.items?] at encoded
    split at encoded
    · obtain ⟨js, -, isArray⟩ := Returns.bind_iff.1 encoded
      obtain rfl := Returns.pure_iff.1 isArray
      rfl
    · simp at encoded
  | mapping =>
    obtain ⟨key, item, rfl, -⟩ := form
    obtain ⟨entries, rfl, -⟩ := made
    obtain ⟨members, -, isObject⟩ := Returns.bind_iff.1 encoded
    obtain rfl := Returns.pure_iff.1 isObject
    rfl
  | record => exact absurd rfl (plain _)

end OfKind
end Kinds

namespace Converter

section
variable {α β : Type} {as : List α} {bs : List β} {p : α → Bool} {k : Nat} {a : α} {b : β}

theorem index_eq_of_pairwise {R : α → α → Prop} (apart : as.Pairwise R) {i : Nat} {x : α}
    (atA : as[k]? = some a) (atX : as[i]? = some x) (notAX : ¬R a x) (notXA : ¬R x a) : i = k := by
  obtain ⟨inRange, rfl⟩ := List.getElem?_eq_some_iff.1 atA
  obtain ⟨inRange', rfl⟩ := List.getElem?_eq_some_iff.1 atX
  have before := List.pairwise_iff_getElem.1 apart
  rcases Nat.lt_trichotomy i k with less | same | more
  · exact absurd (before i k inRange' inRange less) notXA
  · exact same
  · exact absurd (before k i inRange inRange' more) notAX

theorem findIdx?_of_unique (at_ : as[k]? = some a) (holds : p a = true)
    (unique : ∀ (i : Nat) (x : α), as[i]? = some x → p x = true → i = k) :
    as.findIdx? p = some k := by
  obtain ⟨inRange, rfl⟩ := List.getElem?_eq_some_iff.1 at_
  refine List.findIdx?_eq_some_iff_getElem.2 ⟨inRange, holds, fun i before isOther => ?_⟩
  exact Nat.ne_of_lt before
    (unique i _ (List.getElem?_eq_getElem (Nat.lt_trans before inRange)) isOther)

theorem find?_zip (first : as.findIdx? p = some k) (atA : as[k]? = some a)
    (atB : bs[k]? = some b) : (as.zip bs).find? (fun x => p x.1) = some (a, b) := by
  induction as generalizing bs k with
  | nil => cases atA
  | cons x as ih =>
    cases bs with
    | nil => cases atB
    | cons y bs =>
      rw [List.findIdx?_cons] at first
      rw [List.zip_cons_cons, List.find?_cons]
      cases holds : p x with
      | true =>
        rw [holds, if_pos rfl] at first
        cases first
        cases atA
        cases atB
        rfl
      | false =>
        rw [holds, if_neg Bool.false_ne_true] at first
        obtain ⟨i, isFirst, rfl⟩ := Option.map_eq_some_iff.1 first
        exact ih isFirst atA atB

theorem firstSuccess_trialOrder {γ : Type} {failure : Failure} {v : α} {p : γ → Bool}
    {candidates : List (γ × (α → Run β))} {c : γ × (α → Run β)}
    (first : candidates.find? (fun x => p x.1) = some c) (returns : (c.2 v).Returns b) :
    (firstSuccess failure v
      ((trialOrder (fun x => p x.1) candidates).map Prod.snd)).Returns b := by
  rw [← List.head?_filter] at first
  obtain ⟨rest, preferred⟩ := List.head?_eq_some_iff.1 first
  rw [trialOrder, preferred, List.cons_append, List.map_cons, firstSuccess, returns]
  rfl

end

variable {plan : UnionPlan} {k : Nat} {arm : UnionArm} {v : Instance} {j : Json}

theorem encodeUnion_returns {encoders : List Encode} {encode : Encode}
    (first : plan.arms.findIdx? (fun arm => fitsInstance arm.type v) = some k)
    (isArm : plan.arms[k]? = some arm) (isEncoder : encoders[k]? = some encode)
    (returns : (encode v).Returns j) : (encodeUnion plan encoders v).Returns j :=
  firstSuccess_trialOrder (find?_zip first isArm isEncoder) returns

theorem decodeUnion_returns_of_kind {decoders : List Decode} {decode : Decode}
    (noTag : plan.isTagged = false ∨ j.get? plan.key = none)
    (first : plan.arms.findIdx? (fun arm => fitsValue arm.type j) = some k)
    (isArm : plan.arms[k]? = some arm) (isDecoder : decoders[k]? = some decode)
    (returns : (decode j).Returns v) : (decodeUnion plan decoders j).Returns v := by
  have none : (if plan.isTagged then (j.get? plan.key).bind Json.string? else none) = none := by
    rcases noTag with untagged | absent
    · rw [untagged, if_neg Bool.false_ne_true]
    · rw [absent, Option.bind_none, ite_self]
  simp only [decodeUnion, none]
  exact firstSuccess_trialOrder (find?_zip first isArm isDecoder) returns

theorem decodeUnion_returns_of_tag {decoders : List Decode} {decode : Decode} {tag : String}
    (distinct : (plan.arms.filterMap UnionArm.tag).Nodup) (isArm : plan.arms[k]? = some arm)
    (isTag : arm.tag = some tag) (tagged : j.get? plan.key = some (.string tag))
    (isDecoder : decoders[k]? = some decode) (returns : (decode j).Returns v) :
    (decodeUnion plan decoders j).Returns v := by
  have isTagged : plan.isTagged = true :=
    List.any_eq_true.2 ⟨arm, List.mem_of_getElem? isArm, by rw [isTag]; rfl⟩
  have first : plan.arms.findIdx? (fun arm => arm.tag == some tag) = some k := by
    refine findIdx?_of_unique isArm (by simpa using isTag) fun i other isOther same => ?_
    have isTag' : other.tag = some tag := by simpa using same
    refine index_eq_of_pairwise (List.pairwise_filterMap.1 distinct) isArm isOther ?_ ?_
    · exact fun apart => apart tag isTag tag isTag' rfl
    · exact fun apart => apart tag isTag' tag isTag rfl
  simp only [decodeUnion, isTagged, tagged, if_true, Option.bind_some, Json.string?,
    find?_zip first isArm isDecoder]
  exact returns

end Converter

section Tags
variable {record : RecordType} {config : Config} {given : Instance} {convert : Field → Encode}
  {key : String} {members : List (String × Json)}

theorem Compile.Target.get?_writePath {v : Json} {path : List String}
    (off : path.head? ≠ some key) :
    Assoc.get? key (writePath v path members) = Assoc.get? key members := by
  have ne : ∀ first rest, path = first :: rest → key ≠ first := by
    rintro first rest rfl rfl
    exact off rfl
  match path, ne with
  | [], _ => rfl
  | [last], ne => exact Assoc.get?_insert_of_ne (ne last [] rfl) _ _
  | first :: second :: rest, ne => exact Assoc.get?_insert_of_ne (ne first _ rfl) _ _

/-- The instance has the field, and no rule leaves it out before it is encoded. -/
def Direct.isWritten (config : Config) (given : Instance) (f : Field) : Bool :=
  (given.field? f.name).any fun v => !(Omission.ofField config f).omits v

theorem Direct.get?_of_encodeMembers {fields : List Field}
    (off : ∀ f ∈ fields, f.catchAll = false → isWritten config given f = true →
      (Target.ofField config f).place.head? ≠ some key) {out : List (String × Json)}
    (h : (encodeMembers record config given convert fields members).Returns out) :
    Assoc.get? key out = Assoc.get? key members := by
  induction fields generalizing members with
  | nil => rw [Returns.pure_iff.1 h]
  | cons f rest ih =>
    obtain ⟨first, others⟩ := List.forall_mem_cons.1 off
    obtain ⟨next, isNext, h⟩ := Returns.bind_iff.1 h
    rw [ih others h]
    unfold encodeInTurn at isNext
    split at isNext
    case isTrue => rw [Returns.pure_iff.1 isNext]
    case isFalse plain =>
      unfold encodeMember at isNext
      simp only at isNext
      split at isNext
      case h_1 => rw [Returns.pure_iff.1 isNext]
      case h_2 v isGiven =>
        split at isNext
        case isTrue => rw [Returns.pure_iff.1 isNext]
        case isFalse kept =>
          have written : isWritten config given f = true := by
            simpa [isWritten, isGiven] using kept
          obtain ⟨encoded, -, isNext⟩ := Returns.bind_iff.1 isNext
          rw [← Returns.pure_iff.1 isNext]
          split
          case isTrue => rfl
          case isFalse =>
            rw [Target.write_eq, Target.get?_writePath (first (by simpa using plain) written)]

theorem Compile.Encoder.get?_addFree {extra : List (String × Json)} {v : Json}
    (h : Assoc.get? key members = some v) : Assoc.get? key (addFree extra members) = some v := by
  unfold addFree
  induction extra generalizing members with
  | nil => exact h
  | cons e rest ih =>
    obtain ⟨other, w⟩ := e
    rw [List.foldl_cons]
    refine ih ?_
    simp only
    split
    · exact h
    · rw [Assoc.get?_append, h, Option.some_or]

theorem Direct.get?_of_encodeRecord (form : Encoder.inArrayForm record config = false)
    (isKey : config.tagKey? = some key) {tag : String} (isTag : record.tagUnder config = some tag)
    (off : ∀ f ∈ Encoder.fields record config, f.catchAll = false →
      isWritten config given f = true → (Target.ofField config f).place.head? ≠ some key) {j : Json}
    (h : (encodeRecord record config given convert).Returns j) :
    j.get? key = some (.string tag) := by
  obtain ⟨-, -, written⟩ := encodeRecord_returns_iff.1 h
  rw [encodeOutput, if_neg (by simp [form])] at written
  obtain ⟨members, isMembers, written⟩ := Returns.bind_iff.1 written
  have kept : Assoc.get? key members = some (.string tag) := by
    rw [get?_of_encodeMembers off isMembers, tagMembers, isKey, isTag]
    simp [Assoc.get?]
  split at written
  case h_1 =>
    obtain ⟨extra, -, isObject⟩ := Returns.bind_iff.1 written
    rw [← Returns.pure_iff.1 isObject]
    exact Encoder.get?_addFree kept
  case h_2 =>
    rw [← Returns.pure_iff.1 written]
    exact kept

end Tags

/-- The converter was compiled for a type at a position, and the routine calls what it was meant to
call. -/
def Compile.CompiledIn {I O : Type} (schema : Schema) (mode : Mode I O) (r : Linked I O)
    (here : Position) (ty : TypeExpr) (c : Converter) : Prop :=
  ∃ bound, CallsAsBound schema .builtin mode bound r ∧ Compiles schema .builtin bound here ty c

theorem Compile.TracedTo.exists_compiledIn {I O : Type} {schema : Schema} {mode : Mode I O}
    {key : RoutineKey} {r : Linked I O} (h : TracedTo schema .builtin mode key r) :
    ∃ record, schema.record? key.record = some record ∧
      ∀ f ∈ mode.fields record key.config, ∃ c,
        CompiledIn schema mode r ⟨key.config, f.discriminator⟩ f.type c := by
  obtain ⟨bound, record, parts, made, calls⟩ := h.code
  refine ⟨record, made.declared, fun f mem => ?_⟩
  obtain ⟨⟨_, c⟩, isPart, rfl⟩ := List.mem_map.1 (made.fields.symm ▸ mem)
  exact ⟨c, bound, calls, made.compiled _ c isPart⟩

/-- Whatever the codec did before, its encoder of a record has a converter for each field that is
not always left out. -/
theorem Codec.encoder_compiledIn {c : Codec} {record : String} {overrides : Config}
    (builtin : c.registry = .builtin) (history : c.cache.History c.schema c.registry) {e : Encoder}
    (h : (c.encoder record overrides).1.Returns e) :
    ∃ config r, c.resolvedConfig record overrides = .ok config ∧
      c.schema.record? record = some r ∧ ∀ f ∈ Encoder.fields r config, ∃ enc,
        CompiledIn c.schema .encoding e ⟨config, f.discriminator⟩ f.type enc := by
  obtain ⟨config, resolved, traced⟩ := encoder_traced history h
  rw [builtin] at traced
  obtain ⟨r, declared, fields⟩ := traced.exists_compiledIn
  exact ⟨config, r, resolved, declared, fields⟩

theorem Codec.decoder_compiledIn {c : Codec} {record : String} {overrides : Config}
    (builtin : c.registry = .builtin) (history : c.cache.History c.schema c.registry) {d : Decoder}
    (h : (c.decoder record overrides).1.Returns d) :
    ∃ config r, c.resolvedConfig record overrides = .ok config ∧
      c.schema.record? record = some r ∧ ∀ f ∈ r.fields, ∃ dec,
        CompiledIn c.schema .decoding d ⟨config, f.discriminator⟩ f.type dec := by
  obtain ⟨config, resolved, traced⟩ := decoder_traced history h
  rw [builtin] at traced
  obtain ⟨r, declared, fields⟩ := traced.exists_compiledIn
  exact ⟨config, r, resolved, declared, fields⟩

/-- The instance is encoded to the value, and the value decoded to an equal instance. -/
structure Carries (e : Encoder) (d : Decoder) (enc dec : Converter) (v : Instance) (j : Json)
    (w : Instance) : Prop where
  encoded : ∃ fuel, (enc.encode (e.calls fuel) v).Returns j
  decoded : ∃ fuel, (dec.decode (d.calls fuel) j).Returns w
  same : v.same w = true

section Unions
variable {schema : Schema} {e : Encoder} {d : Decoder} {here : Position} {ty target : TypeExpr}
  {v : Instance}

theorem Compile.CallsAsBound.get?_tag (declarations : schema.Declared) {bound : Binding}
    (calls : CallsAsBound schema .builtin .encoding bound e) {routine name key tag : String}
    {config : Config} {r : RecordType} (isBound : bound routine name config)
    (declared : schema.record? name = some r) (isObject : r.kind ≠ .positional)
    (isKey : config.tagKey? = some key) (isTag : r.tagUnder config = some tag)
    (off : ∀ f ∈ r.fields, f.catchAll = false →
      (Target.ofField config f).place.head? ≠ some key)
    {fields : List (String × Instance)} {fuel : Nat} {j : Json}
    (encoded : (e.calls fuel routine (.record name fields)).Returns j) :
    j.get? key = some (.string tag) := by
  cases isCallee : e.callee? routine with
  | none =>
    rw [Linked.calls, isCallee] at encoded
    simp at encoded
  | some callee =>
    obtain ⟨⟨name', config', _⟩, ⟨bound', record, parts, made⟩, sameConfig⟩ :=
      calls routine name config callee isBound isCallee
    rw [Linked.calls_of_callee fuel isCallee] at encoded
    cases fuel with
    | zero => cases encoded
    | succ fuel =>
      obtain ⟨isName, -, checked⟩ := declarations.checked made.declared
      rw [made.callWithin_encode declarations] at encoded
      obtain ⟨isRecord, -⟩ := encodeRecord_returns_iff.1 encoded
      have same : name = record.name := by
        by_contra other
        simp [Encoder.checkType, other] at isRecord
      obtain rfl : name' = name := isName.symm.trans same.symm
      obtain rfl : config' = config := sameConfig rfl
      obtain rfl : record = r := Option.some.inj (made.declared.symm.trans declared)
      have form : Encoder.inArrayForm record config' = false := by
        simp [Encoder.inArrayForm, isObject]
      exact get?_of_encodeRecord form isKey isTag
        (fun f mem plain _ => off f (List.mem_filter.1 mem).1 plain) encoded

theorem Direct.Position.exists_record_arm (schema : Schema) (here : Position) {name : String}
    (isName : ty.shape.recordName? = some name) :
    ∃ config, (here.arm schema ty).record = some (name, config) ∧
      config.tagKey? = some here.unionKey ∧
      (here.arm schema ty).tag = (schema.record? name).bind (RecordType.tagUnder config) := by
  unfold Position.arm
  rw [isName]
  exact ⟨_, rfl, tagKey?_armConfig _ _ _, rfl⟩

theorem Direct.Position.arm_of_none (schema : Schema) (here : Position)
    (isNone : ty.shape.recordName? = none) :
    (here.arm schema ty).record = none ∧ (here.arm schema ty).tag = none := by
  unfold Position.arm
  rw [isNone]
  exact ⟨rfl, rfl⟩

theorem Direct.Position.findIdx?_plan {p : TypeExpr → Bool} {kind : ArmKind} {k : Nat}
    (same : ∀ arm ∈ target.args, p arm = (arm.armKind? == some kind))
    (first : target.args.findIdx? (fun arm => arm.armKind? == some kind) = some k) :
    (here.plan schema target).arms.findIdx? (fun arm => p arm.type) = some k := by
  rw [Position.plan, List.findIdx?_map]
  obtain ⟨inRange, holds, before⟩ := List.findIdx?_eq_some_iff_getElem.1 first
  refine List.findIdx?_eq_some_iff_getElem.2 ⟨inRange, ?_, fun i less => ?_⟩
  · rw [Function.comp_apply, arm_type, same _ (List.getElem_mem inRange)]
    exact holds
  · rw [Function.comp_apply, arm_type, same _ (List.getElem_mem _)]
    exact before i less

namespace Direct.Position.Separable

variable {arms : List TypeExpr} (separable : here.Separable schema arms)
include separable

theorem free (declarations : schema.Declared) {arm : TypeExpr} (mem : arm ∈ arms) {kind : ArmKind}
    (isKind : arm.armKind? = some kind) : kind.Free := by
  cases kind with
  | record name =>
    obtain ⟨config, isRecord, -⟩ :=
      here.exists_record_arm schema ((TypeExpr.recordName?_iff isKind).2 rfl)
    obtain ⟨r, -, declared, -⟩ := separable.records _ mem _ _ isRecord
    exact (declarations.checked declared).2.1
  | _ => trivial

/-- The first arm of the kind of an instance has the instance, and only arms of this kind fit it. -/
theorem exists_first (declarations : schema.Declared) {given : TypeExpr} (mem : given ∈ arms)
    (inhabits : Inhabits schema given v) : ∃ k arm kind, arms[k]? = some arm ∧
      arm.armKind? = some kind ∧ Inhabits schema arm v ∧
      (∀ other ∈ arms, fitsInstance other v = (other.armKind? == some kind)) ∧
      arms.findIdx? (fun other => other.armKind? == some kind) = some k := by
  obtain ⟨kind, isKind⟩ := Option.isSome_iff_exists.1 (separable.kinds given mem)
  obtain ⟨handler, ofKind⟩ := given.exists_ofKind isKind
  have free := separable.free declarations mem isKind
  have ofInstance := (ofKind.fits free inhabits).1
  -- arms of the same kind have the same instances, or there is only one such arm
  have shared : ∀ other ∈ arms, other.armKind? = some kind → Inhabits schema other v := by
    intro other isOther sameKind
    cases alone : kind.clashes kind with
    | false =>
      obtain ⟨handler', ofKind'⟩ := other.exists_ofKind sameKind
      exact ofKind.transfer ofKind' alone free inhabits
    | true =>
      obtain ⟨i, isGiven⟩ := List.getElem?_of_mem mem
      obtain ⟨i', isOther⟩ := List.getElem?_of_mem isOther
      have same : i' = i := by
        refine Converter.index_eq_of_pairwise (List.pairwise_filterMap.1 separable.apart) isGiven
          isOther ?_ ?_
        · exact fun apart => by simpa [alone] using apart kind isKind kind sameKind
        · exact fun apart => by simpa [alone] using apart kind sameKind kind isKind
      rw [same, isGiven] at isOther
      exact Option.some.inj isOther ▸ inhabits
  have fits : ∀ other ∈ arms, fitsInstance other v = (other.armKind? == some kind) := by
    intro other isOther
    obtain ⟨kind', isKind'⟩ := Option.isSome_iff_exists.1 (separable.kinds other isOther)
    obtain ⟨handler', ofKind'⟩ := other.exists_ofKind isKind'
    rw [isKind', Bool.eq_iff_iff]
    constructor
    · intro fits
      simp [ofKind'.armKind?_of_fits ofInstance free fits]
    · intro same
      obtain rfl : kind' = kind := by simpa using same
      exact (ofKind'.fits free (shared other isOther isKind')).2
  have found : (arms.findIdx? fun other => other.armKind? == some kind).isSome = true := by
    rw [List.findIdx?_isSome, List.any_eq_true]
    exact ⟨given, mem, by simp [isKind]⟩
  obtain ⟨k, first⟩ := Option.isSome_iff_exists.1 found
  obtain ⟨inRange, holds, -⟩ := List.findIdx?_eq_some_iff_getElem.1 first
  have isKind : (arms[k]).armKind? = some kind := by simpa using holds
  exact ⟨k, arms[k], kind, List.getElem?_eq_getElem inRange, isKind,
    shared _ (List.getElem_mem inRange) isKind, fits, first⟩

theorem fitsValue_eq {other : TypeExpr} (mem : other ∈ arms) {kind : ArmKind} {j : Json}
    (isKind : j.armKind? = some kind) : fitsValue other j = (other.armKind? == some kind) := by
  obtain ⟨kind', isKind'⟩ := Option.isSome_iff_exists.1 (separable.kinds other mem)
  obtain ⟨handler, ofKind⟩ := other.exists_ofKind isKind'
  rw [isKind', Bool.eq_iff_iff, ofKind.fitsValue_iff isKind]
  simp

theorem untagged {arm : TypeExpr} (mem : arm ∈ arms) (isKind : arm.armKind? = some .entries)
    {other : TypeExpr} (isOther : other ∈ arms) : (here.arm schema other).tag = none := by
  cases isName : other.shape.recordName? with
  | none => exact (here.arm_of_none schema isName).2
  | some name =>
    obtain ⟨kind, isKind'⟩ := Option.isSome_iff_exists.1 (separable.kinds other isOther)
    obtain rfl := (TypeExpr.recordName?_iff isKind').1 isName
    have : Std.Symm fun k l : ArmKind => k.clashes l = false :=
      ⟨fun k l apart => (ArmKind.clashes_comm l k).trans apart⟩
    have apart := separable.apart.forall
      (List.mem_filterMap.2 ⟨arm, mem, isKind⟩) (List.mem_filterMap.2 ⟨other, isOther, isKind'⟩)
      (by simp)
    cases apart

end Direct.Position.Separable

/-- What an arm writes has its tag or is of its kind. -/
theorem tag_or_kind (declarations : schema.Declared) {arms : List TypeExpr}
    (separable : here.Separable schema arms) {arm : TypeExpr} (mem : arm ∈ arms)
    {kind : ArmKind} (isKind : arm.armKind? = some kind) (inhabits : Inhabits schema arm v)
    {bound : Binding} (calls : CallsAsBound schema .builtin .encoding bound e) {enc : Converter}
    (records : ∀ name config, (here.arm schema arm).record = some (name, config) →
      ∃ routine, enc = .record routine ∧ bound routine name config)
    (others : (here.arm schema arm).record = none →
      Compiles schema .builtin bound here arm enc) {fuel : Nat} {j : Json}
    (encoded : (enc.encode (e.calls fuel) v).Returns j) :
    (∃ tag, (here.arm schema arm).tag = some tag ∧ j.get? here.unionKey = some (.string tag)) ∨
      j.armKind? = some kind := by
  obtain ⟨handler, ofKind⟩ := arm.exists_ofKind isKind
  have free := separable.free declarations mem isKind
  cases isName : arm.shape.recordName? with
  | none =>
    refine .inr (ofKind.armKind?_of_encode free (fun name same => ?_) inhabits
      (others (here.arm_of_none schema isName).1) encoded)
    rw [(TypeExpr.recordName?_iff isKind).2 same] at isName
    cases isName
  | some name =>
    obtain ⟨config, isRecord, isKey, tagged⟩ := here.exists_record_arm schema isName
    obtain ⟨r, tag, declared, isObject, isTag, off⟩ :=
      separable.records arm mem name config isRecord
    obtain ⟨routine, rfl, isBound⟩ := records name config isRecord
    rw [tagged, declared, Option.bind_some] at isTag
    obtain rfl := (TypeExpr.recordName?_iff isKind).1 isName
    have ofInstance := (ofKind.fits free inhabits).1
    cases v with
    | record type fields =>
      cases ofInstance
      refine .inl ⟨tag, by rw [tagged, declared, Option.bind_some, isTag], ?_⟩
      exact calls.get?_tag declarations isBound declared isObject isKey isTag off encoded
    | _ => cases ofInstance

theorem Direct.Position.Separable.no_tag (separable : here.Separable schema target.args)
    {arm : TypeExpr} (mem : arm ∈ target.args) {kind : ArmKind} (isKind : arm.armKind? = some kind)
    {j : Json} (written : j.armKind? = some kind) : (here.plan schema target).isTagged = false ∨
      j.get? (here.plan schema target).key = none := by
  cases j with
  | object members =>
    cases written
    refine .inl (List.any_eq_false.2 fun planned isPlanned => ?_)
    obtain ⟨other, isOther, rfl⟩ := List.mem_map.1 isPlanned
    simp [separable.untagged mem isKind isOther]
  | _ => exact .inr rfl

variable {planE planD : UnionPlan} {armsE armsD : List Converter}

/-- An instance of a union whose arms can be told apart, in whatever order they stand, comes back as
the instance of an arm that it inhabits, if such arms give it back by themselves. -/
theorem union_carries (declarations : schema.Declared)
    (handled : Handled schema .builtin ty .union target)
    (separable : here.Separable schema target.args)
    (encoder : CompiledIn schema .encoding e here ty (.union planE armsE))
    (decoder : CompiledIn schema .decoding d here ty (.union planD armsD))
    (byArms : ∀ (i : Nat) (arm : TypeExpr) (enc dec : Converter), target.args[i]? = some arm →
      armsE[i]? = some enc → armsD[i]? = some dec → Inhabits schema arm v →
      ∃ j w, Carries e d enc dec v j w)
    (inhabits : Inhabits schema ty v) :
    ∃ (i : Nat) (arm : TypeExpr) (enc dec : Converter) (j : Json) (w : Instance),
      target.args[i]? = some arm ∧ armsE[i]? = some enc ∧ armsD[i]? = some dec ∧
      Inhabits schema arm v ∧ Carries e d enc dec v j w ∧
      Carries e d (.union planE armsE) (.union planD armsD) v j w := by
  obtain ⟨boundE, calls, compiledE⟩ := encoder
  obtain ⟨armsE, isUnion, countE, distinct, records, others⟩ := compiledE.form handled
  cases isUnion
  obtain ⟨boundD, -, compiledD⟩ := decoder
  obtain ⟨armsD, isUnion, countD, -⟩ := compiledD.form handled
  cases isUnion
  obtain ⟨given, isGiven, inGiven⟩ := inhabits.elim handled
  obtain ⟨k, arm, kind, isArm, isKind, inArm, fits, first⟩ :=
    separable.exists_first declarations isGiven inGiven
  have inRange := (List.getElem?_eq_some_iff.1 isArm).1
  have isEnc := List.getElem?_eq_getElem (countE ▸ inRange)
  have isDec := List.getElem?_eq_getElem (countD ▸ inRange)
  obtain ⟨j, w, carries⟩ := byArms k arm _ _ isArm isEnc isDec inArm
  have isPlan : (here.plan schema target).arms[k]? = some (here.arm schema arm) := by
    rw [Position.plan, List.getElem?_map, isArm, Option.map_some]
  obtain ⟨fuel, encoded⟩ := carries.encoded
  obtain ⟨fuel', decoded⟩ := carries.decoded
  refine ⟨k, arm, _, _, j, w, isArm, isEnc, isDec, inArm, carries, ⟨fuel, ?_⟩, ⟨fuel', ?_⟩,
    carries.same⟩
  · rw [Converter.encode, Compiles.encodeAll_eq]
    exact Converter.encodeUnion_returns (here.findIdx?_plan fits first) isPlan
      (by rw [List.getElem?_map, isEnc, Option.map_some]) encoded
  · rw [Converter.decode, Compiles.decodeAll_eq]
    have isDecode : (armsD.map (Converter.decode (d.calls fuel')))[k]? =
        some (Converter.decode (d.calls fuel') armsD[k]) := by
      rw [List.getElem?_map, isDec, Option.map_some]
    have mem := List.mem_of_getElem? isArm
    rcases tag_or_kind declarations separable mem isKind inArm calls
      (fun name config => records k arm _ isArm isEnc name config)
      (others k arm _ isArm isEnc) encoded with ⟨tag, isTag, tagged⟩ | written
    · exact Converter.decodeUnion_returns_of_tag distinct isPlan isTag tagged isDecode decoded
    · exact Converter.decodeUnion_returns_of_kind (separable.no_tag mem isKind written)
        (here.findIdx?_plan (fun other isOther => separable.fitsValue_eq isOther written) first)
        isPlan isDecode decoded

end Unions

theorem Compile.callsAsBound_of_serves {I O : Type} {schema : Schema} {mode : Mode I O}
    {bound : Binding} {r : Linked I O}
    (callees : ∀ routine name config, bound routine name config →
      ∃ callee, r.callee? routine = some callee ∧
        Serves schema .builtin mode callee name config) :
    CallsAsBound schema .builtin mode bound r := by
  intro routine name config callee isBound isCallee
  obtain ⟨served, isServed, serves⟩ := callees routine name config isBound
  obtain rfl := Option.some.inj (isServed.symm.trans isCallee)
  obtain ⟨inner, record, parts, made, -⟩ := serves.elim
  exact ⟨⟨name, config, mode.direction⟩, ⟨inner, record, parts, made⟩, fun _ => rfl⟩

namespace Basket

def plum : RecordType where
  name := "Plum"
  tag := some "plum"

def pear : RecordType where
  name := "Pear"
  fields := [{ name := "seeds", type := .primitive .int }]
  tag := some "pear"

def content : TypeExpr :=
  .union [.primitive .int, .named "Plum", .sequence (.primitive .str), .named "Pear"]

def contentField : Field := { name := "content", type := content, discriminator := some "kind" }

def basket : RecordType where
  name := "Basket"
  fields := [contentField]

def schema : Schema where
  records := ((Table.empty.insert "Plum" plum).insert "Pear" pear).insert "Basket" basket

theorem schema_declared : schema.Declared :=
  .record basket (.record pear (.record plum .empty rfl) rfl) rfl

theorem schema_hasIdentifiers : schema.HasIdentifiers := by
  intro name record found
  rw [Schema.record?, schema] at found
  simp only [Table.get?_insert] at found
  split_ifs at found <;> cases found <;> subst name <;> rfl

def codec : Codec where
  schema := schema

def here : Position := ⟨{}, some "kind"⟩

theorem handled_content :
    Handled schema .builtin content .union (schema.resolve content) := rfl

def plumArm : TypeExpr := .apply (.record .keyword "Plum") []

def pearArm : TypeExpr := .apply (.record .keyword "Pear") []

theorem content_args : (schema.resolve content).args =
    [.primitive .int, plumArm, .sequence (.primitive .str), pearArm] := rfl

theorem separable : here.Separable schema (schema.resolve content).args := by
  refine ⟨by decide +kernel, by decide +kernel, fun arm mem name config isRecord => ?_⟩
  rw [content_args] at mem
  simp only [List.mem_cons, List.not_mem_nil, or_false] at mem
  rcases mem with rfl | rfl | rfl | rfl
  · cases isRecord
  · cases isRecord
    exact ⟨plum, "plum", rfl, by decide, rfl, by decide +kernel⟩
  · cases isRecord
  · cases isRecord
    exact ⟨pear, "pear", rfl, by decide, rfl, by decide +kernel⟩

def pearInstance : Instance := .record "Pear" [("seeds", .int 3)]

def pearValue : Json :=
  .object [("kind", .string "pear"), ("seeds", .number (.whole ⟨3, by decide⟩))]

def pearConfig : Config := armConfig "kind" false {}

theorem encode_pear :
    (Direct.encode schema .builtin 1 "Pear" pearConfig pearInstance).Returns pearValue := by
  rfl

theorem decode_pear :
    (Direct.decode schema .builtin 1 "Pear" pearConfig pearValue).Returns pearInstance := by
  rfl

theorem pear_only {i : Nat} {arm : TypeExpr} (isArm : (schema.resolve content).args[i]? = some arm)
    (inhabits : Inhabits schema arm pearInstance) : i = 3 ∧ arm = pearArm := by
  rw [content_args] at isArm
  match i with
  | 0 =>
    cases isArm
    have isInt : Handled schema .builtin (.primitive .int) (.scalar .int) (.primitive .int) := rfl
    exact (inhabits.elim isInt).elim
  | 1 =>
    cases isArm
    have isPlum : Handled schema .builtin plumArm .record plumArm := rfl
    obtain ⟨_, isName, _, _, other, -⟩ := inhabits.elim isPlum
    cases isName
    simp [pearInstance] at other
  | 2 =>
    cases isArm
    have isList : Handled schema .builtin (.sequence (.primitive .str)) .sequence
        (.sequence (.primitive .str)) := rfl
    obtain ⟨_, other, -⟩ := inhabits.elim isList
    cases other
  | 3 =>
    cases isArm
    exact ⟨rfl, rfl⟩
  | _ + 4 => cases isArm

theorem inhabits_content : Inhabits schema content pearInstance := by
  have isInt : Inhabits schema (.primitive .int) (.int 3) := .scalar rfl trivial
  have handled : Handled schema .builtin pearArm .record pearArm := rfl
  have isPear : Inhabits schema pearArm pearInstance :=
    .of_inhabitsRecord handled rfl (.of_values (r := pear) rfl (by decide) (.cons isInt .nil))
  refine .union handled_content ?_ isPear
  rw [content_args]
  simp

theorem exists_content {I O : Type} {mode : Mode I O} {r : Linked I O}
    (all : mode.fields basket {} = [contentField])
    (serves : Serves schema .builtin mode r "Basket" {}) :
    ∃ arms, CompiledIn schema mode r here content
        (.union (here.plan schema (schema.resolve content)) arms) ∧
      ∀ c, arms[3]? = some c → ∃ routine callee, c = .record routine ∧
        r.callee? routine = some callee ∧
        Serves schema .builtin mode callee "Pear" pearConfig := by
  obtain ⟨bound, record, parts, made, callees⟩ := serves.elim
  obtain rfl : record = basket := Option.some.inj (made.declared.symm.trans rfl)
  have isField : contentField ∈ parts.map Prod.fst := by
    rw [made.fields, all]
    exact List.mem_cons_self
  obtain ⟨⟨f, c⟩, mem, isContent⟩ := List.mem_map.1 isField
  obtain rfl : f = contentField := isContent
  have compiled : Compiles schema .builtin bound here content c := made.compiled _ c mem
  obtain ⟨arms, rfl, -, -, records, -⟩ := compiled.form handled_content
  refine ⟨arms, ⟨bound, callsAsBound_of_serves callees, compiled⟩, fun c isArm => ?_⟩
  obtain ⟨routine, rfl, isBound⟩ := records 3 pearArm c rfl isArm "Pear" pearConfig rfl
  obtain ⟨callee, isCallee, served⟩ := callees routine _ _ isBound
  exact ⟨routine, callee, rfl, isCallee, served⟩

end Basket

theorem union_carries_pear : ∃ (e : Encoder) (d : Decoder) (planE planD : UnionPlan)
    (armsE armsD : List Converter) (j : Json) (w : Instance),
    (Basket.codec.encoder "Basket" {}).1.Returns e ∧
    (Basket.codec.decoder "Basket" {}).1.Returns d ∧
    CompiledIn Basket.schema .encoding e Basket.here Basket.content (.union planE armsE) ∧
    CompiledIn Basket.schema .decoding d Basket.here Basket.content (.union planD armsD) ∧
    Carries e d (.union planE armsE) (.union planD armsD) Basket.pearInstance j w := by
  have history : Basket.codec.cache.History Basket.schema .builtin := .empty 0 0
  have unnumbered := Basket.schema_hasIdentifiers.unnumbered
  have encodes : (Basket.codec.encoder "Basket" {}).1.returnsWith (fun _ => true) = true := by
    decide +kernel
  have decodes : (Basket.codec.decoder "Basket" {}).1.returnsWith (fun _ => true) = true := by
    decide +kernel
  obtain ⟨e, isEncoder, -⟩ := exists_of_returnsWith encodes
  obtain ⟨d, isDecoder, -⟩ := exists_of_returnsWith decodes
  obtain ⟨config, resolved, servesE⟩ := Codec.encoder_serves history (.inr unnumbered) isEncoder
  obtain rfl : config = {} := (Except.ok.inj resolved).symm
  obtain ⟨config, resolved, servesD⟩ := Codec.decoder_serves history (.inr unnumbered) isDecoder
  obtain rfl : config = {} := (Except.ok.inj resolved).symm
  obtain ⟨armsE, compiledE, pearE⟩ := Basket.exists_content rfl servesE
  obtain ⟨armsD, compiledD, pearD⟩ := Basket.exists_content rfl servesD
  obtain ⟨-, -, -, -, j, w, -, -, -, -, -, carries⟩ := union_carries Basket.schema_declared
    Basket.handled_content Basket.separable compiledE compiledD
    (fun i arm enc dec isArm isEnc isDec inArm => by
      obtain ⟨rfl, rfl⟩ := Basket.pear_only isArm inArm
      obtain ⟨routine, callee, rfl, isCallee, serves⟩ := pearE enc isEnc
      obtain ⟨routine', callee', rfl, isCallee', serves'⟩ := pearD dec isDec
      refine ⟨Basket.pearValue, Basket.pearInstance, ⟨1, ?_⟩, ⟨1, ?_⟩, by decide +kernel⟩
      · rw [Converter.encode, Linked.calls_of_callee 1 isCallee,
          serves.callWithin_encode Registry.keepsAny_builtin Basket.schema_declared]
        exact Basket.encode_pear
      · rw [Converter.decode, Linked.calls_of_callee 1 isCallee',
          serves'.callWithin_decode Registry.keepsAny_builtin]
        exact Basket.decode_pear)
    Basket.inhabits_content
  exact ⟨e, d, _, _, armsE, armsD, j, w, isEncoder, isDecoder, compiledE, compiledD, carries⟩

end RecordCodec
