import RecordCodec.Proofs.Codecs
import RecordCodec.Proofs.Correctness
import RecordCodec.Proofs.Fields
import RecordCodec.Proofs.Scalars
import RecordCodec.Proofs.Soundness
import RecordCodec.Proofs.Variants

set_option autoImplicit false

/-!
# Decoding gives back what was encoded

An instance is encoded, its fields in whatever order, and what comes of it decodes to the instance
with its fields in the order of their declaration. In what way it comes back is left open: any
relation will do that goes from the parts of a type to the type. The induction is on the instance,
and the fuel covers the records that are nested in it.
-/
namespace RecordCodec

open Routine Compile Converter

namespace Instance

variable {v w : Instance}

theorem Rearranged.items (h : v.Rearranged w) {items : List Instance}
    (isItems : v.items? = some items) :
    ∃ others, w.items? = some others ∧ items.length = others.length ∧
      ∀ e ∈ items.zip others, Rearranged e.1 e.2 := by
  cases h with
  | refl =>
    refine ⟨items, isItems, rfl, fun e mem => ?_⟩
    rw [(mem_of_mem_zip_self mem).2]
    exact .refl _
  | seq even all | set even all | tuple even all =>
    cases isItems
    exact ⟨_, rfl, even, all⟩
  | _ => cases isItems

theorem Rearranged.entries (h : v.Rearranged w) {entries : List (Instance × Instance)}
    (isEntries : v.entries? = some entries) :
    ∃ others, w.entries? = some others ∧ entries.map Prod.fst = others.map Prod.fst ∧
      ∀ e ∈ entries.zip others, Rearranged e.1.2 e.2.2 := by
  cases h with
  | refl =>
    refine ⟨entries, isEntries, rfl, fun e mem => ?_⟩
    rw [(mem_of_mem_zip_self mem).2]
    exact .refl _
  | map keys all | defaultMap _ keys all =>
    cases isEntries
    exact ⟨_, rfl, keys, all⟩
  | _ => cases isEntries

theorem Rearranged.fields {type : String} {fields : List (String × Instance)}
    (distinct : (Assoc.keys fields).Nodup) (h : Rearranged (.record type fields) w) :
    ∃ others, w = .record type others ∧
      ∀ name, Option.Rel Rearranged (Assoc.get? name fields) (Assoc.get? name others) := by
  cases h with
  | refl =>
    refine ⟨fields, rfl, fun name => ?_⟩
    cases Assoc.get? name fields with
    | none => exact .none
    | some v => exact .some (.refl v)
  | @record _ _ b c names all permuted =>
    refine ⟨c, rfl, fun name => ?_⟩
    cases found : Assoc.get? name fields with
    | none =>
      have absent : name ∉ fields.map Prod.fst := Assoc.get?_eq_none_iff.1 found
      rw [names, (permuted.map Prod.fst).mem_iff] at absent
      rw [Assoc.get?_eq_none_iff.2 absent]
      exact .none
    | some v =>
      obtain ⟨w, isOther, isPair⟩ :=
        get?_of_rearranged distinct names permuted (Assoc.mem_of_get? found)
      rw [isOther]
      exact .some (all _ isPair)

theorem Rearranged.eq_of_depth (h : v.Rearranged w) (flat : v.depth = 0) : w = v := by
  cases h with
  | refl => rfl
  | _ => simp [depth] at flat

theorem depth_of_holds {p : Primitive} (h : p.Holds v) : v.depth = 0 := by
  cases v with
  | seq | set | tuple | map | defaultMap | record => cases p <;> exact h.elim
  | _ => rfl

theorem depth_ofScalar (v : Json) : (ofScalar v).depth = 0 := by
  cases v with
  | number n =>
    rw [ofScalar]
    split <;> rfl
  | _ => rfl

theorem Regular.items (h : v.Regular) {items : List Instance} (isItems : v.items? = some items) :
    ∀ x ∈ items, x.Regular := by
  cases h with
  | seq regulars | set regulars | tuple regulars =>
    cases isItems
    exact regulars
  | _ => cases isItems

theorem Regular.entries (h : v.Regular) {entries : List (Instance × Instance)}
    (isEntries : v.entries? = some entries) :
    (entries.map fun e => e.1.keyString).Nodup ∧ ∀ e ∈ entries, e.2.Regular := by
  cases h with
  | map distinct _ regulars | defaultMap distinct _ regulars =>
    cases isEntries
    exact ⟨distinct, regulars⟩
  | _ => cases isEntries

theorem Regular.fields {type : String} {fields : List (String × Instance)}
    (h : Regular (.record type fields)) : ∀ e ∈ fields, e.2.Regular := by
  cases h with
  | record _ regulars => exact regulars

theorem Regular.finite (h : v.Regular) (x : Binary64) (isFloat : v = .float x) :
    ∃ y, x = .finite y := by
  subst isFloat
  cases h with
  | float y => exact ⟨y, rfl⟩

end Instance

namespace ItemsForm

theorem unique_of_pairwise {items : List Instance}
    (different : items.Pairwise fun v w => Instance.same v w = false) : unique items = items := by
  have through : ∀ (rest seen : List Instance),
      (seen ++ rest).Pairwise (fun v w => Instance.same v w = false) →
      rest.foldl (fun acc v => if Instance.contains acc v then acc else acc ++ [v]) seen =
        seen ++ rest := by
    intro rest
    induction rest with
    | nil => simp
    | cons v rest ih =>
      intro seen different
      have new : Instance.contains seen v = false := by
        have apart := (List.pairwise_append.1 different).2.2
        simp only [Instance.contains, List.any_eq_false, Bool.not_eq_true]
        exact fun w mem => apart w mem v List.mem_cons_self
      rw [List.foldl_cons, new, if_neg Bool.false_ne_true, ih (seen ++ [v])]
      · simp
      · simpa using different
  exact through items [] different

end ItemsForm

namespace Converter

/-- How an instance comes back from two conversions: the one that is encoded and the one that it is
decoded to. -/
abbrev Trip := Encode → Decode → Instance → Instance → Prop

inductive Collects : ItemsForm → List Instance → Instance → Prop where
  | list (items : List Instance) : Collects .list items (.seq items)
  | set {items : List Instance} : items.Pairwise (fun v w => Instance.same v w = false) →
    Collects .set items (.set items)
  | tuple (items : List Instance) : Collects .tuple items (.tuple items)

theorem Collects.items? {form : ItemsForm} {items : List Instance} {v : Instance}
    (h : Collects form items v) : v.items? = some items := by
  cases h <;> rfl

theorem Collects.build {form : ItemsForm} {items : List Instance} {v : Instance}
    (h : Collects form items v) : form.build items = v := by
  cases h with
  | list | tuple => rfl
  | set different => rw [ItemsForm.build, ItemsForm.unique_of_pairwise different]

theorem entries?_build {build : List (Instance × Instance) → Instance}
    (isMapping : build = .map ∨ ∃ default, build = fun entries => .defaultMap entries default)
    (entries : List (Instance × Instance)) : (build entries).entries? = some entries := by
  rcases isMapping with rfl | ⟨default, rfl⟩ <;> rfl

/-- The trip goes from the parts of a type to the type, for instances that fit, through records and
configurations that are good. -/
structure Trip.Lawful (schema : Schema) (R : Trip) (Fits : Instance → Prop)
    (Good : RecordType → Config → Prop) : Prop where
  items : ∀ {v : Instance} {items : List Instance}, Fits v → v.items? = some items →
    ∀ x ∈ items, Fits x
  entries : ∀ {v : Instance} {entries : List (Instance × Instance)}, Fits v →
    v.entries? = some entries → ∀ e ∈ entries, Fits e.2
  fields : ∀ {type : String} {fields : List (String × Instance)}, Fits (.record type fields) →
    ∀ e ∈ fields, Fits e.2
  types : ∀ {r : RecordType} {config : Config}, Good r config →
    ∀ f ∈ r.fields, Reversible schema f.type
  scalar : ∀ {p : Primitive} {v : Instance},
    p ∈ [.null, .bool, .int, .float, .str, .bytes, .any] → p.Holds v → v.Regular →
    R (fun v => .ofExcept (Scalar.encode p v)) (fun j => .ofExcept (Scalar.decode p j)) v v
  null : ∀ {encode : Encode} {decode : Decode}, (encode .null).Returns .null →
    (decode .null).Returns .null → R encode decode .null .null
  /-- Only what is done with null may change. -/
  notNull : ∀ {encode encode' : Encode} {decode decode' : Decode} {given back : Instance},
    R encode decode given back → (∀ j, (encode given).Returns j → j ≠ .null) →
    encode' given = encode given → (∀ j, j ≠ .null → decode' j = decode j) →
    R encode' decode' given back
  list : ∀ {encode : Encode} {decode : Decode} {form : ItemsForm} {items others : List Instance}
    {given back : Instance}, Collects form items back → back.Regular → Fits back →
    given.items? = some others → items.length = others.length →
    (∀ e ∈ items.zip others, R encode decode e.2 e.1) →
    R (Direct.encodeList form encode) (Direct.decodeList form decode) given back
  tuple : ∀ {encode : TypeExpr → Encode} {decode : TypeExpr → Decode} {parts : List TypeExpr}
    {items others : List Instance} {given : Instance}, given.items? = some others →
    items.length = others.length → items.length = parts.length →
    (∀ e ∈ parts.zip (items.zip others), R (encode e.1) (decode e.1) e.2.2 e.2.1) →
    R (encodeTuple (parts.map encode)) (decodeTuple (parts.map decode)) given (.tuple items)
  mapping : ∀ {key item : Encode} {keyBack itemBack : Decode}
    {build : List (Instance × Instance) → Instance} {entries others : List (Instance × Instance)}
    {given : Instance},
    build = .map ∨ (∃ default, build = fun entries => .defaultMap entries default) →
    (∀ s, (key (.str s)).Returns (.string s)) → (∀ s, (keyBack (.string s)).Returns (.str s)) →
    (build entries).Regular → given.entries? = some others → entries.length = others.length →
    (∀ e ∈ entries.zip others, (∃ s, e.1.1 = .str s ∧ e.2.1 = .str s) ∧
      R item itemBack e.2.2 e.1.2) →
    R (encodeMapping key item) (Direct.decodeMapping build keyBack itemBack) given (build entries)
  literal : ∀ {values : List Json} {raw : Json}, (∀ v ∈ values, v.IsLiteral) →
    (raw ∈ values ∨ Json.contains values raw = true) →
    R (fun v => .ofExcept (encodeLiteral values v)) (fun j => .ofExcept (decodeLiteral values j))
      (.ofScalar raw) (.ofScalar raw)
  enumeration : ∀ {e : EnumType} {variant : String} {value : Json}, e.Distinct →
    e.valueOf? variant = some value →
    R (fun v => .ofExcept (encodeEnum e v)) (fun j => .ofExcept (decodeEnum e j))
      (.enumeration ⟨e.name, variant, value⟩) (.enumeration ⟨e.name, variant, value⟩)
  record : ∀ {r : RecordType} {config : Config} {encode : Field → Encode}
    {decode : Field → Decode} {given : Instance} {back : List (String × Instance)},
    Good r config → r.Checked → r.HasFields back → Encoder.checkType r given = .ok () →
    (∀ f ∈ r.fields, Option.Rel
      (fun w v => R (encode f) (decode f) w v ∧ v.Regular ∧ Instance.same v w = true)
      (given.field? f.name) (Assoc.get? f.name back)) →
    R (fun v => Direct.encodeRecord r config v encode)
      (fun j => Direct.decodeRecord r config j decode) given (.record r.name back)

end Converter

namespace Direct

variable {schema : Schema} {R : Trip} {Fits : Instance → Prop} {Good : RecordType → Config → Prop}
  {start : String × Config} {fuel : Nat} {here : Position} {ty target : TypeExpr}
  {handler : Handler} {given back : Instance}

def TripAt (schema : Schema) (R : Trip) (fuel : Nat) (here : Position) (ty : TypeExpr)
    (given back : Instance) : Prop :=
  R (encodeType schema .builtin (Direct.encode schema .builtin fuel) here (schema.resolve ty))
    (decodeType schema .builtin (Direct.decode schema .builtin fuel) here (schema.resolve ty))
    given back

theorem tripAt_of_handled (handled : Handled schema .builtin ty handler target)
    (h : R
      (encodeAs schema (Direct.encode schema .builtin fuel) here target
        (target.args.map (encodeType schema .builtin (Direct.encode schema .builtin fuel) here))
        handler)
      (decodeAs schema (Direct.decode schema .builtin fuel) here target
        (target.args.map (decodeType schema .builtin (Direct.decode schema .builtin fuel) here))
        handler) given back) : TripAt schema R fuel here ty given back := by
  rw [TripAt, encodeType_of_handled handled, decodeType_of_handled handled]
  exact h

theorem trip_part (handled : Handled schema .builtin ty handler target) {index : Nat}
    (h : TripAt schema R fuel here (target.arg index) given back) :
    R (part encodeAny
        (target.args.map (encodeType schema .builtin (Direct.encode schema .builtin fuel) here))
        index)
      (part decodeAny
        (target.args.map (decodeType schema .builtin (Direct.decode schema .builtin fuel) here))
        index) given back := by
  rw [TripAt, handled.resolve_arg] at h
  rw [part_encodeType Registry.keepsAny_builtin, part_decodeType Registry.keepsAny_builtin]
  exact h

theorem mem_zip_zip {α β γ : Type} {as : List α} {bs : List β} {cs : List γ} {e : α × β × γ}
    (mem : e ∈ as.zip (bs.zip cs)) :
    e.1 ∈ as ∧ e.2 ∈ bs.zip cs ∧ (e.1, e.2.1) ∈ as.zip bs := by
  obtain ⟨k, isTriple⟩ := List.mem_iff_getElem?.1 mem
  obtain ⟨isA, isPair⟩ := List.getElem?_zip_eq_some.1 isTriple
  obtain ⟨isB, -⟩ := List.getElem?_zip_eq_some.1 isPair
  exact ⟨List.mem_of_getElem? isA, List.mem_of_getElem? isPair,
    List.mem_of_getElem? (List.getElem?_zip_eq_some.2 ⟨isA, isB⟩)⟩

section Texts
variable {key : TypeExpr} (isText : Handled schema .builtin (target.arg 0) (.scalar .str) key)
include isText

theorem encodePart_text (handled : Handled schema .builtin ty handler target) (fuel : Nat)
    (here : Position) (s : String) :
    (part encodeAny
      (target.args.map (encodeType schema .builtin (Direct.encode schema .builtin fuel) here)) 0
        (.str s)).Returns (.string s) := by
  rw [part_encodeType Registry.keepsAny_builtin, ← handled.resolve_arg,
    encodeType_of_handled isText]
  exact Run.Returns.ofExcept_iff.2 rfl

theorem decodePart_text (handled : Handled schema .builtin ty handler target) (fuel : Nat)
    (here : Position) (s : String) :
    (part decodeAny
      (target.args.map (decodeType schema .builtin (Direct.decode schema .builtin fuel) here)) 0
        (.string s)).Returns (.str s) := by
  rw [part_decodeType Registry.keepsAny_builtin, ← handled.resolve_arg,
    decodeType_of_handled isText]
  exact Run.Returns.ofExcept_iff.2 rfl

theorem exists_text {entries others : List (Instance × Instance)}
    (keys : ∀ e ∈ entries, Inhabits schema (target.arg 0) e.1)
    (sameKeys : entries.map Prod.fst = others.map Prod.fst)
    {e : (Instance × Instance) × Instance × Instance} (mem : e ∈ entries.zip others) :
    ∃ s, e.1.1 = .str s ∧ e.2.1 = .str s := by
  have holds : Primitive.str.Holds e.1.1 := (keys e.1 (List.of_mem_zip mem).1).elim isText
  rw [← Instance.fst_eq_of_mem_zip sameKeys mem]
  cases isKey : e.1.1 with
  | str s => exact ⟨s, rfl, rfl⟩
  | _ => rw [isKey] at holds; exact holds.elim

end Texts

/-- However its fields stand, the instance comes back from its encoded form. -/
def ComesBack (schema : Schema) (R : Trip) (Fits : Instance → Prop) (start : String × Config)
    (ty : TypeExpr) (v : Instance) : Prop :=
  ∀ ⦃w here fuel⦄, v.Rearranged w → v.Regular → Fits v → Reversible schema ty →
    Covers schema start here ty → v.depth ≤ fuel → TripAt schema R fuel here ty w v

namespace ComesBack

variable {v : Instance} (lawful : R.Lawful schema Fits Good)
include lawful

theorem scalar {p : Primitive} (handled : Handled schema .builtin ty (.scalar p) target)
    (holds : p.Holds v) : ComesBack schema R Fits start ty v := by
  intro w here fuel rearranged regular _ reversible _ _
  obtain rfl := rearranged.eq_of_depth (Instance.depth_of_holds holds)
  exact tripAt_of_handled handled (lawful.scalar (reversible.elim handled) holds regular)

theorem null (handled : Handled schema .builtin ty .optional target) :
    ComesBack schema R Fits start ty .null := by
  intro w here fuel rearranged _ _ _ _ _
  obtain rfl := rearranged.eq_of_depth rfl
  exact tripAt_of_handled handled
    (lawful.null (Run.Returns.pure_iff.2 rfl) (Run.Returns.pure_iff.2 rfl))

theorem optional (handled : Handled schema .builtin ty .optional target)
    (inhabits : Inhabits schema (target.arg 0) v)
    (h : ComesBack schema R Fits start (target.arg 0) v) : ComesBack schema R Fits start ty v := by
  intro w here fuel rearranged regular fits reversible covers enough
  obtain ⟨inner, neverNull⟩ := reversible.elim handled
  have inside := h rearranged regular fits inner (covers.arg handled 0) enough
  have notNull := neverNull v w inhabits regular rearranged fuel here
  rw [TripAt] at inside
  rw [handled.resolve_arg] at inside notNull
  by_cases isNull : w = .null
  · subst isNull
    cases rearranged
    exact null lawful handled (.refl _) regular fits reversible covers enough
  · have given : w.isNull = false := by cases w <;> simp_all [Instance.isNull]
    refine tripAt_of_handled handled (lawful.notNull inside notNull ?_ fun j isSome => ?_)
    · simp only [encodeAs, given, Bool.false_eq_true, if_false,
        part_encodeType Registry.keepsAny_builtin]
    · have there : j.isNull = false := by cases j <;> simp_all [Json.isNull]
      simp only [decodeAs, there, Bool.false_eq_true, if_false,
        part_decodeType Registry.keepsAny_builtin]

theorem items (form : ItemsForm) (handled : Handled schema .builtin ty (itemsHandler form) target)
    {items : List Instance} (collects : Collects form items v)
    (h : ∀ x ∈ items, ComesBack schema R Fits start (target.arg 0) x) :
    ComesBack schema R Fits start ty v := by
  intro w here fuel rearranged regular fits reversible covers enough
  have isItems := collects.items?
  obtain ⟨others, isOthers, even, all⟩ := rearranged.items isItems
  have inner : Reversible schema (target.arg 0) := by
    cases form <;> exact reversible.elim handled
  have trips : ∀ e ∈ items.zip others, TripAt schema R fuel here (target.arg 0) e.2 e.1 := by
    intro e mem
    have isItem := (List.of_mem_zip mem).1
    exact h e.1 isItem (all e mem) (regular.items isItems e.1 isItem)
      (lawful.items fits isItems e.1 isItem) inner (covers.arg handled 0)
      (Nat.le_trans (Instance.depth_le_of_mem_items? isItems isItem) enough)
  have list := lawful.list collects regular fits isOthers even fun e mem =>
    trip_part handled (trips e mem)
  refine tripAt_of_handled handled ?_
  cases form <;> exact list

theorem literal (handled : Handled schema .builtin ty .literal target) {raw : Json}
    (listed : raw ∈ target.literals ∨ Json.contains target.literals raw = true) :
    ComesBack schema R Fits start ty (.ofScalar raw) := by
  intro w here fuel rearranged _ _ reversible _ _
  obtain rfl := rearranged.eq_of_depth (Instance.depth_ofScalar raw)
  exact tripAt_of_handled handled (lawful.literal (reversible.elim handled) listed)

theorem enumeration (handled : Handled schema .builtin ty .enumeration target) {e : EnumType}
    (isEnum : findEnum schema target = .ok e) {variant : String} {value : Json}
    (isValue : e.valueOf? variant = some value) :
    ComesBack schema R Fits start ty (.enumeration ⟨e.name, variant, value⟩) := by
  intro w here fuel rearranged _ _ reversible _ _
  obtain rfl := rearranged.eq_of_depth rfl
  obtain ⟨found, isFound, distinct⟩ := reversible.elim handled
  cases isFound.symm.trans isEnum
  have trip := lawful.enumeration distinct isValue
  refine tripAt_of_handled handled ?_
  unfold encodeAs decodeAs
  simp only [isEnum]
  exact trip

theorem tuple (handled : Handled schema .builtin ty .fixedTuple target) {items : List Instance}
    (evenParts : items.length = target.args.length)
    (h : ∀ e ∈ target.args.zip items, ComesBack schema R Fits start e.1 e.2) :
    ComesBack schema R Fits start ty (.tuple items) := by
  intro w here fuel rearranged regular fits reversible covers enough
  obtain ⟨others, isOthers, even, all⟩ := rearranged.items rfl
  have inner := reversible.elim handled
  refine tripAt_of_handled handled (lawful.tuple isOthers even evenParts fun e mem => ?_)
  obtain ⟨isArg, isPair, isPart⟩ := mem_zip_zip mem
  have isItem := (List.of_mem_zip isPair).1
  have trip : TripAt schema R fuel here e.1 e.2.2 e.2.1 :=
    h _ isPart (all _ isPair) (regular.items rfl _ isItem) (lawful.items fits rfl _ isItem)
      (inner _ isArg) (covers.of_mem handled isArg)
      (Nat.le_trans (Instance.depth_le_of_mem_items? rfl isItem) enough)
  rw [TripAt, handled.resolve_of_mem isArg] at trip
  exact trip

theorem mapping {build : List (Instance × Instance) → Instance}
    (handled : Handled schema .builtin ty handler target)
    (isMapping : handler = .mapping ∧ build = .map ∨
      handler = .defaultMapping ∧
        build = fun entries => .defaultMap entries (zeroOf (target.arg 1)))
    {entries : List (Instance × Instance)}
    (keys : ∀ e ∈ entries, Inhabits schema (target.arg 0) e.1)
    (h : ∀ e ∈ entries, ComesBack schema R Fits start (target.arg 1) e.2) :
    ComesBack schema R Fits start ty (build entries) := by
  intro w here fuel rearranged regular fits reversible covers enough
  have isBuild : build = .map ∨ ∃ default, build = fun entries => .defaultMap entries default :=
    isMapping.imp And.right fun isDefault => ⟨_, isDefault.2⟩
  have isEntries := entries?_build isBuild entries
  obtain ⟨others, isOthers, sameKeys, all⟩ := rearranged.entries isEntries
  have regulars := (regular.entries isEntries).2
  obtain ⟨⟨key, isText⟩, inner⟩ :
      (∃ key, Handled schema .builtin (target.arg 0) (.scalar .str) key) ∧
      Reversible schema (target.arg 1) := by
    rcases isMapping with ⟨rfl, -⟩ | ⟨rfl, -⟩ <;> exact reversible.elim handled
  have even : entries.length = others.length := by simpa using congrArg List.length sameKeys
  have trips : ∀ e ∈ entries.zip others,
      TripAt schema R fuel here (target.arg 1) e.2.2 e.1.2 := by
    intro e mem
    have isEntry := (List.of_mem_zip mem).1
    exact h e.1 isEntry (all e mem) (regulars e.1 isEntry)
      (lawful.entries fits isEntries e.1 isEntry) inner (covers.arg handled 1)
      (Nat.le_trans (Instance.depth_le_of_mem_entries? isEntries isEntry).2 enough)
  have both := lawful.mapping isBuild (encodePart_text isText handled fuel here)
    (decodePart_text isText handled fuel here) regular isOthers even fun e mem =>
      ⟨exists_text isText keys sameKeys mem, trip_part handled (trips e mem)⟩
  refine tripAt_of_handled handled ?_
  rcases isMapping with ⟨rfl, rfl⟩ | ⟨rfl, rfl⟩ <;> exact both

section Records
variable (declarations : schema.Declared)
  (good : ∀ name config r, Reaches schema start name config →
    schema.record? name = some r → Good r config)
  {name : String} {r : RecordType} {fields : List (String × Instance)}
  (declared : schema.record? name = some r) (shape : r.HasFields fields)
  (h : ∀ f ∈ r.fields, ∀ v, (f.name, v) ∈ fields → ComesBack schema R Fits start f.type v)
include declarations good declared shape h

theorem trip_reached {config : Config} (reached : Reaches schema start name config)
    {w : Instance} (rearranged : (Instance.record name fields).Rearranged w)
    (regular : (Instance.record name fields).Regular)
    (fits : Fits (.record name fields)) (enough : (Instance.record name fields).depth ≤ fuel) :
    R (Direct.encode schema .builtin fuel name config)
      (Direct.decode schema .builtin fuel name config) w (.record name fields) := by
  obtain ⟨isSame, -, checked⟩ := declarations.checked declared
  cases fuel with
  | zero => simp [Instance.depth] at enough
  | succ fuel =>
    have named : (Assoc.keys fields).Nodup := shape.distinct
    obtain ⟨others, rfl, related⟩ := rearranged.fields named
    have isGood := good name config r reached declared
    have each : ∀ f ∈ r.fields, Option.Rel
        (fun w v => R
          (encodeType schema .builtin (Direct.encode schema .builtin fuel)
            ⟨config, f.discriminator⟩ (schema.resolve f.type))
          (decodeType schema .builtin (Direct.decode schema .builtin fuel)
            ⟨config, f.discriminator⟩ (schema.resolve f.type)) w v ∧
          v.Regular ∧ Instance.same v w = true)
        (Assoc.get? f.name others) (Assoc.get? f.name fields) := by
      intro f mem
      rcases rel_cases (related f.name) with ⟨isBack, isGiven⟩ | ⟨v, u, isBack, isGiven, same⟩
      · rw [isBack, isGiven]
        exact .none
      · rw [isBack, isGiven]
        have isField := Assoc.mem_of_get? isBack
        have regular : v.Regular := regular.fields (f.name, v) isField
        have below : v.depth ≤ fuel := by
          have := Instance.depth_le_of_mem_fields isField
          simp only [Instance.depth] at enough this
          omega
        have inner : Covers schema start ⟨config, f.discriminator⟩ f.type :=
          fun _ _ mentions found => .step reached declared mem mentions found
        exact .some ⟨h f mem v isField same regular (lawful.fields fits (f.name, v) isField)
          (lawful.types isGood f mem) inner below, regular, same.same regular⟩
    have isRecord : Encoder.checkType r (.record name others) = .ok () := by
      simp [Encoder.checkType, isSame]
    have trip := lawful.record isGood checked shape isRecord each
    rw [isSame] at trip
    rw [funext (encode_succ declared fuel config), funext (decode_succ declared fuel config)]
    exact trip

theorem record (handled : Handled schema .builtin ty .record target)
    (isName : target.shape.recordName? = some name) :
    ComesBack schema R Fits start ty (.record name fields) := by
  intro w here fuel rearranged regular fits _ covers enough
  have nested := here.nestedConfig_of_declared declared
  have trip := trip_reached lawful declarations good declared shape h
    (covers name r (.here handled isName) declared) rearranged regular fits enough
  refine tripAt_of_handled handled ?_
  unfold encodeAs decodeAs
  simp only [isName, nested]
  exact trip

end Records

end ComesBack

section
variable (lawful : R.Lawful schema Fits Good) (declarations : schema.Declared)
  (good : ∀ name config r, Reaches schema start name config →
    schema.record? name = some r → Good r config)
include lawful declarations good

theorem comesBack {v : Instance} (h : Inhabits schema ty v) :
    ComesBack schema R Fits start ty v := by
  induction h with
  | scalar handled holds => exact .scalar lawful handled holds
  | absent handled => exact .null lawful handled
  | given handled inhabits ih => exact .optional lawful handled inhabits ih
  | sequence handled _ ih => exact .items lawful .list handled (.list _) ih
  | set handled _ different ih => exact .items lawful .set handled (.set different) ih
  | variadicTuple handled _ ih => exact .items lawful .tuple handled (.tuple _) ih
  | fixedTuple handled even _ ih => exact .tuple lawful handled even ih
  | mapping handled keys _ _ ih => exact .mapping lawful handled (.inl ⟨rfl, rfl⟩) keys ih
  | defaultMapping handled keys _ _ ih => exact .mapping lawful handled (.inr ⟨rfl, rfl⟩) keys ih
  | literal handled listed => exact .literal lawful handled listed
  | enumeration handled isEnum isValue => exact .enumeration lawful handled isEnum isValue
  | union handled => exact fun _ _ _ _ _ _ reversible => (reversible.elim handled).elim
  | record handled isName declared shape _ ih =>
    exact .record lawful declarations good declared shape ih handled isName

theorem trip_of_inhabitsRecord {name : String} {config : Config}
    (reached : Reaches schema start name config) {v w : Instance}
    (inhabits : InhabitsRecord schema name v) (rearranged : v.Rearranged w) (regular : v.Regular)
    (fits : Fits v) :
    R (Direct.encode schema .builtin v.depth name config)
      (Direct.decode schema .builtin v.depth name config) w v := by
  obtain ⟨r, fields, rfl, declared, shape, values⟩ := inhabits
  exact ComesBack.trip_reached lawful declarations good declared shape
    (fun f mem v isField => comesBack lawful declarations good (values f mem v isField)) reached
    rearranged regular fits (Nat.le_refl _)

end

/-- Through invertible records an instance comes back as it is. -/
theorem lawful_recovers (schema : Schema) :
    Trip.Lawful schema Recovers (fun _ => True) (Invertible schema) where
  items _ _ _ _ := trivial
  entries _ _ _ _ := trivial
  fields _ _ _ := trivial
  types inv := inv.types
  scalar known holds regular := by
    obtain ⟨j, encoded, decoded⟩ := Scalar.decode_encode known holds regular.finite
    exact ⟨j, Run.Returns.ofExcept_iff.2 encoded, Run.Returns.ofExcept_iff.2 decoded⟩
  null encoded decoded := ⟨.null, encoded, decoded⟩
  notNull := by
    rintro encode encode' decode decode' given back ⟨j, encoded, decoded⟩ notNull same sameBack
    exact ⟨j, same ▸ encoded, sameBack j (notNull j encoded) ▸ decoded⟩
  list collects _ _ isOthers even each := collects.build ▸ .list _ isOthers even each
  tuple isOthers even evenParts each := .tuple isOthers even evenParts each
  mapping isMapping keys keysBack regular isOthers even each :=
    .mapping _ keys keysBack isOthers even each (regular.entries (entries?_build isMapping _)).1
  literal literals listed := by
    obtain ⟨encoded, decoded⟩ := decodeLiteral_encodeLiteral literals listed
    exact ⟨_, Run.Returns.ofExcept_iff.2 encoded, Run.Returns.ofExcept_iff.2 decoded⟩
  enumeration distinct isValue := by
    obtain ⟨encoded, decoded⟩ := decodeEnum_encodeEnum distinct isValue
    exact ⟨_, Run.Returns.ofExcept_iff.2 encoded, Run.Returns.ofExcept_iff.2 decoded⟩
  record inv checked shape isRecord each := by
    refine recovers_record checked inv shape isRecord fun f mem => ?_
    rcases rel_cases (each f mem) with ⟨isGiven, isBack⟩ | ⟨w, v, isGiven, isBack, both⟩
    · rw [isGiven, isBack]
      exact .none
    · rw [isGiven, isBack]
      exact .some both.1

end Direct
end RecordCodec
