import RecordCodec.Proofs.Integers
import RecordCodec.Proofs.JoinedTexts
import RecordCodec.Proofs.Locality
import RecordCodec.Proofs.LoneRecords
import RecordCodec.Proofs.Results
import RecordCodec.Proofs.RoundTrip

set_option autoImplicit false

/-!
# Types whose instances have flat texts

Scalars, optional scalars and containers of scalars can be given as texts, as in the variables of an
environment. With the built-in handlers a type of these compiles to one converter wherever it
stands, and this reads an instance back from its text.
-/
namespace RecordCodec

open Routine Compile Direct

inductive FlatScalar where
  | bool | int | str
deriving DecidableEq

namespace FlatScalar

def primitive : FlatScalar → Primitive
  | bool => .bool
  | int => .int
  | str => .str

def type (s : FlatScalar) : TypeExpr := .primitive s.primitive

def converter (s : FlatScalar) : Converter := .scalar s.primitive

end FlatScalar

inductive FlatType where
  | scalar (s : FlatScalar)
  | optional (s : FlatScalar)
  | items (form : ItemsForm) (s : FlatScalar)
  | tuple (parts : List FlatScalar)
  | mapping (s : FlatScalar)

namespace FlatType

def itemsShape : ItemsForm → Shape
  | .list => .sequence
  | .set => .set
  | .tuple => .variadicTuple

def type : FlatType → TypeExpr
  | scalar s => s.type
  | optional s => .optional s.type
  | items form s => .apply (itemsShape form) [s.type]
  | tuple parts => .tuple (parts.map FlatScalar.type)
  | mapping s => .apply .mapping [FlatScalar.str.type, s.type]

def handler : FlatType → Handler
  | scalar s => .scalar s.primitive
  | optional _ => .optional
  | items form _ => itemsHandler form
  | tuple _ => .fixedTuple
  | mapping _ => .mapping

def converter : FlatType → Converter
  | scalar s => s.converter
  | optional s => .optional s.converter
  | items form s => .items form s.converter
  | tuple parts => .tuple (parts.map FlatScalar.converter)
  | mapping s => .mapping FlatScalar.str.converter s.converter

end FlatType

/-- The registry has the built-in handlers for a type and for its arguments. -/
def Registry.KeepsBuiltin (registry : Registry) (ty : TypeExpr) : Prop :=
  ∀ inner ∈ ty :: ty.args, registry.lookup? inner = builtin.lookup? inner

theorem Registry.keepsBuiltin_builtin (ty : TypeExpr) : builtin.KeepsBuiltin ty := fun _ _ => rfl

section Compiling
variable {schema : Schema} {registry : Registry} {t : FlatType} {s : FlatScalar}

namespace FlatType

theorem resolve_type (schema : Schema) (t : FlatType) : schema.resolve t.type = t.type := by
  cases t with
  | tuple parts =>
    simp [type, TypeExpr.tuple, TypeExpr.apply, Schema.resolve, TypeExpr.mapShapes,
      TypeExpr.mapAllShapes_eq, Schema.resolveShape, FlatScalar.type, TypeExpr.primitive]
  | items form s => cases form <;> rfl
  | _ => rfl

theorem lookup?_builtin (t : FlatType) : Registry.builtin.lookup? t.type = some t.handler := by
  cases t with
  | scalar s => cases s <;> rfl
  | items form s => cases form <;> rfl
  | _ => rfl

theorem exists_of_mem_args {ty : TypeExpr} (h : ty ∈ t.type.args) :
    ∃ s : FlatScalar, ty = s.type := by
  cases t with
  | scalar s => cases h
  | tuple parts =>
    obtain ⟨s, -, rfl⟩ := List.mem_map.1 h
    exact ⟨s, rfl⟩
  | mapping s =>
    rcases List.mem_pair.1 h with rfl | rfl
    · exact ⟨.str, rfl⟩
    · exact ⟨s, rfl⟩
  | optional s | items form s => exact ⟨s, List.mem_singleton.1 h⟩

variable (keeps : registry.KeepsBuiltin t.type)
include keeps

theorem handled : Handled schema registry t.type t.handler t.type := by
  unfold Handled
  rw [t.resolve_type, Registry.resolve, keeps _ List.mem_cons_self, t.lookup?_builtin]

theorem arg_handled (mem : s.type ∈ t.type.args) :
    Handled schema registry s.type (.scalar s.primitive) s.type := by
  have same : registry.lookup? s.type = Registry.builtin.lookup? s.type :=
    keeps _ (List.mem_cons_of_mem _ mem)
  refine handled (t := .scalar s) fun inner isInner => ?_
  obtain rfl := List.mem_singleton.1 isInner
  exact same

end FlatType

theorem FlatScalar.eq_converter (handled : Handled schema registry s.type (.scalar s.primitive)
    s.type) {bound : Binding} {here : Position} {c : Converter}
    (compiles : Compiles schema registry bound here s.type c) : c = s.converter :=
  compiles.form handled

theorem FlatScalar.converterFor_gives {I O : Type} {cx : Context I O}
    (handled : Handled cx.schema cx.registry s.type (.scalar s.primitive) s.type) (fuel : Nat)
    (state : Compilation I O) :
    Gives (converterFor cx (fuel + 1) s.type) state s.converter state :=
  Gives.bind_iff.2 ⟨_, _, Gives.ofExcept_iff.2 ⟨handled, rfl⟩, Gives.pure_iff.2 ⟨rfl, rfl⟩⟩

namespace FlatType

theorem eq_converter (keeps : registry.KeepsBuiltin t.type) {bound : Binding} {here : Position}
    {c : Converter} (compiles : Compiles schema registry bound here t.type c) :
    c = t.converter := by
  have parts : ∀ {s : FlatScalar} {c : Converter}, s.type ∈ t.type.args →
      Compiles schema registry bound here s.type c → c = s.converter :=
    fun mem => FlatScalar.eq_converter (arg_handled keeps mem)
  have made := compiles.form (handled keeps)
  cases t with
  | scalar s => exact made
  | optional s =>
    obtain ⟨inner, rfl, isInner⟩ := made
    rw [parts List.mem_cons_self isInner]
    rfl
  | items form s =>
    cases form <;>
    · obtain ⟨item, rfl, isItem⟩ := made
      rw [parts List.mem_cons_self isItem]
      rfl
  | mapping s =>
    obtain ⟨key, item, rfl, isKey, isItem⟩ := made
    rw [parts List.mem_cons_self isKey, parts (List.mem_cons_of_mem _ List.mem_cons_self) isItem]
    rfl
  | tuple scalars =>
    obtain ⟨converters, rfl, count, each⟩ := made
    have same : converters.map id = scalars.map FlatScalar.converter := by
      refine Compiles.map_eq_map_of_getElem? (by simpa [type, TypeExpr.tuple, TypeExpr.apply]
        using count) fun i c s isScalar isPart => ?_
      have isArg : (tuple scalars).type.args[i]? = some s.type := by
        simp [type, TypeExpr.tuple, TypeExpr.apply, isScalar]
      exact parts (List.mem_of_getElem? isArg) (each i _ c isArg isPart)
    rw [converter, ← same, List.map_id]

theorem converterFor_stays {I O : Type} {cx : Context I O} (keeps : cx.registry.KeepsBuiltin t.type)
    (fuel : Nat) : Stays (converterFor cx (fuel + 2) t.type) := by
  have parts : ∀ {s : FlatScalar}, s.type ∈ t.type.args →
      ∀ state, Gives (converterFor cx (fuel + 1) s.type) state s.converter state :=
    fun mem => FlatScalar.converterFor_gives (arg_handled keeps mem) fuel
  refine .bind (fun state => Gives.ofExcept_iff.2 ⟨handled keeps, rfl⟩) ?_
  cases t with
  | scalar s => exact .pure _
  | optional s => exact .bind (parts List.mem_cons_self) (.pure _)
  | items form s => cases form <;> exact .bind (parts List.mem_cons_self) (.pure _)
  | mapping s =>
    exact .bind (parts List.mem_cons_self)
      (.bind (parts (List.mem_cons_of_mem _ List.mem_cons_self)) (.pure _))
  | tuple scalars =>
    refine .map (.mapM fun ty mem => ?_) _
    obtain ⟨s, rfl⟩ := exists_of_mem_args mem
    exact ⟨s.converter, parts mem⟩

end FlatType
end Compiling

namespace Instance

def itemText : Instance → String
  | bool b => if b then "true" else "false"
  | int n => Json.intText n.toInt
  | str s => s
  | _ => ""

def itemsText (items : List Instance) : String := Text.joined (items.map itemText)

def pairsText (entries : List (Instance × Instance)) : String :=
  Text.joined (entries.map fun e => Text.pairText e.1.itemText e.2.itemText)

/-- The text of a scalar, of items between commas, or of pairs between commas. -/
def flatText : Instance → String
  | seq items | set items | tuple items => itemsText items
  | map entries => pairsText entries
  | v => v.itemText

/-- A text has no comma in it and no blanks around it. -/
def IsTidy (v : Instance) : Prop := ∀ s, v = str s → Text.IsItem s

/-- The flat text tells the instance: it is a value, texts in containers are items, keys have no
sign in them, and items are there if the text is not blank. -/
def HasFlatText : Instance → Prop
  | null => False
  | seq items | set items | tuple items =>
    (∀ v ∈ items, v.IsTidy) ∧ (items ≠ [] → Text.trim (itemsText items).toList ≠ [])
  | map entries => ∀ e ∈ entries, e.1.IsTidy ∧ e.2.IsTidy ∧ '=' ∉ e.1.itemText.toList
  | _ => True

end Instance

namespace FlatScalar

variable {s : FlatScalar} {v : Instance} (holds : s.primitive.Holds v)
include holds

theorem isItem_itemText (tidy : v.IsTidy) : Text.IsItem v.itemText := by
  cases s <;> cases v <;> try contradiction
  case bool.bool b => cases b <;> exact ⟨rfl, by simp [Instance.itemText]⟩
  case int.int n => exact Text.isItem_of_isNumeral (TypeExpr.isNumeral_intText n.toInt)
  case str.str text => exact tidy text rfl

theorem decode_itemText : Scalar.decode s.primitive (.string v.itemText) = .ok v := by
  cases s <;> cases v <;> try contradiction
  case bool.bool b => cases b <;> rfl
  case int.int n =>
    simp [Scalar.decode, primitive, Instance.itemText, Scalar.int?_intText, Scalar.orRefuse]
  case str.str text => rfl

end FlatScalar

section Reading
variable {schema : Schema} {t : FlatType} {v : Instance}

theorem FlatScalar.holds_of_inhabits {s : FlatScalar} (h : Inhabits schema s.type v) :
    s.primitive.Holds v :=
  h.elim (FlatType.handled (t := .scalar s) (Registry.keepsBuiltin_builtin _))

theorem Converter.listItems?_itemsText {items : List Instance}
    (clean : ∀ v ∈ items, Text.IsItem v.itemText)
    (visible : items ≠ [] → Text.trim (Instance.itemsText items).toList ≠ []) :
    listItems? (.string (Instance.itemsText items)) =
      some (items.map fun v => .string v.itemText) := by
  have parts : Text.listItems (Instance.itemsText items) = items.map Instance.itemText :=
    Text.listItems_joined (List.forall_mem_map.2 clean) fun some => visible (by simpa using some)
  rw [listItems?, parts, List.map_map]
  rfl

theorem Converter.mapEntries_pairsText {entries : List (Instance × Instance)}
    (clean : ∀ e ∈ entries, Text.IsItem e.1.itemText ∧ Text.IsItem e.2.itemText ∧
      '=' ∉ e.1.itemText.toList) :
    mapEntries (.string (Instance.pairsText entries)) =
      .ok (entries.map fun e => (e.1.itemText, .string e.2.itemText)) := by
  let pairs := entries.map fun e => (e.1.itemText, e.2.itemText)
  have text : Instance.pairsText entries =
      Text.joined (pairs.map fun e => Text.pairText e.1 e.2) := by
    rw [Instance.pairsText, List.map_map]
    rfl
  have parts : Text.listItems (Instance.pairsText entries) =
      pairs.map fun e => Text.pairText e.1 e.2 := by
    rw [text]
    refine Text.listItems_joined (fun item mem => ?_) fun some =>
      Text.trim_joined_pairs (by simpa using some)
    obtain ⟨_, isPair, rfl⟩ := List.mem_map.1 mem
    obtain ⟨e, isEntry, rfl⟩ := List.mem_map.1 isPair
    exact Text.isItem_pairText (clean e isEntry).1 (clean e isEntry).2.1
  have read : (Text.listItems (Instance.pairsText entries)).mapM textEntry? =
      some (entries.map fun e => (e.1.itemText, .string e.2.itemText)) := by
    rw [parts]
    refine mapM_of_forall₂ ?_
    simp only [pairs, List.forall₂_map_left_iff, List.forall₂_map_right_iff, List.forall₂_same]
    exact fun e mem => Text.textEntry?_pairText (clean e mem).1 (clean e mem).2.1 (clean e mem).2.2
  rw [mapEntries, read]

namespace FlatScalar

variable {s : FlatScalar} (calls : Calls Json Instance)

theorem decode_returns (holds : s.primitive.Holds v) :
    (s.converter.decode calls (.string v.itemText)).Returns v :=
  Run.Returns.ofExcept_iff.2 (decode_itemText holds)

theorem flatText_eq (holds : s.primitive.Holds v) : v.flatText = v.itemText := by
  cases s <;> cases v <;> first | contradiction | rfl

theorem decode_items {items : List Instance} (each : ∀ v ∈ items, s.primitive.Holds v)
    (tidy : ∀ v ∈ items, v.IsTidy)
    (visible : items ≠ [] → Text.trim (Instance.itemsText items).toList ≠ []) (form : ItemsForm) :
    ((Converter.items form s.converter).decode calls
      (.string (Instance.itemsText items))).Returns (form.build items) := by
  have parts := Converter.listItems?_itemsText
    (fun v mem => isItem_itemText (each v mem) (tidy v mem)) visible
  have decoded : (Converter.decodeItems (s.converter.decode calls) 0
      (items.map fun v => .string v.itemText)).Returns items := by
    rw [Converter.decodeItems_returns_iff, List.forall₂_map_left_iff, List.forall₂_same]
    exact fun v mem => decode_returns calls (each v mem)
  rw [Converter.decode, parts]
  exact Run.Returns.bind_iff.2 ⟨items, decoded, Run.Returns.pure_iff.2 rfl⟩

end FlatScalar

namespace FlatType

theorem decode_tuple {scalars : List FlatScalar} {items : List Instance}
    (count : items.length = scalars.length)
    (each : ∀ e ∈ scalars.zip items, e.1.primitive.Holds e.2) (tidy : ∀ v ∈ items, v.IsTidy)
    (visible : items ≠ [] → Text.trim (Instance.itemsText items).toList ≠ [])
    (calls : Calls Json Instance) :
    ((tuple scalars).converter.decode calls (.string (Instance.itemsText items))).Returns
      (.tuple items) := by
  have second : (scalars.zip items).map Prod.snd = items := List.map_snd_zip count.le
  have clean : ∀ v ∈ items, Text.IsItem v.itemText := by
    intro v mem
    obtain ⟨e, isPair, rfl⟩ := List.mem_map.1 (second ▸ mem)
    exact FlatScalar.isItem_itemText (each e isPair) (tidy _ mem)
  let decoders := scalars.map fun s => s.converter.decode calls
  have even : (items.map fun v => Json.string v.itemText).length = decoders.length := by
    simp [decoders, count]
  have decoded : (Converter.decodeParts 0 decoders
      (items.map fun v => .string v.itemText)).Returns items := by
    rw [Converter.decodeParts_returns_iff even, List.zip_map]
    conv => rhs; rw [← second]
    simp only [List.forall₂_map_left_iff, List.forall₂_map_right_iff, List.forall₂_same]
    exact fun e mem => FlatScalar.decode_returns calls (each e mem)
  have all : Converter.decodeAll calls (scalars.map FlatScalar.converter) = decoders := by
    rw [Compiles.decodeAll_eq, List.map_map]
    rfl
  rw [converter, Converter.decode, all, Converter.decodeTuple,
    Converter.listItems?_itemsText clean visible]
  simp only [if_pos even]
  exact Run.Returns.bind_iff.2 ⟨items, decoded, Run.Returns.pure_iff.2 rfl⟩

theorem decode_mapping {s : FlatScalar} {entries : List (Instance × Instance)}
    (keys : ∀ e ∈ entries, FlatScalar.str.primitive.Holds e.1)
    (values : ∀ e ∈ entries, s.primitive.Holds e.2) (flat : (Instance.map entries).HasFlatText)
    (calls : Calls Json Instance) :
    ((mapping s).converter.decode calls (.string (Instance.pairsText entries))).Returns
      (.map entries) := by
  have clean : ∀ e ∈ entries, Text.IsItem e.1.itemText ∧ Text.IsItem e.2.itemText ∧
      '=' ∉ e.1.itemText.toList := fun e mem =>
    ⟨FlatScalar.isItem_itemText (keys e mem) (flat e mem).1,
      FlatScalar.isItem_itemText (values e mem) (flat e mem).2.1, (flat e mem).2.2⟩
  have decoded : (Converter.decodeEntries (FlatScalar.str.converter.decode calls)
      (s.converter.decode calls)
      (entries.map fun e => (e.1.itemText, .string e.2.itemText))).Returns entries := by
    rw [Converter.decodeEntries_returns_iff, List.forall₂_map_left_iff, List.forall₂_same]
    exact fun e mem => ⟨FlatScalar.decode_returns calls (keys e mem),
      FlatScalar.decode_returns calls (values e mem)⟩
  rw [converter, Converter.decode]
  refine Run.Returns.bind_iff.2 ⟨_, ?_, Run.Returns.bind_iff.2
    ⟨entries, decoded, Run.Returns.pure_iff.2 rfl⟩⟩
  exact Run.Returns.ofExcept_iff.2 (Converter.mapEntries_pairsText clean)

/-- The converter of a type reads its instances back from their texts. -/
theorem decode_flatText (inhabits : Inhabits schema t.type v) (flat : v.HasFlatText)
    (calls : Calls Json Instance) : (t.converter.decode calls (.string v.flatText)).Returns v := by
  have made := inhabits.elim (handled (Registry.keepsBuiltin_builtin t.type))
  cases t with
  | scalar s =>
    rw [FlatScalar.flatText_eq made]
    exact FlatScalar.decode_returns calls made
  | optional s =>
    rcases made with rfl | inner
    · exact flat.elim
    · have holds := FlatScalar.holds_of_inhabits inner
      rw [FlatScalar.flatText_eq holds]
      exact FlatScalar.decode_returns calls holds
  | items form s =>
    cases form with
    | list =>
      obtain ⟨items, rfl, each⟩ := made
      exact FlatScalar.decode_items calls (fun v mem => FlatScalar.holds_of_inhabits (each v mem))
        flat.1 flat.2 .list
    | tuple =>
      obtain ⟨items, rfl, each⟩ := made
      exact FlatScalar.decode_items calls (fun v mem => FlatScalar.holds_of_inhabits (each v mem))
        flat.1 flat.2 .tuple
    | set =>
      obtain ⟨items, rfl, each, different⟩ := made
      have read := FlatScalar.decode_items calls
        (fun v mem => FlatScalar.holds_of_inhabits (each v mem)) flat.1 flat.2 .set
      rwa [ItemsForm.build, ItemsForm.unique_of_pairwise different] at read
  | tuple scalars =>
    obtain ⟨items, rfl, count, each⟩ := made
    rw [type, TypeExpr.tuple, TypeExpr.apply, List.length_map] at count
    refine decode_tuple count (fun e mem => ?_) flat.1 flat.2 calls
    refine FlatScalar.holds_of_inhabits (each (e.1.type, e.2) ?_)
    rw [type, TypeExpr.tuple, TypeExpr.apply, List.zip_map_left]
    exact List.mem_map_of_mem mem
  | mapping s =>
    obtain ⟨entries, rfl, keys, values⟩ := made
    exact decode_mapping (fun e mem => FlatScalar.holds_of_inhabits (keys e mem))
      (fun e mem => FlatScalar.holds_of_inhabits (values e mem)) flat calls

end FlatType
end Reading
end RecordCodec
