import RecordCodec.Proofs.Unions

set_option autoImplicit false

/-!
# Where the handler of a name is used

A type and its converter have the same places inside them: what is compiled for the type at a place
is the converter at that place. So a handler that is registered for a name converts at every place
of that name, in the routine of a record and in all that this calls. The one place that is not
looked up in the registry is a record as an arm of a union.
-/
namespace RecordCodec

open Routine Run Compile Direct

namespace Registry

theorem get?_register_self (key : HandlerKey) (handler : Handler) (r : Registry) :
    (r.register key handler).get? key = some handler :=
  Assoc.get?_insert_self key handler r.handlers

theorem get?_register_of_ne {key other : HandlerKey} (ne : other ≠ key) (handler : Handler)
    (r : Registry) : (r.register key handler).get? other = r.get? other :=
  Assoc.get?_insert_of_ne ne handler r.handlers

/-- Generic types are compiled as they are in the built-in registry. -/
def KeepsShapes (registry : Registry) : Prop :=
  ∀ e ∈ shapeHandlers, registry.get? (.shape e.1) = some e.2

theorem keepsShapes_builtin : KeepsShapes .builtin := by
  intro e mem
  simp only [shapeHandlers, List.mem_cons, List.not_mem_nil, or_false] at mem
  rcases mem with rfl | rfl | rfl | rfl | rfl | rfl | rfl | rfl | rfl | rfl | rfl | rfl | rfl <;>
    rfl

theorem KeepsShapes.register {registry : Registry} (keeps : registry.KeepsShapes) (name : String)
    (handler : Handler) : (registry.register (.type name) handler).KeepsShapes := by
  intro e mem
  rw [get?_register_of_ne (by simp), keeps e mem]

end Registry

inductive Inward where
  | item
  | key
  | value
  | part (i : Nat)
  | arm (i : Nat)
deriving DecidableEq

/-- The type inside one that a handler compiles. An arm of a union that is a record is left out, as
it has a routine of its own in any case. -/
def Handler.inner? (handler : Handler) (target : TypeExpr) : Inward → Option TypeExpr
  | .item =>
    match handler with
    | .optional | .sequence | .set | .variadicTuple => some (target.arg 0)
    | _ => none
  | .key =>
    match handler with
    | .mapping | .defaultMapping => some (target.arg 0)
    | _ => none
  | .value =>
    match handler with
    | .mapping | .defaultMapping => some (target.arg 1)
    | _ => none
  | .part i =>
    match handler with
    | .fixedTuple => target.args[i]?
    | _ => none
  | .arm i =>
    match handler with
    | .union => target.args[i]?.filter fun ty => ty.shape.recordName?.isNone
    | _ => none

def TypeExpr.at? (schema : Schema) (registry : Registry) : List Inward → TypeExpr → Option TypeExpr
  | [], ty => some ty
  | step :: rest, ty =>
    match registry.resolve schema (schema.resolve ty) with
    | .ok (handler, target) => (handler.inner? target step).bind (at? schema registry rest)
    | .error _ => none

theorem TypeExpr.at?_of_generic {schema : Schema} {registry : Registry}
    (keeps : registry.KeepsShapes) (ty : TypeExpr) {handler : Handler}
    (generic : (schema.resolve ty).shape.typeName? = none)
    (known : ((schema.resolve ty).shape.kind, handler) ∈ Registry.shapeHandlers) (step : Inward)
    (rest : List Inward) : ty.at? schema registry (step :: rest) =
      (handler.inner? (schema.resolve ty) step).bind (at? schema registry rest) := by
  have handled : registry.resolve schema (schema.resolve ty) =
      .ok (handler, schema.resolve ty) := by
    unfold Registry.resolve Registry.lookup?
    rw [generic, Option.bind_none, Option.none_or, keeps _ known]
  rw [at?, handled]

namespace Converter

def inner? : Inward → Converter → Option Converter
  | .item, optional c | .item, items _ c => some c
  | .key, mapping key _ | .key, defaultMapping key _ _ => some key
  | .value, mapping _ item | .value, defaultMapping _ item _ => some item
  | .part i, tuple parts => parts[i]?
  | .arm i, union _ arms => arms[i]?
  | _, _ => none

def at? : List Inward → Converter → Option Converter
  | [], c => some c
  | step :: rest, c => (c.inner? step).bind (at? rest)

end Converter

namespace Compile.Compiles

variable {schema : Schema} {registry : Registry} {bound : Binding} {here : Position}
  {ty target inner : TypeExpr} {c : Converter} {handler : Handler}

theorem exists_getElem? {tys : List TypeExpr} {cs : List Converter}
    (count : cs.length = tys.length) {i : Nat} (isType : tys[i]? = some inner) :
    ∃ part, cs[i]? = some part :=
  ⟨_, List.getElem?_eq_getElem (count ▸ (List.getElem?_eq_some_iff.1 isType).1)⟩

theorem exists_inner? (handled : Handled schema registry ty handler target)
    (h : Compiles schema registry bound here ty c) {step : Inward}
    (isInner : handler.inner? target step = some inner) :
    ∃ part, c.inner? step = some part ∧ Compiles schema registry bound here inner part := by
  have form := h.form handled
  cases step with
  | item =>
    cases handler with
    | optional | sequence | set | variadicTuple =>
      obtain ⟨item, rfl, compiled⟩ := form
      cases isInner
      exact ⟨item, rfl, compiled⟩
    | _ => cases isInner
  | key =>
    cases handler with
    | mapping | defaultMapping =>
      obtain ⟨key, item, rfl, compiled, -⟩ := form
      cases isInner
      exact ⟨key, rfl, compiled⟩
    | _ => cases isInner
  | value =>
    cases handler with
    | mapping | defaultMapping =>
      obtain ⟨key, item, rfl, -, compiled⟩ := form
      cases isInner
      exact ⟨item, rfl, compiled⟩
    | _ => cases isInner
  | part i =>
    cases handler with
    | fixedTuple =>
      obtain ⟨parts, rfl, count, compiled⟩ := form
      obtain ⟨part, isPart⟩ := exists_getElem? count isInner
      exact ⟨part, isPart, compiled i inner part isInner isPart⟩
    | _ => cases isInner
  | arm i =>
    cases handler with
    | union =>
      obtain ⟨arms, rfl, count, -, -, others⟩ := form
      obtain ⟨isType, plain⟩ := Option.filter_eq_some_iff.1 isInner
      obtain ⟨arm, isArm⟩ := exists_getElem? count isType
      have noRecord := (here.arm_of_none schema (by simpa using plain)).1
      exact ⟨arm, isArm, others i inner arm isType isArm noRecord⟩
    | _ => cases isInner

theorem exists_at? {place : List Inward} (h : Compiles schema registry bound here ty c)
    (isInner : ty.at? schema registry place = some inner) :
    ∃ part, c.at? place = some part ∧ Compiles schema registry bound here inner part := by
  induction place generalizing ty c with
  | nil =>
    cases isInner
    exact ⟨c, rfl, h⟩
  | cons step rest ih =>
    rw [TypeExpr.at?] at isInner
    split at isInner
    case h_1 handler target handled =>
      obtain ⟨between, isBetween, isInner⟩ := Option.bind_eq_some_iff.1 isInner
      obtain ⟨middle, isMiddle, compiled⟩ := h.exists_inner? handled isBetween
      obtain ⟨part, isPart, compiled⟩ := ih compiled isInner
      exact ⟨part, by rw [Converter.at?, isMiddle, Option.bind_some, isPart], compiled⟩
    case h_2 => cases isInner

theorem eq_custom {name : String} {decode : Json → Except Failure Instance}
    {encode : Instance → Except Failure Json}
    (registered : registry.get? (.type name) = some (.custom decode encode))
    (isName : (schema.resolve ty).shape.typeName? = some name)
    (h : Compiles schema registry bound here ty c) : c = .custom decode encode := by
  have handled : Handled schema registry ty (.custom decode encode) (schema.resolve ty) := by
    unfold Handled Registry.resolve Registry.lookup?
    rw [isName, Option.bind_some, registered, Option.some_or]
  exact h.form handled

end Compile.Compiles

/-- A routine that another one calls, directly or not. -/
inductive Routine.Linked.Calling {I O : Type} (r : Linked I O) : Linked I O → Prop where
  | self : Calling r r
  | callee {caller callee : Linked I O} {routine : String} : Calling r caller →
    caller.callee? routine = some callee → Calling r callee

section
variable {I O : Type}

/-- The routine was made of a record with a converter for each field, and the two functions convert
wherever the name stands in the type of a field. -/
def Compile.ConvertsWith (schema : Schema) (registry : Registry) (mode : Mode I O)
    (name : String) (decode : Json → Except Failure Instance)
    (encode : Instance → Except Failure Json) (r : Linked I O) : Prop :=
  ∃ bound owner config record parts,
    Made schema registry mode bound owner config record parts r.code ∧
    ∀ f c, (f, c) ∈ parts → ∀ place inner, f.type.at? schema registry place = some inner →
      (schema.resolve inner).shape.typeName? = some name → ∃ part, c.at? place = some part ∧
        (∀ calls v, part.decode calls v = .ofExcept (decode v)) ∧
        ∀ calls i, part.encode calls i = .ofExcept (encode i)

theorem Compile.Traced.calling {schema : Schema} {registry : Registry} {mode : Mode I O}
    {r r' : Linked I O} (h : Traced schema registry mode r) (calling : r.Calling r') :
    Traced schema registry mode r' := by
  induction calling with
  | self => exact h
  | callee _ isCallee ih => exact ih.callee isCallee

theorem Compile.Traced.convertsWith {schema : Schema} {registry : Registry} {mode : Mode I O}
    {r : Linked I O} (h : Traced schema registry mode r) {name : String}
    {decode : Json → Except Failure Instance} {encode : Instance → Except Failure Json}
    (registered : registry.get? (.type name) = some (.custom decode encode)) :
    ConvertsWith schema registry mode name decode encode r := by
  obtain ⟨key, -, bound, record, parts, made, -⟩ := h.exists_key
  refine ⟨bound, _, _, record, parts, made, fun f c mem place inner isInner isName => ?_⟩
  obtain ⟨part, isPart, compiled⟩ := (made.compiled f c mem).exists_at? isInner
  obtain rfl := compiled.eq_custom registered isName
  exact ⟨_, isPart, fun _ _ => rfl, fun _ _ => rfl⟩

end

namespace Codec

/-- Once a pair of functions is the handler of a name, the routines that are compiled for any record
convert by it wherever the name stands, in either direction and in all that they call. -/
theorem handler_converts {c : Codec} (history : c.cache.History c.schema c.registry) {name : String}
    {decode : Json → Except Failure Instance} {encode : Instance → Except Failure Json}
    (registered : c.registry.get? (.type name) = some (.custom decode encode)) (record : String)
    (overrides : Config) :
    (∀ d, (c.decoder record overrides).1.Returns d → ∀ r, Linked.Calling d r →
      ConvertsWith c.schema c.registry .decoding name decode encode r) ∧
    (∀ e, (c.encoder record overrides).1.Returns e → ∀ r, Linked.Calling e r →
      ConvertsWith c.schema c.registry .encoding name decode encode r) := by
  constructor
  · intro d isDecoder r calling
    obtain ⟨config, -, traced⟩ := decoder_traced history isDecoder
    exact (traced.traced.calling calling).convertsWith registered
  · intro e isEncoder r calling
    obtain ⟨config, -, traced⟩ := encoder_traced history isEncoder
    exact (traced.traced.calling calling).convertsWith registered

end Codec

namespace Columns

def width : RecordType where
  name := "Width"
  fields := [{ name := "cells", type := .primitive .int }]

def widths : TypeExpr := .apply .mapping [.primitive .str, .optional (.named "Width")]

def widthsField : Field := { name := "widths", type := widths }

def limitField : Field := { name := "limit", type := .union [.named "Width", .primitive .int] }

def column : RecordType where
  name := "Column"
  fields := [widthsField, limitField]

def schema : Schema where
  records := (Table.empty.insert "Width" width).insert "Column" column

def measure : Json → Except Failure Instance
  | .string s => .ok (.int (Int64.ofNat s.length))
  | v => .error (.invalid "text" v)

def draw : Instance → Except Failure Json
  | .int n => .ok (.string (String.ofList (List.replicate (min n.toInt.toNat 99) '#')))
  | i => .error (.invalid "a length" i.toJson)

def codec : Codec := Codec.register (.type "Width") (.custom measure draw) { schema }

theorem registered : codec.registry.get? (.type "Width") = some (.custom measure draw) :=
  Registry.get?_register_self _ _ _

theorem keepsShapes : codec.registry.KeepsShapes := Registry.keepsShapes_builtin.register _ _

theorem at?_widths : widths.at? schema codec.registry [.value, .item] =
    some (schema.resolve (.named "Width")) := by
  have mapping : (ShapeKind.mapping, Handler.mapping) ∈ Registry.shapeHandlers := by
    simp [Registry.shapeHandlers]
  have option : (ShapeKind.optional, Handler.optional) ∈ Registry.shapeHandlers := by
    simp [Registry.shapeHandlers]
  let inner := schema.resolve (.optional (.named "Width"))
  calc
    widths.at? schema codec.registry [.value, .item]
      = inner.at? schema codec.registry [.item] :=
        TypeExpr.at?_of_generic keepsShapes widths rfl mapping .value [.item]
    _ = some (schema.resolve (.named "Width")) :=
        TypeExpr.at?_of_generic keepsShapes inner rfl option .item []

def columnValue : Json :=
  .object [("widths", .object [("a", .string "abc")]), ("limit", .string "abc")]

end Columns

theorem Codec.handler_converts_widths : ∃ (d : Decoder) (e : Encoder),
    (Columns.codec.decoder "Column" {}).1.Returns d ∧
    (Columns.codec.encoder "Column" {}).1.Returns e ∧
    ConvertsWith Columns.schema Columns.codec.registry .decoding "Width" Columns.measure
      Columns.draw d ∧
    ConvertsWith Columns.schema Columns.codec.registry .encoding "Width" Columns.measure
      Columns.draw e ∧
    Columns.widths.at? Columns.schema Columns.codec.registry [.value, .item] =
      some (Columns.schema.resolve (.named "Width")) := by
  have decodes : (Columns.codec.decoder "Column" {}).1.returnsWith (fun _ => true) = true := by
    decide +kernel
  have encodes : (Columns.codec.encoder "Column" {}).1.returnsWith (fun _ => true) = true := by
    decide +kernel
  obtain ⟨d, isDecoder, -⟩ := exists_of_returnsWith decodes
  obtain ⟨e, isEncoder, -⟩ := exists_of_returnsWith encodes
  have history : Columns.codec.cache.History Columns.codec.schema Columns.codec.registry :=
    .empty _ _
  obtain ⟨decoders, encoders⟩ :=
    Codec.handler_converts history Columns.registered "Column" {}
  exact ⟨d, e, isDecoder, isEncoder, decoders d isDecoder d .self, encoders e isEncoder e .self,
    Columns.at?_widths⟩

/-- A width that is an arm of a union is not read by the handler of its name, which would take the
text. -/
theorem Codec.not_handler_converts_limit :
    Columns.codec.registry.get? (.type "Width") = some (.custom Columns.measure Columns.draw) ∧
    ((Columns.schema.resolve Columns.limitField.type).arg 0).shape.typeName? = some "Width" ∧
    Columns.measure (.string "abc") = .ok (.int 3) ∧
    ∃ e union arms key tag,
      (Columns.codec.decode "Column" Columns.columnValue {}).1.Fails e ∧
      e.path = [.key "limit"] ∧ e.cause = .unionMatch union arms key tag := by
  have fails : (Columns.codec.decode "Column" Columns.columnValue {}).1.failsWith
      (fun e => e.path == [.key "limit"] && match e.cause with
        | .unionMatch .. => true
        | _ => false) = true := by
    decide +kernel
  obtain ⟨e, isFailure, test⟩ := exists_of_failsWith fails
  obtain ⟨isPath, isMatch⟩ := Bool.and_eq_true_iff.1 test
  refine ⟨Columns.registered, rfl, rfl, e, ?_⟩
  split at isMatch
  case h_1 union arms key tag isCause =>
    exact ⟨union, arms, key, tag, isFailure, by simpa using isPath, isCause⟩
  case h_2 => cases isMatch

end RecordCodec
