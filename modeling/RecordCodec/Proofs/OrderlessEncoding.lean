import RecordCodec.Proofs.CodecRoundTrip
import RecordCodec.Proofs.FailurePaths
import RecordCodec.Proofs.FieldOrder
import RecordCodec.Proofs.NamedHandlers

set_option autoImplicit false

/-!
# Encoding does not show the order of fields

An encoder goes by the declaration of a record and looks the fields of an instance up by name. So
shuffled instances are encoded alike: to the same JSON, or to failures of the same kind. What the
order of fields can be told from is a plain rendering: of a value at an untyped position, of one
that equals a literal with members in it, or in a failure, which shows the value that it is about.
-/
namespace RecordCodec

open Routine Run Compile
open Converter (Encode fitsInstance trialOrder)

/-- The cause without the values that it shows. -/
def Cause.withoutValues : Cause → Cause
  | invalidValue expected _ => invalidValue expected .null
  | fieldConversion record field value cause =>
    fieldConversion record field (value.map fun _ => .null) cause.withoutValues
  | cause => cause

theorem Cause.withoutValues_inField (e : Failure) (record field : String) :
    (e.inField record field).cause.withoutValues =
      if e.cause.withoutValues.isLeaf then
        .fieldConversion record field e.cause.withoutValues.found? e.cause.withoutValues
      else e.cause.withoutValues := by
  obtain ⟨cause, path⟩ := e
  cases cause <;> rfl

/-- The failures differ at most in the values that they show and in the way to them. -/
def Failure.SameKind (e e' : Failure) : Prop := e.cause.withoutValues = e'.cause.withoutValues

namespace Failure.SameKind

variable {e e' : Failure}

theorem invalid (expected : String) (v w : Json) :
    (Failure.invalid expected v).SameKind (.invalid expected w) := rfl

theorem atKey (h : e.SameKind e') (key key' : String) :
    (e.atKey key).SameKind (e'.atKey key') := h

theorem atIndex (h : e.SameKind e') (index : Nat) :
    (e.atIndex index).SameKind (e'.atIndex index) := h

theorem inField (h : e.SameKind e') (record field : String) :
    (e.inField record field).SameKind (e'.inField record field) := by
  rw [SameKind, Cause.withoutValues_inField, Cause.withoutValues_inField, h]

end Failure.SameKind

namespace Routine.Run

variable {α β : Type} {r r' : Run α}

/-- The same comes of both runs, or failures of the same kind, or nothing. -/
inductive SameKind : Run α → Run α → Prop where
  | unfinished : SameKind (ExceptT.mk none) (ExceptT.mk none)
  | failure {e e' : Failure} : e.SameKind e' → SameKind (throw e) (throw e')
  | result (a : α) : SameKind (pure a) (pure a)

namespace SameKind

theorem refl (r : Run α) : SameKind r r := by
  have ends : ∀ result, r.run = result → r = ExceptT.mk result := fun _ h => h
  cases ran : r.run with
  | none => exact ends _ ran ▸ .unfinished
  | some result =>
    cases result with
    | error e => exact ends _ ran ▸ .failure rfl
    | ok a => exact ends _ ran ▸ .result a

theorem invalid (expected : String) (v w : Json) : SameKind
    (throw (.invalid expected v) : Run α) (throw (.invalid expected w)) :=
  .failure (.invalid expected v w)

theorem returns (h : SameKind r r') {a : α} (returned : r.Returns a) : r'.Returns a := by
  cases h with
  | unfinished | failure => cases returned
  | result => exact returned

theorem bind (h : SameKind r r') {f f' : α → Run β}
    (next : ∀ a, r.Returns a → SameKind (f a) (f' a)) : SameKind (r >>= f) (r' >>= f') := by
  cases h with
  | unfinished => exact .unfinished
  | failure same => exact .failure same
  | result a => exact next a rfl

theorem mapError {f f' : Failure → Failure} (h : SameKind r r')
    (same : ∀ e e', e.SameKind e' → (f e).SameKind (f' e')) :
    SameKind (r.mapError f) (r'.mapError f') := by
  cases h with
  | unfinished => exact .unfinished
  | failure kind => exact .failure (same _ _ kind)
  | result a => exact .result a

theorem inField (h : SameKind r r') (record field : String) :
    SameKind (r.mapError (Failure.inField record field))
      (r'.mapError (Failure.inField record field)) :=
  h.mapError fun _ _ same => same.inField record field

theorem firstSuccess {γ : Type} (failure : Failure) {v w : γ} {candidates : List (γ → Run β)}
    (h : ∀ f ∈ candidates, SameKind (f v) (f w)) :
    SameKind (Converter.firstSuccess failure v candidates)
      (Converter.firstSuccess failure w candidates) := by
  induction candidates with
  | nil => exact .failure rfl
  | cons f rest ih =>
    obtain ⟨first, others⟩ := List.forall_mem_cons.1 h
    rw [Converter.firstSuccess, Converter.firstSuccess]
    generalize f v = r at first
    generalize f w = r' at first
    cases first with
    | unfinished => exact .unfinished
    | failure => exact ih others
    | result b => exact .result b

end SameKind
end Routine.Run

/-- The encoding of a shuffled instance is of the same kind. -/
def Converter.IgnoresFieldOrder (encode : Encode) : Prop :=
  ∀ v w, v.Shuffled w → SameKind (encode v) (encode w)

namespace Converter

theorem encodeItems_sameKind {encode : Encode} (ignores : IgnoresFieldOrder encode)
    {vs ws : List Instance} (shuffled : List.Forall₂ Instance.Shuffled vs ws) (index : Nat) :
    SameKind (encodeItems encode index vs) (encodeItems encode index ws) := by
  induction shuffled generalizing index with
  | nil => exact .result _
  | cons first _ ih =>
    refine .bind ((ignores _ _ first).mapError fun _ _ same => same.atIndex index) fun _ _ => ?_
    exact .bind (ih _) fun _ _ => .result _

theorem encodeParts_sameKind {encoders : List Encode}
    (ignore : ∀ encode ∈ encoders, IgnoresFieldOrder encode)
    {vs ws : List Instance} (shuffled : List.Forall₂ Instance.Shuffled vs ws) (index : Nat) :
    SameKind (encodeParts index encoders vs) (encodeParts index encoders ws) := by
  induction shuffled generalizing index encoders with
  | nil => cases encoders <;> exact .result _
  | cons first _ ih =>
    cases encoders with
    | nil => exact .result _
    | cons encode rest =>
      obtain ⟨ignores, others⟩ := List.forall_mem_cons.1 ignore
      refine .bind ((ignores _ _ first).mapError fun _ _ same => same.atIndex index) fun _ _ => ?_
      exact .bind (ih others _) fun _ _ => .result _

/-- The text of a key may differ on the way to a failure, but not what the key is encoded to. -/
theorem encodeEntries_sameKind {key item : Encode} (keys : IgnoresFieldOrder key)
    (items : IgnoresFieldOrder item) {a b : List (Instance × Instance)}
    (shuffled : List.Forall₂ (fun e e' => e.1.Shuffled e'.1 ∧ e.2.Shuffled e'.2) a b)
    (out : List (String × Json)) :
    SameKind (encodeEntries key item a out) (encodeEntries key item b out) := by
  induction shuffled generalizing out with
  | nil => exact .result _
  | cons first _ ih =>
    refine .bind ((keys _ _ first.1).mapError fun _ _ same => same.atKey _ _) fun _ _ => ?_
    refine .bind ((items _ _ first.2).mapError fun _ _ same => same.atKey _ _) fun _ _ => ?_
    exact ih _

theorem encodeTuple_ignores {encoders : List Encode}
    (ignore : ∀ encode ∈ encoders, IgnoresFieldOrder encode) :
    IgnoresFieldOrder (encodeTuple encoders) := by
  intro v w shuffled
  rw [encodeTuple, encodeTuple]
  rcases Direct.rel_cases shuffled.items? with ⟨none, none'⟩ | ⟨vs, ws, isItems, isItems', items⟩
  · rw [none, none']
    exact .invalid _ _ _
  · simp only [isItems, isItems', items.length_eq]
    split
    · exact .bind (encodeParts_sameKind ignore items 0) fun _ _ => .result _
    · exact .invalid _ _ _

theorem encodeMapping_ignores {key item : Encode} (keys : IgnoresFieldOrder key)
    (items : IgnoresFieldOrder item) : IgnoresFieldOrder (encodeMapping key item) := by
  intro v w shuffled
  rw [encodeMapping, encodeMapping]
  rcases Direct.rel_cases shuffled.entries? with
    ⟨none, none'⟩ | ⟨a, b, isEntries, isEntries', entries⟩
  · rw [none, none']
    exact .invalid _ _ _
  · rw [isEntries, isEntries']
    exact .bind (encodeEntries_sameKind keys items entries []) fun _ _ => .result _

theorem encodeLiteral_ignores {values : List Json}
    (memberless : ∀ u ∈ values, u.isMemberless = true) :
    IgnoresFieldOrder fun v => .ofExcept (encodeLiteral values v) := by
  intro v w shuffled
  obtain ⟨same, equal⟩ := shuffled.contains memberless
  simp only [encodeLiteral, ← same]
  split
  case isTrue found => exact equal found ▸ .result _
  case isFalse => exact .invalid _ _ _

theorem encodeEnum_ignores (declared : EnumType) :
    IgnoresFieldOrder fun v => .ofExcept (encodeEnum declared v) := by
  intro v w shuffled
  cases shuffled with
  | flat => exact .refl _
  | _ => exact .invalid _ _ _

theorem fitsInstance_shuffled {ty : TypeExpr} {v w : Instance} (shuffled : v.Shuffled w)
    (memberless : ty.shape = .literal → ∀ u ∈ ty.literals, u.isMemberless = true) :
    fitsInstance ty v = fitsInstance ty w := by
  obtain ⟨shape, args, literals⟩ := ty
  cases shape with
  | primitive p => exact congrArg (p.name == ·) shuffled.kindName
  | literal => exact (shuffled.contains (memberless rfl)).1
  | fixedTuple =>
    cases shuffled with
    | tuple even => exact congrArg (· == args.length) even
    | _ => rfl
  | _ => cases shuffled <;> rfl

theorem trialOrder_congr {α : Type} {preferred preferred' : α → Bool} {candidates : List α}
    (same : ∀ c ∈ candidates, preferred c = preferred' c) :
    trialOrder preferred candidates = trialOrder preferred' candidates := by
  rw [trialOrder, trialOrder, List.filter_congr same,
    List.filter_congr fun c mem => congrArg (!·) (same c mem)]

theorem encodeUnion_ignores {plan : UnionPlan} {encoders : List Encode}
    (memberless : ∀ arm ∈ plan.arms, arm.type.shape = .literal →
      ∀ u ∈ arm.type.literals, u.isMemberless = true)
    (ignore : ∀ encode ∈ encoders, IgnoresFieldOrder encode) :
    IgnoresFieldOrder (encodeUnion plan encoders) := by
  intro v w shuffled
  have sameOrder : trialOrder (fun e : UnionArm × Encode => fitsInstance e.1.type v)
        (plan.arms.zip encoders) =
      trialOrder (fun e => fitsInstance e.1.type w) (plan.arms.zip encoders) :=
    trialOrder_congr fun e mem =>
      fitsInstance_shuffled shuffled (memberless e.1 (List.of_mem_zip mem).1)
  rw [encodeUnion, encodeUnion, sameOrder]
  refine .firstSuccess _ fun encode tried => ?_
  obtain ⟨e, mem, rfl⟩ := List.mem_map.1 tried
  exact ignore e.2 (List.of_mem_zip (mem_trialOrder.1 mem)).2 v w shuffled

end Converter

open Converter (IgnoresFieldOrder)

/-- Containers are no scalars, so scalars are encoded as they are or not at all. -/
theorem Scalar.encode_ignores {p : Primitive} (typed : p ≠ .any) :
    IgnoresFieldOrder fun v => .ofExcept (encode p v) := by
  intro v w shuffled
  cases shuffled with
  | flat => exact .refl _
  | _ =>
    cases p with
    | any => exact absurd rfl typed
    | _ => exact .invalid _ _ _

/-- What the handler compiles has its members in an order of its own. An untyped position has them
as the instance does, and so has a literal with members. -/
def Handler.FixesOrder (handler : Handler) (target : TypeExpr) : Prop :=
  match handler with
  | .scalar p => p ≠ .any
  | .literal => ∀ u ∈ target.literals, u.isMemberless = true
  | _ => True

/-- A property of the handlers at all places in a type. -/
def TypeExpr.Throughout (schema : Schema) (P : Handler → TypeExpr → Prop) (ty : TypeExpr) : Prop :=
  ∀ place inner handler target, ty.at? schema .builtin place = some inner →
    Handled schema .builtin inner handler target → P handler target

/-- No type has an untyped position or a literal with members, and no field is left out by a
predicate. -/
structure Schema.FixesOrder (schema : Schema) : Prop where
  types : ∀ name record, schema.record? name = some record → ∀ f ∈ record.fields,
    f.type.Throughout schema Handler.FixesOrder
  rules : ∀ name record, schema.record? name = some record → ∀ f ∈ record.fields,
    f.skip.when? = none

namespace TypeExpr.Throughout

variable {schema : Schema} {P : Handler → TypeExpr → Prop} {ty target within : TypeExpr}
  {method : Handler}

theorem of_handled (handled : Handled schema .builtin ty method target) (own : P method target)
    (inner : ∀ step within, method.inner? target step = some within →
      within.Throughout schema P) : ty.Throughout schema P := by
  intro place ty' method' target' isPlace handled'
  cases place with
  | nil =>
    cases isPlace
    obtain ⟨rfl, rfl⟩ := handled.unique handled'
    exact own
  | cons step rest =>
    rw [TypeExpr.at?, handled] at isPlace
    obtain ⟨within, isInner, isPlace⟩ := Option.bind_eq_some_iff.1 isPlace
    exact inner step within isInner rest ty' method' target' isPlace handled'

theorem of_leaf (handled : Handled schema .builtin ty method target) (own : P method target)
    (leaf : ∀ step, method.inner? target step = none) : ty.Throughout schema P :=
  of_handled handled own fun step _ isInner => nomatch (leaf step).symm.trans isInner

theorem handler (h : ty.Throughout schema P) (handled : Handled schema .builtin ty method target) :
    P method target :=
  h [] ty method target rfl handled

theorem inner (h : ty.Throughout schema P) (handled : Handled schema .builtin ty method target)
    (step : Inward) (isInner : method.inner? target step = some within) :
    within.Throughout schema P := by
  intro place ty' method' target' isPlace handled'
  refine h (step :: place) ty' method' target' ?_ handled'
  rw [TypeExpr.at?, handled]
  simp only [isInner, Option.bind_some, isPlace]

theorem arm (h : ty.Throughout schema P) (handled : Handled schema .builtin ty .union target)
    (isArm : within ∈ target.args) (noRecord : within.shape.recordName? = none) :
    within.Throughout schema P := by
  obtain ⟨i, isArg⟩ := List.mem_iff_getElem?.1 isArm
  refine h.inner handled (.arm i) ?_
  simp [Handler.inner?, isArg, noRecord]

theorem memberless (h : ty.Throughout schema Handler.FixesOrder)
    (isLiteral : ty.shape = .literal) : ∀ u ∈ ty.literals, u.isMemberless = true := by
  obtain ⟨shape, args, literals⟩ := ty
  cases isLiteral
  have handled : Handled schema .builtin ⟨.literal, args, literals⟩ .literal
      (schema.resolve ⟨.literal, args, literals⟩) := rfl
  exact h.handler handled

end TypeExpr.Throughout

namespace Compile.Compiles

variable {schema : Schema} {bound : Binding} {here : Direct.Position} {ty : TypeExpr}
  {c : Converter} {calls : Calls Instance Json}

/-- A converter ignores the order of fields, if the routines do that it calls. -/
theorem encode_ignores (called : ∀ routine, IgnoresFieldOrder (calls routine))
    (h : Compiles schema .builtin bound here ty c)
    (fixes : ty.Throughout schema Handler.FixesOrder) :
    IgnoresFieldOrder (c.encode calls) := by
  induction h with
  | scalar handled => exact Scalar.encode_ignores (fixes.handler handled)
  | optional handled _ ih =>
    intro v w shuffled
    simp only [Converter.encode, shuffled.isNull]
    split
    · exact .result _
    · exact ih (fixes.inner handled .item rfl) v w shuffled
  | items form handled _ ih =>
    have ignores := ih (fixes.inner handled .item (by cases form <;> rfl))
    intro v w shuffled
    simp only [Converter.encode]
    rcases Direct.rel_cases shuffled.items? with ⟨none, none'⟩ | ⟨vs, ws, isItems, isItems', items⟩
    · rw [none, none']
      exact .invalid _ _ _
    · rw [isItems, isItems']
      exact .bind (Converter.encodeItems_sameKind ignores items 0) fun _ _ => .result _
  | @tuple _ target parts handled count _ ih =>
    refine Converter.encodeTuple_ignores fun encode mem => ?_
    rw [encodeAll_eq] at mem
    obtain ⟨part, isPart, rfl⟩ := List.mem_map.1 mem
    obtain ⟨i, atPart⟩ := List.mem_iff_getElem?.1 isPart
    have atType := List.getElem?_eq_getElem (count ▸ (List.getElem?_eq_some_iff.1 atPart).1)
    exact ih i _ part atType atPart (fixes.inner handled (.part i) atType)
  | mapping handled _ _ ihKey ihItem | defaultMapping handled _ _ ihKey ihItem =>
    exact Converter.encodeMapping_ignores (ihKey (fixes.inner handled .key rfl))
      (ihItem (fixes.inner handled .value rfl))
  | literal handled => exact Converter.encodeLiteral_ignores (fixes.handler handled)
  | enumeration => exact Converter.encodeEnum_ignores _
  | record => exact called _
  | @union _ target arms handled count _ records _ ih =>
    refine Converter.encodeUnion_ignores (fun arm isArm isLiteral => ?_) fun encode mem => ?_
    · obtain ⟨inner, isArg, rfl⟩ := List.mem_map.1 isArm
      rw [arm_type] at isLiteral ⊢
      exact (fixes.arm handled isArg (by rw [isLiteral]; rfl)).memberless isLiteral
    · rw [encodeAll_eq] at mem
      obtain ⟨arm, isArm, rfl⟩ := List.mem_map.1 mem
      obtain ⟨i, atArm⟩ := List.mem_iff_getElem?.1 isArm
      have isArg : i < target.args.length := count ▸ (List.getElem?_eq_some_iff.1 atArm).1
      have atType := List.getElem?_eq_getElem isArg
      cases isRecord : target.args[i].shape.recordName? with
      | none =>
        exact ih i _ arm atType atArm (here.arm_of_none schema isRecord).1
          (fixes.arm handled (List.mem_of_getElem? atType) isRecord)
      | some name =>
        obtain ⟨config, planned, -⟩ := here.exists_record_arm schema isRecord
        obtain ⟨routine, rfl, -⟩ := records i _ arm atType atArm name config planned
        exact called routine
  | custom handled => exact absurd rfl (Registry.resolve_builtin_ne_custom handled _ _)

end Compile.Compiles

theorem Compile.Omission.omits_shuffled {o : Omission} (noRule : o.when? = none)
    {v w : Instance} (shuffled : v.Shuffled w) : o.omits v = o.omits w := by
  have sameDefault : isDefault v o.default = isDefault w o.default := by
    unfold isDefault
    split
    case h_1 => exact shuffled.same_left _
    case h_2 => exact shuffled.same_left _
    case h_3 => rfl
  rw [omits, omits, shuffled.isNull, sameDefault, noRule]
  rfl

namespace Direct

variable {record : RecordType} {config : Config} {convert : Field → Encode} {v w : Instance}
  {f : Field} (shuffled : v.Shuffled w)
include shuffled

theorem checkType_sameKind : SameKind (.ofExcept (Encoder.checkType record v))
    (.ofExcept (Encoder.checkType record w)) := by
  cases shuffled with
  | flat => exact .refl _
  | record =>
    unfold Encoder.checkType
    dsimp only
    split
    · exact .result ()
    · exact .invalid _ _ _
  | _ => exact .invalid _ _ _

theorem absentFields_shuffled (fields : List Field) :
    absentFields record v fields = absentFields record w fields := by
  have same : ∀ f : Field, (v.field? f.name).isNone = (w.field? f.name).isNone := fun f => by
    rw [← Option.not_isSome, ← Option.not_isSome, isSome_of_rel (shuffled.field? f.name)]
  simp only [absentFields, same]

theorem encodeMember_sameKind (noRule : f.skip.when? = none)
    (ignores : IgnoresFieldOrder (convert f)) (members : List (String × Json)) :
    SameKind (encodeMember record config v (convert f) f members)
      (encodeMember record config w (convert f) f members) := by
  unfold encodeMember
  rcases rel_cases (shuffled.field? f.name) with ⟨none, none'⟩ | ⟨x, y, isX, isY, inner⟩
  · rw [none, none']
    exact .result _
  · have sameOmission : (Omission.ofField config f).omits x = (Omission.ofField config f).omits y :=
      Omission.omits_shuffled noRule inner
    simp only [isX, isY, sameOmission]
    split
    · exact .result _
    · exact .bind ((ignores x y inner).inField _ _) fun _ _ => .result _

theorem encodeMembers_sameKind {fields : List Field}
    (noRules : ∀ f ∈ fields, f.skip.when? = none)
    (ignore : ∀ f ∈ fields, IgnoresFieldOrder (convert f)) (members : List (String × Json)) :
    SameKind (encodeMembers record config v convert fields members)
      (encodeMembers record config w convert fields members) := by
  induction fields generalizing members with
  | nil => exact .result _
  | cons f rest ih =>
    obtain ⟨noRule, noRules⟩ := List.forall_mem_cons.1 noRules
    obtain ⟨ignores, ignore⟩ := List.forall_mem_cons.1 ignore
    refine .bind ?_ fun members _ => ih noRules ignore members
    unfold encodeInTurn
    split
    · exact .result _
    · exact encodeMember_sameKind shuffled noRule ignores members

theorem splatMembers_sameKind (ignores : IgnoresFieldOrder (convert f)) :
    SameKind (splatMembers record v (convert f) f) (splatMembers record w (convert f) f) := by
  unfold splatMembers
  rcases rel_cases (shuffled.field? f.name) with ⟨none, none'⟩ | ⟨x, y, isX, isY, inner⟩
  · rw [none, none']
    exact .result _
  · rw [isX, isY]
    refine .inField (.bind (ignores x y inner) fun encoded _ => ?_) _ _
    cases encoded with
    | object extra => exact .result extra
    | _ => exact .invalid _ _ _

theorem encodeObject_sameKind {fields : List Field}
    (noRules : ∀ f ∈ fields, f.skip.when? = none)
    (ignore : ∀ f ∈ fields, IgnoresFieldOrder (convert f)) :
    SameKind (encodeObject record config v convert fields)
      (encodeObject record config w convert fields) := by
  refine .bind (encodeMembers_sameKind shuffled noRules ignore _) fun members _ => ?_
  cases isCatchAll : fields.find? Field.catchAll with
  | none => exact .result _
  | some f =>
    have mem := List.mem_of_find?_eq_some isCatchAll
    exact .bind (splatMembers_sameKind shuffled (ignore f mem)) fun _ _ => .result _

theorem encodeElement_sameKind (ignores : IgnoresFieldOrder (convert f)) :
    SameKind (encodeElement record v (convert f) f) (encodeElement record w (convert f) f) := by
  refine .inField ?_ _ _
  rcases rel_cases (shuffled.field? f.name) with ⟨none, none'⟩ | ⟨x, y, isX, isY, inner⟩
  · rw [none, none']
    exact .refl _
  · rw [isX, isY]
    exact ignores x y inner

theorem encodeElements_sameKind {fields : List Field}
    (ignore : ∀ f ∈ fields, IgnoresFieldOrder (convert f)) :
    SameKind (encodeElements record v convert fields)
      (encodeElements record w convert fields) := by
  induction fields with
  | nil => exact .result _
  | cons f rest ih =>
    obtain ⟨ignores, ignore⟩ := List.forall_mem_cons.1 ignore
    exact .bind (encodeElement_sameKind shuffled ignores) fun _ _ =>
      .bind (ih ignore) fun _ _ => .result _

/-- The fields are looked up by name, in the order of their declaration. -/
theorem encodeRecord_sameKind
    (noRules : ∀ f ∈ Encoder.fields record config, f.skip.when? = none)
    (ignore : ∀ f ∈ Encoder.fields record config, IgnoresFieldOrder (convert f)) :
    SameKind (encodeRecord record config v convert) (encodeRecord record config w convert) := by
  refine .bind (checkType_sameKind shuffled) fun _ _ => .bind ?_ fun output _ => ?_
  · unfold encodeOutput
    split
    · exact .bind (encodeElements_sameKind shuffled ignore) fun _ _ => .result _
    · exact encodeObject_sameKind shuffled noRules ignore
  · rw [absentFields_shuffled shuffled]
    exact .refl _

end Direct

section
variable {schema : Schema}

theorem Compile.Made.callWithin_ignores (declarations : schema.Declared)
    (fixes : schema.FixesOrder) {fuel : Nat} {bound : Binding} {name : String} {config : Config}
    {record : RecordType} {parts : List (Field × Converter)} {r : Encoder}
    (called : ∀ routine, IgnoresFieldOrder (r.calls fuel routine))
    (made : Made schema .builtin .encoding bound name config record parts r.code) :
    IgnoresFieldOrder (r.callWithin (fuel + 1)) := by
  intro v w shuffled
  have own : (Encoder.fields record config).Sublist record.fields := List.filter_sublist
  have distinct := made.distinct declarations own
  rw [made.callWithin_encode declarations, made.callWithin_encode declarations]
  refine Direct.encodeRecord_sameKind shuffled
    (fun f mem => fixes.rules name record made.declared f (own.subset mem)) fun f mem => ?_
  obtain ⟨c, isPart⟩ := made.exists_part mem
  rw [convertBy_of_mem distinct isPart]
  exact (made.compiled f c isPart).encode_ignores called
    (fixes.types name record made.declared f (own.subset mem))

theorem Compile.TracedTo.callWithin_ignores (declarations : schema.Declared)
    (fixes : schema.FixesOrder) (fuel : Nat) {key : RoutineKey} {r : Encoder}
    (h : TracedTo schema .builtin .encoding key r) : IgnoresFieldOrder (r.callWithin fuel) := by
  induction fuel generalizing key r with
  | zero => exact fun _ _ _ => .unfinished
  | succ fuel ih =>
    obtain ⟨bound, record, parts, made, -⟩ := h.code
    refine made.callWithin_ignores declarations fixes fun routine v w shuffled => ?_
    unfold Linked.calls
    cases isCallee : r.callee? routine with
    | none => exact .failure rfl
    | some callee =>
      obtain ⟨key', tracedTo⟩ := (h.traced.callee isCallee).exists_key
      exact ih tracedTo v w shuffled

end

/-- Whatever the codec did before, the order in which the fields of records were set cannot be told
from what an instance is encoded to, nor from the kind of failure. -/
theorem Codec.encode_ignoresFieldOrder {c : Codec} (declarations : c.schema.Declared)
    (builtin : c.registry = .builtin) (history : c.cache.History c.schema c.registry)
    (fixes : c.schema.FixesOrder) (record : String) (overrides : Config) {v w : Instance}
    (shuffled : v.Shuffled w) :
    SameKind (c.encode record v overrides).1 (c.encode record w overrides).1 := by
  refine .bind (.refl _) fun r isEncoder => ?_
  obtain ⟨config, -, traced⟩ := encoder_traced history isEncoder
  rw [builtin] at traced
  have ignores := traced.callWithin_ignores declarations fixes (r.callBound v.depth)
  have sameBound := congrArg r.callBound shuffled.depth
  rw [Encoder.call, Encoder.call, ← sameBound]
  exact ignores v w shuffled

namespace Sample

theorem fixesOrder : schema.FixesOrder := by
  have int : (TypeExpr.primitive .int).Throughout schema Handler.FixesOrder :=
    .of_leaf rfl (nomatch ·) fun step => by cases step <;> rfl
  have str : (TypeExpr.primitive .str).Throughout schema Handler.FixesOrder :=
    .of_leaf rfl (nomatch ·) fun step => by cases step <;> rfl
  have point : (TypeExpr.named "Point").Throughout schema Handler.FixesOrder :=
    .of_leaf handled_point trivial fun step => by cases step <;> rfl
  have cell : (TypeExpr.apply (.record .keyword "Cell") []).Throughout schema Handler.FixesOrder :=
    .of_leaf handled_cell trivial fun step => by cases step <;> rfl
  have tags : (TypeExpr.sequence (.primitive .str)).Throughout schema Handler.FixesOrder := by
    refine .of_handled handled_tags trivial fun step within isInner => ?_
    cases step <;> cases isInner
    exact str
  have next : (TypeExpr.optional (.named "Cell")).Throughout schema Handler.FixesOrder := by
    refine .of_handled handled_next trivial fun step within isInner => ?_
    cases step <;> cases isInner
    exact cell
  have types : ∀ r ∈ [Sample.cell, Sample.point], ∀ f ∈ r.fields,
      f.type.Throughout schema Handler.FixesOrder := by
    simp [Sample.cell, Sample.point, int, point, tags, next]
  have rules : ∀ r ∈ [Sample.cell, Sample.point], ∀ f ∈ r.fields, f.skip.when? = none := by
    simp [Sample.cell, Sample.point]
  exact ⟨fun _ r declared => types r (mem_of_record? declared),
    fun _ r declared => rules r (mem_of_record? declared)⟩

def shuffledPoint : Instance := .record "Point" [("y", .int 2), ("x", .int 1)]

def shuffledCell : Instance :=
  .record "Cell" [("next", lastCell), ("tags", .seq [.str "a,b"]), ("point", shuffledPoint)]

theorem shuffled_cellInstance : cellInstance.Shuffled shuffledCell := by
  have point : (pointAt 1 2).Rearranged shuffledPoint :=
    .record (b := [("x", .int 1), ("y", .int 2)]) rfl (by simp [Instance.Rearranged.refl])
      (.swap _ _ _)
  have rearranged : cellInstance.Rearranged shuffledCell :=
    .record (b := [("point", shuffledPoint), ("tags", .seq [.str "a,b"]), ("next", lastCell)]) rfl
      (by simp [point, Instance.Rearranged.refl]) (List.reverse_perm _).symm
  exact rearranged.shuffled regular_cellInstance

end Sample

theorem Codec.encode_ignoresFieldOrder_cells : ∃ j,
    (Sample.codec.encode "Cell" Sample.cellInstance {}).1.Returns j ∧
    (Sample.codec.encode "Cell" Sample.shuffledCell {}).1.Returns j := by
  have encodes : (Sample.codec.encode "Cell" Sample.cellInstance {}).1.returnsWith
      (fun _ => true) = true := by decide +kernel
  obtain ⟨j, returned, -⟩ := exists_of_returnsWith encodes
  have same := encode_ignoresFieldOrder (c := Sample.codec) Sample.schema_declared rfl
    (.decoder 0 "Point" {} (.empty 0 0)) Sample.fixesOrder "Cell" {} Sample.shuffled_cellInstance
  exact ⟨j, returned, same.returns returned⟩

namespace Swatches

def tone : RecordType where
  name := "Tone"
  fields := [{ name := "hue", type := .primitive .int },
    { name := "shade", type := .primitive .int }]

def ruby : Json := .object [("hue", .ofInt64 1), ("shade", .ofInt64 2)]

def swatch : RecordType where
  name := "Swatch"
  fields := [{ name := "tone", type := .literal [ruby] }]

def schema : Schema where
  records := (Table.empty.insert "Tone" tone).insert "Swatch" swatch

def swatchOf (fields : List (String × Instance)) : Instance :=
  .record "Swatch" [("tone", .record "Tone" fields)]

def first : Instance := swatchOf [("hue", .int 1), ("shade", .int 2)]

def second : Instance := swatchOf [("shade", .int 2), ("hue", .int 1)]

theorem schema_declared : schema.Declared :=
  .record swatch (.record tone .empty rfl) rfl

theorem shuffled : first.Shuffled second := by
  have flat : ∀ n, (Instance.int n).Shuffled (.int n) := fun _ => .flat rfl
  have tones : (Instance.record "Tone" [("hue", .int 1), ("shade", .int 2)]).Shuffled
      (.record "Tone" [("shade", .int 2), ("hue", .int 1)]) :=
    .record (b := [("hue", .int 1), ("shade", .int 2)]) (by simp [Assoc.keys]) rfl (by simp)
      (by simp [flat]) (.swap _ _ _)
  exact .record (b := [("tone", .record "Tone" [("shade", .int 2), ("hue", .int 1)])])
    (by simp [Assoc.keys]) rfl (by simp) (by simp [tones]) (.refl _)

theorem mem_of_record? {name : String} {r : RecordType} (h : schema.record? name = some r) :
    r ∈ [swatch, tone] := by
  rw [Schema.record?, schema] at h
  simp only [Table.get?_insert] at h
  split_ifs at h <;> cases h <;> simp

theorem types : ∀ r ∈ [swatch, tone], ∀ f ∈ r.fields,
    f.type.Throughout schema fun handler _ => handler ≠ .scalar .any := by
  have int : (TypeExpr.primitive .int).Throughout schema fun handler _ => handler ≠ .scalar .any :=
    .of_leaf rfl (nomatch ·) fun step => by cases step <;> rfl
  have handled : Handled schema .builtin (.literal [ruby]) .literal
      (schema.resolve (.literal [ruby])) := rfl
  have rubies : (TypeExpr.literal [ruby]).Throughout schema
      fun handler _ => handler ≠ .scalar .any :=
    .of_leaf handled (nomatch ·) fun step => by cases step <;> rfl
  simp [swatch, tone, int, rubies]

theorem rules : ∀ r ∈ [swatch, tone], ∀ f ∈ r.fields, f.skip.when? = none := by
  simp [swatch, tone]

def codec : Codec := { schema }

end Swatches

/-- A literal is encoded as the instance has its members. So there are a schema without untyped
positions and predicates and two instances that differ in the order of fields, but not with the same
text. -/
theorem Codec.not_encode_ignoresFieldOrder_swatch :
    Swatches.schema.Declared ∧
    (∀ name r, Swatches.schema.record? name = some r → ∀ f ∈ r.fields,
      f.type.Throughout Swatches.schema (fun handler _ => handler ≠ .scalar .any) ∧
        f.skip.when? = none) ∧
    Swatches.first.Shuffled Swatches.second ∧
    ∃ j k, (Swatches.codec.encode "Swatch" Swatches.first {}).1.Returns j ∧
      (Swatches.codec.encode "Swatch" Swatches.second {}).1.Returns k ∧
      j.text = "\x7b\"tone\":\x7b\"hue\":1,\"shade\":2\x7d\x7d" ∧
      k.text = "\x7b\"tone\":\x7b\"shade\":2,\"hue\":1\x7d\x7d" := by
  have hueFirst : (Swatches.codec.encode "Swatch" Swatches.first {}).1.returnsWith
      (fun j => j.text == "\x7b\"tone\":\x7b\"hue\":1,\"shade\":2\x7d\x7d") = true := by
    decide +kernel
  have shadeFirst : (Swatches.codec.encode "Swatch" Swatches.second {}).1.returnsWith
      (fun k => k.text == "\x7b\"tone\":\x7b\"shade\":2,\"hue\":1\x7d\x7d") = true := by
    decide +kernel
  obtain ⟨j, isFirst, text⟩ := exists_of_returnsWith hueFirst
  obtain ⟨k, isSecond, text'⟩ := exists_of_returnsWith shadeFirst
  exact ⟨Swatches.schema_declared, fun name r declared f mem =>
    ⟨Swatches.types r (Swatches.mem_of_record? declared) f mem,
      Swatches.rules r (Swatches.mem_of_record? declared) f mem⟩, Swatches.shuffled, j, k, isFirst,
    isSecond, beq_iff_eq.1 text, beq_iff_eq.1 text'⟩

end RecordCodec
