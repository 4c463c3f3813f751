import RecordCodec.Proofs.Handling
import RecordCodec.Proofs.Measures
import RecordCodec.Proofs.Results
import RecordCodec.Proofs.Variants

set_option autoImplicit false

/-!
# What conversions have in common with their parts

Some properties of runs pass from the conversions of the parts of a value to the conversion of the
value: that it ends, that it succeeds, that it fails in some ways only. Such a property goes through
containers, types and records once and for all.
-/
namespace RecordCodec

open Routine

/-- A routine is at fault: its name is taken, its operations do not nest, or it is not bound. -/
def Cause.isLinking : Cause → Bool
  | duplicateRoutine _ | malformedRoutine _ _ | unlinkedRoutine _ => true
  | fieldConversion _ _ _ cause => cause.isLinking
  | _ => false

def Cause.isDeclaration : Cause → Bool
  | unknownType _ | unsupportedType _ | invalidConfiguration _ _ => true
  | _ => false

namespace Failure

def NotLinking (e : Failure) : Prop := e.cause.isLinking = false

/-- The schema or a configuration is at fault. -/
def IsDeclaration (e : Failure) : Prop := e.cause.isDeclaration = true

theorem IsDeclaration.notLinking {e : Failure} (h : e.IsDeclaration) : e.NotLinking := by
  obtain ⟨cause, path⟩ := e
  cases cause <;> first | rfl | cases h

/-- The failure says no more than that something else was expected than this value. -/
inductive Refuses (v : Json) : Failure → Prop where
  | invalid (expected : String) : Refuses v (invalid expected v)

theorem Refuses.notLinking {v : Json} {e : Failure} (h : e.Refuses v) : e.NotLinking := by
  cases h
  exact .refl _

inductive Step : (Failure → Failure) → Prop where
  | key (key : String) : Step (atKey key)
  | index (index : Nat) : Step (atIndex index)
  | field (record field : String) : Step (inField record field)

theorem NotLinking.step {e : Failure} {f : Failure → Failure} (h : e.NotLinking) (step : Step f) :
    (f e).NotLinking := by
  cases step with
  | key | index => exact h
  | field =>
    unfold inField
    split <;> exact h

end Failure

theorem Schema.isDeclaration_of_findRecord {schema : Schema} {name : String} {e : Failure}
    (h : schema.findRecord name = .error e) : e.IsDeclaration := by
  unfold findRecord at h
  split at h <;> cases h
  exact .refl _

theorem Registry.isDeclaration_of_resolve {schema : Schema} {registry : Registry} {ty : TypeExpr}
    {e : Failure} (h : registry.resolve schema ty = .error e) : e.IsDeclaration := by
  unfold resolve at h
  split at h
  · cases h
  · split at h
    · split at h <;> cases h
      exact .refl _
    · split at h <;> cases h
      exact .refl _
    · cases h
      exact .refl _

namespace Compile

theorem isDeclaration_of_findEnum {schema : Schema} {ty : TypeExpr} {e : Failure}
    (h : findEnum schema ty = .error e) : e.IsDeclaration := by
  unfold findEnum at h
  split at h
  · split at h <;> cases h
    exact .refl _
  · cases h
    exact .refl _

end Compile

namespace Routine.Run

def Ends {α : Type} (r : Run α) : Prop := ∃ result, r.run = some result

def Succeeds {α : Type} (r : Run α) : Prop := ∃ a, r.Returns a

def FailsOnly (Q : Failure → Prop) {α : Type} (r : Run α) : Prop := ∀ e, r.Fails e → Q e

/-- A property of runs that runs in a row have if each of them does. -/
structure Sequential (P : (α : Type) → Run α → Prop) : Prop where
  pure : ∀ {α : Type} (a : α), P α (pure a)
  bind : ∀ {α β : Type} {r : Run α} {f : α → Run β}, P α r → (∀ a, r.Returns a → P β (f a)) →
    P β (r >>= f)
  mapError : ∀ {α : Type} {r : Run α} {f : Failure → Failure}, Failure.Step f → P α r →
    P α (r.mapError f)

/-- Conversions have it if the conversions of their parts do: a failure that is no matter of linking
does not take it away, and neither does trying several conversions. -/
structure Compositional (P : (α : Type) → Run α → Prop) : Prop extends Sequential P where
  throw : ∀ {α : Type} {e : Failure}, e.NotLinking → P α (throw e)
  firstSuccess : ∀ {α β : Type} {failure : Failure} {v : α} {candidates : List (α → Run β)},
    failure.NotLinking → (∀ f ∈ candidates, P β (f v)) →
    P β (Converter.firstSuccess failure v candidates)

theorem Compositional.ofExcept {P : (α : Type) → Run α → Prop} (comp : Compositional P) {α : Type}
    {x : Except Failure α} (h : ∀ e, x = .error e → e.NotLinking) : P α (.ofExcept x) := by
  cases x with
  | error e => exact comp.throw (h e rfl)
  | ok a => exact comp.pure a

variable {α β : Type} {r : Run α}

namespace Ends

theorem throw (e : Failure) : Ends (throw e : Run α) := ⟨_, rfl⟩

theorem ofExcept (x : Except Failure α) : Ends (.ofExcept x : Run α) := by
  cases x with
  | error e => exact ⟨_, rfl⟩
  | ok a => exact ⟨_, rfl⟩

theorem bind {f : α → Run β} (h : r.Ends) (next : ∀ a, r.Returns a → (f a).Ends) :
    (r >>= f).Ends := by
  obtain ⟨result, ran⟩ := h
  rw [Ends, bind_run, ran]
  cases result with
  | error e => exact ⟨_, rfl⟩
  | ok a => exact next a ran

theorem mapError (f : Failure → Failure) (h : r.Ends) : (r.mapError f).Ends := by
  obtain ⟨result, ran⟩ := h
  have mapped : (r.mapError f).run = r.run.map (Except.mapError f) := rfl
  rw [Ends, mapped, ran]
  exact ⟨_, rfl⟩

theorem firstSuccess {failure : Failure} {v : α} {candidates : List (α → Run β)}
    (h : ∀ f ∈ candidates, (f v).Ends) : (Converter.firstSuccess failure v candidates).Ends := by
  induction candidates with
  | nil => exact .throw _
  | cons f rest ih =>
    obtain ⟨first, others⟩ := List.forall_mem_cons.1 h
    obtain ⟨result, ran⟩ := first
    rw [Converter.firstSuccess, ran]
    cases result with
    | error e => exact ih others
    | ok a => exact ⟨_, rfl⟩

end Ends

theorem compositional_ends : Compositional @Ends where
  pure _ := ⟨_, rfl⟩
  bind := .bind
  mapError _ := .mapError _
  throw _ := .throw _
  firstSuccess _ := .firstSuccess

theorem sequential_succeeds : Sequential @Succeeds where
  pure a := ⟨a, .pure_iff.2 rfl⟩
  bind := by
    rintro _ _ _ _ ⟨a, returns⟩ next
    obtain ⟨b, last⟩ := next a returns
    exact ⟨b, Returns.bind_iff.2 ⟨a, returns, last⟩⟩
  mapError := fun _ ⟨a, returns⟩ => ⟨a, Returns.mapError_iff.2 returns⟩

namespace FailsOnly

variable {Q : Failure → Prop}

theorem pure (a : α) : FailsOnly Q (Pure.pure a : Run α) :=
  fun _ h => (Fails.pure_iff.1 h).elim

theorem throw {e : Failure} (h : Q e) : FailsOnly Q (throw e : Run α) :=
  fun _ same => Fails.throw_iff.1 same ▸ h

theorem ofExcept {x : Except Failure α} (h : ∀ e, x = .error e → Q e) :
    FailsOnly Q (.ofExcept x : Run α) :=
  fun e same => h e (Fails.ofExcept_iff.1 same)

theorem bind {f : α → Run β} (first : FailsOnly Q r) (next : ∀ a, r.Returns a → FailsOnly Q (f a)) :
    FailsOnly Q (r >>= f) := by
  intro e h
  rcases Fails.bind_iff.1 h with failed | ⟨a, returns, failed⟩
  · exact first e failed
  · exact next a returns e failed

theorem mapError {Q' : Failure → Prop} {f : Failure → Failure} (h : FailsOnly Q r)
    (step : ∀ e, Q e → Q' (f e)) : FailsOnly Q' (r.mapError f) := by
  intro e same
  obtain ⟨e', failed, rfl⟩ := Fails.mapError_iff.1 same
  exact step e' (h e' failed)

theorem firstSuccess {failure : Failure} {v : α} {candidates : List (α → Run β)}
    (last : Q failure) : FailsOnly Q (Converter.firstSuccess failure v candidates) := by
  induction candidates with
  | nil => exact .throw last
  | cons f rest ih =>
    rw [Converter.firstSuccess]
    split
    · exact .pure _
    · exact ih
    · intro e h
      cases h

end FailsOnly

theorem compositional_notLinking : Compositional (@FailsOnly Failure.NotLinking) where
  pure := .pure
  bind := .bind
  mapError step h := h.mapError fun _ notLinking => notLinking.step step
  throw := .throw
  firstSuccess last _ := .firstSuccess last

end Routine.Run

open Routine.Run

namespace Scalar

theorem refuses_of_orRefuse {α : Type} {expected : String} {v : Json} {make : α → Instance}
    {found : Option α} {e : Failure} (h : orRefuse expected v make found = .error e) :
    e.Refuses v := by
  cases found with
  | none =>
    cases h
    exact ⟨_⟩
  | some a => cases h

theorem refuses_of_decode {p : Primitive} {v : Json} {e : Failure} (h : decode p v = .error e) :
    e.Refuses v := by
  cases p with
  | null =>
    simp only [decode] at h
    split at h
    · cases h
    · cases h
      exact ⟨_⟩
  | bytes =>
    simp only [decode, decodeBytes] at h
    split at h
    · exact refuses_of_orRefuse h
    · exact refuses_of_orRefuse h
    · cases h
      exact ⟨_⟩
  | any => cases h
  | _ => exact refuses_of_orRefuse h

theorem notLinking_of_encode {p : Primitive} {v : Instance} {e : Failure}
    (h : encode p v = .error e) : e.NotLinking := by
  unfold encode at h
  split at h <;> cases h
  exact .refl _

end Scalar

namespace Converter

section
variable {P : (α : Type) → Run α → Prop} (seq : Sequential P)
include seq

theorem decodeItems_sequential {decode : Decode} (index : Nat) {vs : List Json}
    (h : ∀ v ∈ vs, P Instance (decode v)) : P (List Instance) (decodeItems decode index vs) := by
  induction vs generalizing index with
  | nil => exact seq.pure _
  | cons v rest ih =>
    obtain ⟨first, others⟩ := List.forall_mem_cons.1 h
    exact seq.bind (seq.mapError (.index _) first) fun _ _ =>
      seq.bind (ih _ others) fun _ _ => seq.pure _

theorem decodeParts_sequential {decoders : List Decode} (index : Nat) {vs : List Json}
    (h : ∀ e ∈ decoders.zip vs, P Instance (e.1 e.2)) :
    P (List Instance) (decodeParts index decoders vs) := by
  induction decoders generalizing index vs with
  | nil => exact seq.pure _
  | cons decode rest ih =>
    cases vs with
    | nil => exact seq.pure _
    | cons v vs =>
      obtain ⟨first, others⟩ := List.forall_mem_cons.1 h
      exact seq.bind (seq.mapError (.index _) first) fun _ _ =>
        seq.bind (ih _ others) fun _ _ => seq.pure _

theorem decodeEntries_sequential {key item : Decode} {entries : List (String × Json)}
    (h : ∀ e ∈ entries, P Instance (key (.string e.1)) ∧ P Instance (item e.2)) :
    P (List (Instance × Instance)) (decodeEntries key item entries) := by
  induction entries with
  | nil => exact seq.pure _
  | cons e rest ih =>
    obtain ⟨first, others⟩ := List.forall_mem_cons.1 h
    exact seq.bind (seq.mapError (.key _) first.1) fun _ _ =>
      seq.bind (seq.mapError (.key _) first.2) fun _ _ =>
        seq.bind (ih others) fun _ _ => seq.pure _

theorem encodeItems_sequential {encode : Encode} (index : Nat) {vs : List Instance}
    (h : ∀ v ∈ vs, P Json (encode v)) : P (List Json) (encodeItems encode index vs) := by
  induction vs generalizing index with
  | nil => exact seq.pure _
  | cons v rest ih =>
    obtain ⟨first, others⟩ := List.forall_mem_cons.1 h
    exact seq.bind (seq.mapError (.index _) first) fun _ _ =>
      seq.bind (ih _ others) fun _ _ => seq.pure _

theorem encodeParts_sequential {encoders : List Encode} (index : Nat) {vs : List Instance}
    (h : ∀ e ∈ encoders.zip vs, P Json (e.1 e.2)) :
    P (List Json) (encodeParts index encoders vs) := by
  induction encoders generalizing index vs with
  | nil => exact seq.pure _
  | cons encode rest ih =>
    cases vs with
    | nil => exact seq.pure _
    | cons v vs =>
      obtain ⟨first, others⟩ := List.forall_mem_cons.1 h
      exact seq.bind (seq.mapError (.index _) first) fun _ _ =>
        seq.bind (ih _ others) fun _ _ => seq.pure _

theorem encodeEntries_sequential {key item : Encode} {entries : List (Instance × Instance)}
    (h : ∀ e ∈ entries, P Json (key e.1) ∧ P Json (item e.2)) (out : List (String × Json)) :
    P (List (String × Json)) (encodeEntries key item entries out) := by
  induction entries generalizing out with
  | nil => exact seq.pure _
  | cons e rest ih =>
    obtain ⟨first, others⟩ := List.forall_mem_cons.1 h
    exact seq.bind (seq.mapError (.key _) first.1) fun _ _ =>
      seq.bind (seq.mapError (.key _) first.2) fun _ _ => ih others _

end

theorem refuses_of_mapEntries {v : Json} {e : Failure} (h : mapEntries v = .error e) :
    e.Refuses v := by
  unfold mapEntries at h
  split at h
  · cases h
  · split at h
    · cases h
    · cases h
      exact ⟨_⟩
  · cases h
    exact ⟨_⟩

theorem refuses_of_decodeLiteral {values : List Json} {v : Json} {e : Failure}
    (h : decodeLiteral values v = .error e) : e.Refuses v := by
  unfold decodeLiteral at h
  split at h
  · cases h
  · split at h
    · cases h
    · cases h
      exact ⟨_⟩

theorem notLinking_of_encodeLiteral {values : List Json} {v : Instance} {e : Failure}
    (h : encodeLiteral values v = .error e) : e.NotLinking := by
  unfold encodeLiteral at h
  split at h <;> cases h
  exact .refl _

theorem refuses_of_decodeEnum {declared : EnumType} {v : Json} {e : Failure}
    (h : decodeEnum declared v = .error e) : e.Refuses v := by
  unfold decodeEnum at h
  split at h <;> cases h
  exact ⟨_⟩

theorem notLinking_of_encodeEnum {declared : EnumType} {v : Instance} {e : Failure}
    (h : encodeEnum declared v = .error e) : e.NotLinking := by
  unfold encodeEnum at h
  split at h
  · split at h
    · split at h <;> cases h
      exact .refl _
    · cases h
      exact .refl _
  · cases h
    exact .refl _

end Converter

namespace Direct

open Converter Compile

variable {P : (α : Type) → Run α → Prop} (comp : Compositional P) {schema : Schema}
  {registry : Registry} {here : Position}
include comp

section Decoding
variable {nested : Nested Json Instance} {parts : List Decode}

theorem decodeList_compositional (form : ItemsForm) {item : Decode} (h : ∀ v, P _ (item v))
    (v : Json) : P _ (decodeList form item v) := by
  unfold decodeList
  split
  · exact comp.bind (decodeItems_sequential comp.toSequential 0 fun w _ => h w) fun _ _ =>
      comp.pure _
  · exact comp.throw (.refl _)

theorem decodeTuple_compositional (h : ∀ part ∈ parts, ∀ v, P _ (part v)) (v : Json) :
    P _ (decodeTuple parts v) := by
  unfold decodeTuple
  split
  · split
    · refine comp.bind (decodeParts_sequential comp.toSequential 0 fun e mem => ?_) fun _ _ =>
        comp.pure _
      exact h e.1 (List.of_mem_zip mem).1 e.2
    · exact comp.throw (.refl _)
  · exact comp.throw (.refl _)

theorem decodeMapping_compositional (build : List (Instance × Instance) → Instance)
    {key item : Decode} (keys : ∀ v, P _ (key v)) (items : ∀ v, P _ (item v)) (v : Json) :
    P _ (decodeMapping build key item v) :=
  comp.bind (comp.ofExcept fun _ h => (refuses_of_mapEntries h).notLinking) fun _ _ =>
    comp.bind (decodeEntries_sequential comp.toSequential fun e _ => ⟨keys _, items e.2⟩)
      fun _ _ => comp.pure _

theorem decodeUnion_compositional {plan : UnionPlan} (h : ∀ part ∈ parts, ∀ v, P _ (part v))
    (v : Json) : P _ (decodeUnion plan parts v) := by
  unfold decodeUnion
  simp only
  split
  · split
    case h_1 arm decode found =>
      exact h _ (List.of_mem_zip (List.mem_of_find?_eq_some found)).2 v
    case h_2 => exact comp.throw (.refl _)
  · refine comp.firstSuccess (.refl _) fun f tried => ?_
    obtain ⟨⟨arm, decode⟩, mem, rfl⟩ := List.mem_map.1 tried
    exact h _ (List.of_mem_zip (mem_trialOrder.1 mem)).2 v

theorem decodeAs_compositional (records : ∀ name config v, P _ (nested name config v))
    (ty : TypeExpr) (h : ∀ part ∈ parts, ∀ v, P _ (part v)) (handler : Handler)
    (foreign : ∀ decode encode, handler = .custom decode encode → ∀ v, P _ (.ofExcept (decode v)))
    (v : Json) : P _ (decodeAs schema nested here ty parts handler v) := by
  have part : ∀ index v, P _ (part decodeAny parts index v) := by
    intro index v
    unfold Direct.part
    cases isPart : parts[index]? with
    | none => exact comp.pure _
    | some found => exact h found (List.mem_of_getElem? isPart) v
  cases handler with
  | scalar p => exact comp.ofExcept fun _ h => (Scalar.refuses_of_decode h).notLinking
  | optional =>
    simp only [decodeAs]
    split
    · exact comp.pure _
    · exact part 0 v
  | sequence | set | variadicTuple => exact decodeList_compositional comp _ (part 0) v
  | fixedTuple => exact decodeTuple_compositional comp h v
  | mapping | defaultMapping => exact decodeMapping_compositional comp _ (part 0) (part 1) v
  | literal => exact comp.ofExcept fun _ h => (refuses_of_decodeLiteral h).notLinking
  | enumeration =>
    refine comp.ofExcept fun e failed => ?_
    cases found : findEnum schema ty with
    | error e' =>
      rw [found] at failed
      cases failed
      exact (isDeclaration_of_findEnum found).notLinking
    | ok declared =>
      rw [found] at failed
      exact (refuses_of_decodeEnum failed).notLinking
  | union =>
    refine decodeUnion_compositional comp (fun decode mem v => ?_) v
    obtain ⟨k, isDecoder⟩ := List.mem_iff_getElem?.1 mem
    obtain ⟨arm, convert, -, isPart, rfl⟩ := List.getElem?_zipWith_eq_some.1 isDecoder
    unfold armPart
    cases arm.record with
    | some key => exact records key.1 key.2 v
    | none => exact h convert (List.mem_of_getElem? isPart) v
  | record =>
    simp only [decodeAs]
    split
    · exact records _ _ v
    · exact comp.throw (.refl _)
  | custom decode encode => exact foreign decode encode rfl v

theorem decodeType_compositional (records : ∀ name config v, P _ (nested name config v))
    (foreign : ∀ ty target decode encode,
      registry.resolve schema ty = .ok (.custom decode encode, target) →
      ∀ v, P _ (.ofExcept (decode v)))
    (ty : TypeExpr) : ∀ v, P _ (decodeType schema registry nested here ty v) := by
  induction ty using TypeExpr.induction with
  | node shape args literals ih =>
    intro v
    rw [decodeType, decodeTypes_eq]
    cases resolved : registry.resolve schema ⟨shape, args, literals⟩ with
    | error e => exact comp.throw (Registry.isDeclaration_of_resolve resolved).notLinking
    | ok found =>
      refine decodeAs_compositional comp records found.2 (fun part mem => ?_) found.1 ?_ v
      · obtain ⟨ty, isArg, rfl⟩ := List.mem_map.1 (List.mem_of_mem_take mem)
        exact ih ty isArg
      · intro decode encode isCustom
        exact foreign _ found.2 decode encode (by rw [resolved, ← isCustom])

end Decoding

section Records
variable {record : RecordType} {config : Config} {input : Json} {convert : Field → Decode}

theorem decodeField_compositional {decode : Decode} (h : ∀ v, P _ (decode v)) (index : Nat)
    (f : Field) : P _ (decodeField record config input decode index f) := by
  unfold decodeField
  split
  · exact comp.bind (comp.mapError (.field _ _) (h _)) fun _ _ => comp.pure _
  · unfold decodeAbsent
    split
    · exact comp.pure _
    · exact comp.pure _
    · exact comp.bind (comp.mapError (.field _ _) (h _)) fun _ _ => comp.pure _
    · exact comp.pure _

theorem decodeFields_compositional (h : ∀ f v, P _ (convert f v)) (index : Nat)
    (fields : List Field) : P _ (decodeFields record config input convert index fields) := by
  induction fields generalizing index with
  | nil => exact comp.pure _
  | cons f rest ih =>
    refine comp.bind ?_ fun _ _ => comp.bind (ih _) fun _ _ => comp.pure _
    unfold decodeInTurn
    split
    · exact comp.pure _
    · exact decodeField_compositional comp (h f) index f

theorem decodeRecord_compositional (h : ∀ f v, P _ (convert f v)) :
    P _ (decodeRecord record config input convert) := by
  refine comp.bind (comp.ofExcept fun e failed => ?_) fun _ _ =>
    comp.bind (decodeFields_compositional comp h 0 _) fun values _ => comp.bind ?_ fun _ _ => ?_
  · unfold Decoder.checkForm at failed
    split at failed
    · cases failed
      exact .refl _
    · cases failed
    · split at failed
      · cases failed
        exact .refl _
      · split at failed <;> cases failed
        exact .refl _
    · cases failed
      exact .refl _
  · unfold decodeLeftOver
    split
    · exact comp.bind (comp.mapError (.field _ _) (h _ _)) fun _ _ => comp.pure _
    · split
      · exact comp.throw (.refl _)
      · exact comp.pure _
  · split
    · exact comp.pure _
    · exact comp.throw (.refl _)

end Records

section Encoding
variable {nested : Nested Instance Json} {H : Instance → Prop} (hereditary : Instance.Hereditary H)
  {parts : List Encode} {v : Instance}
include hereditary

theorem encodeList_compositional (form : ItemsForm) {item : Encode} (h : ∀ v, H v → P _ (item v))
    (holds : H v) : P _ (encodeList form item v) := by
  unfold encodeList
  split
  case h_1 vs isItems =>
    have items := encodeItems_sequential comp.toSequential 0 fun w mem =>
      h w (hereditary.items holds isItems w mem)
    exact comp.bind items fun _ _ => comp.pure _
  case h_2 => exact comp.throw (.refl _)

theorem encodeTuple_compositional (h : ∀ part ∈ parts, ∀ v, H v → P _ (part v)) (holds : H v) :
    P _ (encodeTuple parts v) := by
  unfold encodeTuple
  split
  case h_1 vs isItems =>
    have items := encodeParts_sequential comp.toSequential 0 fun (e : Encode × Instance) mem =>
      h e.1 (List.of_mem_zip mem).1 e.2 (hereditary.items holds isItems _ (List.of_mem_zip mem).2)
    split
    · exact comp.bind items fun _ _ => comp.pure _
    · exact comp.throw (.refl _)
  case h_2 => exact comp.throw (.refl _)

theorem encodeMapping_compositional {key item : Encode} (keys : ∀ v, H v → P _ (key v))
    (items : ∀ v, H v → P _ (item v)) (holds : H v) : P _ (encodeMapping key item v) := by
  unfold encodeMapping
  split
  case h_1 entries isEntries =>
    have entries := encodeEntries_sequential comp.toSequential
      (fun (e : Instance × Instance) mem =>
        have ⟨isKey, isItem⟩ := hereditary.entries holds isEntries e mem
        ⟨keys e.1 isKey, items e.2 isItem⟩) []
    exact comp.bind entries fun _ _ => comp.pure _
  case h_2 => exact comp.throw (.refl _)

omit hereditary in
theorem encodeUnion_compositional {plan : UnionPlan} (h : ∀ part ∈ parts, P _ (part v)) :
    P _ (encodeUnion plan parts v) := by
  refine comp.firstSuccess (.refl _) fun f tried => ?_
  obtain ⟨⟨arm, encode⟩, mem, rfl⟩ := List.mem_map.1 tried
  exact h _ (List.of_mem_zip (mem_trialOrder.1 mem)).2

theorem encodeAs_compositional (records : ∀ name config v, H v → P _ (nested name config v))
    (ty : TypeExpr) (h : ∀ part ∈ parts, ∀ v, H v → P _ (part v)) (handler : Handler)
    (foreign : ∀ decode encode, handler = .custom decode encode → ∀ v, P _ (.ofExcept (encode v)))
    (holds : H v) : P _ (encodeAs schema nested here ty parts handler v) := by
  have part : ∀ index v, H v → P _ (part encodeAny parts index v) := by
    intro index v holds
    unfold Direct.part
    cases isPart : parts[index]? with
    | none => exact comp.pure _
    | some found => exact h found (List.mem_of_getElem? isPart) v holds
  cases handler with
  | scalar p => exact comp.ofExcept fun _ => Scalar.notLinking_of_encode
  | optional =>
    simp only [encodeAs]
    split
    · exact comp.pure _
    · exact part 0 v holds
  | sequence | set | variadicTuple =>
    exact encodeList_compositional comp hereditary _ (part 0) holds
  | fixedTuple => exact encodeTuple_compositional comp hereditary h holds
  | mapping | defaultMapping =>
    exact encodeMapping_compositional comp hereditary (part 0) (part 1) holds
  | literal => exact comp.ofExcept fun _ => notLinking_of_encodeLiteral
  | enumeration =>
    refine comp.ofExcept fun e failed => ?_
    cases found : findEnum schema ty with
    | error e' =>
      rw [found] at failed
      cases failed
      exact (isDeclaration_of_findEnum found).notLinking
    | ok declared =>
      rw [found] at failed
      exact notLinking_of_encodeEnum failed
  | union =>
    refine encodeUnion_compositional comp fun encode mem => ?_
    obtain ⟨k, isEncoder⟩ := List.mem_iff_getElem?.1 mem
    obtain ⟨arm, convert, -, isPart, rfl⟩ := List.getElem?_zipWith_eq_some.1 isEncoder
    unfold armPart
    cases arm.record with
    | some key => exact records key.1 key.2 v holds
    | none => exact h convert (List.mem_of_getElem? isPart) v holds
  | record =>
    simp only [encodeAs]
    split
    · exact records _ _ v holds
    · exact comp.throw (.refl _)
  | custom decode encode => exact foreign decode encode rfl v

theorem encodeType_compositional (records : ∀ name config v, H v → P _ (nested name config v))
    (foreign : ∀ ty target decode encode,
      registry.resolve schema ty = .ok (.custom decode encode, target) →
      ∀ v, P _ (.ofExcept (encode v)))
    (ty : TypeExpr) : ∀ v, H v → P _ (encodeType schema registry nested here ty v) := by
  induction ty using TypeExpr.induction with
  | node shape args literals ih =>
    intro v holds
    rw [encodeType, encodeTypes_eq]
    cases resolved : registry.resolve schema ⟨shape, args, literals⟩ with
    | error e => exact comp.throw (Registry.isDeclaration_of_resolve resolved).notLinking
    | ok found =>
      refine encodeAs_compositional comp hereditary records found.2 (fun part mem => ?_) found.1 ?_
        holds
      · obtain ⟨ty, isArg, rfl⟩ := List.mem_map.1 (List.mem_of_mem_take mem)
        exact ih ty isArg
      · intro decode encode isCustom
        exact foreign _ found.2 decode encode (by rw [resolved, ← isCustom])

end Encoding

section Records
variable {record : RecordType} {config : Config} {input : Instance} {convert : Field → Encode}

omit comp in
theorem encodeMembers_sequential (seq : Sequential P) {fields : List Field}
    (h : ∀ f ∈ fields, ∀ v, input.field? f.name = some v → P _ (convert f v))
    (members : List (String × Json)) :
    P _ (encodeMembers record config input convert fields members) := by
  induction fields generalizing members with
  | nil => exact seq.pure _
  | cons f rest ih =>
    obtain ⟨first, others⟩ := List.forall_mem_cons.1 h
    refine seq.bind ?_ fun members _ => ih others members
    unfold encodeInTurn encodeMember
    split
    · exact seq.pure _
    · simp only
      split
      · exact seq.pure _
      case h_2 v present =>
        split
        · exact seq.pure _
        · exact seq.bind (seq.mapError (.field _ _) (first v present)) fun _ _ => seq.pure _

omit comp in
theorem encodeElements_sequential (seq : Sequential P) {fields : List Field}
    (h : ∀ f ∈ fields, ∀ v, input.field? f.name = some v → P _ (convert f v))
    (absent : ∀ f ∈ fields, input.field? f.name = none →
      P _ (Encoder.encodeDefault (convert f) f.default)) :
    P _ (encodeElements record input convert fields) := by
  induction fields with
  | nil => exact seq.pure _
  | cons f rest ih =>
    obtain ⟨first, others⟩ := List.forall_mem_cons.1 h
    obtain ⟨firstAbsent, othersAbsent⟩ := List.forall_mem_cons.1 absent
    refine seq.bind (seq.mapError (.field _ _) ?_) fun _ _ =>
      seq.bind (ih others othersAbsent) fun _ _ => seq.pure _
    cases present : input.field? f.name with
    | some v => exact first v present
    | none => exact firstAbsent present

omit comp in
theorem encodeOutput_sequential (seq : Sequential P) {fields : List Field}
    (h : ∀ f ∈ fields, ∀ v, input.field? f.name = some v → P _ (convert f v))
    (absent : ∀ f ∈ fields, input.field? f.name = none →
      P _ (Encoder.encodeDefault (convert f) f.default))
    (splat : ∀ f ∈ fields, f.catchAll = true → P _ (splatMembers record input (convert f) f)) :
    P _ (encodeOutput record config input convert fields) := by
  unfold encodeOutput
  split
  · exact seq.bind (encodeElements_sequential seq h absent) fun _ _ => seq.pure _
  · refine seq.bind (encodeMembers_sequential seq h _) fun members _ => ?_
    split
    case h_1 f found =>
      refine seq.bind (splat f (List.mem_of_find?_eq_some found) ?_) fun _ _ => seq.pure _
      simpa using List.find?_some found
    case h_2 => exact seq.pure _

theorem splatMembers_compositional {encode : Encode} {field : Field}
    (h : ∀ v, input.field? field.name = some v → P _ (encode v)) :
    P _ (splatMembers record input encode field) := by
  unfold splatMembers
  split
  · exact comp.pure _
  case h_2 v present =>
    refine comp.mapError (.field _ _) (comp.bind (h v present) fun j _ => ?_)
    cases j with
    | object extra => exact comp.pure _
    | _ => exact comp.throw (.refl _)

theorem encodeRecord_compositional (h : Encoder.checkType record input = .ok () →
    P _ (encodeOutput record config input convert (Encoder.fields record config))) :
    P _ (encodeRecord record config input convert) := by
  refine comp.bind (comp.ofExcept fun e failed => ?_) fun _ checked =>
    comp.bind (h (Run.Returns.ofExcept_iff.1 checked)) fun output _ => ?_
  · unfold Encoder.checkType at failed
    split at failed
    · split at failed <;> cases failed
      exact .refl _
    · cases failed
      exact .refl _
  · split
    · exact comp.pure _
    · exact comp.throw (.refl _)

end Records
end Direct
end RecordCodec
