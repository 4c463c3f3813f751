import RecordCodec.Proofs.Handling

set_option autoImplicit false

/-!
# Converters of types

When a converter is the compiled form of a type. It calls other routines by names that are bound
to records with configurations. Converting with it is the direct interpretation of the type, if
each call does what the record that its name is bound to asks for.
-/
namespace RecordCodec.Compile

open Routine Direct

abbrev Binding := String → String → Config → Prop

def itemsHandler : ItemsForm → Handler
  | .list => .sequence
  | .set => .set
  | .tuple => .variadicTuple

/-- The converter is the compiled form of the type at a position. -/
inductive Compiles (schema : Schema) (registry : Registry) (bound : Binding) (here : Position) :
    TypeExpr → Converter → Prop where
  | scalar {ty target : TypeExpr} {p : Primitive} :
    Handled schema registry ty (.scalar p) target →
    Compiles schema registry bound here ty (.scalar p)
  | optional {ty target : TypeExpr} {c : Converter} :
    Handled schema registry ty .optional target →
    Compiles schema registry bound here (target.arg 0) c →
    Compiles schema registry bound here ty (.optional c)
  | items (form : ItemsForm) {ty target : TypeExpr} {c : Converter} :
    Handled schema registry ty (itemsHandler form) target →
    Compiles schema registry bound here (target.arg 0) c →
    Compiles schema registry bound here ty (.items form c)
  | tuple {ty target : TypeExpr} {parts : List Converter} :
    Handled schema registry ty .fixedTuple target → parts.length = target.args.length →
    (∀ (i : Nat) (inner : TypeExpr) (c : Converter), target.args[i]? = some inner →
      parts[i]? = some c → Compiles schema registry bound here inner c) →
    Compiles schema registry bound here ty (.tuple parts)
  | mapping {ty target : TypeExpr} {key item : Converter} :
    Handled schema registry ty .mapping target →
    Compiles schema registry bound here (target.arg 0) key →
    Compiles schema registry bound here (target.arg 1) item →
    Compiles schema registry bound here ty (.mapping key item)
  | defaultMapping {ty target : TypeExpr} {key item : Converter} :
    Handled schema registry ty .defaultMapping target →
    Compiles schema registry bound here (target.arg 0) key →
    Compiles schema registry bound here (target.arg 1) item →
    Compiles schema registry bound here ty
      (.defaultMapping key item (Converter.zeroOf (target.arg 1)))
  | literal {ty target : TypeExpr} :
    Handled schema registry ty .literal target →
    Compiles schema registry bound here ty (.literal target.literals)
  | enumeration {ty target : TypeExpr} {e : EnumType} :
    Handled schema registry ty .enumeration target → findEnum schema target = .ok e →
    Compiles schema registry bound here ty (.enumeration e)
  | record {ty target : TypeExpr} {name routine : String} :
    Handled schema registry ty .record target → target.shape.recordName? = some name →
    bound routine name (here.nestedConfig schema name) →
    Compiles schema registry bound here ty (.record routine)
  | union {ty target : TypeExpr} {arms : List Converter} :
    Handled schema registry ty .union target → arms.length = target.args.length →
    ((here.plan schema target).arms.filterMap UnionArm.tag).Nodup →
    (∀ (i : Nat) (inner : TypeExpr) (c : Converter), target.args[i]? = some inner →
      arms[i]? = some c → ∀ name config, (here.arm schema inner).record = some (name, config) →
      ∃ routine, c = .record routine ∧ bound routine name config) →
    (∀ (i : Nat) (inner : TypeExpr) (c : Converter), target.args[i]? = some inner →
      arms[i]? = some c → (here.arm schema inner).record = none →
      Compiles schema registry bound here inner c) →
    Compiles schema registry bound here ty (.union (here.plan schema target) arms)
  | custom {ty target : TypeExpr} {decode : Json → Except Failure Instance}
    {encode : Instance → Except Failure Json} :
    Handled schema registry ty (.custom decode encode) target →
    Compiles schema registry bound here ty (.custom decode encode)

namespace Compiles

variable {schema : Schema} {registry : Registry} {bound : Binding} {here : Position}
  {ty : TypeExpr} {c : Converter}

theorem mono {wider : Binding} (h : Compiles schema registry bound here ty c)
    (le : ∀ routine name config, bound routine name config → wider routine name config) :
    Compiles schema registry wider here ty c := by
  induction h with
  | scalar handled => exact .scalar handled
  | optional handled _ ih => exact .optional handled ih
  | items form handled _ ih => exact .items form handled ih
  | tuple handled count _ ih => exact .tuple handled count ih
  | mapping handled _ _ ihKey ihItem => exact .mapping handled ihKey ihItem
  | defaultMapping handled _ _ ihKey ihItem => exact .defaultMapping handled ihKey ihItem
  | literal handled => exact .literal handled
  | enumeration handled found => exact .enumeration handled found
  | record handled named known => exact .record handled named (le _ _ _ known)
  | union handled count distinct records _ ih =>
    refine .union handled count distinct ?_ ih
    intro i inner c atType atArm name config planned
    obtain ⟨routine, isRecord, known⟩ := records i inner c atType atArm name config planned
    exact ⟨routine, isRecord, le _ _ _ known⟩
  | custom handled => exact .custom handled

/-- What a handler makes of a type, with the converters of the type's arguments. -/
def CompiledBy (schema : Schema) (registry : Registry) (bound : Binding) (here : Position)
    (handler : Handler) (target : TypeExpr) (c : Converter) : Prop :=
  match handler with
  | .scalar p => c = .scalar p
  | .optional => ∃ inner, c = .optional inner ∧
      Compiles schema registry bound here (target.arg 0) inner
  | .sequence => ∃ item, c = .items .list item ∧
      Compiles schema registry bound here (target.arg 0) item
  | .set => ∃ item, c = .items .set item ∧
      Compiles schema registry bound here (target.arg 0) item
  | .variadicTuple => ∃ item, c = .items .tuple item ∧
      Compiles schema registry bound here (target.arg 0) item
  | .fixedTuple => ∃ parts, c = .tuple parts ∧ parts.length = target.args.length
  | .mapping => ∃ key item, c = .mapping key item ∧
      Compiles schema registry bound here (target.arg 0) key ∧
      Compiles schema registry bound here (target.arg 1) item
  | .defaultMapping => ∃ key item,
      c = .defaultMapping key item (Converter.zeroOf (target.arg 1)) ∧
      Compiles schema registry bound here (target.arg 0) key ∧
      Compiles schema registry bound here (target.arg 1) item
  | .literal => c = .literal target.literals
  | .enumeration => ∃ e, c = .enumeration e ∧ findEnum schema target = .ok e
  | .record => ∃ name routine, c = .record routine ∧ target.shape.recordName? = some name ∧
      bound routine name (here.nestedConfig schema name)
  | .union => ∃ arms, c = .union (here.plan schema target) arms ∧
      arms.length = target.args.length
  | .custom decode encode => c = .custom decode encode

theorem compiledBy (h : Compiles schema registry bound here ty c) {handler : Handler}
    {target : TypeExpr} (handled : Handled schema registry ty handler target) :
    CompiledBy schema registry bound here handler target c := by
  cases h with
  | scalar other | custom other | literal other =>
    obtain ⟨rfl, rfl⟩ := handled.unique other
    rfl
  | optional other inner =>
    obtain ⟨rfl, rfl⟩ := handled.unique other
    exact ⟨_, rfl, inner⟩
  | items form other item =>
    obtain ⟨rfl, rfl⟩ := handled.unique other
    cases form <;> exact ⟨_, rfl, item⟩
  | tuple other count | union other count =>
    obtain ⟨rfl, rfl⟩ := handled.unique other
    exact ⟨_, rfl, count⟩
  | mapping other key item | defaultMapping other key item =>
    obtain ⟨rfl, rfl⟩ := handled.unique other
    exact ⟨_, _, rfl, key, item⟩
  | enumeration other found =>
    obtain ⟨rfl, rfl⟩ := handled.unique other
    exact ⟨_, rfl, found⟩
  | record other named known =>
    obtain ⟨rfl, rfl⟩ := handled.unique other
    exact ⟨_, _, rfl, named, known⟩

theorem decodeAll_eq (calls : Calls Json Instance) (cs : List Converter) :
    Converter.decodeAll calls cs = cs.map (Converter.decode calls) := by
  induction cs with
  | nil => rfl
  | cons c rest ih => rw [Converter.decodeAll, ih, List.map_cons]

theorem encodeAll_eq (calls : Calls Instance Json) (cs : List Converter) :
    Converter.encodeAll calls cs = cs.map (Converter.encode calls) := by
  induction cs with
  | nil => rfl
  | cons c rest ih => rw [Converter.encodeAll, ih, List.map_cons]

theorem map_eq_map_of_getElem? {α β γ : Type} {f : α → γ} {g : β → γ} {as : List α} {bs : List β}
    (count : as.length = bs.length)
    (same : ∀ (i : Nat) (a : α) (b : β), bs[i]? = some b → as[i]? = some a → f a = g b) :
    as.map f = bs.map g := by
  apply List.ext_getElem (by simpa using count)
  intro i atA atB
  rw [List.getElem_map, List.getElem_map]
  rw [List.length_map] at atA atB
  exact same i _ _ (List.getElem?_eq_getElem atB) (List.getElem?_eq_getElem atA)

theorem armParts_eq {I O : Type} {nested : Nested I O} {convert : Converter → I → Run O}
    {interpret : TypeExpr → I → Run O} {target : TypeExpr} {arms : List Converter}
    (count : arms.length = target.args.length)
    (records : ∀ (i : Nat) (inner : TypeExpr) (c : Converter), target.args[i]? = some inner →
      arms[i]? = some c → ∀ name config, (here.arm schema inner).record = some (name, config) →
      convert c = nested name config)
    (others : ∀ (i : Nat) (inner : TypeExpr) (c : Converter), target.args[i]? = some inner →
      arms[i]? = some c → (here.arm schema inner).record = none → convert c = interpret inner) :
    arms.map convert =
      armParts nested (here.plan schema target).arms (target.args.map interpret) := by
  apply List.ext_getElem
  · simp [armParts, Position.plan, count]
  intro i atArm atPart
  have hArm : i < arms.length := by simpa using atArm
  have hArg : i < target.args.length := count ▸ hArm
  simp only [armParts, armPart, Position.plan, List.getElem_map, List.getElem_zipWith]
  split
  case h_1 name config planned =>
    exact records i _ _ (List.getElem?_eq_getElem hArg) (List.getElem?_eq_getElem hArm) _ _ planned
  case h_2 planned =>
    exact others i _ _ (List.getElem?_eq_getElem hArg) (List.getElem?_eq_getElem hArm) planned

theorem decode_items (calls : Calls Json Instance) (form : ItemsForm) (c : Converter) :
    Converter.decode calls (.items form c) = decodeList form (Converter.decode calls c) := by
  funext v
  cases items : Converter.listItems? v <;> simp only [Converter.decode, decodeList, items]

theorem encode_items (calls : Calls Instance Json) (form : ItemsForm) (c : Converter) :
    Converter.encode calls (.items form c) = encodeList form (Converter.encode calls c) := by
  funext v
  cases items : v.items? <;> simp only [Converter.encode, encodeList, items]

/-- Decoding with a converter is the direct interpretation of its type. -/
theorem decode_eq (keeps : registry.KeepsAny) {calls : Calls Json Instance}
    {nested : Nested Json Instance}
    (called : ∀ routine name config, bound routine name config →
      calls routine = nested name config)
    (h : Compiles schema registry bound here ty c) :
    Converter.decode calls c = decodeType schema registry nested here (schema.resolve ty) := by
  induction h with
  | scalar handled =>
    rw [decodeType_of_handled handled]
    rfl
  | optional handled _ ih =>
    rw [handled.resolve_arg] at ih
    rw [decodeType_of_handled handled]
    funext v
    simp only [Converter.decode, decodeAs, part_decodeType keeps, ih]
  | items form handled _ ih =>
    rw [handled.resolve_arg] at ih
    rw [decodeType_of_handled handled]
    funext v
    rw [decode_items]
    cases form <;> simp only [itemsHandler, decodeAs, part_decodeType keeps, ih]
  | tuple handled count _ ih =>
    rw [decodeType_of_handled handled]
    funext v
    simp only [Converter.decode, decodeAs, decodeAll_eq]
    rw [map_eq_map_of_getElem? count fun i c inner atType atPart => ?_]
    rw [ih i inner c atType atPart, handled.resolve_of_mem (List.mem_of_getElem? atType)]
  | mapping handled _ _ ihKey ihItem =>
    rw [handled.resolve_arg] at ihKey ihItem
    rw [decodeType_of_handled handled]
    funext v
    simp only [Converter.decode, decodeAs, decodeMapping, part_decodeType keeps, ihKey, ihItem]
  | defaultMapping handled _ _ ihKey ihItem =>
    rw [handled.resolve_arg] at ihKey ihItem
    rw [decodeType_of_handled handled]
    funext v
    simp only [Converter.decode, decodeAs, decodeMapping, part_decodeType keeps, ihKey, ihItem]
  | literal handled =>
    rw [decodeType_of_handled handled]
    rfl
  | enumeration handled found =>
    rw [decodeType_of_handled handled]
    funext v
    simp only [Converter.decode, decodeAs, found]
    rfl
  | record handled named known =>
    rw [decodeType_of_handled handled]
    funext v
    simp only [Converter.decode, decodeAs, named, called _ _ _ known]
  | union handled count _ records _ ih =>
    rw [decodeType_of_handled handled]
    funext v
    simp only [Converter.decode, decodeAs, decodeAll_eq]
    rw [armParts_eq count ?_ ?_]
    · intro i inner c atType atArm name config planned
      obtain ⟨routine, rfl, known⟩ := records i inner c atType atArm name config planned
      exact funext fun v => congrFun (called _ _ _ known) v
    · intro i inner c atType atArm planned
      rw [ih i inner c atType atArm planned, handled.resolve_of_mem (List.mem_of_getElem? atType)]
  | custom handled =>
    rw [decodeType_of_handled handled]
    rfl

theorem encode_eq (keeps : registry.KeepsAny) {calls : Calls Instance Json}
    {nested : Nested Instance Json}
    (called : ∀ routine name config, bound routine name config →
      calls routine = nested name config)
    (h : Compiles schema registry bound here ty c) :
    Converter.encode calls c = encodeType schema registry nested here (schema.resolve ty) := by
  induction h with
  | scalar handled =>
    rw [encodeType_of_handled handled]
    rfl
  | optional handled _ ih =>
    rw [handled.resolve_arg] at ih
    rw [encodeType_of_handled handled]
    funext v
    simp only [Converter.encode, encodeAs, part_encodeType keeps, ih]
  | items form handled _ ih =>
    rw [handled.resolve_arg] at ih
    rw [encodeType_of_handled handled]
    funext v
    rw [encode_items]
    cases form <;> simp only [itemsHandler, encodeAs, part_encodeType keeps, ih]
  | tuple handled count _ ih =>
    rw [encodeType_of_handled handled]
    funext v
    simp only [Converter.encode, encodeAs, encodeAll_eq]
    rw [map_eq_map_of_getElem? count fun i c inner atType atPart => ?_]
    rw [ih i inner c atType atPart, handled.resolve_of_mem (List.mem_of_getElem? atType)]
  | mapping handled _ _ ihKey ihItem | defaultMapping handled _ _ ihKey ihItem =>
    rw [handled.resolve_arg] at ihKey ihItem
    rw [encodeType_of_handled handled]
    funext v
    simp only [Converter.encode, encodeAs, part_encodeType keeps, ihKey, ihItem]
  | literal handled =>
    rw [encodeType_of_handled handled]
    rfl
  | enumeration handled found =>
    rw [encodeType_of_handled handled]
    funext v
    simp only [Converter.encode, encodeAs, found]
    rfl
  | record handled named known =>
    rw [encodeType_of_handled handled]
    funext v
    simp only [Converter.encode, encodeAs, named, called _ _ _ known]
  | union handled count _ records _ ih =>
    rw [encodeType_of_handled handled]
    funext v
    simp only [Converter.encode, encodeAs, encodeAll_eq]
    rw [armParts_eq count ?_ ?_]
    · intro i inner c atType atArm name config planned
      obtain ⟨routine, rfl, known⟩ := records i inner c atType atArm name config planned
      exact funext fun v => congrFun (called _ _ _ known) v
    · intro i inner c atType atArm planned
      rw [ih i inner c atType atArm planned, handled.resolve_of_mem (List.mem_of_getElem? atType)]
  | custom handled =>
    rw [encodeType_of_handled handled]
    rfl

end Compiles
end RecordCodec.Compile
