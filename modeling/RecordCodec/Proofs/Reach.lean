import RecordCodec.Proofs.Budget
import RecordCodec.Proofs.Interpretation
import RecordCodec.Proofs.Locality

set_option autoImplicit false

/-!
# What decoding reaches

Decoding at a type goes on to the records that the type leads to, and decoding a record to those
that the types of its fields lead to. The routines of other records play no part in it. There are
finitely many that can be reached, as they are among the keys of a session.
-/
namespace RecordCodec

open Routine Run Compile Converter

theorem Json.hereditary_true : Json.Hereditary fun _ => True where
  items _ _ _ _ := trivial
  entries _ _ _ _ := ⟨trivial, trivial⟩

namespace Direct

/-- Decoding at the type may be left to the decoder of this record, with this configuration. -/
inductive Leads (schema : Schema) (registry : Registry) (here : Position) :
    TypeExpr → String × Config → Prop where
  | record {ty target : TypeExpr} {name : String} : Handled schema registry ty .record target →
    target.shape.recordName? = some name →
    Leads schema registry here ty (name, here.nestedConfig schema name)
  | arm {ty target inner : TypeExpr} {key : String × Config} :
    Handled schema registry ty .union target → inner ∈ target.args →
    (here.arm schema inner).record = some key → Leads schema registry here ty key
  | inside {ty target inner : TypeExpr} {handler : Handler} {key : String × Config} :
    Handled schema registry ty handler target → inner ∈ target.args →
    (handler = .union → (here.arm schema inner).record = none) →
    Leads schema registry here inner key → Leads schema registry here ty key

/-- The records and configurations that decoding a record may go on to, itself among them. -/
inductive Reach (schema : Schema) (registry : Registry) (start : String × Config) :
    String × Config → Prop where
  | start : Reach schema registry start start
  | field {key key' : String × Config} {record : RecordType} {f : Field} :
    Reach schema registry start key → schema.record? key.1 = some record → f ∈ record.fields →
    Leads schema registry ⟨key.2, f.discriminator⟩ f.type key' → Reach schema registry start key'

variable {schema : Schema} {registry : Registry} {here : Position} {start key : String × Config}

theorem Leads.mem_sessionKeys {active : List (String × Config)}
    (placed : Placed schema start active here) {ty : TypeExpr}
    (h : Leads schema registry here ty key) {record : RecordType}
    (declared : schema.record? key.1 = some record) : key ∈ sessionKeys schema start := by
  induction h with
  | record handled named => exact placed.meets (.inl ⟨named, rfl⟩) declared
  | arm handled mem isArm => exact placed.meets (.inr ⟨_, mem, isArm⟩) declared
  | inside handled mem other _ ih => exact ih declared

theorem Reach.mem_sessionKeys (h : Reach schema registry start key) {record : RecordType}
    (declared : schema.record? key.1 = some record) : key ∈ sessionKeys schema start := by
  induction h generalizing record with
  | start => exact start_mem_sessionKeys
  | field _ owner mem leads ih =>
    exact leads.mem_sessionKeys (Placed.field .nil (ih owner) owner mem) declared

section
variable {nested nested' : Nested Json Instance}

theorem decodeType_of_unhandled {ty : TypeExpr} {e : Failure}
    (h : registry.resolve schema (schema.resolve ty) = .error e) (nested : Nested Json Instance) :
    decodeType schema registry nested here (schema.resolve ty) = fun _ => throw e := by
  generalize schema.resolve ty = resolved at h ⊢
  obtain ⟨shape, args, literals⟩ := resolved
  rw [decodeType, h]

theorem part_below {P : Json → Prop} {convert convert' : TypeExpr → Decode} {args : List TypeExpr}
    (h : ∀ ty ∈ args, ∀ w, P w → Below (convert ty w) (convert' ty w)) (index : Nat) (w : Json)
    (holds : P w) :
    Below (part decodeAny (args.map convert) index w)
      (part decodeAny (args.map convert') index w) := by
  unfold part
  rw [List.getElem?_map, List.getElem?_map]
  cases isArg : args[index]? with
  | none => exact .refl _
  | some ty => exact h ty (List.mem_of_getElem? isArg) w holds

theorem decodeAs_below {P : Json → Prop} (hereditary : Json.Hereditary P) {ty target : TypeExpr}
    {handler : Handler} (handled : Handled schema registry ty handler target)
    (same : ∀ key, Leads schema registry here ty key → ∀ w, P w →
      Below (nested key.1 key.2 w) (nested' key.1 key.2 w))
    {convert convert' : TypeExpr → Decode}
    (args : ∀ inner ∈ target.args,
      (handler = .union → (here.arm schema inner).record = none) →
      ∀ w, P w → Below (convert inner w) (convert' inner w)) {v : Json} (holds : P v) :
    Below (decodeAs schema nested here target (target.args.map convert) handler v)
      (decodeAs schema nested' here target (target.args.map convert') handler v) := by
  have parts (other : handler ≠ .union) := part_below (P := P) fun inner mem w holds =>
    args inner mem (fun isUnion => absurd isUnion other) w holds
  cases handler with
  | scalar | literal | enumeration | custom => exact .refl _
  | optional => exact .ite (.refl _) (parts nofun 0 v holds)
  | sequence | set | variadicTuple =>
    exact Compiles.decodeList_below hereditary _ (parts nofun 0) holds
  | fixedTuple =>
    refine decodeTuple_below fun inner mem vs isItems w memW => ?_
    exact args inner mem nofun w (hereditary.items holds isItems w memW)
  | mapping | defaultMapping =>
    exact Compiles.decodeMapping_below hereditary _ (parts nofun 0) (parts nofun 1) holds
  | record =>
    simp only [decodeAs]
    split
    case h_1 name named => exact same _ (.record handled named) v holds
    case h_2 => exact .refl _
  | union =>
    have arms : (here.plan schema target).arms = target.args.map (here.arm schema) := rfl
    simp only [decodeAs, armParts_map]
    refine decodeUnion_below arms fun inner mem => ?_
    unfold armPart
    cases isArm : (here.arm schema inner).record with
    | some key => exact same key (.arm handled mem isArm) v holds
    | none => exact args inner mem (fun _ => isArm) v holds

/-- Decoding at a type depends only on what the records give that the type leads to, on parts of the
value. -/
theorem decodeType_below {P : Json → Prop} (hereditary : Json.Hereditary P) (ty : TypeExpr)
    (same : ∀ key, Leads schema registry here ty key → ∀ w, P w →
      Below (nested key.1 key.2 w) (nested' key.1 key.2 w)) {v : Json} (holds : P v) :
    Below (decodeType schema registry nested here (schema.resolve ty) v)
      (decodeType schema registry nested' here (schema.resolve ty) v) := by
  induction isDepth : ty.depth using Nat.strong_induction_on generalizing ty v with
  | _ depth ih =>
    cases resolved : registry.resolve schema (schema.resolve ty) with
    | error e =>
      rw [decodeType_of_unhandled resolved, decodeType_of_unhandled resolved]
      exact .refl _
    | ok found =>
      obtain ⟨handler, target⟩ := found
      have handled : Handled schema registry ty handler target := resolved
      rw [decodeType_of_handled handled, decodeType_of_handled handled]
      refine decodeAs_below hereditary handled same (fun inner mem other w holds => ?_) holds
      rw [← handled.resolve_of_mem mem]
      have less : inner.depth < depth := isDepth ▸ handled.depth_lt mem
      exact ih _ less inner (fun key leads => same key (.inside handled mem other leads)) holds rfl

theorem decodeType_below_of_mapping {ty : TypeExpr}
    (isMapping : ty.shape.kind = .mapping ∨ ty.shape.kind = .defaultMapping)
    {members : List (String × Json)}
    (same : ∀ key, Leads schema .builtin here ty key → ∀ w : Json,
      w.weight < (Json.object members).weight →
      Below (nested key.1 key.2 w) (nested' key.1 key.2 w)) :
    Below (decodeType schema .builtin nested here (schema.resolve ty) (.object members))
      (decodeType schema .builtin nested' here (schema.resolve ty) (.object members)) := by
  obtain ⟨handler, handled, either⟩ := handled_mapping schema isMapping
  have args : ∀ inner ∈ (schema.resolve ty).args, ∀ w : Json,
      w.weight < (Json.object members).weight →
      Below (decodeType schema .builtin nested here inner w)
        (decodeType schema .builtin nested' here inner w) := by
    intro inner mem w small
    rw [← handled.resolve_of_mem mem]
    refine decodeType_below (Json.hereditary_weight _) inner (fun key leads => ?_) small
    exact same key (.inside handled mem (by rcases either with rfl | rfl <;> nofun) leads)
  have small : ∀ e ∈ members, (Json.string e.1).weight < (Json.object members).weight ∧
      e.2.weight < (Json.object members).weight := fun e mem =>
    have less := Json.weight_lt_of_mem_members mem
    ⟨Nat.lt_of_le_of_lt (Nat.zero_le _) less, less⟩
  have entries := decodeEntries_below (fun e mem => part_below args 0 _ (small e mem).1)
    fun e mem => part_below args 1 _ (small e mem).2
  rw [decodeType_of_handled handled, decodeType_of_handled handled]
  rcases either with rfl | rfl <;>
    simp only [decodeAs, decodeMapping, mapEntries, ofExcept_ok, pure_bind] <;>
    exact .bind entries fun _ => .refl _

end

theorem decode_of_undeclared {name : String} {e : Failure}
    (h : schema.findRecord name = .error e) (fuel : Nat) (config : Config) (v : Json) :
    decode schema registry (fuel + 1) name config v = throw e := by
  rw [decode, h]
  rfl

/-- What decodes with some fuel does so with more. -/
theorem decode_below_succ (declarations : schema.Declared) (fuel : Nat) (name : String)
    (config : Config) (v : Json) :
    Below (decode schema registry fuel name config v)
      (decode schema registry (fuel + 1) name config v) := by
  induction fuel generalizing name config v with
  | zero => exact .of_none rfl
  | succ fuel ih =>
    cases found : schema.findRecord name with
    | error e =>
      rw [decode_of_undeclared found, decode_of_undeclared found]
      exact .refl _
    | ok record =>
      have declared := findRecord_eq_ok.1 found
      have checked := (declarations.checked declared).2.2
      have part (f : Field) (v : Json) :
          Below (decodeType schema registry (decode schema registry fuel)
              ⟨config, f.discriminator⟩ (schema.resolve f.type) v)
            (decodeType schema registry (decode schema registry (fuel + 1))
              ⟨config, f.discriminator⟩ (schema.resolve f.type) v) :=
        decodeType_below Json.hereditary_true f.type (fun key _ w _ => ih key.1 key.2 w) trivial
      rw [decode_succ declared, decode_succ declared]
      exact decodeRecord_below checked (fun f _ raw _ => part f raw)
        (fun f _ raw _ => part f raw) fun f _ _ _ _ => part f _

theorem decode_below (declarations : schema.Declared) {fuel fuel' : Nat} (le : fuel ≤ fuel')
    (name : String) (config : Config) (v : Json) :
    Below (decode schema registry fuel name config v)
      (decode schema registry fuel' name config v) := by
  induction le with
  | refl => exact .refl _
  | step _ ih => exact ih.trans (decode_below_succ declarations _ _ _ _)

end Direct
end RecordCodec
