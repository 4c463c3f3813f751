import RecordCodec.Proofs.Inhabitants
import RecordCodec.Proofs.Places
import RecordCodec.Proofs.Results

set_option autoImplicit false

/-!
# Reversible encodings

What it takes for a decoder to get back what an encoder was given: types of which every instance
can be read off its encoded form, and records whose fields are found where they were written.
-/
namespace RecordCodec

open Routine

/-- A value with distinct keys in every object, as any has that was read from a text. -/
inductive Json.Proper : Json → Prop where
  | null : Proper .null
  | bool (b : Bool) : Proper (.bool b)
  | number (n : Number) : Proper (.number n)
  | string (s : String) : Proper (.string s)
  | array {items : List Json} : (∀ v ∈ items, Proper v) → Proper (.array items)
  | object {members : List (String × Json)} : (Assoc.keys members).Nodup →
    (∀ e ∈ members, Proper e.2) → Proper (.object members)

/-- A value that a literal type can list. -/
def Json.IsLiteral : Json → Prop
  | .null | .bool _ | .string _ => True
  | .number (.whole n) => n.val < 0x8000000000000000
  | .number (.float _) => True
  | _ => False

namespace Instance

/-- Floats are finite, and the keys of mappings are distinct, and so are those of the objects at
untyped positions. -/
inductive Regular : Instance → Prop where
  | null : Regular .null
  | bool (b : Bool) : Regular (.bool b)
  | int (n : Int64) : Regular (.int n)
  | float (x : Binary64.Finite) : Regular (.float (.finite x))
  | str (s : String) : Regular (.str s)
  | bytes (octets : List UInt8) : Regular (.bytes octets)
  | date (d : Calendar.Date) : Regular (.date d)
  | time (t : Calendar.Time) : Regular (.time t)
  | dateTime (t : Calendar.DateTime) : Regular (.dateTime t)
  | duration (d : Calendar.Span) : Regular (.duration d)
  | dynamic {v : Json} : v.Proper → Regular (.dynamic v)
  | enumeration {e : EnumValue} : e.value.Proper → Regular (.enumeration e)
  | seq {items : List Instance} : (∀ v ∈ items, Regular v) → Regular (.seq items)
  | set {items : List Instance} : (∀ v ∈ items, Regular v) → Regular (.set items)
  | tuple {items : List Instance} : (∀ v ∈ items, Regular v) → Regular (.tuple items)
  | map {entries : List (Instance × Instance)} : (entries.map fun e => e.1.keyString).Nodup →
    (∀ e ∈ entries, Regular e.1) → (∀ e ∈ entries, Regular e.2) → Regular (.map entries)
  | defaultMap {entries : List (Instance × Instance)} {default : Instance} :
    (entries.map fun e => e.1.keyString).Nodup → (∀ e ∈ entries, Regular e.1) →
    (∀ e ∈ entries, Regular e.2) → Regular default → Regular (.defaultMap entries default)
  | record {type : String} {fields : List (String × Instance)} : (Assoc.keys fields).Nodup →
    (∀ e ∈ fields, Regular e.2) → Regular (.record type fields)

/-- The same instance with the fields of its records in another order. -/
inductive Rearranged : Instance → Instance → Prop where
  | refl (v : Instance) : Rearranged v v
  | seq {a b : List Instance} : a.length = b.length → (∀ e ∈ a.zip b, Rearranged e.1 e.2) →
    Rearranged (.seq a) (.seq b)
  | set {a b : List Instance} : a.length = b.length → (∀ e ∈ a.zip b, Rearranged e.1 e.2) →
    Rearranged (.set a) (.set b)
  | tuple {a b : List Instance} : a.length = b.length → (∀ e ∈ a.zip b, Rearranged e.1 e.2) →
    Rearranged (.tuple a) (.tuple b)
  | map {a b : List (Instance × Instance)} : a.map Prod.fst = b.map Prod.fst →
    (∀ e ∈ a.zip b, Rearranged e.1.2 e.2.2) → Rearranged (.map a) (.map b)
  | defaultMap {a b : List (Instance × Instance)} (default : Instance) :
    a.map Prod.fst = b.map Prod.fst → (∀ e ∈ a.zip b, Rearranged e.1.2 e.2.2) →
    Rearranged (.defaultMap a default) (.defaultMap b default)
  | record {type : String} {a b c : List (String × Instance)} :
    a.map Prod.fst = b.map Prod.fst → (∀ e ∈ a.zip b, Rearranged e.1.2 e.2.2) → b.Perm c →
    Rearranged (.record type a) (.record type c)

end Instance

/-- No two variants have the same name or the same value. -/
structure EnumType.Distinct (e : EnumType) : Prop where
  names : (Assoc.keys e.variants).Nodup
  values : e.variants.Pairwise fun a b => a.2.same b.2 = false
  proper : ∀ v ∈ e.variants, v.2.Proper

/-- The encoder makes null of no instance of the type, in whatever order its fields stand. -/
def NeverNull (schema : Schema) (ty : TypeExpr) : Prop :=
  ∀ v w, Inhabits schema ty v → v.Regular → v.Rearranged w → ∀ fuel here j,
    (Direct.encodeType schema .builtin (Direct.encode schema .builtin fuel) here
      (schema.resolve ty) w).Returns j → j ≠ .null

/-- The types of which an instance can be read off its encoded form. -/
inductive Reversible (schema : Schema) : TypeExpr → Prop where
  | scalar {ty target : TypeExpr} {p : Primitive} :
    Handled schema .builtin ty (.scalar p) target →
    p ∈ [.null, .bool, .int, .float, .str, .bytes, .any] → Reversible schema ty
  | optional {ty target : TypeExpr} : Handled schema .builtin ty .optional target →
    Reversible schema (target.arg 0) → NeverNull schema (target.arg 0) → Reversible schema ty
  | items {ty target : TypeExpr} {handler : Handler} :
    Handled schema .builtin ty handler target →
    handler = .sequence ∨ handler = .set ∨ handler = .variadicTuple →
    Reversible schema (target.arg 0) → Reversible schema ty
  | fixedTuple {ty target : TypeExpr} : Handled schema .builtin ty .fixedTuple target →
    (∀ a ∈ target.args, Reversible schema a) → Reversible schema ty
  | mapping {ty target key : TypeExpr} {handler : Handler} :
    Handled schema .builtin ty handler target → handler = .mapping ∨ handler = .defaultMapping →
    Handled schema .builtin (target.arg 0) (.scalar .str) key → Reversible schema (target.arg 1) →
    Reversible schema ty
  | literal {ty target : TypeExpr} : Handled schema .builtin ty .literal target →
    (∀ v ∈ target.literals, v.IsLiteral) → Reversible schema ty
  | enumeration {ty target : TypeExpr} {e : EnumType} :
    Handled schema .builtin ty .enumeration target → Compile.findEnum schema target = .ok e →
    e.Distinct → Reversible schema ty
  | record {ty target : TypeExpr} {name : String} {r : RecordType} :
    Handled schema .builtin ty .record target → target.shape.recordName? = some name →
    schema.record? name = some r → Reversible schema ty

def ReversibleAs (schema : Schema) (target : TypeExpr) : Handler → Prop
  | .scalar p => p ∈ [.null, .bool, .int, .float, .str, .bytes, .any]
  | .optional => Reversible schema (target.arg 0) ∧ NeverNull schema (target.arg 0)
  | .sequence | .set | .variadicTuple => Reversible schema (target.arg 0)
  | .fixedTuple => ∀ a ∈ target.args, Reversible schema a
  | .mapping | .defaultMapping =>
    (∃ key, Handled schema .builtin (target.arg 0) (.scalar .str) key) ∧
      Reversible schema (target.arg 1)
  | .literal => ∀ v ∈ target.literals, v.IsLiteral
  | .enumeration => ∃ e, Compile.findEnum schema target = .ok e ∧ e.Distinct
  | .record => ∃ name r, target.shape.recordName? = some name ∧ schema.record? name = some r
  | .union | .custom _ _ => False

theorem Reversible.elim {schema : Schema} {ty target : TypeExpr} {handler : Handler}
    (h : Reversible schema ty) (handled : Handled schema .builtin ty handler target) :
    ReversibleAs schema target handler := by
  cases h with
  | scalar found known =>
    obtain ⟨rfl, rfl⟩ := handled.unique found
    exact known
  | optional found inner notNull =>
    obtain ⟨rfl, rfl⟩ := handled.unique found
    exact ⟨inner, notNull⟩
  | items found isItems inner =>
    obtain ⟨rfl, rfl⟩ := handled.unique found
    rcases isItems with rfl | rfl | rfl <;> exact inner
  | fixedTuple found inner =>
    obtain ⟨rfl, rfl⟩ := handled.unique found
    exact inner
  | mapping found isMapping keys inner =>
    obtain ⟨rfl, rfl⟩ := handled.unique found
    rcases isMapping with rfl | rfl <;> exact ⟨⟨_, keys⟩, inner⟩
  | literal found literals =>
    obtain ⟨rfl, rfl⟩ := handled.unique found
    exact literals
  | enumeration found isEnum distinct =>
    obtain ⟨rfl, rfl⟩ := handled.unique found
    exact ⟨_, isEnum, distinct⟩
  | record found isName declared =>
    obtain ⟨rfl, rfl⟩ := handled.unique found
    exact ⟨_, _, isName, declared⟩

theorem Reversible.handled {schema : Schema} {ty : TypeExpr} (h : Reversible schema ty) :
    ∃ handler target, Handled schema .builtin ty handler target := by
  cases h with
  | scalar handled | optional handled | items handled | fixedTuple handled | mapping handled
  | literal handled | enumeration handled | record handled => exact ⟨_, _, handled⟩

theorem NeverNull.of_record {schema : Schema} {ty target : TypeExpr}
    (handled : Handled schema .builtin ty .record target) : NeverNull schema ty := by
  intro _ w _ _ _ fuel here j returns
  rw [Direct.encodeType_of_handled handled] at returns
  simp only [Direct.encodeAs] at returns
  split at returns
  · cases fuel with
    | zero => cases returns
    | succ fuel =>
      obtain ⟨record, -, returns⟩ := Run.Returns.bind_iff.1 returns
      exact Direct.encodeRecord_ne_null returns
  · simp at returns

inductive Mentions (schema : Schema) : TypeExpr → String → Prop where
  | here {ty target : TypeExpr} {name : String} : Handled schema .builtin ty .record target →
    target.shape.recordName? = some name → Mentions schema ty name
  | inside {ty target arg : TypeExpr} {handler : Handler} {name : String} :
    Handled schema .builtin ty handler target → arg ∈ target.args → Mentions schema arg name →
    Mentions schema ty name

theorem Mentions.of_arg {schema : Schema} {ty target : TypeExpr} {handler : Handler}
    (handled : Handled schema .builtin ty handler target) {index : Nat} {name : String}
    (h : Mentions schema (target.arg index) name) : Mentions schema ty name := by
  have anyHandled : Handled schema .builtin .any (.scalar .any) .any :=
    Direct.handled_any Registry.keepsAny_builtin
  rcases target.arg_mem_or_any index with mem | isAny
  · exact .inside handled mem h
  · rw [isAny] at h
    cases h with
    | here found isName => cases (anyHandled.unique found).1
    | inside found mem _ =>
      obtain ⟨-, rfl⟩ := anyHandled.unique found
      cases mem

/-- The records that are converted within the conversion of a record, each with the configuration
that it is converted under. -/
inductive Reaches (schema : Schema) (start : String × Config) : String → Config → Prop where
  | refl : Reaches schema start start.1 start.2
  | step {name inner : String} {config : Config} {r declared : RecordType} {f : Field} :
    Reaches schema start name config → schema.record? name = some r → f ∈ r.fields →
    Mentions schema f.type inner → schema.record? inner = some declared →
    Reaches schema start inner (declared.ownConfig.inherit config)

/-- Configurations that no record leads away from are the only ones that are reached. -/
theorem Reaches.mem_of_closed {schema : Schema} {start : String × Config} {configs : List Config}
    (first : start.2 ∈ configs) (closed : ∀ config ∈ configs, ∀ name r,
      schema.record? name = some r → r.ownConfig.inherit config ∈ configs) {name : String}
    {config : Config} (h : Reaches schema start name config) : config ∈ configs := by
  induction h with
  | refl => exact first
  | step _ _ _ _ declared ih => exact closed _ ih _ _ declared

theorem Reaches.forall_of_closed {schema : Schema} {record : String} {config : Config}
    {P : RecordType → Config → Prop} {records : List RecordType} {configs : List Config}
    (declared : ∀ name r, schema.record? name = some r → r ∈ records) (first : config ∈ configs)
    (closed : ∀ config ∈ configs, ∀ r ∈ records, r.ownConfig.inherit config ∈ configs)
    (all : ∀ r ∈ records, ∀ config ∈ configs, P r config) (name : String) (config' : Config)
    (r : RecordType) (h : Reaches schema (record, config) name config')
    (found : schema.record? name = some r) : P r config' := by
  refine all r (declared name r found) config' (h.mem_of_closed first ?_)
  exact fun config' mem name r isRecord => closed config' mem r (declared name r isRecord)

/-- The records that the type mentions are reached from where it stands. -/
def Covers (schema : Schema) (start : String × Config) (here : Direct.Position) (ty : TypeExpr) :
    Prop :=
  ∀ name declared, Mentions schema ty name → schema.record? name = some declared →
    Reaches schema start name (declared.ownConfig.inherit here.config)

section
variable {schema : Schema} {start : String × Config} {here : Direct.Position}
  {ty target : TypeExpr} {handler : Handler}

theorem Covers.arg (covers : Covers schema start here ty)
    (handled : Handled schema .builtin ty handler target) (index : Nat) :
    Covers schema start here (target.arg index) :=
  fun name declared mentions found => covers name declared (.of_arg handled mentions) found

theorem Covers.of_mem (covers : Covers schema start here ty)
    (handled : Handled schema .builtin ty handler target) {arg : TypeExpr}
    (mem : arg ∈ target.args) : Covers schema start here arg :=
  fun name declared mentions found => covers name declared (.inside handled mem mentions) found

end

/-- The fields of a record are found where they are written, and nothing is left out. -/
structure Invertible (schema : Schema) (r : RecordType) (config : Config) : Prop where
  types : ∀ f ∈ r.fields, Reversible schema f.type
  noCatchAll : ∀ f ∈ r.fields, f.catchAll = false
  noSkip : ∀ f ∈ r.fields, f.skip.isAny = false
  keepsNone : config.omitsNone = false
  keepsDefault : config.omitsDefault = false
  cased : config.decodesWith ≠ .caseInsensitive
  /-- The encoder writes a field at the first place where the decoder looks for it. -/
  written : ∀ f ∈ r.fields,
    (Compile.decodePlaces config f).head? = some (Compile.Target.ofField config f).place
  apart : ∀ f ∈ r.fields, ∀ g ∈ r.fields, f.name ≠ g.name →
    ∀ p ∈ Compile.decodePlaces config f, ∀ q ∈ Compile.decodePlaces config g, ¬p <+: q
  offTag : Compile.Encoder.inArrayForm r config = false →
    ∀ f ∈ r.fields, ∀ p ∈ Compile.decodePlaces config f,
      ∀ e ∈ Direct.tagMembers r config, ¬p <+: [e.1]

/-- The fields of a record are found where they are written. -/
structure Locates (r : RecordType) (config : Config) : Prop where
  noCatchAll : ∀ f ∈ r.fields, f.catchAll = false
  cased : config.decodesWith ≠ .caseInsensitive
  /-- The encoder writes a field at the first place where the decoder looks for it. -/
  written : ∀ f ∈ r.fields,
    (Compile.decodePlaces config f).head? = some (Compile.Target.ofField config f).place
  apart : ∀ f ∈ r.fields, ∀ g ∈ r.fields, f.name ≠ g.name →
    ∀ p ∈ Compile.decodePlaces config f, ∀ q ∈ Compile.decodePlaces config g, ¬p <+: q

theorem Invertible.locates {schema : Schema} {r : RecordType} {config : Config}
    (inv : Invertible schema r config) : Locates r config where
  noCatchAll := inv.noCatchAll
  cased := inv.cased
  written := inv.written
  apart := inv.apart

end RecordCodec
