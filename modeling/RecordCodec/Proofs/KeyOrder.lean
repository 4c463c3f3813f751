import RecordCodec.Proofs.Codecs
import RecordCodec.Proofs.Reach
import RecordCodec.Proofs.ShuffledInputs
import RecordCodec.Proofs.Soundness

set_option autoImplicit false

/-!
# The order of keys does not matter

A record finds its fields at the same places in a shuffled input, leaves the same keys over and
misses the same fields. So a decoder accepts an input if it accepts the shuffled one, and what comes
of the two differs in the order of the entries of mappings only. A set whose elements hold mappings
would tell two orders apart, and a search for keys that ignores their case takes the first one.
-/
namespace RecordCodec

open Routine Run Compile Converter

theorem forall₂_set {α β : Type} {R : α → β → Prop} {as : List α} {bs : List β}
    (h : List.Forall₂ R as bs) (index : Nat) {a : α} {b : β} (related : R a b) :
    List.Forall₂ R (as.set index a) (bs.set index b) := by
  induction h generalizing index with
  | nil => exact .nil
  | cons first others ih =>
    cases index with
    | zero => exact .cons related others
    | succ index => exact .cons first (ih index)

theorem Json.Shuffled.keys {v w : Json} (h : v.Shuffled w) :
    v.keys.Nodup ∧ v.keys.Perm w.keys := by
  cases v with
  | object a =>
    obtain ⟨b, c, rfl, distinct, members, permuted⟩ := h.exists_of_object
    refine ⟨distinct, ?_⟩
    change (Assoc.keys a).Perm (Assoc.keys c)
    rw [Assoc.keys_eq_of_forall₂ members]
    exact permuted.map Prod.fst
  | array a =>
    obtain ⟨b, rfl, -⟩ := h.exists_of_array
    exact ⟨.nil, .nil⟩
  | _ =>
    cases h
    exact ⟨.nil, .nil⟩

namespace Direct

section
variable {record : RecordType} {config : Config} {j j' : Json}
  (cased : config.decodesWith ≠ .caseInsensitive) (shuffled : j.Shuffled j')
include shuffled

theorem checkForm_compatible : Compatible (fun _ _ => True) (.ofExcept (Decoder.checkForm record j))
    (.ofExcept (Decoder.checkForm record j')) := by
  cases j with
  | array a =>
    obtain ⟨b, rfl, items⟩ := shuffled.exists_of_array
    simp only [Decoder.checkForm, items.length_eq]
    split
    · exact .throw _ _
    · split
      · exact .throw _ _
      · exact .pure trivial
  | object a =>
    obtain ⟨b, c, rfl, -⟩ := shuffled.exists_of_object
    exact .pure trivial
  | _ =>
    cases shuffled
    exact .refl (fun _ => trivial) _

include cased

theorem located?_shuffled (index : Nat) (field : Field) :
    Option.Rel Json.Shuffled (located? record config j index field)
      (located? record config j' index field) := by
  rw [located?, located?, place?_same cased shuffled.proper shuffled.same]
  cases place? record config j index field with
  | none => exact .none
  | some place => exact shuffled.fetch place

theorem missingFields_shuffled (index : Nat) (fields : List Field) :
    missingFields record config j' index fields = missingFields record config j index fields := by
  induction fields generalizing index with
  | nil => rfl
  | cons f rest ih =>
    have found : Option.Rel Json.Shuffled (located? record config j index f)
        (located? record config j' index f) := located?_shuffled cased shuffled index f
    rcases rel_cases found with ⟨absent, absent'⟩ | ⟨x, y, isX, isY, -⟩
    · simp only [missingFields, ih, absent, absent']
    · simp only [missingFields, ih, isX, isY, Option.isNone_some]

theorem leftOver_perm : (leftOver record config j).Perm (leftOver record config j') := by
  rw [leftOver, leftOver, takenKeys_same cased shuffled.proper shuffled.same]
  exact shuffled.keys.2.filter _

theorem gathered_shuffled :
    (gathered record config j).Shuffled (gathered record config j') := by
  have perm : (leftOver record config j).Perm (leftOver record config j') :=
    leftOver_perm cased shuffled
  have distinct : (leftOver record config j).Nodup := shuffled.keys.1.filter _
  have held (keys : List String) (input : Json) (distinct : keys.Nodup) :
      Json.ofMembers (keys.map fun key => (key, (input.get? key).getD .null)) =
        .object (keys.map fun key => (key, (input.get? key).getD .null)) := by
    have names : Assoc.keys (keys.map fun key => (key, (input.get? key).getD .null)) = keys := by
      simp [Assoc.keys, Function.comp_def]
    rw [Json.ofMembers, Assoc.ofList_eq_self (names.symm ▸ distinct)]
  rw [gathered, gathered, held _ _ distinct, held _ _ (perm.nodup_iff.1 distinct)]
  refine .of_members ?_ ?_ (perm.map fun key => (key, (j'.get? key).getD .null))
  · simpa [Assoc.keys, Function.comp_def] using distinct
  · rw [List.forall₂_map_left_iff, List.forall₂_map_right_iff, List.forall₂_same]
    refine fun key _ => ⟨rfl, ?_⟩
    rcases rel_cases (shuffled.get? key) with ⟨absent, absent'⟩ | ⟨x, y, isX, isY, inner⟩
    · rw [absent, absent']
      exact .flat rfl
    · rw [isX, isY]
      exact inner

variable {mappings : Bool} {convert : Field → Decode}

theorem decodeField_compatible {decode : Decode} (ignores : IgnoresOrder mappings decode)
    (index : Nat) (f : Field) :
    Compatible (Option.Rel (Instance.Reordered mappings))
      (decodeField record config j decode index f)
      (decodeField record config j' decode index f) := by
  unfold decodeField
  have found : Option.Rel Json.Shuffled (located? record config j index f)
      (located? record config j' index f) := located?_shuffled cased shuffled index f
  rcases rel_cases found with ⟨absent, absent'⟩ | ⟨x, y, isX, isY, inner⟩
  · rw [absent, absent']
    refine .refl (fun o => ?_) _
    cases o with
    | none => exact .none
    | some v => exact .some (.refl v)
  · rw [isX, isY]
    exact .bind (ignores x y inner).mapError fun _ _ related => .pure (.some related)

theorem decodeFields_compatible {fields : List Field}
    (ignore : ∀ f ∈ fields, IgnoresOrder mappings (convert f)) (index : Nat) :
    Compatible (List.Forall₂ (Option.Rel (Instance.Reordered mappings)))
      (decodeFields record config j convert index fields)
      (decodeFields record config j' convert index fields) := by
  induction fields generalizing index with
  | nil => exact .pure .nil
  | cons f rest ih =>
    obtain ⟨ignores, others⟩ := List.forall_mem_cons.1 ignore
    have first : Compatible (Option.Rel (Instance.Reordered mappings))
        (decodeInTurn record config j (convert f) index f)
        (decodeInTurn record config j' (convert f) index f) := by
      unfold decodeInTurn
      split
      · exact .pure .none
      · exact decodeField_compatible cased shuffled ignores index f
    exact .bind first fun _ _ related => .bind (ih others _) fun _ _ later =>
      .pure (.cons related later)

theorem decodeLeftOver_compatible
    (ignore : ∀ f ∈ record.fields, IgnoresOrder mappings (convert f))
    {values values' : List (Option Instance)}
    (related : List.Forall₂ (Option.Rel (Instance.Reordered mappings)) values values') :
    Compatible (List.Forall₂ (Option.Rel (Instance.Reordered mappings)))
      (decodeLeftOver record config j convert values)
      (decodeLeftOver record config j' convert values') := by
  unfold decodeLeftOver
  split
  case h_1 f index found =>
    have part : Compatible (Instance.Reordered mappings) (convert f (gathered record config j))
        (convert f (gathered record config j')) :=
      ignore f (mem_of_catchAllAt found).1 _ _ (gathered_shuffled cased shuffled)
    exact .bind part.mapError fun _ _ inner => .pure (forall₂_set related index (.some inner))
  case h_2 =>
    have perm : (leftOver record config j).Perm (leftOver record config j') :=
      leftOver_perm cased shuffled
    cases left : leftOver record config j with
    | nil =>
      rw [left] at perm
      rw [List.nil_perm.1 perm]
      cases config.policy <;> exact .pure related
    | cons key rest =>
      cases left' : leftOver record config j' with
      | nil =>
        rw [left, left'] at perm
        exact absurd perm.length_eq (Nat.succ_ne_zero _)
      | cons key' rest' =>
        cases config.policy with
        | raise => exact .throw _ _
        | _ => exact .pure related

omit cased shuffled in
theorem present_reordered {fields : List Field} {values values' : List (Option Instance)}
    (related : List.Forall₂ (Option.Rel (Instance.Reordered mappings)) values values') :
    List.Forall₂ (fun e e' => e.1 = e'.1 ∧ Instance.Reordered mappings e.2 e'.2)
      (present fields values) (present fields values') := by
  induction related generalizing fields with
  | nil => cases fields <;> exact .nil
  | cons first _ ih =>
    cases fields with
    | nil => exact .nil
    | cons f fields =>
      cases first with
      | none => exact ih
      | some inner => exact .cons ⟨rfl, inner⟩ ih

theorem decodeRecord_compatible (ignore : ∀ f ∈ record.fields, IgnoresOrder mappings (convert f)) :
    Compatible (Instance.Reordered mappings) (decodeRecord record config j convert)
      (decodeRecord record config j' convert) := by
  refine .bind (checkForm_compatible shuffled) fun _ _ _ => ?_
  refine .bind (decodeFields_compatible cased shuffled ignore 0) fun _ _ found => ?_
  refine .bind (decodeLeftOver_compatible cased shuffled ignore found) fun _ _ related => ?_
  rw [missingFields_shuffled cased shuffled]
  split
  · exact .pure (.record_of_forall₂ (present_reordered related))
  · exact .throw _ _

end

/-- There is such a type inside the type: among its arguments at any depth, or in the fields of a
record that it leads to. -/
inductive Somewhere (schema : Schema) (P : TypeExpr → Prop) : TypeExpr → Prop where
  | here {ty : TypeExpr} : P ty → Somewhere schema P ty
  | inside {ty target inner : TypeExpr} {handler : Handler} :
    Handled schema .builtin ty handler target → inner ∈ target.args → Somewhere schema P inner →
    Somewhere schema P ty
  | field {ty : TypeExpr} {here : Position} {key : String × Config} {record : RecordType}
    {f : Field} : Leads schema .builtin here ty key → schema.record? key.1 = some record →
    f ∈ record.fields → Somewhere schema P f.type → Somewhere schema P ty

def IsMapping (schema : Schema) (ty : TypeExpr) : Prop :=
  ∃ handler target, Handled schema .builtin ty handler target ∧
    (handler = .mapping ∨ handler = .defaultMapping)

/-- A set whose elements are mappings or hold some. -/
def IsMappingSet (schema : Schema) (ty : TypeExpr) : Prop :=
  ∃ target, Handled schema .builtin ty .set target ∧
    Somewhere schema (IsMapping schema) (target.arg 0)

/-- No field of the record has such a type inside. -/
def Nowhere (schema : Schema) (P : TypeExpr → Prop) (name : String) : Prop :=
  ∀ record, schema.record? name = some record → ∀ f ∈ record.fields, ¬ Somewhere schema P f.type

variable {schema : Schema} {here : Position} {nested : Nested Json Instance}

theorem Nowhere.of_leads {P : TypeExpr → Prop} {ty : TypeExpr} {key : String × Config}
    (h : ¬ Somewhere schema P ty) (leads : Leads schema .builtin here ty key) :
    Nowhere schema P key.1 :=
  fun _ declared _ mem isInside => h (.field leads declared mem isInside)

section
variable {mappings : Bool}

theorem part_ignoresOrder {convert : TypeExpr → Decode} {target : TypeExpr} (index : Nat)
    (ignores : target.arg index ∈ target.args →
      IgnoresOrder mappings (convert (target.arg index))) :
    IgnoresOrder mappings (part decodeAny (target.args.map convert) index) := by
  unfold part
  rw [List.getElem?_map]
  cases isArg : target.args[index]? with
  | none => exact decodeAny_ignoresOrder
  | some ty =>
    have same : target.arg index = ty := by rw [TypeExpr.arg, isArg, Option.getD_some]
    exact same ▸ ignores (same ▸ List.mem_of_getElem? isArg)

theorem decodeAs_ignoresOrder {ty target : TypeExpr} {handler : Handler}
    (handled : Handled schema .builtin ty handler target)
    (plain : ¬ Somewhere schema (IsMappingSet schema) ty)
    (free : mappings = false → ¬ Somewhere schema (IsMapping schema) ty)
    (records : ∀ key, Leads schema .builtin here ty key →
      (mappings = false → Nowhere schema (IsMapping schema) key.1) →
      IgnoresOrder mappings (nested key.1 key.2))
    {convert : TypeExpr → Decode}
    (args : ∀ m, ∀ inner ∈ target.args,
      (handler = .union → (here.arm schema inner).record = none) →
      (m = false → ¬ Somewhere schema (IsMapping schema) inner) → IgnoresOrder m (convert inner)) :
    IgnoresOrder mappings
      (decodeAs schema nested here target (target.args.map convert) handler) := by
  have inner (ty' : TypeExpr) (mem : ty' ∈ target.args) (isFree : mappings = false) :
      ¬ Somewhere schema (IsMapping schema) ty' :=
    fun isInside => free isFree (.inside handled mem isInside)
  have part (other : handler ≠ .union) (index : Nat) :=
    part_ignoresOrder index fun mem => args mappings (target.arg index) mem
      (fun isUnion => absurd isUnion other) (inner _ mem)
  cases handler with
  | scalar p => exact Scalar.decode_ignoresOrder p
  | optional => exact optional_ignoresOrder (part nofun 0)
  | sequence => exact decodeList_ignoresOrder (part nofun 0) fun _ _ => .seq_of_forall₂
  | variadicTuple => exact decodeList_ignoresOrder (part nofun 0) fun _ _ => .tuple_of_forall₂
  | set =>
    -- elements that hold no mappings stay the same, so the same ones are left out
    have element : ¬ Somewhere schema (IsMapping schema) (target.arg 0) :=
      fun isInside => plain (.here ⟨target, handled, isInside⟩)
    have ignores := part_ignoresOrder 0 fun mem =>
      args false (target.arg 0) mem nofun fun _ => element
    refine decodeList_ignoresOrder ignores fun is js related => ?_
    have unique := (ItemsForm.unique_reordered related).imp fun _ _ same => same.allow mappings
    exact .set_of_forall₂ unique
  | fixedTuple =>
    refine decodeTuple_ignoresOrder fun decode mem => ?_
    obtain ⟨ty', isArg, rfl⟩ := List.mem_map.1 mem
    exact args mappings ty' isArg nofun (inner ty' isArg)
  | mapping =>
    cases mappings with
    | false => exact absurd (.here ⟨_, _, handled, .inl rfl⟩) (free rfl)
    | true =>
      exact decodeMapping_ignoresOrder (part nofun 1) fun _ _ _ => .map_of_forall₂
  | defaultMapping =>
    cases mappings with
    | false => exact absurd (.here ⟨_, _, handled, .inr rfl⟩) (free rfl)
    | true =>
      exact decodeMapping_ignoresOrder (part nofun 1) fun _ _ _ related permuted =>
        .defaultMap_of_forall₂ related permuted _
  | literal => exact decodeLiteral_ignoresOrder _
  | enumeration =>
    intro v w shuffled
    simp only [decodeAs]
    cases findEnum schema target with
    | error e => exact .throw _ _
    | ok declared => exact decodeEnum_ignoresOrder declared v w shuffled
  | record =>
    intro v w shuffled
    simp only [decodeAs]
    split
    case h_1 name named =>
      have leads : Leads schema .builtin here ty (name, here.nestedConfig schema name) :=
        .record handled named
      exact records _ leads (fun isFree => .of_leads (free isFree) leads) v w shuffled
    case h_2 => exact .throw _ _
  | union =>
    intro v w shuffled
    simp only [decodeAs, armParts_map]
    refine decodeUnion_ignoresOrder (fun decode mem => ?_) v w shuffled
    obtain ⟨ty', isArg, rfl⟩ := List.mem_map.1 mem
    unfold armPart
    cases isArm : (here.arm schema ty').record with
    | some key =>
      have leads : Leads schema .builtin here ty key := .arm handled isArg isArm
      exact records key leads fun isFree => .of_leads (free isFree) leads
    | none => exact args mappings ty' isArg (fun _ => isArm) (inner ty' isArg)
  | custom decode encode =>
    exact absurd rfl (Registry.resolve_builtin_ne_custom handled decode encode)

/-- Decoding at a type ignores the order of members if it does at the records that the type leads
to. Where no mapping is inside, the entries of mappings are not reordered. -/
theorem decodeType_ignoresOrder {ty : TypeExpr}
    (plain : ¬ Somewhere schema (IsMappingSet schema) ty)
    (free : mappings = false → ¬ Somewhere schema (IsMapping schema) ty)
    (records : ∀ m key, Leads schema .builtin here ty key →
      (m = false → Nowhere schema (IsMapping schema) key.1) → IgnoresOrder m (nested key.1 key.2)) :
    IgnoresOrder mappings (decodeType schema .builtin nested here (schema.resolve ty)) := by
  induction isDepth : ty.depth using Nat.strong_induction_on generalizing ty mappings with
  | _ depth ih =>
    cases resolved : Registry.builtin.resolve schema (schema.resolve ty) with
    | error e =>
      rw [decodeType_of_unhandled resolved]
      exact fun _ _ _ => .throw _ _
    | ok found =>
      obtain ⟨handler, target⟩ := found
      have handled : Handled schema .builtin ty handler target := resolved
      rw [decodeType_of_handled handled]
      refine decodeAs_ignoresOrder handled plain free (records mappings) ?_
      intro m inner mem other isFree
      rw [← handled.resolve_of_mem mem]
      exact ih _ (isDepth ▸ handled.depth_lt mem)
        (fun isInside => plain (.inside handled mem isInside)) isFree
        (fun m key leads => records m key (.inside handled mem other leads)) rfl

theorem decode_ignoresOrder {start : String × Config}
    (cased : ∀ key, Reach schema .builtin start key → key.2.decodesWith ≠ .caseInsensitive)
    (fuel : Nat) {key : String × Config} (reached : Reach schema .builtin start key)
    (plain : Nowhere schema (IsMappingSet schema) key.1)
    (free : mappings = false → Nowhere schema (IsMapping schema) key.1) :
    IgnoresOrder mappings (decode schema .builtin fuel key.1 key.2) := by
  induction fuel generalizing key mappings with
  | zero => exact fun _ _ _ => .of_none rfl
  | succ fuel ih =>
    intro v w shuffled
    cases found : schema.findRecord key.1 with
    | error e =>
      rw [decode_of_undeclared found, decode_of_undeclared found]
      exact .throw _ _
    | ok record =>
      have declared := findRecord_eq_ok.1 found
      rw [decode_succ declared, decode_succ declared]
      refine decodeRecord_compatible (cased key reached) shuffled fun f mem => ?_
      have plainField := plain record declared f mem
      refine decodeType_ignoresOrder plainField (fun isFree => free isFree record declared f mem) ?_
      intro m key' leads isFree
      exact ih (reached.field declared mem leads) (.of_leads plainField leads) isFree

end

/-- The arguments of the type and the fields of the record that it is are of such types. -/
def ClosedAt (schema : Schema) (S : TypeExpr → Prop) (ty : TypeExpr) : Prop :=
  ∃ handler target, Handled schema .builtin ty handler target ∧ (∀ inner ∈ target.args, S inner) ∧
    ∀ shape ∈ [ty.shape, target.shape], ∀ name record, shape.recordName? = some name →
      schema.record? name = some record → ∀ f ∈ record.fields, S f.type

/-- No such type is inside one of some types that hold no others and are none themselves. -/
theorem Somewhere.not_of_closed {P S : TypeExpr → Prop} (closed : ∀ ty, S ty → ClosedAt schema S ty)
    (none : ∀ ty, S ty → ¬ P ty) {ty : TypeExpr} (among : S ty) : ¬ Somewhere schema P ty := by
  have fields {here : Position} {ty : TypeExpr} {key : String × Config}
      (leads : Leads schema .builtin here ty key) (among : S ty) :
      ∀ record, schema.record? key.1 = some record → ∀ f ∈ record.fields, S f.type := by
    induction leads with
    | record handled named =>
      obtain ⟨_, _, handled', -, named'⟩ := closed _ among
      obtain ⟨rfl, rfl⟩ := handled.unique handled'
      exact fun record declared => named' _ (by simp) _ record named declared
    | @arm _ _ inner key handled mem isArm =>
      obtain ⟨_, _, handled', args, -⟩ := closed _ among
      obtain ⟨rfl, rfl⟩ := handled.unique handled'
      obtain ⟨_, _, -, -, named⟩ := closed _ (args inner mem)
      unfold Position.arm at isArm
      split at isArm
      · cases isArm
      case h_2 name isName =>
        cases isArm
        exact fun record declared => named _ (by simp) name record isName declared
    | inside handled mem _ _ ih =>
      obtain ⟨_, _, handled', args, -⟩ := closed _ among
      obtain ⟨rfl, rfl⟩ := handled.unique handled'
      exact ih (args _ mem)
  intro isInside
  induction isInside with
  | here holds => exact none _ among holds
  | inside handled mem _ ih =>
    obtain ⟨_, _, handled', args, -⟩ := closed _ among
    obtain ⟨rfl, rfl⟩ := handled.unique handled'
    exact ih (args _ mem)
  | field leads declared mem _ ih => exact ih (fields leads among _ declared _ mem)

section
variable (others : ∀ name record, schema.record? name = some record →
  record.ownConfig.decodesWith ≠ .caseInsensitive)
include others

theorem nestedConfig_cased (cased : here.config.decodesWith ≠ .caseInsensitive) (name : String) :
    (here.nestedConfig schema name).decodesWith ≠ .caseInsensitive := by
  unfold Position.nestedConfig
  split
  case h_1 record declared =>
    have own := others name record declared
    unfold Config.inherit
    split
    · cases given : record.ownConfig.decodeCasing with
      | none => simpa [Config.decodesWith, Config.fillFrom, given] using cased
      | some casing => simpa [Config.decodesWith, Config.fillFrom, given] using own
    · exact own
  case h_2 => exact cased

theorem Leads.cased {registry : Registry} {ty : TypeExpr} {key : String × Config}
    (h : Leads schema registry here ty key) (cased : here.config.decodesWith ≠ .caseInsensitive) :
    key.2.decodesWith ≠ .caseInsensitive := by
  have armed (tagKey : String) (autoTag : Bool) (config : Config) :
      (armConfig tagKey autoTag config).decodesWith = config.decodesWith := by
    simp only [armConfig]
    split <;> rfl
  induction h with
  | record => exact nestedConfig_cased others cased _
  | arm _ _ isArm =>
    unfold Position.arm at isArm
    split at isArm
    · cases isArm
    · cases isArm
      rw [armed]
      exact nestedConfig_cased others cased _
  | inside _ _ _ _ ih => exact ih

theorem Reach.cased {registry : Registry} {start key : String × Config}
    (h : Reach schema registry start key) (own : start.2.decodesWith ≠ .caseInsensitive) :
    key.2.decodesWith ≠ .caseInsensitive := by
  induction h with
  | start => exact own
  | field _ _ _ leads cased => exact leads.cased others cased

end

end Direct

namespace Compile.Serves

theorem call_compatible {schema : Schema} (declarations : schema.Declared) {d : Decoder}
    {name : String} {config : Config} (serves : Serves schema .builtin .decoding d name config)
    (cased : ∀ key, Direct.Reach schema .builtin (name, config) key →
      key.2.decodesWith ≠ .caseInsensitive)
    (plain : Direct.Nowhere schema (Direct.IsMappingSet schema) name) {v w : Json}
    (shuffled : v.Shuffled w) :
    Compatible (Instance.Reordered true) (Decoder.call d v) (Decoder.call d w) := by
  intro x x' ran ran'
  obtain ⟨fuel, ran⟩ := (serves.call_decode_iff declarations v).1 ran
  obtain ⟨fuel', ran'⟩ := (serves.call_decode_iff declarations w).1 ran'
  have ignores :
      IgnoresOrder true (Direct.decode schema .builtin (max fuel fuel') name config) :=
    Direct.decode_ignoresOrder cased _ .start plain nofun
  exact ignores v w shuffled x x'
    (Direct.decode_below declarations (Nat.le_max_left _ _) _ _ _ x ran)
    (Direct.decode_below declarations (Nat.le_max_right _ _) _ _ _ x' ran')

end Compile.Serves

namespace Codec

/-- A decoder accepts an input if it accepts the input with the members of its objects in another
order, and the instances are equal up to the order of the entries of mappings. Keys have to be
compared with their case, the elements of sets must not hold mappings, and both calls must come to
an end. -/
theorem decoder_shuffled {c : Codec} (declarations : c.schema.Declared)
    (builtin : c.registry = .builtin) (history : c.cache.History c.schema c.registry)
    (apart : c.cache.decoders = [] ∨ c.schema.Unnumbered) {record : String}
    {overrides config : Config} (resolved : c.resolvedConfig record overrides = .ok config)
    (cased : ∀ key, Direct.Reach c.schema .builtin (record, config) key →
      key.2.decodesWith ≠ .caseInsensitive)
    (plain : Direct.Nowhere c.schema (Direct.IsMappingSet c.schema) record) {d : Decoder}
    (isDecoder : (c.decoder record overrides).1.Returns d) {v w : Json} (shuffled : v.Shuffled w)
    (ends : (Decoder.call d v).Ends) (ends' : (Decoder.call d w).Ends) :
    ((∃ i, (Decoder.call d v).Returns i) ↔ ∃ i, (Decoder.call d w).Returns i) ∧
    ∀ i i', (Decoder.call d v).Returns i → (Decoder.call d w).Returns i' →
      Instance.Reordered true i i' := by
  obtain ⟨config', resolved', serves⟩ := decoder_serves history apart isDecoder
  cases resolved.symm.trans resolved'
  have compatible := (builtin ▸ serves).call_compatible declarations cased plain shuffled
  refine ⟨?_, fun i i' returns returns' => compatible.related returns returns'⟩
  obtain ⟨x, ran⟩ := ends
  obtain ⟨x', ran'⟩ := ends'
  cases x with
  | ok i =>
    cases x' with
    | ok i' => exact ⟨fun _ => ⟨i', ran'⟩, fun _ => ⟨i, ran⟩⟩
    | error e => exact (compatible.not_fails ran ran').elim
  | error e =>
    cases x' with
    | ok i' => exact (compatible.not_returns ran ran').elim
    | error e' =>
      exact ⟨fun ⟨_, returns⟩ => (compatible.not_fails returns ran').elim,
        fun ⟨_, returns⟩ => (compatible.not_returns ran returns).elim⟩

end Codec

namespace Baskets

def tags : TypeExpr := .apply .mapping [.primitive .str, .primitive .int]

def fruits : TypeExpr := .apply .set [Clash.fruit]

def fields : List Field :=
  [{ name := "first", type := .named "Pear", default := some (.declared (Clash.pearObject [])) },
    { name := "tags", type := tags, default := some (.declared (.object [])) },
    { name := "fruits", type := fruits, default := some (.declared (.array [])) }]

def basket : RecordType where
  name := "Basket"
  fields := fields

def pear2 : RecordType where
  name := "Pear#2"
  fields := fields

/-- Two records with the same fields, one of them named like the second routine of a pear. -/
def schema : Schema where
  records := ((((Table.empty.insert "Pear" Clash.pear).insert "Plum" Clash.plum).insert
    "Bowl" Clash.bowl).insert "Basket" basket).insert "Pear#2" pear2

theorem schema_declared : schema.Declared :=
  .record pear2 (.record basket (.record Clash.bowl (.record Clash.plum
    (.record Clash.pear .empty rfl) rfl) rfl) rfl) rfl

theorem mem_of_record? {name : String} {r : RecordType} (h : schema.record? name = some r) :
    r ∈ [Clash.pear, Clash.plum, Clash.bowl, basket, pear2] := by
  rw [Schema.record?, schema] at h
  simp only [Table.get?_insert] at h
  split_ifs at h <;> cases h <;> simp

theorem cased {name : String} {key : String × Config}
    (reached : Direct.Reach schema .builtin (name, {}) key) :
    key.2.decodesWith ≠ .caseInsensitive := by
  refine reached.cased (fun name record declared => ?_) nofun
  have own : ∀ r ∈ [Clash.pear, Clash.plum, Clash.bowl, basket, pear2],
      r.ownConfig.decodesWith ≠ .caseInsensitive := by
    decide
  exact own record (mem_of_record? declared)

def fruit : TypeExpr := schema.resolve Clash.fruit

def fruitTypes : List TypeExpr :=
  [fruit, .apply (.record .keyword "Pear") [], .apply (.record .keyword "Plum") [],
    .primitive .int]

def types : List TypeExpr := fruitTypes ++ [.named "Pear", tags, fruits, .primitive .str]

section
variable {S : TypeExpr → Prop}

theorem fields_of_fruit {name : String} (isFruit : name = "Pear" ∨ name = "Plum")
    {record : RecordType} (declared : schema.record? name = some record) :
    ∀ f ∈ record.fields, f.type = .primitive .int := by
  have ints : ∀ r ∈ [Clash.pear, Clash.plum], ∀ f ∈ r.fields, f.type = .primitive .int := by
    simp [Clash.pear, Clash.plum]
  rcases isFruit with rfl | rfl <;> cases declared
  · exact ints Clash.pear (by simp)
  · exact ints Clash.plum (by simp)

theorem closedAt_of_fruit (isInt : S (.primitive .int)) {name : String}
    (isFruit : name = "Pear" ∨ name = "Plum") {ty : TypeExpr}
    (handled : Handled schema .builtin ty .record (.apply (.record .keyword name) []))
    (isName : ∀ other, ty.shape.recordName? = some other → other = name) :
    Direct.ClosedAt schema S ty := by
  refine ⟨_, _, handled, nofun, fun shape mem other record named declared f isField => ?_⟩
  have same : other = name := by
    simp only [List.mem_cons, List.not_mem_nil, or_false] at mem
    rcases mem with rfl | rfl
    · exact isName other named
    · exact (Option.some.inj named).symm
  rw [fields_of_fruit isFruit (same ▸ declared) f isField]
  exact isInt

theorem closedAt_of_args {ty target : TypeExpr} {handler : Handler}
    (handled : Handled schema .builtin ty handler target) (args : ∀ inner ∈ target.args, S inner)
    (plain : ty.shape.recordName? = none ∧ target.shape.recordName? = none) :
    Direct.ClosedAt schema S ty := by
  refine ⟨_, _, handled, args, fun shape mem name record named => ?_⟩
  simp only [List.mem_cons, List.not_mem_nil, or_false] at mem
  rcases mem with rfl | rfl
  · exact nomatch plain.1.symm.trans named
  · exact nomatch plain.2.symm.trans named

theorem closedAt_fruitTypes (all : ∀ ty ∈ fruitTypes, S ty) :
    ∀ ty ∈ fruitTypes, Direct.ClosedAt schema S ty := by
  simp only [fruitTypes, List.forall_mem_cons, List.not_mem_nil, false_imp_iff, implies_true,
    and_true] at all ⊢
  obtain ⟨-, isPear, isPlum, isInt⟩ := all
  have union : Handled schema .builtin fruit .union fruit := rfl
  have int : Handled schema .builtin (.primitive .int) (.scalar .int) (.primitive .int) := rfl
  have args : ∀ inner ∈ fruit.args, S inner := by
    have isArgs : fruit.args =
      [.apply (.record .keyword "Pear") [], .apply (.record .keyword "Plum") []] := rfl
    rw [isArgs]
    simpa using ⟨isPear, isPlum⟩
  refine ⟨closedAt_of_args union args ⟨rfl, rfl⟩, ?_, ?_, closedAt_of_args int nofun ⟨rfl, rfl⟩⟩
  · exact closedAt_of_fruit isInt (.inl rfl) rfl fun _ named => (Option.some.inj named).symm
  · exact closedAt_of_fruit isInt (.inr rfl) rfl fun _ named => (Option.some.inj named).symm

theorem closedAt_types (all : ∀ ty ∈ types, S ty) : ∀ ty ∈ types, Direct.ClosedAt schema S ty := by
  rw [types, List.forall_mem_append] at all ⊢
  refine ⟨closedAt_fruitTypes all.1, ?_⟩
  obtain ⟨inFruit, inBasket⟩ := all
  simp only [fruitTypes, List.forall_mem_cons, List.not_mem_nil, false_imp_iff, implies_true,
    and_true] at inFruit inBasket ⊢
  obtain ⟨isFruit, isPear, -, isInt⟩ := inFruit
  obtain ⟨-, -, -, isStr⟩ := inBasket
  have mapping : Handled schema .builtin tags .mapping tags := rfl
  have set : Handled schema .builtin fruits .set (.apply .set [fruit]) := rfl
  have str : Handled schema .builtin (.primitive .str) (.scalar .str) (.primitive .str) := rfl
  refine ⟨?_, closedAt_of_args mapping ?_ ⟨rfl, rfl⟩, closedAt_of_args set ?_ ⟨rfl, rfl⟩,
    closedAt_of_args str nofun ⟨rfl, rfl⟩⟩
  · exact closedAt_of_fruit isInt (.inl rfl) rfl nofun
  · simpa [tags, TypeExpr.apply] using ⟨isStr, isInt⟩
  · simpa [TypeExpr.apply] using isFruit

end

theorem not_somewhere_mapping :
    ¬ Direct.Somewhere schema (Direct.IsMapping schema) fruit := by
  suffices h : ∀ ty ∈ fruitTypes, ¬ Direct.IsMapping schema ty from
    Direct.Somewhere.not_of_closed (closedAt_fruitTypes fun _ => id) h (.head _)
  have handlers : ∀ ty ∈ fruitTypes, ∃ handler target, Handled schema .builtin ty handler target ∧
      handler ∈ [.union, .record, .scalar .int] := by
    simp only [fruitTypes, List.forall_mem_cons, List.not_mem_nil, false_imp_iff, implies_true,
      and_true]
    exact ⟨⟨_, _, rfl, by simp⟩, ⟨_, _, rfl, by simp⟩, ⟨_, _, rfl, by simp⟩, ⟨_, _, rfl, by simp⟩⟩
  rintro ty mem ⟨handler, target, handled, isMapping⟩
  obtain ⟨_, _, handled', among⟩ := handlers ty mem
  obtain ⟨rfl, rfl⟩ := handled.unique handled'
  rcases isMapping with rfl | rfl <;> simp at among

theorem not_isMappingSet : ∀ ty ∈ types, ¬ Direct.IsMappingSet schema ty := by
  have handlers : ∀ ty ∈ types, ∃ handler target, Handled schema .builtin ty handler target ∧
      (handler = .set → target.arg 0 = fruit) := by
    simp only [types, fruitTypes, List.cons_append, List.nil_append, List.forall_mem_cons,
      List.not_mem_nil, false_imp_iff, implies_true, and_true]
    exact ⟨⟨_, _, rfl, nofun⟩, ⟨_, _, rfl, nofun⟩, ⟨_, _, rfl, nofun⟩, ⟨_, _, rfl, nofun⟩,
      ⟨_, _, rfl, nofun⟩, ⟨_, _, rfl, nofun⟩, ⟨_, _, rfl, fun _ => rfl⟩, ⟨_, _, rfl, nofun⟩⟩
  rintro ty mem ⟨target, handled, isInside⟩
  obtain ⟨_, _, handled', isFruit⟩ := handlers ty mem
  obtain ⟨rfl, rfl⟩ := handled.unique handled'
  exact not_somewhere_mapping (isFruit rfl ▸ isInside)

theorem nowhere {name : String} (isBasket : schema.record? name = some basket ∨
    schema.record? name = some pear2) :
    Direct.Nowhere schema (Direct.IsMappingSet schema) name := by
  have among : ∀ f ∈ fields, f.type ∈ types := by
    simp [fields, types]
  intro record declared f mem
  have isField : f ∈ fields := by
    rcases isBasket with other | other <;> cases declared.symm.trans other <;> exact mem
  exact Direct.Somewhere.not_of_closed (closedAt_types fun _ => id) not_isMappingSet
    (among f isField)

def one : Json := .ofInt64 1

def counts : Json := .object [("a", one), ("b", one)]

def shuffledCounts : Json := .object [("b", one), ("a", one)]

def taggedPear (tags : Json) : Json :=
  Clash.pearObject [("__tag__", .string "pear"), ("tags", tags)]

/-- The same pear twice, but for the order of two keys of its tags. -/
def input : Json :=
  .object [("fruits", .array [taggedPear counts, taggedPear shuffledCounts]), ("tags", counts)]

def shuffledInput : Json :=
  .object [("tags", shuffledCounts), ("fruits", .array [taggedPear counts, taggedPear counts])]

theorem counts_shuffled : counts.Shuffled shuffledCounts := by
  refine .of_members (by simp [Assoc.keys]) ?_ (.swap _ _ _)
  exact .cons ⟨rfl, .flat rfl⟩ (.cons ⟨rfl, .flat rfl⟩ .nil)

theorem shuffledCounts_shuffled : shuffledCounts.Shuffled counts := by
  refine .of_members (by simp [Assoc.keys]) ?_ (.swap _ _ _)
  exact .cons ⟨rfl, .flat rfl⟩ (.cons ⟨rfl, .flat rfl⟩ .nil)

theorem taggedPear_shuffled {v w : Json} (h : v.Shuffled w) :
    (taggedPear v).Shuffled (taggedPear w) := by
  refine .of_members (by simp [Assoc.keys]) ?_ (.refl _)
  exact .cons ⟨rfl, .flat rfl⟩ (.cons ⟨rfl, h⟩ (.cons ⟨rfl, .flat rfl⟩ .nil))

theorem input_shuffled : input.Shuffled shuffledInput := by
  have fruits : Json.Shuffled (.array [taggedPear counts, taggedPear shuffledCounts])
      (.array [taggedPear counts, taggedPear counts]) :=
    .of_items (.cons (taggedPear_shuffled (.refl counts_shuffled.proper))
      (.cons (taggedPear_shuffled shuffledCounts_shuffled) .nil))
  refine .of_members (by simp [Assoc.keys]) ?_ (.swap _ _ _)
  exact .cons ⟨rfl, fruits⟩ (.cons ⟨rfl, counts_shuffled⟩ .nil)

end Baskets

theorem Codec.decoder_shuffled_basket : ∃ d : Decoder,
    (Codec.decoder "Basket" {} { schema := Baskets.schema }).1.Returns d ∧
    ((∃ i, (Decoder.call d Baskets.input).Returns i) ↔
      ∃ i, (Decoder.call d Baskets.shuffledInput).Returns i) ∧
    ∀ i i', (Decoder.call d Baskets.input).Returns i →
      (Decoder.call d Baskets.shuffledInput).Returns i' → Instance.Reordered true i i' := by
  have compiles : (Codec.decoder "Basket" {} { schema := Baskets.schema }).1.returnsWith
      (fun d => (Decoder.call d Baskets.input).returnsWith (fun _ => true) &&
        (Decoder.call d Baskets.shuffledInput).returnsWith fun _ => true) = true := by
    decide +kernel
  obtain ⟨d, isDecoder, calls⟩ := exists_of_returnsWith compiles
  rw [Bool.and_eq_true] at calls
  obtain ⟨i, returns, -⟩ := exists_of_returnsWith calls.1
  obtain ⟨i', returns', -⟩ := exists_of_returnsWith calls.2
  exact ⟨d, isDecoder, Codec.decoder_shuffled Baskets.schema_declared rfl (.empty _ _) (.inl rfl)
    rfl (fun _ => Baskets.cased) (Baskets.nowhere (.inl rfl)) isDecoder Baskets.input_shuffled
    ⟨_, returns⟩ ⟨_, returns'⟩⟩

namespace Baskets

def cache : Cache := (({} : Cache).compileDecoder schema .builtin 0 "Bowl" {}).2

def codec : Codec where
  schema := schema
  cache := cache

theorem codec_history : codec.cache.History schema .builtin := by
  simp only [codec, cache]
  exact .decoder 0 "Bowl" {} (.empty 0 0)

def fruitCount? (i : Instance) : Option Nat :=
  ((i.field? "fruits").bind Instance.items?).map List.length

theorem fruitCount?_of_reordered {i i' : Instance} (h : Instance.Reordered true i i') :
    fruitCount? i = fruitCount? i' := by
  unfold fruitCount?
  rcases Direct.rel_cases (h.field? "fruits") with ⟨absent, absent'⟩ | ⟨x, y, isX, isY, inner⟩
  · rw [absent, absent']
  · rw [isX, isY]
    exact inner.length_items?

end Baskets

/-- A record named like another one with a number. The session takes the decoder of a pear over
under the name of the record's own routine, and so the fruits are decoded as baskets: the tags of a
pear, which it ignores, are a mapping then, and its order tells the pears in the set apart. -/
theorem Codec.not_decoder_shuffled_pear2 :
    Baskets.schema.Declared ∧ Baskets.codec.cache.History Baskets.schema .builtin ∧
    (∀ key, Direct.Reach Baskets.schema .builtin ("Pear#2", {}) key →
      key.2.decodesWith ≠ .caseInsensitive) ∧
    Direct.Nowhere Baskets.schema (Direct.IsMappingSet Baskets.schema) "Pear#2" ∧
    Baskets.input.Shuffled Baskets.shuffledInput ∧
    ∃ i i', (Baskets.codec.decode "Pear#2" Baskets.input {}).1.run = some (.ok i) ∧
      (Baskets.codec.decode "Pear#2" Baskets.shuffledInput {}).1.run = some (.ok i') ∧
      ¬ Instance.Reordered true i i' := by
  refine ⟨Baskets.schema_declared, Baskets.codec_history, fun _ => Baskets.cased,
    Baskets.nowhere (.inr rfl), Baskets.input_shuffled, ?_⟩
  have decodes : (Baskets.codec.decode "Pear#2" Baskets.input {}).1.returnsWith
      (fun i => Baskets.fruitCount? i == some 2) = true := by
    decide +kernel
  have decodes' : (Baskets.codec.decode "Pear#2" Baskets.shuffledInput {}).1.returnsWith
      (fun i => Baskets.fruitCount? i == some 1) = true := by
    decide +kernel
  obtain ⟨i, decoded, two⟩ := exists_of_returnsWith decodes
  obtain ⟨i', decoded', single⟩ := exists_of_returnsWith decodes'
  refine ⟨i, i', decoded, decoded', fun reordered => ?_⟩
  rw [Baskets.fruitCount?_of_reordered reordered, eq_of_beq single] at two
  cases two

end RecordCodec
