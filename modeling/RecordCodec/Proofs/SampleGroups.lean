import RecordCodec.Proofs.SampleDrafts

set_option autoImplicit false

/-!
# The groups that records are drafted from

All objects at one place of the samples make up a group, and each record is drafted from one group.
The groups are read off the samples alone, with no names and no types, in the order in which their
records are listed: a group comes before what is inside of it.
-/
namespace RecordCodec

inductive Json.Encloses : Json → Json → Prop where
  | refl (v : Json) : Encloses v v
  | item {items : List Json} {v w : Json} : v ∈ items → Encloses v w → Encloses (.array items) w
  | member {members : List (String × Json)} {key : String} {v w : Json} :
    Assoc.get? key members = some v → Encloses v w → Encloses (.object members) w

theorem TypeExpr.acceptsNull_unionOf_null (ty : TypeExpr) :
    (unionOf [ty, null]).acceptsNull = true := by
  have nullable : ([ty, null].flatMap alternatives).any isNull = true :=
    List.any_eq_true.2 ⟨null, List.mem_flatMap.2 ⟨null, by simp, List.mem_singleton_self _⟩, rfl⟩
  unfold unionOf
  simp only [nullable, if_true]
  split <;> rfl

namespace Inference

open TypeExpr (acceptsNull)

/-! ### Groups and what is drafted from one -/

/-- The keys of a group in order of first appearance. -/
def keysOf (group : List Members) : List String := (group.flatMap Assoc.keys).eraseDups

def valuesAt (group : List Members) (key : String) : List Json :=
  group.filterMap (Assoc.get? key)

/-- A group in front of the groups that are inside of it, key after key. -/
def groupsFrom (inner : List Json → List (List Members)) : List Members → List (List Members)
  | [] => []
  | group => group :: (keysOf group).flatMap fun key => inner (valuesAt group key)

/-- The groups of values that nest no deeper than the bound. What is in arrays comes first. -/
def groupsWithin : Nat → List Json → List (List Members)
  | 0, _ => []
  | depth + 1, values =>
    groupsWithin depth (arrays values).flatten ++ groupsFrom (groupsWithin depth) (objects values)

/-- An object of the group lacks the key or has null there. -/
def NullIn (group : List Members) (key : String) : Prop :=
  ∃ members ∈ group, Assoc.get? key members = none ∨ Assoc.get? key members = some .null

/-- The field for a key of a group: the key is its alias just if its name is another, and null is
its default just if the group has null there or nothing. -/
structure FieldFor (group : List Members) (field : Document.FieldDecl) (key : String) : Prop where
  name : field.name = fieldName key
  aliasKey : field.aliasKey = if field.name = key then none else some key
  default : field.default = none ∨ field.default = some .null
  null_iff : field.default = some .null ↔ NullIn group key

/-- The record has just one field for each key of the group. -/
def DraftedFrom (decl : Document.RecordDecl) (group : List Members) : Prop :=
  List.Forall₂ (FieldFor group) decl.fields (keysOf group)

theorem groupsWithin_nil (n : Nat) : groupsWithin n [] = [] := by
  induction n with
  | zero => rfl
  | succ n ih =>
    rw [groupsWithin]
    exact (List.append_nil _).trans ih

theorem mem_keysOf {group : List Members} {key : String} :
    key ∈ keysOf group ↔ ∃ members ∈ group, key ∈ Assoc.keys members := by
  rw [keysOf, List.mem_eraseDups, List.mem_flatMap]

theorem distinctKeys_eq (group : List Members) : distinctKeys group = keysOf group := by
  have fold : ∀ keys acc : List String,
      keys.foldl (fun acc key => if acc.contains key then acc else acc ++ [key]) acc =
        acc ++ (keys.filter fun key => !acc.contains key).eraseDups := by
    intro keys
    induction keys with
    | nil => exact fun acc => (List.append_nil acc).symm
    | cons key keys ih =>
      intro acc
      rw [List.foldl_cons, ih]
      cases seen : acc.contains key with
      | true => simp only [if_true, List.filter_cons, seen, Bool.not_true, Bool.false_eq_true,
          if_false]
      | false =>
        -- the key is kept, and what follows is searched for it as well
        have others : (keys.filter fun other => !(acc ++ [key]).contains other) =
            (keys.filter fun other => !acc.contains other).filter fun other => !other == key := by
          rw [List.filter_filter]
          refine List.filter_congr fun other _ => ?_
          simp [beq_eq_decide, Bool.and_comm]
        simp only [Bool.false_eq_true, if_false, List.filter_cons, seen, Bool.not_false, if_true,
          List.eraseDups_cons, others, List.append_assoc, List.singleton_append]
  rw [distinctKeys, keysOf, fold]
  simp

/-! ### Types that take null -/

section Null

variable {ty : TypeExpr} {values : List Json}

theorem acceptsNull_of_isNull (h : ty.isNull = true) : ty.acceptsNull = true := by
  obtain ⟨shape, args, literals⟩ := ty
  obtain rfl : shape = .primitive .null := beq_iff_eq.1 h
  rfl

theorem acceptsNull_of_isArm (h : isArm ty = true) : ty.acceptsNull = false := by
  obtain ⟨shape, args, literals⟩ := ty
  cases shape with
  | primitive p =>
    have known : p ∈ scalars := of_decide_eq_true h
    simp only [scalars, List.mem_cons, List.not_mem_nil, or_false] at known
    rcases known with rfl | rfl | rfl | rfl <;> rfl
  | sequence => rfl
  | named => rfl
  | _ => cases h

theorem anyAcceptsNull_of_isArm {arms : List TypeExpr} (h : ∀ arm ∈ arms, isArm arm = true) :
    TypeExpr.anyAcceptsNull arms = false := by
  induction arms with
  | nil => rfl
  | cons arm arms ih =>
    obtain ⟨first, others⟩ := List.forall_mem_cons.1 h
    rw [TypeExpr.anyAcceptsNull, acceptsNull_of_isArm first, ih others]
    rfl

theorem acceptsNull_joined {arms : List TypeExpr} (some : arms ≠ [])
    (h : ∀ arm ∈ arms, isArm arm = true) : (joined arms).acceptsNull = false := by
  match arms with
  | [] => exact absurd rfl some
  | [only] => exact acceptsNull_of_isArm (h only List.mem_cons_self)
  | first :: second :: rest => exact anyAcceptsNull_of_isArm h

theorem Parts.any_isNull_iff {parts : List TypeExpr} (h : Parts parts) :
    parts.any TypeExpr.isNull = true ↔ .null ∈ parts := by
  rw [List.any_eq_true]
  refine ⟨?_, fun mem => ⟨_, mem, rfl⟩⟩
  rintro ⟨ty, mem, null⟩
  have isNull : ty = .null := (h.kinds ty mem).resolve_right fun arm => by
    rw [(shape_of_isArm arm).1] at null
    cases null
  exact isNull ▸ mem

theorem Parts.acceptsNull_settle_iff {parts : List TypeExpr} (h : Parts parts)
    (some : parts ≠ []) :
    (Inference.settle (.unionOf parts)).acceptsNull = true ↔ .null ∈ parts := by
  rw [unionOf_parts h, ← h.any_isNull_iff]
  by_cases none : armsOf parts = []
  case pos =>
    -- there is nothing but null, so the type is settled as one of anything
    rw [if_pos (List.isEmpty_iff.2 none)]
    refine iff_of_true rfl ?_
    obtain ⟨ty, mem⟩ := List.exists_mem_of_ne_nil parts some
    refine List.any_eq_true.2 ⟨ty, mem, ?_⟩
    by_contra notNull
    have := (mem_armsOf_iff h).2 ⟨mem, by simpa using notNull⟩
    rw [none] at this
    cases this
  case neg =>
    rw [if_neg (by simpa using none)]
    split
    case isTrue nullable => exact iff_of_true rfl nullable
    case isFalse plain =>
      have never := acceptsNull_joined none fun ty => h.isArm_of_mem
      have notNull : (joined (armsOf parts)).isNull = false := by
        by_contra null
        rw [acceptsNull_of_isNull (by simpa using null)] at never
        cases never
      rw [Inference.settle, if_neg (by rw [notNull]; exact Bool.false_ne_true), never]
      exact iff_of_false Bool.false_ne_true plain

end Null

/-! ### Drafting from groups -/

section Drafting

variable {n : Nat}

def Shallow (n : Nat) (values : List Json) : Prop := ∀ v ∈ values, v.depth ≤ n

/-- The records of a draft come from the groups of its values, and the type takes null just if null
is one of the values. -/
structure Grouped (n : Nat) (draft : Drafted TypeExpr) (values : List Json) : Prop where
  null_iff : values ≠ [] → (draft.value.acceptsNull = true ↔ .null ∈ values)
  records : List.Forall₂ DraftedFrom draft.records (groupsWithin n values)

def DraftsGroups (n : Nat) : Prop :=
  ∀ taken hint values, Shallow n values → Grouped n (typeWithin n taken hint values) values

theorem shallow_flatten {values : List Json} (h : Shallow (n + 1) values) :
    Shallow n (arrays values).flatten := by
  intro v mem
  obtain ⟨items, isList, isItem⟩ := List.mem_flatten.1 mem
  have less := Json.depth_lt_of_mem_items isItem
  exact Nat.le_of_lt_succ (less.trans_le (h _ (mem_arrays.1 isList)))

theorem shallow_valuesAt {group : List Members} (h : Shallow (n + 1) (group.map .object))
    (key : String) : Shallow n (valuesAt group key) := by
  intro v mem
  obtain ⟨members, isMember, found⟩ := List.mem_filterMap.1 mem
  have less := Json.depth_lt_of_mem_members (Assoc.mem_of_get? found)
  exact Nat.le_of_lt_succ (less.trans_le (h _ (List.mem_map_of_mem isMember)))

theorem valuesAt_ne_nil {group : List Members} {key : String} (isKey : key ∈ keysOf group) :
    valuesAt group key ≠ [] := by
  obtain ⟨members, mem, isKey⟩ := mem_keysOf.1 isKey
  obtain ⟨v, found⟩ := Option.isSome_iff_exists.1 (Assoc.isSome_get?_iff.2 isKey)
  exact List.ne_nil_of_mem (List.mem_filterMap.2 ⟨members, mem, found⟩)

theorem nullIn_iff {group : List Members} {key : String} :
    NullIn group key ↔
      (valuesAt group key).length < group.length ∨ .null ∈ valuesAt group key := by
  rw [valuesAt, List.length_filterMap_lt_length_iff_exists, List.mem_filterMap]
  constructor
  · rintro ⟨members, mem, missing | null⟩
    · exact .inl ⟨members, mem, missing⟩
    · exact .inr ⟨members, mem, null⟩
  · rintro (⟨members, mem, missing⟩ | ⟨members, mem, null⟩)
    · exact ⟨members, mem, .inl missing⟩
    · exact ⟨members, mem, .inr null⟩

theorem fieldFor_fieldOf {group : List Members} {key : String} {ty : TypeExpr}
    (null_iff : ty.acceptsNull = true ↔ NullIn group key) :
    FieldFor group (fieldOf key ty) key := by
  refine ⟨rfl, rfl, ?_, ?_⟩
  · cases null : ty.acceptsNull
    · exact .inl (by simp [fieldOf, null])
    · exact .inr (by simp [fieldOf, null])
  · rw [← null_iff, fieldOf]
    cases ty.acceptsNull <;> simp

theorem draftFields_grouped (typed : DraftsGroups n) {group : List Members}
    (shallow : Shallow (n + 1) (group.map .object)) (taken : List String) {keys : List String}
    (isKey : keys ⊆ keysOf group) :
    List.Forall₂ (FieldFor group) (draftFields (typeWithin n) group taken keys).value keys ∧
      List.Forall₂ DraftedFrom (draftFields (typeWithin n) group taken keys).records
        (keys.flatMap fun key => groupsWithin n (valuesAt group key)) := by
  induction keys generalizing taken with
  | nil => exact ⟨.nil, .nil⟩
  | cons key keys ih =>
    obtain ⟨first, others⟩ := List.cons_subset.1 isKey
    have grouped := typed taken key _ (shallow_valuesAt shallow key)
    have null_iff := grouped.null_iff (valuesAt_ne_nil first)
    obtain ⟨fields, records⟩ :=
      ih (taken ++ namesOf (typeWithin n taken key (valuesAt group key)).records) others
    refine ⟨.cons (fieldFor_fieldOf ?_) fields, List.rel_append grouped.records records⟩
    rw [nullIn_iff]
    change acceptsNull (if (valuesAt group key).length < group.length then _ else _) = true ↔ _
    split
    case isTrue fewer =>
      exact iff_of_true (TypeExpr.acceptsNull_unionOf_null _) (.inl fewer)
    case isFalse all => exact null_iff.trans (or_iff_right all).symm

theorem draftRecord_grouped (typed : DraftsGroups n) {group : List Members} (some : group ≠ [])
    (shallow : Shallow (n + 1) (group.map .object)) (taken : List String) (hint : String) :
    List.Forall₂ DraftedFrom (draftRecord (typeWithin n) taken hint group).records
      (groupsFrom (groupsWithin n) group) := by
  obtain ⟨members, others, rfl⟩ := List.exists_cons_of_ne_nil some
  rw [draftRecord, distinctKeys_eq]
  obtain ⟨fields, records⟩ := draftFields_grouped typed shallow
    (taken ++ [freeName taken hint]) (List.Subset.refl (keysOf (members :: others)))
  exact .cons fields records

theorem draftItems_value (typing : Typing) (taken : List String) (hint : String)
    (lists : List (List Json)) :
    (lists = [] ∧ (draftItems typing taken hint lists).value = []) ∨
      lists ≠ [] ∧ ∃ item, (draftItems typing taken hint lists).value = [.sequence item] := by
  cases lists with
  | nil => exact .inl ⟨rfl, rfl⟩
  | cons items lists =>
    refine .inr ⟨List.cons_ne_nil _ _, ?_⟩
    unfold draftItems
    split
    case h_1 none => cases none
    case h_2 => exact ⟨_, rfl⟩
    case h_3 => exact ⟨_, rfl⟩

theorem draftItems_grouped (typed : DraftsGroups n) {lists : List (List Json)}
    (shallow : Shallow n lists.flatten) (taken : List String) (hint : String) :
    List.Forall₂ DraftedFrom (draftItems (typeWithin n) taken hint lists).records
      (groupsWithin n lists.flatten) := by
  unfold draftItems
  split
  case h_1 => exact groupsWithin_nil n ▸ .nil
  case h_2 none => exact none ▸ groupsWithin_nil n ▸ .nil
  case h_3 => exact (typed taken (itemHint hint) _ shallow).records

theorem draftObjects_value (typing : Typing) (taken : List String) (hint : String)
    (group : List Members) :
    (group = [] ∧ (draftObjects typing taken hint group).value = []) ∨
      group ≠ [] ∧ ∃ name, (draftObjects typing taken hint group).value = [.named name] := by
  cases group with
  | nil => exact .inl ⟨rfl, rfl⟩
  | cons members group => exact .inr ⟨List.cons_ne_nil _ _, _, rfl⟩

theorem draftObjects_grouped (typed : DraftsGroups n) {group : List Members}
    (shallow : Shallow (n + 1) (group.map .object)) (taken : List String) (hint : String) :
    List.Forall₂ DraftedFrom (draftObjects (typeWithin n) taken hint group).records
      (groupsFrom (groupsWithin n) group) := by
  cases group with
  | nil => exact .nil
  | cons members group =>
    exact draftRecord_grouped typed (List.cons_ne_nil _ _) shallow taken hint

section Parts

variable {values : List Json} {items names : List TypeExpr}

theorem parts_ne_nil (some : values ≠ []) (lists : items = [] → arrays values = [])
    (records : names = [] → objects values = []) : scalarParts values ++ items ++ names ≠ [] := by
  intro none
  simp only [List.append_eq_nil_iff] at none
  obtain ⟨⟨noScalars, noItems⟩, noNames⟩ := none
  obtain ⟨v, mem⟩ := List.exists_mem_of_ne_nil values some
  cases isType : scalarType? v with
  | some ty =>
    rcases mem_scalarParts mem isType with mem | ⟨-, mem⟩ <;>
      rw [noScalars] at mem <;> cases mem
  | none =>
    cases v with
    | array vs =>
      have isList := mem_arrays.2 mem
      rw [lists noItems] at isList
      cases isList
    | object members =>
      have isMember := mem_objects.2 mem
      rw [records noNames] at isMember
      cases isMember
    | number x => cases x <;> cases isType
    | _ => cases isType

theorem null_mem_scalarParts : .null ∈ scalarParts values ↔ .null ∈ values := by
  constructor
  · intro mem
    obtain ⟨v, isValue, isType⟩ := List.mem_filterMap.1 (scalarParts_subset values mem)
    cases v with
    | null => exact isValue
    | number x => cases x <;> cases isType
    | _ => cases isType
  · exact fun mem => (mem_scalarParts mem rfl).resolve_right fun h => by cases h.1

theorem null_iff_of_parts
    (lists : (arrays values = [] ∧ items = []) ∨
      arrays values ≠ [] ∧ ∃ item, items = [.sequence item])
    (records : (objects values = [] ∧ names = []) ∨
      objects values ≠ [] ∧ ∃ name, names = [.named name]) (some : values ≠ []) :
    (settle (.unionOf (scalarParts values ++ items ++ names))).acceptsNull = true ↔
      .null ∈ values := by
  have sequences : (∀ ty ∈ items, ty.shape = .sequence) ∧ items.length ≤ 1 := by
    rcases lists with ⟨-, rfl⟩ | ⟨-, item, rfl⟩ <;> simp [TypeExpr.sequence, TypeExpr.apply]
  have named : (∀ ty ∈ names, isName ty = true ∧ isArm ty = true) ∧ names.length ≤ 1 := by
    rcases records with ⟨-, rfl⟩ | ⟨-, name, rfl⟩ <;>
      simp [TypeExpr.named, TypeExpr.apply, isName, isArm, Shape.declaredName?]
  have nonempty : scalarParts values ++ items ++ names ≠ [] := by
    refine parts_ne_nil some (fun none => ?_) fun none => ?_
    · rcases lists with ⟨noLists, -⟩ | ⟨-, item, rfl⟩
      · exact noLists
      · cases none
    · rcases records with ⟨noObjects, -⟩ | ⟨-, name, rfl⟩
      · exact noObjects
      · cases none
  rw [(parts_append sequences.1 sequences.2 named.1 named.2).acceptsNull_settle_iff nonempty,
    List.mem_append, List.mem_append, null_mem_scalarParts]
  refine ⟨?_, fun mem => .inl (.inl mem)⟩
  rintro ((mem | mem) | mem)
  · exact mem
  · cases sequences.1 _ mem
  · cases (named.1 _ mem).1

end Parts

/-- On the bound: what is inside arrays and objects is nested less deep. -/
theorem typeWithin_grouped (n : Nat) : DraftsGroups n := by
  induction n with
  | zero =>
    intro taken hint values shallow
    have noLists : arrays values = [] := List.eq_nil_iff_forall_not_mem.2 fun items mem => by
      have := shallow _ (mem_arrays.1 mem)
      rw [Json.depth] at this
      omega
    have noObjects : objects values = [] := List.eq_nil_iff_forall_not_mem.2 fun members mem => by
      have := shallow _ (mem_objects.1 mem)
      rw [Json.depth] at this
      omega
    refine ⟨fun some => ?_, .nil⟩
    have iff := null_iff_of_parts (.inl ⟨noLists, rfl⟩) (.inl ⟨noObjects, rfl⟩) some
    rw [List.append_nil, List.append_nil] at iff
    exact iff
  | succ n ih =>
    intro taken hint values shallow
    have objectsShallow : Shallow (n + 1) ((objects values).map .object) :=
      List.forall_mem_map.2 fun members mem => shallow _ (mem_objects.1 mem)
    exact ⟨null_iff_of_parts (draftItems_value _ _ _ _) (draftObjects_value _ _ _ _),
      List.rel_append (draftItems_grouped ih (shallow_flatten shallow) taken hint)
        (draftObjects_grouped ih objectsShallow _ hint)⟩

/-! ### Every object is in a group -/

theorem groupsFrom_cons (inner : List Json → List (List Members)) {group : List Members}
    (some : group ≠ []) : groupsFrom inner group =
      group :: (keysOf group).flatMap fun key => inner (valuesAt group key) := by
  obtain ⟨members, others, rfl⟩ := List.exists_cons_of_ne_nil some
  rfl

theorem exists_group_of_member {inner : List Json → List (List Members)} {group : List Members}
    {members found : Members} {key : String} {v : Json} (isMember : members ∈ group)
    (isValue : Assoc.get? key members = some v)
    (covered : ∀ values, v ∈ values → ∃ g ∈ inner values, found ∈ g) :
    ∃ g ∈ groupsFrom inner group, found ∈ g := by
  have isKey : key ∈ keysOf group :=
    mem_keysOf.2 ⟨members, isMember, Assoc.isSome_get?_iff.1 (by rw [isValue]; rfl)⟩
  obtain ⟨g, mem, isFound⟩ :=
    covered (valuesAt group key) (List.mem_filterMap.2 ⟨members, isMember, isValue⟩)
  rw [groupsFrom_cons inner (List.ne_nil_of_mem isMember)]
  exact ⟨g, List.mem_cons_of_mem _ (List.mem_flatMap.2 ⟨key, isKey, mem⟩), isFound⟩

theorem exists_group {n : Nat} {v : Json} {members : Members}
    (encloses : v.Encloses (.object members)) (shallow : v.depth ≤ n)
    {values : List Json} (mem : v ∈ values) :
    ∃ group ∈ groupsWithin n values, members ∈ group := by
  generalize isObject : Json.object members = w at encloses
  induction encloses generalizing n values with
  | refl =>
    subst isObject
    obtain ⟨n, rfl⟩ := Nat.exists_eq_succ_of_ne_zero (Nat.ne_zero_of_lt shallow)
    have isMember := mem_objects.2 mem
    refine ⟨_, List.mem_append_right _ ?_, isMember⟩
    rw [groupsFrom_cons _ (List.ne_nil_of_mem isMember)]
    exact List.mem_cons_self
  | @item items v w isItem _ ih =>
    obtain ⟨n, rfl⟩ := Nat.exists_eq_succ_of_ne_zero (Nat.ne_zero_of_lt shallow)
    have less := Json.depth_lt_of_mem_items isItem
    obtain ⟨group, isGroup, isMember⟩ := ih (Nat.le_of_lt_succ (less.trans_le shallow))
      (List.mem_flatten.2 ⟨items, mem_arrays.2 mem, isItem⟩) isObject
    exact ⟨group, List.mem_append_left _ isGroup, isMember⟩
  | @member outer key v w isValue _ ih =>
    obtain ⟨n, rfl⟩ := Nat.exists_eq_succ_of_ne_zero (Nat.ne_zero_of_lt shallow)
    have less := Json.depth_lt_of_mem_members (Assoc.mem_of_get? isValue)
    obtain ⟨group, isGroup, isMember⟩ := exists_group_of_member (mem_objects.2 mem) isValue
      fun values mem => ih (Nat.le_of_lt_succ (less.trans_le shallow)) mem isObject
    exact ⟨group, List.mem_append_right _ isGroup, isMember⟩

end Drafting

section Samples

variable {root : String} {sample : Json} {d : Document} {samples : List Members}

theorem groupsWithin_objects (n : Nat) (group : List Members) :
    groupsWithin (n + 1) (group.map .object) = groupsFrom (groupsWithin n) group := by
  have noArrays : arrays (group.map .object) = [] :=
    List.filterMap_eq_nil_iff.2 (List.forall_mem_map.2 fun _ _ => rfl)
  have all : objects (group.map .object) = group := by
    rw [objects, List.filterMap_map]
    exact List.filterMap_some
  rw [groupsWithin, noArrays, all, List.flatten_nil, groupsWithin_nil, List.nil_append]

theorem samplesOf_ne_nil (isSamples : samplesOf sample = .ok samples) : samples ≠ [] := by
  rcases samplesOf_eq_ok isSamples with ⟨members, -, rfl⟩ | ⟨some, -⟩
  · exact List.cons_ne_nil _ _
  · exact some

theorem exists_sample_of_encloses (isSamples : samplesOf sample = .ok samples) {members : Members}
    (encloses : sample.Encloses (.object members)) :
    ∃ outer ∈ samples, (Json.object outer).Encloses (.object members) := by
  rcases samplesOf_eq_ok isSamples with ⟨only, rfl, rfl⟩ | ⟨-, rfl⟩
  · exact ⟨only, List.mem_cons_self, encloses⟩
  · cases encloses with
    | item isItem encloses =>
      obtain ⟨outer, mem, rfl⟩ := List.mem_map.1 isItem
      exact ⟨outer, mem, encloses⟩

theorem exists_group_of_sample (isSamples : samplesOf sample = .ok samples) {members : Members}
    (encloses : sample.Encloses (.object members)) :
    ∃ group ∈ groupsFrom (groupsWithin sample.depth) samples, members ∈ group := by
  obtain ⟨outer, mem, encloses⟩ := exists_sample_of_encloses isSamples encloses
  rw [← groupsWithin_objects]
  exact exists_group encloses (Nat.le_succ_of_le (mem_of_samplesOf isSamples mem).1)
    (List.mem_map_of_mem mem)

/-- The records of a draft come from the groups of the sample, one from each. -/
theorem draft_grouped (drafted : draft root sample = .ok d)
    (isSamples : samplesOf sample = .ok samples) :
    List.Forall₂ DraftedFrom d.records (groupsFrom (groupsWithin sample.depth) samples) := by
  rw [draft, isSamples] at drafted
  obtain rfl := Except.ok.inj drafted
  refine draftRecord_grouped (typeWithin_grouped _) (samplesOf_ne_nil isSamples) ?_ [] root
  exact List.forall_mem_map.2 fun members mem =>
    Nat.le_succ_of_le (mem_of_samplesOf isSamples mem).1

end Samples

end Inference
end RecordCodec
