import Mathlib.Data.List.Perm.Subperm
import RecordCodec.Proofs.Naming
import RecordCodec.Proofs.SampleTypes

set_option autoImplicit false

/-!
# What is drafted covers the samples

Every sample is a value of the type that was drafted for it, if its whole numbers fit 64 bits with a
sign. The argument is on how deep the samples are nested. The names that are taken are handed on
from one record to the next, so no two records have one name.
-/
namespace RecordCodec.Inference

section Drafting

variable {decls : List Document.RecordDecl} {n : Nat} {typing : Typing}

/-- Where a type is drafted, it is a draft beside the records that were drafted with it, and all
values that nest no deeper than the bound are values of it. -/
structure Sound (decls : List Document.RecordDecl) (n : Nat) (draft : Drafted TypeExpr)
    (values : List Json) : Prop where
  type : IsDraft decls draft.value
  records : ∀ decl ∈ draft.records, IsDraftedRecord decls decl
  conforms : ∀ v ∈ values, v.depth ≤ n → v.FitsInt64 → Conforms decls draft.value v

/-- Whatever is drafted is sound beside all records, if those drafted for it are among them. -/
def TypesSoundly (decls : List Document.RecordDecl) (n : Nat) (typing : Typing) : Prop :=
  ∀ taken hint values, (typing taken hint values).records ⊆ decls →
    Sound decls n (typing taken hint values) values

/-- The fields have drafted types, and what the samples have at their keys is of these types. -/
structure CoversFields (decls : List Document.RecordDecl) (n : Nat) (samples : List Members)
    (fields : List (String × TypeExpr)) : Prop where
  types : ∀ e ∈ fields, IsDraft decls e.2
  present : ∀ e ∈ fields, ∀ members ∈ samples, ∀ v, Assoc.get? e.1 members = some v →
    v.depth ≤ n → v.FitsInt64 → Conforms decls e.2 v
  absent : ∀ e ∈ fields, ∀ members ∈ samples, Assoc.get? e.1 members = none →
    e.2.shape = .optional

theorem draftFields_sound (typesSoundly : TypesSoundly decls n typing) (samples : List Members)
    {taken keys : List String} (subset : (draftFields typing samples taken keys).records ⊆ decls) :
    (∀ decl ∈ (draftFields typing samples taken keys).records, IsDraftedRecord decls decl) ∧
      ∃ fields : List (String × TypeExpr), (draftFields typing samples taken keys).value =
          fields.map (fun e => fieldOf e.1 e.2) ∧ CoversFields decls n samples fields := by
  induction keys generalizing taken with
  | nil =>
    rw [draftFields]
    exact ⟨fun _ mem => absurd mem List.not_mem_nil, [], rfl, nofun, nofun, nofun⟩
  | cons key keys ih =>
    rw [draftFields] at subset ⊢
    simp only at subset ⊢
    obtain ⟨innerSubset, othersSubset⟩ := List.append_subset.1 subset
    obtain ⟨otherRecords, fields, written, covers⟩ := ih othersSubset
    have sound := typesSoundly taken key (samples.filterMap (Assoc.get? key)) innerSubset
    generalize typing taken key (samples.filterMap (Assoc.get? key)) = inner at *
    have isPresent : ∀ members ∈ samples, ∀ v, Assoc.get? key members = some v →
        v ∈ samples.filterMap (Assoc.get? key) :=
      fun members mem v found => List.mem_filterMap.2 ⟨members, mem, found⟩
    refine ⟨List.forall_mem_append.2 ⟨sound.records, otherRecords⟩, ?_⟩
    rw [written]
    by_cases some : (samples.filterMap (Assoc.get? key)).length < samples.length
    case pos =>
      obtain ⟨type, isOptional, draft, notOptional, weaker⟩ := sound.type.unionOf_null
      rw [if_pos some, isOptional]
      refine ⟨(key, .optional type) :: fields, rfl, ?_, ?_, ?_⟩
      · exact List.forall_mem_cons.2 ⟨.optional draft notOptional, covers.types⟩
      · refine List.forall_mem_cons.2 ⟨fun members mem v found small fits => ?_, covers.present⟩
        exact weaker v (sound.conforms v (isPresent members mem v found) small fits)
      · exact List.forall_mem_cons.2 ⟨fun _ _ _ => rfl, covers.absent⟩
    case neg =>
      rw [if_neg some]
      refine ⟨(key, inner.value) :: fields, rfl, ?_, ?_, ?_⟩
      · exact List.forall_mem_cons.2 ⟨sound.type, covers.types⟩
      · refine List.forall_mem_cons.2 ⟨fun members mem v found small fits => ?_, covers.present⟩
        exact sound.conforms v (isPresent members mem v found) small fits
      · refine List.forall_mem_cons.2 ⟨fun members mem missing => ?_, covers.absent⟩
        exact absurd (List.length_filterMap_lt_length_iff_exists.2 ⟨members, mem, missing⟩) some

theorem draftRecord_sound (typesSoundly : TypesSoundly decls n typing) {taken : List String}
    {hint : String} {samples : List Members}
    (subset : (draftRecord typing taken hint samples).records ⊆ decls) :
    (∀ decl ∈ (draftRecord typing taken hint samples).records, IsDraftedRecord decls decl) ∧
      IsDraft decls (.named (draftRecord typing taken hint samples).value) ∧
      ∀ members ∈ samples, (Json.object members).depth ≤ n + 1 → (Json.object members).FitsInt64 →
        Conforms decls (.named (draftRecord typing taken hint samples).value)
          (.object members) := by
  rw [draftRecord] at subset ⊢
  simp only at subset ⊢
  obtain ⟨isDecl, others⟩ := List.cons_subset.1 subset
  obtain ⟨records, fields, written, covers⟩ := draftFields_sound typesSoundly samples others
  rw [written] at isDecl ⊢
  refine ⟨List.forall_mem_cons.2 ⟨⟨_, fields, rfl, covers.types⟩, records⟩,
    .record isDecl covers.types, fun members mem small fits => ?_⟩
  refine .record isDecl covers.types (fun e isField v found => ?_) fun e isField missing =>
    covers.absent e isField members mem missing
  have isMember := Assoc.mem_of_get? found
  have less := Json.depth_lt_of_mem_members isMember
  cases fits with
  | object each =>
    exact covers.present e isField members mem v found (Nat.le_of_lt_succ (less.trans_le small))
      (each _ isMember)

end Drafting

section Kinds

variable {values : List Json}

theorem mem_arrays {items : List Json} : items ∈ arrays values ↔ .array items ∈ values := by
  refine List.mem_filterMap.trans ⟨?_, fun mem => ⟨_, mem, rfl⟩⟩
  rintro ⟨v, mem, isArray⟩
  cases v with
  | array =>
    cases isArray
    exact mem
  | _ => cases isArray

theorem mem_objects {members : Members} : members ∈ objects values ↔ .object members ∈ values := by
  refine List.mem_filterMap.trans ⟨?_, fun mem => ⟨_, mem, rfl⟩⟩
  rintro ⟨v, mem, isObject⟩
  cases v with
  | object =>
    cases isObject
    exact mem
  | _ => cases isObject

theorem eq_map_objects (all : (objects values).length = values.length) :
    values = (objects values).map .object := by
  induction values with
  | nil => rfl
  | cons v values ih =>
    have fewer : (objects values).length ≤ values.length := List.length_filterMap_le _ _
    cases v with
    | object members =>
      exact congrArg (.object members :: ·) (ih (Nat.succ_inj.1 all))
    | _ =>
      have all : (objects values).length = values.length + 1 := all
      omega

end Kinds

section Typing

variable {decls : List Document.RecordDecl} {n : Nat} {v : Json}

/-- The scalar types of some values. An integer is at home among floats. -/
def scalarParts (values : List Json) : List TypeExpr := widened (values.filterMap scalarType?)

theorem exists_primitive {v : Json} {ty : TypeExpr} (h : scalarType? v = some ty) :
    ∃ p ∈ Primitive.null :: scalars, ty = .primitive p := by
  cases v with
  | number n => cases n <;> cases h <;> exact ⟨_, by decide, rfl⟩
  | array => cases h
  | object => cases h
  | _ => cases h; exact ⟨_, by decide, rfl⟩

theorem scalarParts_subset (values : List Json) :
    scalarParts values ⊆ values.filterMap scalarType? := by
  unfold scalarParts widened
  split
  · exact List.filter_sublist.subset
  · exact List.Subset.refl _

theorem exists_of_mem_scalarParts {values : List Json} {ty : TypeExpr}
    (mem : ty ∈ scalarParts values) : ∃ p ∈ Primitive.null :: scalars, ty = .primitive p := by
  obtain ⟨v, -, isType⟩ := List.mem_filterMap.1 (scalarParts_subset values mem)
  exact exists_primitive isType

theorem not_int_of_float {values : List Json} (isFloat : .primitive .float ∈ scalarParts values) :
    .primitive .int ∉ scalarParts values := by
  have isType := scalarParts_subset values isFloat
  unfold scalarParts widened
  rw [if_pos (List.any_eq_true.2 ⟨_, isType, rfl⟩)]
  intro mem
  exact absurd (List.mem_filter.1 mem).2 (by decide)

theorem mem_scalarParts {values : List Json} {ty : TypeExpr} (mem : v ∈ values)
    (isType : scalarType? v = some ty) : ty ∈ scalarParts values ∨
      ty = .primitive .int ∧ .primitive .float ∈ scalarParts values := by
  have isMember : ty ∈ values.filterMap scalarType? := List.mem_filterMap.2 ⟨v, mem, isType⟩
  unfold scalarParts widened
  split
  case isFalse => exact .inl isMember
  case isTrue some =>
    obtain ⟨p, -, rfl⟩ := exists_primitive isType
    by_cases isInt : p = .int
    case neg => exact .inl (List.mem_filter.2 ⟨isMember, by simp [TypeExpr.primitive,
      TypeExpr.apply, isInt]⟩)
    case pos =>
      refine .inr ⟨by rw [isInt], List.mem_filter.2 ⟨?_, by decide⟩⟩
      obtain ⟨other, isOther, isFloat⟩ := List.any_eq_true.1 some
      obtain ⟨w, isValue, otherType⟩ := List.mem_filterMap.1 isOther
      obtain ⟨q, -, rfl⟩ := exists_primitive otherType
      obtain rfl : q = .float := by simpa [TypeExpr.primitive, TypeExpr.apply] using isFloat
      exact isOther

theorem unique_append {xs ys : List TypeExpr}
    (first : ∀ a ∈ xs, ∀ b ∈ xs, a.shape = b.shape → a = b)
    (second : ∀ a ∈ ys, ∀ b ∈ ys, a.shape = b.shape → a = b)
    (apart : ∀ a ∈ xs, ∀ b ∈ ys, a.shape ≠ b.shape) :
    ∀ a ∈ xs ++ ys, ∀ b ∈ xs ++ ys, a.shape = b.shape → a = b := by
  intro a isA b isB same
  rcases List.mem_append.1 isA with isA | isA <;> rcases List.mem_append.1 isB with isB | isB
  · exact first a isA b isB same
  · exact absurd same (apart a isA b isB)
  · exact absurd same.symm (apart b isB a isA)
  · exact second a isA b isB same

theorem parts_append {values : List Json} {items names : List TypeExpr}
    (sequences : ∀ ty ∈ items, ty.shape = .sequence) (oneItem : items.length ≤ 1)
    (records : ∀ ty ∈ names, isName ty = true ∧ isArm ty = true) (oneName : names.length ≤ 1) :
    Parts (scalarParts values ++ items ++ names) := by
  have one : ∀ {l : List TypeExpr}, l.length ≤ 1 → ∀ a ∈ l, ∀ b ∈ l, a.shape = b.shape → a = b := by
    intro l short a isA b isB _
    cases l with
    | nil => cases isA
    | cons only rest =>
      obtain rfl : rest = [] := by simpa using short
      rw [List.mem_singleton.1 isA, List.mem_singleton.1 isB]
  have noName : ∀ ty ∈ scalarParts values ++ items, isName ty = false := by
    intro ty mem
    rcases List.mem_append.1 mem with mem | mem
    · obtain ⟨p, -, rfl⟩ := exists_of_mem_scalarParts mem
      rfl
    · rw [isName, sequences ty mem]
      rfl
  have notPrimitive : ∀ p, .primitive p ∈ scalarParts values ++ items ++ names →
      .primitive p ∈ scalarParts values := by
    intro p mem
    rcases List.mem_append.1 mem with mem | mem
    · refine (List.mem_append.1 mem).resolve_right fun mem => ?_
      cases sequences _ mem
    · cases (records _ mem).1
  have scalarsOnce : ∀ a ∈ scalarParts values, ∀ b ∈ scalarParts values,
      a.shape = b.shape → a = b := by
    intro a isA b isB same
    obtain ⟨p, -, rfl⟩ := exists_of_mem_scalarParts isA
    obtain ⟨q, -, rfl⟩ := exists_of_mem_scalarParts isB
    cases same
    rfl
  refine ⟨fun ty mem => ?_, unique_append (unique_append scalarsOnce (one oneItem) ?_)
    (one oneName) ?_, fun isFloat isInt => ?_, ?_⟩
  · rcases List.mem_append.1 mem with mem | mem
    · rcases List.mem_append.1 mem with mem | mem
      · obtain ⟨p, known, rfl⟩ := exists_of_mem_scalarParts mem
        rcases List.mem_cons.1 known with rfl | known
        · exact .inl rfl
        · exact .inr (decide_eq_true known)
      · exact .inr (by rw [isArm, sequences ty mem])
    · exact .inr (records ty mem).2
  · intro a isA b isB same
    obtain ⟨p, -, rfl⟩ := exists_of_mem_scalarParts isA
    rw [sequences b isB] at same
    cases same
  · intro a isA b isB same
    have named : isName b = isName a := by rw [isName, isName, same]
    rw [noName a isA, (records b isB).1] at named
    cases named
  · exact not_int_of_float (notPrimitive _ isFloat) (notPrimitive _ isInt)
  · rw [List.filter_append, List.filter_eq_nil_iff.2 fun ty mem => by simp [noName ty mem],
      List.nil_append]
    exact (List.length_filter_le _ _).trans oneName

end Typing

section Typing

variable {decls : List Document.RecordDecl} {n : Nat} {typing : Typing} {taken : List String}
  {hint : String}

/-- What is drafted for the values of one kind: one type at most, and it is for all of them. -/
structure CoversKind (decls : List Document.RecordDecl) (n : Nat)
    (draft : Drafted (List TypeExpr)) (values : List Json) : Prop where
  short : draft.value.length ≤ 1
  types : ∀ ty ∈ draft.value, IsDraft decls ty
  records : ∀ decl ∈ draft.records, IsDraftedRecord decls decl
  conforms : ∀ v ∈ values, v.depth ≤ n → v.FitsInt64 → ∃ ty ∈ draft.value, Conforms decls ty v

theorem CoversKind.none {values : List Json} (deep : ∀ v ∈ values, n < v.depth) :
    CoversKind decls n ⟨[], []⟩ values where
  short := Nat.zero_le _
  types _ mem := absurd mem List.not_mem_nil
  records _ mem := absurd mem List.not_mem_nil
  conforms v mem small := absurd small (Nat.not_le.2 (deep v mem))

theorem draftItems_covers (typesSoundly : TypesSoundly decls n typing) {lists : List (List Json)}
    (subset : (draftItems typing taken hint lists).records ⊆ decls) :
    CoversKind decls (n + 1) (draftItems typing taken hint lists) (lists.map .array) ∧
      ∀ ty ∈ (draftItems typing taken hint lists).value, ty.shape = .sequence := by
  unfold draftItems at subset ⊢
  split at subset
  case h_1 =>
    exact ⟨.none fun _ mem => absurd mem List.not_mem_nil, fun _ mem => absurd mem List.not_mem_nil⟩
  case h_2 none =>
    refine ⟨⟨Nat.le_refl _, List.forall_mem_singleton.2 (.sequence .any),
      fun _ mem => absurd mem List.not_mem_nil, ?_⟩, List.forall_mem_singleton.2 rfl⟩
    intro v mem _ _
    obtain ⟨items, isList, rfl⟩ := List.mem_map.1 mem
    refine ⟨_, List.mem_cons_self, .sequence fun w isItem => ?_⟩
    have := List.mem_flatten.2 ⟨items, isList, isItem⟩
    rw [none] at this
    cases this
  case h_3 =>
    have sound := typesSoundly taken (itemHint hint) _ subset
    refine ⟨⟨Nat.le_refl _, List.forall_mem_singleton.2 (.sequence sound.type), sound.records, ?_⟩,
      List.forall_mem_singleton.2 rfl⟩
    intro v mem small fits
    obtain ⟨items, isList, rfl⟩ := List.mem_map.1 mem
    refine ⟨_, List.mem_cons_self, .sequence fun w isItem => ?_⟩
    have less := Json.depth_lt_of_mem_items isItem
    cases fits with
    | array each =>
      exact sound.conforms w (List.mem_flatten.2 ⟨items, isList, isItem⟩)
        (Nat.le_of_lt_succ (less.trans_le small)) (each w isItem)

theorem draftObjects_covers (typesSoundly : TypesSoundly decls n typing) {samples : List Members}
    (subset : (draftObjects typing taken hint samples).records ⊆ decls) :
    CoversKind decls (n + 1) (draftObjects typing taken hint samples) (samples.map .object) ∧
      ∀ ty ∈ (draftObjects typing taken hint samples).value,
        isName ty = true ∧ isArm ty = true := by
  unfold draftObjects at subset ⊢
  split at subset
  case h_1 =>
    exact ⟨.none fun _ mem => absurd mem List.not_mem_nil, fun _ mem => absurd mem List.not_mem_nil⟩
  case h_2 =>
    obtain ⟨records, draft, conforms⟩ := draftRecord_sound typesSoundly subset
    refine ⟨⟨Nat.le_refl _, List.forall_mem_singleton.2 draft, records, ?_⟩,
      List.forall_mem_singleton.2 ⟨rfl, rfl⟩⟩
    intro v mem small fits
    obtain ⟨members, isSample, rfl⟩ := List.mem_map.1 mem
    exact ⟨_, List.mem_cons_self, conforms members isSample small fits⟩

theorem conforms_of_scalarType? {values : List Json} {v : Json} {ty : TypeExpr} (mem : v ∈ values)
    (isType : scalarType? v = some ty) (fits : v.FitsInt64) :
    v = .null ∧ .null ∈ scalarParts values ∨
      ∃ part ∈ scalarParts values, part.isNull = false ∧ Conforms decls part v := by
  have isPart := mem_scalarParts mem isType
  cases v with
  | null =>
    cases isType
    exact .inl ⟨rfl, isPart.resolve_right fun h => by cases h.1⟩
  | bool b =>
    cases isType
    exact .inr ⟨_, isPart.resolve_right (fun h => by cases h.1), rfl, .bool b⟩
  | string s =>
    cases isType
    exact .inr ⟨_, isPart.resolve_right (fun h => by cases h.1), rfl, .str s⟩
  | number x =>
    cases x with
    | float x =>
      cases isType
      exact .inr ⟨_, isPart.resolve_right (fun h => by cases h.1), rfl, .float _⟩
    | whole x =>
      cases isType
      rcases isPart with isInt | ⟨-, isFloat⟩
      · cases fits with
        | whole small => exact .inr ⟨_, isInt, rfl, .int small⟩
      · exact .inr ⟨_, isFloat, rfl, .float _⟩
  | array => cases isType
  | object => cases isType

theorem sound_of_covers {values : List Json} {items records : Drafted (List TypeExpr)}
    (lists : CoversKind decls n items ((arrays values).map .array))
    (sequences : ∀ ty ∈ items.value, ty.shape = .sequence)
    (samples : CoversKind decls n records ((objects values).map .object))
    (names : ∀ ty ∈ records.value, isName ty = true ∧ isArm ty = true) :
    Sound decls n ⟨settle (.unionOf (scalarParts values ++ items.value ++ records.value)),
      items.records ++ records.records⟩ values := by
  have parts : Parts (scalarParts values ++ items.value ++ records.value) :=
    parts_append sequences lists.short names samples.short
  have isDraft : ∀ ty ∈ scalarParts values ++ items.value ++ records.value, ty.isNull = false →
      IsDraft decls ty := by
    intro ty mem notNull
    rcases List.mem_append.1 mem with mem | mem
    · rcases List.mem_append.1 mem with mem | mem
      · obtain ⟨p, known, rfl⟩ := exists_of_mem_scalarParts mem
        refine .scalar ((List.mem_cons.1 known).resolve_left ?_)
        rintro rfl
        cases notNull
      · exact lists.types ty mem
    · exact samples.types ty mem
  obtain ⟨draft, null, conforms⟩ := parts.settle isDraft
  refine ⟨draft, List.forall_mem_append.2 ⟨lists.records, samples.records⟩, ?_⟩
  intro v mem small fits
  cases isType : scalarType? v with
  | some ty =>
    rcases conforms_of_scalarType? mem isType fits with
      ⟨rfl, isPart⟩ | ⟨part, isPart, notNull, isValue⟩
    · exact null (List.mem_append_left _ (List.mem_append_left _ isPart))
    · exact conforms part (List.mem_append_left _ (List.mem_append_left _ isPart)) notNull v isValue
  | none =>
    cases v with
    | array vs =>
      have isList := List.mem_map_of_mem (f := Json.array) (mem_arrays.2 mem)
      obtain ⟨ty, isPart, isValue⟩ := lists.conforms _ isList small fits
      refine conforms ty (List.mem_append_left _ (List.mem_append_right _ isPart)) ?_ _ isValue
      exact (lists.types ty isPart).isNull
    | object members =>
      have isSample := List.mem_map_of_mem (f := Json.object) (mem_objects.2 mem)
      obtain ⟨ty, isPart, isValue⟩ := samples.conforms _ isSample small fits
      exact conforms ty (List.mem_append_right _ isPart) (samples.types ty isPart).isNull _ isValue
    | number x => cases x <;> cases isType
    | _ => cases isType

/-- On the bound: what is inside arrays and objects is nested less deep. -/
theorem typeWithin_sound (n : Nat) : TypesSoundly decls n (typeWithin n) := by
  induction n with
  | zero =>
    intro taken hint values _
    have noLists : CoversKind decls 0 ⟨[], []⟩ ((arrays values).map .array) :=
      .none (List.forall_mem_map.2 fun items _ => by rw [Json.depth]; exact Nat.succ_pos _)
    have noSamples : CoversKind decls 0 ⟨[], []⟩ ((objects values).map .object) :=
      .none (List.forall_mem_map.2 fun members _ => by rw [Json.depth]; exact Nat.succ_pos _)
    have sound := sound_of_covers noLists (fun _ mem => absurd mem List.not_mem_nil) noSamples
      fun _ mem => absurd mem List.not_mem_nil
    rw [List.append_nil, List.append_nil] at sound
    rw [typeWithin]
    exact sound
  | succ n ih =>
    intro taken hint values subset
    rw [typeWithin] at subset ⊢
    obtain ⟨itemRecords, records⟩ := List.append_subset.1 subset
    obtain ⟨lists, sequences⟩ := draftItems_covers ih itemRecords
    obtain ⟨samples, names⟩ := draftObjects_covers ih records
    exact sound_of_covers lists sequences samples names

end Typing

section Naming

variable {typing : Typing}

/-- There is one candidate more than there are names, so one of them is free. -/
theorem freeName_not_mem (taken : List String) (hint : String) : freeName taken hint ∉ taken := by
  have injective : Function.Injective fun n : Nat => baseName hint ++ toString (n + 2) := by
    intro m n same
    have := Nat.repr_injective ((String.append_right_inj _).1 same)
    omega
  have fresh : baseName hint ∉
      (List.range taken.length).map fun n => baseName hint ++ toString (n + 2) := by
    intro mem
    obtain ⟨n, -, same⟩ := List.mem_map.1 mem
    have empty : toString (n + 2) = "" := (String.append_right_inj (baseName hint)).1 (by
      rw [same, String.append_empty])
    exact Nat.repr_ne_empty empty
  have distinct := List.nodup_cons.2 ⟨fresh, List.nodup_range.map injective⟩
  unfold freeName
  simp only
  cases found : List.find? (fun name => !taken.contains name) (baseName hint ::
      (List.range taken.length).map fun n => baseName hint ++ toString (n + 2)) with
  | some name => simpa using List.find?_some found
  | none =>
    have all := List.find?_eq_none.1 found
    have fewer : _ ≤ taken.length := distinct.length_le_of_subset fun name mem => by
      simpa using all name mem
    simp at fewer

/-- The names of all records are apart from one another and from those taken before. -/
def NamesApart (typing : Typing) : Prop :=
  ∀ taken hint values, taken.Nodup → (taken ++ namesOf (typing taken hint values).records).Nodup

theorem namesOf_append (a b : List Document.RecordDecl) :
    namesOf (a ++ b) = namesOf a ++ namesOf b :=
  List.map_append

theorem draftFields_names (apart : NamesApart typing) (samples : List Members)
    {taken keys : List String} (distinct : taken.Nodup) :
    (taken ++ namesOf (draftFields typing samples taken keys).records).Nodup := by
  induction keys generalizing taken with
  | nil =>
    rw [draftFields]
    exact (List.append_nil taken).symm ▸ distinct
  | cons key keys ih =>
    rw [draftFields]
    simp only
    rw [namesOf_append, ← List.append_assoc]
    exact ih (apart _ _ _ distinct)

theorem draftRecord_names (apart : NamesApart typing) {taken : List String} (hint : String)
    (samples : List Members) (distinct : taken.Nodup) :
    (taken ++ namesOf (draftRecord typing taken hint samples).records).Nodup := by
  have entered : (taken ++ [freeName taken hint]).Nodup :=
    List.nodup_append.2 ⟨distinct, List.nodup_singleton _, by
      rintro name mem _ isFree rfl
      rw [List.mem_singleton.1 isFree] at mem
      exact freeName_not_mem taken hint mem⟩
  have all : (taken ++ [freeName taken hint] ++ namesOf (draftFields typing samples
      (taken ++ [freeName taken hint]) (distinctKeys samples)).records).Nodup :=
    draftFields_names apart samples entered
  rw [List.append_assoc] at all
  exact all

theorem draftItems_names (apart : NamesApart typing) {taken : List String} (hint : String)
    (lists : List (List Json)) (distinct : taken.Nodup) :
    (taken ++ namesOf (draftItems typing taken hint lists).records).Nodup := by
  have none : (taken ++ namesOf []).Nodup := (List.append_nil taken).symm ▸ distinct
  unfold draftItems
  split
  · exact none
  · exact none
  · exact apart _ _ _ distinct

theorem draftObjects_names (apart : NamesApart typing) {taken : List String} (hint : String)
    (samples : List Members) (distinct : taken.Nodup) :
    (taken ++ namesOf (draftObjects typing taken hint samples).records).Nodup := by
  unfold draftObjects
  split
  · exact (List.append_nil taken).symm ▸ distinct
  · exact draftRecord_names apart hint _ distinct

theorem typeWithin_names (n : Nat) : NamesApart (typeWithin n) := by
  induction n with
  | zero =>
    intro taken hint values distinct
    rw [typeWithin]
    exact (List.append_nil taken).symm ▸ distinct
  | succ n ih =>
    intro taken hint values distinct
    rw [typeWithin]
    simp only
    rw [namesOf_append, ← List.append_assoc]
    exact draftObjects_names ih hint _ (draftItems_names ih hint _ distinct)

end Naming

theorem samplesOf_eq_ok {sample : Json} {samples : List Members}
    (isSamples : samplesOf sample = .ok samples) :
    (∃ members, sample = .object members ∧ samples = [members]) ∨
      samples ≠ [] ∧ sample = .array (samples.map .object) := by
  unfold samplesOf at isSamples
  split at isSamples
  case h_1 members =>
    cases isSamples
    exact .inl ⟨members, rfl, rfl⟩
  case h_2 first rest =>
    simp only at isSamples
    split at isSamples
    case isTrue all =>
      cases isSamples
      exact .inr ⟨List.ne_nil_of_length_eq_add_one all, congrArg Json.array (eq_map_objects all)⟩
    case isFalse => cases isSamples
  case h_3 => cases isSamples

theorem mem_of_samplesOf {sample : Json} {samples : List Members}
    (isSamples : samplesOf sample = .ok samples) {members : Members} (mem : members ∈ samples) :
    (Json.object members).depth ≤ sample.depth ∧
      (sample.FitsInt64 → (Json.object members).FitsInt64) := by
  rcases samplesOf_eq_ok isSamples with ⟨only, rfl, rfl⟩ | ⟨-, rfl⟩
  · rw [List.mem_singleton.1 mem]
    exact ⟨Nat.le_refl _, id⟩
  · have isItem : .object members ∈ samples.map Json.object := List.mem_map_of_mem mem
    refine ⟨Nat.le_of_lt (Json.depth_lt_of_mem_items isItem), fun fits => ?_⟩
    cases fits with
    | array each => exact each _ isItem

/-- Every sample is a value of the first record, and all records have drafted types and names of
their own. -/
theorem draft_sound {root : String} {sample : Json} {d : Document} {samples : List Members}
    (drafted : draft root sample = .ok d) (isSamples : samplesOf sample = .ok samples) :
    (namesOf d.records).Nodup ∧ (∀ decl ∈ d.records, IsDraftedRecord d.records decl) ∧
      ∃ decl, d.records.head? = some decl ∧ (sample.FitsInt64 →
        ∀ members ∈ samples, Conforms d.records (.named decl.name) (.object members)) := by
  rw [draft, isSamples] at drafted
  obtain rfl := Except.ok.inj drafted
  have names := draftRecord_names (typeWithin_names sample.depth) root samples List.nodup_nil
  obtain ⟨records, -, conforms⟩ :=
    draftRecord_sound (typeWithin_sound sample.depth) (List.Subset.refl
      (draftRecord (typeWithin sample.depth) [] root samples).records)
  refine ⟨names, records, _, rfl, fun fits members mem => ?_⟩
  obtain ⟨small, fitsAlso⟩ := mem_of_samplesOf isSamples mem
  exact conforms members mem (Nat.le_succ_of_le small) (fitsAlso fits)

end RecordCodec.Inference
