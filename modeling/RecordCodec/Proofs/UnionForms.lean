import RecordCodec.Proofs.Alike
import RecordCodec.Proofs.SampleTypes

set_option autoImplicit false

/-!
# The form of a union

What a union accepts is decided by its leaves: the types that are reached from it through unions and
optional types, with null as one of them. The union of some members has the leaves of its members.
It takes each member apart one level deep, and that is enough for any member in normal form but an
optional union, which comes out as an arm unless nothing else stands beside it.
-/
namespace RecordCodec

theorem forall₂_flatMap {α β γ δ : Type} {R : α → β → Prop} {S : γ → δ → Prop} {as : List α}
    {bs : List β} {f : α → List γ} {g : β → List δ} (h : List.Forall₂ R as bs)
    (step : ∀ a ∈ as, ∀ b, R a b → List.Forall₂ S (f a) (g b)) :
    List.Forall₂ S (as.flatMap f) (bs.flatMap g) := by
  induction h with
  | nil => exact .nil
  | cons related _ ih =>
    obtain ⟨first, later⟩ := List.forall_mem_cons.1 step
    exact List.rel_append (first _ related) (ih later)

namespace TypeExpr

section Same

variable {a b c : TypeExpr}

theorem sameAll_iff {as bs : List TypeExpr} :
    sameAll as bs = true ↔ List.Forall₂ (fun a b => same a b = true) as bs := by
  induction as generalizing bs with
  | nil => cases bs <;> simp [sameAll]
  | cons a as ih => cases bs <;> simp [sameAll, ih]

theorem same_iff :
    same a b = true ↔ a.shape = b.shape ∧ List.Forall₂ (fun x y => same x y = true) a.args b.args ∧
      List.Forall₂ (fun v w => v.same w = true) a.literals b.literals := by
  obtain ⟨shape, args, literals⟩ := a
  rw [same, Bool.and_eq_true, Bool.and_eq_true, beq_iff_eq, sameAll_iff, Json.sameItems_iff,
    and_assoc]

theorem same_trans (first : same a b = true) (second : same b c = true) : same a c = true := by
  induction a using induction generalizing b c with
  | _ shape args literals ih =>
    obtain ⟨shapes, equal, values⟩ := same_iff.1 first
    obtain ⟨shapes', equal', values'⟩ := same_iff.1 second
    exact same_iff.2 ⟨shapes.trans shapes', forall₂_comp equal equal' fun x mem y z => ih x mem,
      forall₂_comp values values' fun v _ w u => Json.same_trans⟩

end Same

/-! ### Leaves -/

mutual
/-- The arms that are reached through unions and optional types; null counts as one. -/
def leaves : TypeExpr → List TypeExpr
  | ⟨shape, args, literals⟩ =>
    match shape with
    | .union => leavesOfAll args
    | .optional => null :: leavesOfAll args
    | .primitive .null => [null]
    | _ => [⟨shape, args, literals⟩]
def leavesOfAll : List TypeExpr → List TypeExpr
  | [] => []
  | ty :: rest => leaves ty ++ leavesOfAll rest
end

theorem leavesOfAll_eq (tys : List TypeExpr) : leavesOfAll tys = tys.flatMap leaves := by
  induction tys with
  | nil => rfl
  | cons ty rest ih => rw [leavesOfAll, ih, List.flatMap_cons]

theorem leaves_union (arms : List TypeExpr) : (union arms).leaves = arms.flatMap leaves :=
  leavesOfAll_eq arms

theorem leaves_optional (inner : TypeExpr) : (optional inner).leaves = null :: inner.leaves := by
  rw [← List.append_nil inner.leaves]
  rfl

theorem leaves_of_isNull {ty : TypeExpr} (h : ty.isNull = true) : ty.leaves = [null] := by
  obtain ⟨shape, args, literals⟩ := ty
  obtain rfl : shape = .primitive .null := beq_iff_eq.1 h
  rfl

theorem leaves_of_plain {ty : TypeExpr} (notNull : ty.isNull = false)
    (notOptional : ty.shape ≠ .optional) (notUnion : ty.shape ≠ .union) : ty.leaves = [ty] := by
  obtain ⟨shape, args, literals⟩ := ty
  unfold leaves
  split
  · exact absurd rfl notUnion
  · exact absurd rfl notOptional
  · cases notNull
  · rfl

theorem leaves_eq (ty : TypeExpr) : ty.leaves = ty.alternatives.flatMap leaves := by
  obtain ⟨shape, args, literals⟩ := ty
  unfold alternatives
  split
  case h_1 isUnion =>
    obtain rfl : shape = .union := isUnion
    exact leavesOfAll_eq args
  case h_2 isOptional =>
    obtain rfl : shape = .optional := isOptional
    exact congrArg (null :: ·) (leavesOfAll_eq args)
  case h_3 => exact (List.append_nil _).symm

theorem leaves_same {a b : TypeExpr} (h : same a b = true) :
    List.Forall₂ (fun x y => same x y = true) a.leaves b.leaves := by
  induction a using induction generalizing b with
  | _ shape args literals ih =>
    obtain ⟨shape', args', literals'⟩ := b
    obtain ⟨shapes, equal, -⟩ := same_iff.1 h
    obtain rfl : shape = shape' := shapes
    have all :
        List.Forall₂ (fun x y => same x y = true) (leavesOfAll args) (leavesOfAll args') := by
      rw [leavesOfAll_eq, leavesOfAll_eq]
      exact forall₂_flatMap equal fun x mem y => ih x mem
    unfold leaves
    split
    · exact all
    · exact .cons rfl all
    · exact .cons rfl .nil
    · exact .cons h .nil

/-- A type that is equal to this one is among the leaves. -/
def HasLeaf (ty x : TypeExpr) : Prop := ∃ a ∈ ty.leaves, same a x = true

section HasLeaf

variable {x ty : TypeExpr}

theorem hasLeaf_flatMap {tys : List TypeExpr} :
    (∃ a ∈ tys.flatMap leaves, same a x = true) ↔ ∃ ty ∈ tys, ty.HasLeaf x := by
  simp only [HasLeaf, List.mem_flatMap]
  constructor
  · rintro ⟨a, ⟨ty, mem, isLeaf⟩, equal⟩
    exact ⟨ty, mem, a, isLeaf, equal⟩
  · rintro ⟨ty, mem, a, isLeaf, equal⟩
    exact ⟨a, ⟨ty, mem, isLeaf⟩, equal⟩

theorem hasLeaf_union {arms : List TypeExpr} :
    (union arms).HasLeaf x ↔ ∃ arm ∈ arms, arm.HasLeaf x := by
  rw [← hasLeaf_flatMap, HasLeaf, leaves_union]

theorem hasLeaf_optional {inner : TypeExpr} :
    (optional inner).HasLeaf x ↔ same null x = true ∨ inner.HasLeaf x := by
  rw [HasLeaf, leaves_optional, List.exists_mem_cons_iff, HasLeaf]

theorem hasLeaf_of_isNull (h : ty.isNull = true) : ty.HasLeaf x ↔ same null x = true := by
  simp only [HasLeaf, leaves_of_isNull h, List.mem_singleton, exists_eq_left]

theorem hasLeaf_iff_alternatives : ty.HasLeaf x ↔ ∃ t ∈ ty.alternatives, t.HasLeaf x := by
  rw [← hasLeaf_flatMap, HasLeaf, leaves_eq]

theorem HasLeaf.of_same {ty' : TypeExpr} (h : ty.HasLeaf x) (equal : same ty' ty = true) :
    ty'.HasLeaf x := by
  obtain ⟨a, isLeaf, isX⟩ := h
  obtain ⟨a', isLeaf', equal'⟩ := exists_of_forall₂ (leaves_same equal) isLeaf
  exact ⟨a', isLeaf', same_trans equal' isX⟩

theorem hasLeaf_distinct {tys : List TypeExpr} :
    (∃ ty ∈ distinct tys, ty.HasLeaf x) ↔ ∃ ty ∈ tys, ty.HasLeaf x := by
  constructor
  · rintro ⟨ty, mem, has⟩
    exact ⟨ty, (distinct_sublist tys).subset mem, has⟩
  · rintro ⟨ty, mem, has⟩
    rcases mem_distinct_or mem with kept | ⟨seen, isSeen, equal⟩
    · exact ⟨ty, kept, has⟩
    · exact ⟨seen, isSeen, has.of_same equal⟩

end HasLeaf

section Cases

/-- What the members of a union bring to it, but for null, without duplicates. -/
def armsOf (members : List TypeExpr) : List TypeExpr :=
  distinct ((members.flatMap alternatives).filter fun ty => !ty.isNull)

/-- A member of a union is null or optional, or has null as an arm. -/
def isNullable (members : List TypeExpr) : Bool := (members.flatMap alternatives).any isNull

variable {members : List TypeExpr}

theorem unionOf_of_nil (h : armsOf members = []) : unionOf members = null := by
  rw [armsOf] at h
  simp only [unionOf, h]

theorem unionOf_of_ne_nil (h : armsOf members ≠ []) :
    ∃ inner, (armsOf members = [inner] ∨ 2 ≤ (armsOf members).length ∧
      inner = union (armsOf members)) ∧
      unionOf members = if isNullable members then optional inner else inner := by
  cases isArms : armsOf members with
  | nil => exact absurd isArms h
  | cons first others =>
    have found := isArms
    rw [armsOf] at found
    cases others with
    | nil => exact ⟨first, .inl rfl, by simp only [unionOf, found]; rfl⟩
    | cons second rest =>
      exact ⟨_, .inr ⟨by simp, rfl⟩, by simp only [unionOf, found]; rfl⟩

theorem mem_armsOf {ty : TypeExpr} (h : ty ∈ armsOf members) :
    ty.isNull = false ∧ ∃ m ∈ members, ty ∈ m.alternatives := by
  obtain ⟨mem, notNull⟩ := List.mem_filter.1 ((distinct_sublist _).subset h)
  exact ⟨by simpa using notNull, List.mem_flatMap.1 mem⟩

theorem mem_armsOf_or {m ty : TypeExpr} (isMember : m ∈ members) (mem : ty ∈ m.alternatives)
    (notNull : ty.isNull = false) :
    ty ∈ armsOf members ∨ ∃ arm ∈ armsOf members, same arm ty = true :=
  mem_distinct_or (List.mem_filter.2
    ⟨List.mem_flatMap.2 ⟨m, isMember, mem⟩, by rw [notNull]; rfl⟩)

theorem hasLeaf_members {x : TypeExpr} :
    (∃ m ∈ members, m.HasLeaf x) ↔
      isNullable members = true ∧ same null x = true ∨ ∃ arm ∈ armsOf members, arm.HasLeaf x := by
  have split : (∃ m ∈ members, m.HasLeaf x) ↔ ∃ t ∈ members.flatMap alternatives, t.HasLeaf x := by
    constructor
    · rintro ⟨m, isMember, has⟩
      obtain ⟨t, mem, has⟩ := hasLeaf_iff_alternatives.1 has
      exact ⟨t, List.mem_flatMap.2 ⟨m, isMember, mem⟩, has⟩
    · rintro ⟨t, mem, has⟩
      obtain ⟨m, isMember, mem⟩ := List.mem_flatMap.1 mem
      exact ⟨m, isMember, hasLeaf_iff_alternatives.2 ⟨t, mem, has⟩⟩
  rw [split, armsOf, hasLeaf_distinct, isNullable, List.any_eq_true]
  constructor
  · rintro ⟨t, mem, has⟩
    cases isNull : t.isNull with
    | true => exact .inl ⟨⟨t, mem, isNull⟩, (hasLeaf_of_isNull isNull).1 has⟩
    | false => exact .inr ⟨t, List.mem_filter.2 ⟨mem, by rw [isNull]; rfl⟩, has⟩
  · rintro (⟨⟨t, mem, isNull⟩, equal⟩ | ⟨t, mem, has⟩)
    · exact ⟨t, mem, (hasLeaf_of_isNull isNull).2 equal⟩
    · exact ⟨t, (List.mem_filter.1 mem).1, has⟩

/-- The union of some members has the leaves of the members, whatever these are. -/
theorem hasLeaf_unionOf {x : TypeExpr} (some : members.flatMap alternatives ≠ []) :
    (unionOf members).HasLeaf x ↔ ∃ m ∈ members, m.HasLeaf x := by
  rw [hasLeaf_members]
  by_cases none : armsOf members = []
  · have nullable : isNullable members = true := by
      obtain ⟨t, mem⟩ := List.exists_mem_of_ne_nil _ some
      refine List.any_eq_true.2 ⟨t, mem, ?_⟩
      obtain ⟨m, isMember, isPart⟩ := List.mem_flatMap.1 mem
      by_contra notNull
      rcases mem_armsOf_or isMember isPart (by simpa using notNull) with kept | ⟨arm, kept, -⟩ <;>
        simp [none] at kept
    rw [unionOf_of_nil none, hasLeaf_of_isNull rfl, none]
    simp [nullable]
  · obtain ⟨inner, form, whole⟩ := unionOf_of_ne_nil none
    have arms : inner.HasLeaf x ↔ ∃ arm ∈ armsOf members, arm.HasLeaf x := by
      rcases form with only | ⟨-, rfl⟩
      · simp [only]
      · exact hasLeaf_union
    rw [whole, ← arms]
    cases isNullable members with
    | true => simp [hasLeaf_optional]
    | false => simp

end Cases

/-! ### Normal forms -/

/-- What makes the form of a type normal, beside that of its arguments: an optional type is made of
one type that is neither optional nor null, and a union of two arms or more, none of them null or a
union and no two of them equal. Whether an arm may be optional is left open. -/
structure NormalNode (optionalArms : Bool) (ty : TypeExpr) : Prop where
  optional : ty.shape = .optional →
    ∃ inner, ty = .optional inner ∧ inner.shape ≠ .optional ∧ inner.isNull = false
  union : ty.shape = .union → ty = .union ty.args ∧ 2 ≤ ty.args.length ∧
    ty.args.Pairwise (fun a b => same a b = false) ∧
    ∀ arm ∈ ty.args, arm.isNull = false ∧ arm.shape ≠ .union ∧
      (arm.shape = .optional → optionalArms = true)

/-- The type is normal, and so is every type in it. No object in a literal has a key twice. -/
inductive Normal (optionalArms : Bool) : TypeExpr → Prop where
  | intro {ty : TypeExpr} : ty.NormalNode optionalArms →
    (∀ arg ∈ ty.args, Normal optionalArms arg) → (∀ v ∈ ty.literals, v.Proper) →
    Normal optionalArms ty

variable {optionalArms : Bool}

namespace Normal

variable {ty other : TypeExpr}

theorem node (h : ty.Normal optionalArms) : ty.NormalNode optionalArms := by
  cases h
  assumption

theorem args (h : ty.Normal optionalArms) : ∀ arg ∈ ty.args, arg.Normal optionalArms := by
  cases h
  assumption

theorem literals (h : ty.Normal optionalArms) : ∀ v ∈ ty.literals, v.Proper := by
  cases h
  assumption

theorem same_self (h : ty.Normal optionalArms) : same ty ty = true := by
  induction h with
  | intro _ _ values ih =>
    exact same_iff.2 ⟨rfl, List.forall₂_same.2 ih,
      List.forall₂_same.2 fun v mem => (values v mem).same_self⟩

theorem same_symm (h : ty.Normal optionalArms) (equal : same ty other = true) :
    same other ty = true := by
  induction h generalizing other with
  | intro _ _ values ih =>
    obtain ⟨shapes, equal, equal'⟩ := same_iff.1 equal
    exact same_iff.2 ⟨shapes.symm, (forall₂_imp_of_mem equal fun a mem b => ih a mem).flip,
      (forall₂_imp_of_mem equal' fun v mem w => (values v mem).same_symm).flip⟩

theorem primitive (p : Primitive) : (TypeExpr.primitive p).Normal optionalArms :=
  .intro ⟨nofun, nofun⟩ (fun _ mem => absurd mem List.not_mem_nil)
    fun _ mem => absurd mem List.not_mem_nil

theorem optional {inner : TypeExpr} (h : inner.Normal optionalArms)
    (notOptional : inner.shape ≠ .optional) (notNull : inner.isNull = false) :
    (TypeExpr.optional inner).Normal optionalArms :=
  .intro ⟨fun _ => ⟨inner, rfl, notOptional, notNull⟩, nofun⟩ (List.forall_mem_singleton.2 h)
    fun _ mem => absurd mem List.not_mem_nil

theorem union {arms : List TypeExpr} (more : 2 ≤ arms.length)
    (apart : arms.Pairwise fun a b => same a b = false)
    (plain : ∀ arm ∈ arms, arm.isNull = false ∧ arm.shape ≠ .union ∧
      (arm.shape = .optional → optionalArms = true))
    (each : ∀ arm ∈ arms, arm.Normal optionalArms) : (TypeExpr.union arms).Normal optionalArms :=
  .intro ⟨nofun, fun _ => ⟨rfl, more, apart, plain⟩⟩ each fun _ mem => absurd mem List.not_mem_nil

theorem alternative (h : ty.Normal optionalArms) {t : TypeExpr} (mem : t ∈ ty.alternatives) :
    t.Normal optionalArms := by
  unfold TypeExpr.alternatives at mem
  split at mem
  · exact h.args t mem
  · rcases List.mem_cons.1 mem with rfl | mem
    · exact .primitive .null
    · exact h.args t mem
  · obtain rfl := List.mem_singleton.1 mem
    exact h

theorem not_pairwise_of_same (h : ty.Normal optionalArms) {tys : List TypeExpr}
    (more : 2 ≤ tys.length) (equal : ∀ t ∈ tys, same ty t = true) :
    ¬tys.Pairwise fun a b => same a b = false := by
  intro apart
  match tys, more with
  | a :: b :: rest, _ =>
    have both := same_trans (h.same_symm (equal a List.mem_cons_self))
      (equal b (List.mem_cons_of_mem _ List.mem_cons_self))
    rw [(List.pairwise_cons.1 apart).1 b List.mem_cons_self] at both
    cases both

theorem alternative_cases (h : ty.Normal optionalArms) {t : TypeExpr}
    (mem : t ∈ ty.alternatives) (notNull : t.isNull = false) :
    (ty.shape = .union ∧ t ∈ ty.args) ∨ (ty = TypeExpr.optional t ∧ t.shape ≠ .optional) ∨
      (ty = t ∧ t.shape ≠ .optional ∧ t.shape ≠ .union) := by
  unfold TypeExpr.alternatives at mem
  split at mem
  case h_1 isUnion => exact .inl ⟨isUnion, mem⟩
  case h_2 isOptional =>
    obtain ⟨inner, rfl, notOptional, -⟩ := h.node.optional isOptional
    rcases List.mem_cons.1 mem with rfl | mem
    · cases notNull
    · obtain rfl := List.mem_singleton.1 mem
      exact .inr (.inl ⟨rfl, notOptional⟩)
  case h_3 notUnion notOptional =>
    obtain rfl := List.mem_singleton.1 mem
    exact .inr (.inr ⟨rfl, notOptional, notUnion⟩)

theorem same_optional (h : ty.Normal optionalArms) {inner : TypeExpr}
    (isUnion : inner.shape = .union)
    (equal : ∀ t ∈ ty.alternatives, t.isNull = false → same inner t = true) :
    ty.isNull = true ∨ same (TypeExpr.optional inner) ty = true := by
  refine or_iff_not_imp_left.2 fun notNull => ?_
  unfold TypeExpr.alternatives at equal
  split at equal
  case h_1 outer =>
    obtain ⟨-, more, -, plain⟩ := h.node.union outer
    obtain ⟨arm, mem⟩ := List.exists_mem_of_length_pos (Nat.lt_of_lt_of_le Nat.zero_lt_two more)
    obtain ⟨notNull, notUnion, -⟩ := plain arm mem
    exact absurd ((shape_eq_of_same (equal arm mem notNull)).symm.trans isUnion) notUnion
  case h_2 isOptional =>
    obtain ⟨inner', rfl, -, notNull⟩ := h.node.optional isOptional
    have both := equal inner' (List.mem_cons_of_mem _ List.mem_cons_self) notNull
    exact same_iff.2 ⟨rfl, .cons both .nil, .nil⟩
  case h_3 notUnion _ =>
    have both := equal ty List.mem_cons_self (by simpa using notNull)
    exact absurd ((shape_eq_of_same both).symm.trans isUnion) notUnion

theorem exists_hasLeaf (h : ty.Normal optionalArms) : ∃ x, ty.HasLeaf x := by
  induction h with
  | @intro ty node args values ih =>
    have here : ∀ t ∈ ty.alternatives, ∀ x, t.HasLeaf x → ∃ x, ty.HasLeaf x :=
      fun t mem x has => ⟨x, hasLeaf_iff_alternatives.2 ⟨t, mem, has⟩⟩
    unfold TypeExpr.alternatives at here
    split at here
    case h_1 isUnion =>
      obtain ⟨-, more, -⟩ := node.union isUnion
      obtain ⟨arm, mem⟩ := List.exists_mem_of_length_pos (Nat.lt_of_lt_of_le Nat.zero_lt_two more)
      obtain ⟨x, has⟩ := ih arm mem
      exact here arm mem x has
    case h_2 => exact here _ List.mem_cons_self TypeExpr.null ((hasLeaf_of_isNull rfl).2 rfl)
    case h_3 notUnion notOptional =>
      cases isNull : ty.isNull with
      | true => exact ⟨TypeExpr.null, (hasLeaf_of_isNull isNull).2 rfl⟩
      | false =>
        have leaf : ty.leaves = [ty] := leaves_of_plain isNull notOptional notUnion
        exact ⟨ty, ty, leaf ▸ List.mem_cons_self, (Normal.intro node args values).same_self⟩

end Normal

/-- An optional union among the members of a union has nothing beside it but null and itself. -/
def OptionalUnionsAlone (members : List TypeExpr) : Prop :=
  ∀ inner, inner.shape = .union → optional inner ∈ members →
    ∀ other ∈ members, other.isNull = true ∨ same (optional inner) other = true

section Unions

variable {members : List TypeExpr}

theorem flatMap_alternatives_ne_nil {m x : TypeExpr} (isMember : m ∈ members)
    (has : m.HasLeaf x) : members.flatMap alternatives ≠ [] := by
  obtain ⟨t, mem, -⟩ := hasLeaf_iff_alternatives.1 has
  exact List.ne_nil_of_mem (List.mem_flatMap.2 ⟨m, isMember, mem⟩)

theorem leaves_of_mem_leaves {ty a : TypeExpr} (h : a ∈ ty.leaves) : a.leaves = [a] := by
  induction ty using induction generalizing a with
  | _ shape args literals ih =>
    have below : a ∈ leavesOfAll args → a.leaves = [a] := by
      rw [leavesOfAll_eq, List.mem_flatMap]
      rintro ⟨arg, mem, isLeaf⟩
      exact ih arg mem isLeaf
    unfold leaves at h
    split at h
    case h_1 => exact below h
    case h_2 =>
      rcases List.mem_cons.1 h with rfl | h
      · rfl
      · exact below h
    case h_3 =>
      obtain rfl := List.mem_singleton.1 h
      rfl
    case h_4 notUnion notOptional notNull =>
      obtain rfl := List.mem_singleton.1 h
      exact leaves_of_plain (by simpa [isNull] using notNull) notOptional notUnion

theorem hasLeaf_unionOf_leaves {ty : TypeExpr} (some : ∃ x, ty.HasLeaf x) {order : List TypeExpr}
    (all : ∀ a, a ∈ order ↔ a ∈ ty.leaves) (x : TypeExpr) :
    (unionOf order).HasLeaf x ↔ ty.HasLeaf x := by
  have one : ∀ a ∈ order, ∀ x, a.HasLeaf x ↔ same a x = true := by
    intro a mem x
    simp only [HasLeaf, leaves_of_mem_leaves ((all a).1 mem), List.mem_singleton, exists_eq_left]
  obtain ⟨y, a, isLeaf, equal⟩ := some
  have mem := (all a).2 isLeaf
  rw [hasLeaf_unionOf (flatMap_alternatives_ne_nil mem ((one a mem y).2 equal))]
  constructor
  · rintro ⟨a, mem, has⟩
    exact ⟨a, (all a).1 mem, (one a mem x).1 has⟩
  · rintro ⟨a, isLeaf, equal⟩
    exact ⟨a, (all a).2 isLeaf, (one a ((all a).2 isLeaf) x).2 equal⟩

variable (normal : ∀ m ∈ members, m.Normal optionalArms)
include normal

theorem normal_of_mem_armsOf {ty : TypeExpr} (h : ty ∈ armsOf members) :
    ty.Normal optionalArms := by
  obtain ⟨-, m, isMember, mem⟩ := mem_armsOf h
  exact (normal m isMember).alternative mem

theorem same_of_armsOf_eq {only : TypeExpr} (one : armsOf members = [only]) {m t : TypeExpr}
    (isMember : m ∈ members) (mem : t ∈ m.alternatives) (notNull : t.isNull = false) :
    same only t = true := by
  have isOnly : ∀ arm ∈ armsOf members, arm = only := by simp [one]
  rcases mem_armsOf_or isMember mem notNull with kept | ⟨arm, kept, equal⟩
  · obtain rfl := isOnly t kept
    exact (normal_of_mem_armsOf normal kept).same_self
  · exact isOnly arm kept ▸ equal

/-- A union has two arms at least that stay apart, so one arm that is left is not optional. -/
theorem shape_of_armsOf_eq {only : TypeExpr} (one : armsOf members = [only]) :
    only.shape ≠ .optional := by
  have isArm : only ∈ armsOf members := one ▸ List.mem_cons_self
  obtain ⟨notNull, m, isMember, mem⟩ := mem_armsOf isArm
  rcases (normal m isMember).alternative_cases mem notNull with
    ⟨isUnion, -⟩ | ⟨-, notOptional⟩ | ⟨-, notOptional, -⟩
  · obtain ⟨whole, more, apart, plain⟩ := (normal m isMember).node.union isUnion
    have parts : m.alternatives = m.args := by rw [alternatives, isUnion]
    refine absurd apart ((normal_of_mem_armsOf normal isArm).not_pairwise_of_same more ?_)
    exact fun arm isArg => same_of_armsOf_eq normal one isMember (parts ▸ isArg) (plain arm isArg).1
  · exact notOptional
  · exact notOptional

theorem armsOf_of_alone (alone : OptionalUnionsAlone members) (more : 2 ≤ (armsOf members).length)
    {arm : TypeExpr} (isArm : arm ∈ armsOf members) : arm.shape ≠ .union := by
  intro isUnion
  obtain ⟨notNull, m, isMember, mem⟩ := mem_armsOf isArm
  have isOptional : m = optional arm := by
    rcases (normal m isMember).alternative_cases mem notNull with
      ⟨outer, inArgs⟩ | ⟨isOptional, -⟩ | ⟨-, -, notUnion⟩
    · exact absurd isUnion (((normal m isMember).node.union outer).2.2.2 arm inArgs).2.1
    · exact isOptional
    · exact absurd isUnion notUnion
  -- Every arm comes of a member that is equal to this one, and so is equal to this arm.
  have equal : ∀ b ∈ armsOf members, same arm b = true := by
    intro b isB
    obtain ⟨notNull', other, isOther, mem'⟩ := mem_armsOf isB
    rcases alone arm isUnion (isOptional ▸ isMember) other isOther with isNull | same
    · obtain rfl : b = other := by
        have shape : other.shape = .primitive .null := beq_iff_eq.1 isNull
        rw [alternatives, shape] at mem'
        exact List.mem_singleton.1 mem'
      cases isNull.symm.trans notNull'
    · obtain ⟨shapes, args, -⟩ := same_iff.1 same
      rw [alternatives, ← shapes] at mem'
      rcases List.mem_cons.1 mem' with rfl | mem'
      · cases notNull'
      · obtain ⟨a, isA, equal⟩ := exists_of_forall₂ args mem'
        exact List.mem_singleton.1 isA ▸ equal
  exact (normal_of_mem_armsOf normal isArm).not_pairwise_of_same more equal (pairwise_distinct _)

theorem normal_union_armsOf (alone : OptionalUnionsAlone members)
    (more : 2 ≤ (armsOf members).length) : (union (armsOf members)).Normal optionalArms := by
  refine .union more (pairwise_distinct _) (fun arm isArm => ?_)
    fun arm isArm => normal_of_mem_armsOf normal isArm
  obtain ⟨notNull, m, isMember, mem⟩ := mem_armsOf isArm
  refine ⟨notNull, armsOf_of_alone normal alone more isArm, fun isOptional => ?_⟩
  rcases (normal m isMember).alternative_cases mem notNull with
    ⟨isUnion, inArgs⟩ | ⟨-, notOptional⟩ | ⟨-, notOptional, -⟩
  · exact (((normal m isMember).node.union isUnion).2.2.2 arm inArgs).2.2 isOptional
  · exact absurd isOptional notOptional
  · exact absurd isOptional notOptional

/-- The union of normal members is normal just when its optional unions stand alone. -/
theorem normal_unionOf_iff :
    (unionOf members).Normal optionalArms ↔ OptionalUnionsAlone members := by
  constructor
  · intro isNormal inner isUnion isMember other isOther
    have notNull : inner.isNull = false := by rw [isNull, isUnion]; rfl
    have isPart : inner ∈ (optional inner).alternatives := List.mem_cons_of_mem _ List.mem_cons_self
    have stands := mem_armsOf_or isMember isPart notNull
    have some : armsOf members ≠ [] := by
      rcases stands with kept | ⟨arm, kept, -⟩ <;> exact List.ne_nil_of_mem kept
    obtain ⟨whole, form, isWhole⟩ := unionOf_of_ne_nil some
    have isNormal : whole.Normal optionalArms := by
      rw [isWhole] at isNormal
      split at isNormal
      · exact isNormal.args whole List.mem_cons_self
      · exact isNormal
    rcases form with one | ⟨-, rfl⟩
    · have first := same_of_armsOf_eq normal one isMember isPart notNull
      exact (normal other isOther).same_optional isUnion fun t mem notNull =>
        same_trans (isNormal.same_symm first) (same_of_armsOf_eq normal one isOther mem notNull)
    · obtain ⟨-, -, -, plain⟩ := isNormal.node.union rfl
      rcases stands with kept | ⟨arm, kept, equal⟩
      · exact absurd isUnion (plain inner kept).2.1
      · exact absurd ((shape_eq_of_same equal).trans isUnion) (plain arm kept).2.1
  · intro alone
    by_cases none : armsOf members = []
    · rw [unionOf_of_nil none]
      exact .primitive .null
    · obtain ⟨whole, form, isWhole⟩ := unionOf_of_ne_nil none
      obtain ⟨isNormal, notOptional, notNull⟩ : whole.Normal optionalArms ∧
          whole.shape ≠ .optional ∧ whole.isNull = false := by
        rcases form with one | ⟨more, rfl⟩
        · have isArm : whole ∈ armsOf members := one ▸ List.mem_cons_self
          exact ⟨normal_of_mem_armsOf normal isArm, shape_of_armsOf_eq normal one,
            (mem_armsOf isArm).1⟩
        · refine ⟨normal_union_armsOf normal alone more, fun isOptional => ?_, rfl⟩
          cases isOptional
      rw [isWhole]
      split
      · exact isNormal.optional notOptional notNull
      · exact isNormal

/-- The union of normal members has the leaves of all of them, and so has the union of its own
leaves in any order. It is normal unless an optional union stands beside something else. -/
theorem unionOf_normalizes (some : members ≠ []) :
    (∀ x, (unionOf members).HasLeaf x ↔ ∃ m ∈ members, m.HasLeaf x) ∧
      ((unionOf members).Normal optionalArms ↔ OptionalUnionsAlone members) ∧
      ∀ order, (∀ a, a ∈ order ↔ a ∈ (unionOf members).leaves) →
        ∀ x, (unionOf order).HasLeaf x ↔ (unionOf members).HasLeaf x := by
  obtain ⟨m, isMember⟩ := List.exists_mem_of_ne_nil _ some
  obtain ⟨x, has⟩ := (normal m isMember).exists_hasLeaf
  have leaves := fun x =>
    hasLeaf_unionOf (x := x) (flatMap_alternatives_ne_nil isMember has)
  exact ⟨leaves, normal_unionOf_iff normal, fun order all =>
    hasLeaf_unionOf_leaves ⟨x, (leaves x).2 ⟨m, isMember, has⟩⟩ all⟩

end Unions

namespace Scores

def grade : TypeExpr := union [primitive .int, primitive .str]

def members : List TypeExpr := [grade, optional (primitive .int), null]

theorem grade_normal : grade.Normal false := by
  refine .union (by decide) (.cons ?_ (List.pairwise_singleton _ _)) ?_ ?_
  · exact List.forall_mem_singleton.2 rfl
  · exact fun arm mem => by rcases List.mem_pair.1 mem with rfl | rfl <;> exact ⟨rfl, nofun, nofun⟩
  · exact fun arm mem => by rcases List.mem_pair.1 mem with rfl | rfl <;> exact .primitive _

theorem members_normal : ∀ m ∈ members, m.Normal false :=
  List.forall_mem_cons.2 ⟨grade_normal, List.forall_mem_cons.2
    ⟨.optional (.primitive .int) nofun rfl, List.forall_mem_singleton.2 (.primitive .null)⟩⟩

theorem members_alone : OptionalUnionsAlone members := by
  intro inner isUnion mem
  simp only [members, List.mem_cons, List.not_mem_nil, or_false] at mem
  rcases mem with same | same | same <;> cases same
  cases isUnion

end Scores

theorem unionOf_normalizes_scores :
    (∀ m ∈ Scores.members, m.Normal false) ∧ Scores.members ≠ [] ∧
      (unionOf Scores.members).Normal false ∧
      (unionOf Scores.members).HasLeaf (primitive .str) ∧
      (unionOf [primitive .str, null, primitive .int]).HasLeaf (primitive .str) := by
  obtain ⟨leaves, isNormal, reordered⟩ := unionOf_normalizes Scores.members_normal (by decide)
  have isText : (unionOf Scores.members).HasLeaf (primitive .str) :=
    (leaves _).2 ⟨Scores.grade, List.mem_cons_self, primitive .str,
      List.mem_cons_of_mem _ List.mem_cons_self, rfl⟩
  refine ⟨Scores.members_normal, by decide, isNormal.2 Scores.members_alone, isText, ?_⟩
  refine (reordered _ (fun a => ?_) _).2 isText
  have all : (unionOf Scores.members).leaves = [null, primitive .int, primitive .str] := rfl
  rw [all]
  simp only [List.mem_cons, List.not_mem_nil, or_false]
  tauto

/-- An optional union beside another member becomes an arm as it is, a union in a union. -/
theorem not_unionOf_normal :
    (∀ m ∈ [optional Scores.grade, primitive .float], m.Normal false) ∧
      unionOf [optional Scores.grade, primitive .float] =
        optional (union [Scores.grade, primitive .float]) ∧
      ¬(unionOf [optional Scores.grade, primitive .float]).Normal true := by
  refine ⟨List.forall_mem_cons.2 ⟨.optional Scores.grade_normal nofun rfl,
    List.forall_mem_singleton.2 (.primitive .float)⟩, rfl, fun isNormal => ?_⟩
  have inner : (union [Scores.grade, primitive .float]).Normal true :=
    isNormal.args _ List.mem_cons_self
  exact ((inner.node.union rfl).2.2.2 Scores.grade List.mem_cons_self).2.1 rfl

end TypeExpr
end RecordCodec
