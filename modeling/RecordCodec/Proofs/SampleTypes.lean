import RecordCodec.Inference
import RecordCodec.Proofs.Documents
import RecordCodec.Proofs.Rereading

set_option autoImplicit false

/-!
# The types that samples get

All samples at one place get one type, which is put together from the types of the kinds of values
that are there. What comes of it is a small part of all types: no union has two arms for values of
one kind, and null is never an arm but makes the whole optional.
-/
namespace RecordCodec

/-- All whole numbers in the value fit 64 bits with a sign. -/
inductive Json.FitsInt64 : Json → Prop where
  | null : FitsInt64 .null
  | bool (b : Bool) : FitsInt64 (.bool b)
  | whole {n : Whole} : n.val < 0x8000000000000000 → FitsInt64 (.number (.whole n))
  | float (x : Binary64.Finite) : FitsInt64 (.number (.float x))
  | string (s : String) : FitsInt64 (.string s)
  | array {items : List Json} : (∀ v ∈ items, FitsInt64 v) → FitsInt64 (.array items)
  | object {members : List (String × Json)} : (∀ e ∈ members, FitsInt64 e.2) →
    FitsInt64 (.object members)

namespace Json

theorem depth_lt_of_mem_items {items : List Json} {v : Json} (h : v ∈ items) :
    v.depth < (array items).depth := by
  rw [depth, Nat.lt_succ_iff]
  induction items with
  | nil => cases h
  | cons w rest ih =>
    rw [depthItems]
    rcases List.mem_cons.1 h with rfl | h
    · exact Nat.le_max_left _ _
    · exact Nat.le_trans (ih h) (Nat.le_max_right _ _)

theorem depth_lt_of_mem_members {members : List (String × Json)} {e : String × Json}
    (h : e ∈ members) : e.2.depth < (object members).depth := by
  rw [depth, Nat.lt_succ_iff]
  induction members with
  | nil => cases h
  | cons head rest ih =>
    rw [depthMembers]
    rcases List.mem_cons.1 h with rfl | h
    · exact Nat.le_max_left _ _
    · exact Nat.le_trans (ih h) (Nat.le_max_right _ _)

end Json

namespace TypeExpr

section Distinct

theorem pairwise_distinct (members : List TypeExpr) :
    (distinct members).Pairwise fun a b => same a b = false := by
  induction members using List.reverseRecOn with
  | nil => exact .nil
  | append_singleton members ty ih =>
    rw [distinct_concat]
    split
    case isTrue => exact ih
    case isFalse new =>
      refine List.pairwise_append.2 ⟨ih, List.pairwise_singleton _ _, fun a mem b isLast => ?_⟩
      obtain rfl := List.mem_singleton.1 isLast
      exact Bool.eq_false_iff.2 fun equal => new (List.any_eq_true.2 ⟨a, mem, equal⟩)

theorem mem_distinct_or {members : List TypeExpr} {ty : TypeExpr} (mem : ty ∈ members) :
    ty ∈ distinct members ∨ ∃ seen ∈ distinct members, same seen ty = true := by
  induction members using List.reverseRecOn with
  | nil => cases mem
  | append_singleton members last ih =>
    rw [distinct_concat]
    split
    case isTrue equal =>
      rcases List.mem_append.1 mem with old | isLast
      · exact ih old
      · obtain rfl := List.mem_singleton.1 isLast
        exact .inr (List.any_eq_true.1 equal)
    case isFalse =>
      rcases List.mem_append.1 mem with old | isLast
      · refine (ih old).imp (List.mem_append_left _) fun ⟨seen, isSeen, equal⟩ => ?_
        exact ⟨seen, List.mem_append_left _ isSeen, equal⟩
      · exact .inl (List.mem_append_right _ isLast)

theorem shape_eq_of_same {a b : TypeExpr} (h : same a b = true) : a.shape = b.shape := by
  obtain ⟨shape, args, literals⟩ := a
  rw [same, Bool.and_eq_true, Bool.and_eq_true] at h
  exact beq_iff_eq.1 h.1.1

end Distinct
end TypeExpr

namespace Inference

open TypeExpr (same distinct alternatives)

def scalars : List Primitive := [.bool, .int, .float, .str]

def isArm (ty : TypeExpr) : Bool :=
  match ty.shape with
  | .primitive p => p ∈ scalars
  | .sequence | .named _ => true
  | _ => false

def isName (ty : TypeExpr) : Bool := ty.shape.declaredName?.isSome

/-- The arms of a drafted union: each is for another kind of value, and one at most is a record. -/
structure Arms (arms : List TypeExpr) : Prop where
  kinds : ∀ arm ∈ arms, isArm arm = true
  apart : arms.Pairwise fun a b => a.shape ≠ b.shape
  numbers : .primitive .float ∈ arms → .primitive .int ∉ arms
  names : (arms.filter isName).length ≤ 1

def declOf (name : String) (fields : List (String × TypeExpr)) : Document.RecordDecl :=
  { name, fields := fields.map fun e => fieldOf e.1 e.2 }

section
variable (decls : List Document.RecordDecl)

/-- The types that are drafted beside some records. -/
inductive IsDraft : TypeExpr → Prop where
  | any : IsDraft .any
  | scalar {p : Primitive} : p ∈ scalars → IsDraft (.primitive p)
  | sequence {item : TypeExpr} : IsDraft item → IsDraft (.sequence item)
  | record {name : String} {fields : List (String × TypeExpr)} : declOf name fields ∈ decls →
    (∀ e ∈ fields, IsDraft e.2) → IsDraft (.named name)
  | optional {inner : TypeExpr} : IsDraft inner → inner.shape ≠ .optional →
    IsDraft (.optional inner)
  | union {arms : List TypeExpr} : 2 ≤ arms.length → Arms arms → (∀ arm ∈ arms, IsDraft arm) →
    IsDraft (.union arms)

def IsDraftedRecord (decl : Document.RecordDecl) : Prop :=
  ∃ name fields, decl = declOf name fields ∧ ∀ e ∈ fields, IsDraft decls e.2

/-- The values of drafted types. Only an optional field may be absent. -/
inductive Conforms : TypeExpr → Json → Prop where
  | any (v : Json) : Conforms .any v
  | bool (b : Bool) : Conforms (.primitive .bool) (.bool b)
  | int {n : Json.Whole} : n.val < 0x8000000000000000 →
    Conforms (.primitive .int) (.number (.whole n))
  | float (n : Json.Number) : Conforms (.primitive .float) (.number n)
  | str (s : String) : Conforms (.primitive .str) (.string s)
  | sequence {item : TypeExpr} {items : List Json} : (∀ v ∈ items, Conforms item v) →
    Conforms (.sequence item) (.array items)
  | record {name : String} {fields : List (String × TypeExpr)} {members : Members} :
    declOf name fields ∈ decls → (∀ e ∈ fields, IsDraft decls e.2) →
    (∀ e ∈ fields, ∀ v, Assoc.get? e.1 members = some v → Conforms e.2 v) →
    (∀ e ∈ fields, Assoc.get? e.1 members = none → e.2.shape = .optional) →
    Conforms (.named name) (.object members)
  | null (inner : TypeExpr) : Conforms (.optional inner) .null
  | optional {inner : TypeExpr} {v : Json} : Conforms inner v → Conforms (.optional inner) v
  | union {arms : List TypeExpr} {arm : TypeExpr} {v : Json} : IsDraft decls (.union arms) →
    arm ∈ arms → Conforms arm v → Conforms (.union arms) v

end

section Joining

variable {decls : List Document.RecordDecl} {ty : TypeExpr} {v : Json}

theorem shape_of_isArm (h : isArm ty = true) :
    ty.isNull = false ∧ ty.shape ≠ .optional ∧ ty.shape ≠ .union := by
  obtain ⟨shape, args, literals⟩ := ty
  cases shape with
  | primitive p => cases p <;> simp [isArm, scalars, TypeExpr.isNull] at h ⊢
  | sequence => simp [TypeExpr.isNull]
  | named => simp [TypeExpr.isNull]
  | _ => cases h

theorem Arms.distinct {arms : List TypeExpr} (h : Arms arms) :
    arms.Pairwise fun a b => same a b = false :=
  h.apart.imp fun shapes => Bool.eq_false_iff.2 fun equal =>
    shapes (TypeExpr.shape_eq_of_same equal)

/-- There are no literals, which alone might differ from themselves. -/
theorem IsDraft.same_self (h : IsDraft decls ty) : same ty ty = true := by
  have node : ∀ (shape : Shape) (args : List TypeExpr), (∀ arg ∈ args, same arg arg = true) →
      same (.apply shape args) (.apply shape args) = true := by
    intro shape args each
    have all : TypeExpr.sameAll args args = true := by
      induction args with
      | nil => rfl
      | cons arg args ih =>
        obtain ⟨first, others⟩ := List.forall_mem_cons.1 each
        rw [TypeExpr.sameAll, first, ih others]
        rfl
    rw [TypeExpr.apply, same, all, beq_self_eq_true]
    rfl
  induction h with
  | any | scalar | record => exact node _ _ fun _ mem => absurd mem List.not_mem_nil
  | sequence _ ih => exact node _ _ (List.forall_mem_singleton.2 ih)
  | optional _ _ ih => exact node _ _ (List.forall_mem_singleton.2 ih)
  | union _ _ _ ih => exact node _ _ ih

theorem IsDraft.isNull (h : IsDraft decls ty) : ty.isNull = false := by
  cases h with
  | @scalar p known =>
    cases p <;> first | rfl | simp [scalars] at known
  | _ => rfl

theorem IsDraft.unionOf_null (h : IsDraft decls ty) :
    ∃ inner, TypeExpr.unionOf [ty, .null] = .optional inner ∧ IsDraft decls inner ∧
      inner.shape ≠ .optional ∧ ∀ v, Conforms decls ty v → Conforms decls (.optional inner) v := by
  by_cases isOptional : ty.shape = .optional
  case pos =>
    cases h <;> cases isOptional
    case optional inner draft notOptional =>
      refine ⟨inner, ?_, draft, notOptional, fun v conforms => conforms⟩
      have notNull := draft.isNull
      have isNull : TypeExpr.null.isNull = true := rfl
      have all : [TypeExpr.optional inner, .null].flatMap alternatives = [.null, inner, .null] :=
        rfl
      have only : [TypeExpr.null, inner, .null].filter (fun ty => !ty.isNull) = [inner] := by
        simp [notNull, isNull]
      have nullable : [TypeExpr.null, inner, .null].any TypeExpr.isNull = true := by
        simp [isNull]
      unfold TypeExpr.unionOf
      simp only [all, only, nullable, TypeExpr.distinct_eq (List.pairwise_singleton _ inner)]
      rfl
  case neg =>
    refine ⟨ty, TypeExpr.unionOf_null h.isNull isOptional (fun isUnion => ?_), h, isOptional,
      fun v => .optional⟩
    cases h <;> cases isUnion
    case union arms more separate each =>
      exact ⟨arms, rfl, more, separate.distinct,
        fun arm mem => (shape_of_isArm (separate.kinds arm mem)).1⟩

/-- What the types of the samples at one place are put together from. Null may be among them. -/
structure Parts (parts : List TypeExpr) : Prop where
  kinds : ∀ ty ∈ parts, ty = .null ∨ isArm ty = true
  unique : ∀ a ∈ parts, ∀ b ∈ parts, a.shape = b.shape → a = b
  numbers : .primitive .float ∈ parts → .primitive .int ∉ parts
  names : (parts.filter isName).length ≤ 1

def armsOf (parts : List TypeExpr) : List TypeExpr := distinct (parts.filter fun ty => !ty.isNull)

/-- The type of some arms, where no arm leaves the type open. -/
def joined : List TypeExpr → TypeExpr
  | [] => .any
  | [only] => only
  | arms => .union arms

theorem unionOf_parts {parts : List TypeExpr} (h : Parts parts) :
    TypeExpr.unionOf parts =
      if (armsOf parts).isEmpty then .null
      else if parts.any TypeExpr.isNull then .optional (joined (armsOf parts))
      else joined (armsOf parts) := by
  have all : parts.flatMap alternatives = parts := by
    calc parts.flatMap alternatives = parts.flatMap fun ty => [ty] := by
          refine List.flatMap_congr fun ty mem => ?_
          rcases h.kinds ty mem with rfl | arm
          · rfl
          · exact TypeExpr.alternatives_of_plain (shape_of_isArm arm).2.1 (shape_of_isArm arm).2.2
      _ = parts := List.flatMap_singleton' parts
  have arms : distinct (parts.filter fun ty => !ty.isNull) = armsOf parts := rfl
  unfold TypeExpr.unionOf
  simp only [all, arms]
  match armsOf parts with
  | [] => rfl
  | [only] => rfl
  | _ :: _ :: _ => rfl

theorem mem_armsOf_iff {parts : List TypeExpr} (h : Parts parts) :
    ty ∈ armsOf parts ↔ ty ∈ parts ∧ ty.isNull = false := by
  have isPart : ∀ ty, ty ∈ parts.filter (fun ty => !ty.isNull) ↔ ty ∈ parts ∧ ty.isNull = false :=
    fun ty => by rw [List.mem_filter, Bool.not_eq_true']
  constructor
  · exact fun mem => (isPart ty).1 ((TypeExpr.distinct_sublist _).subset mem)
  · intro given
    rcases TypeExpr.mem_distinct_or ((isPart ty).2 given) with isArm | ⟨seen, isArm, equal⟩
    · exact isArm
    · have isSeen := (List.mem_filter.1 ((TypeExpr.distinct_sublist _).subset isArm)).1
      rwa [h.unique seen isSeen ty given.1 (TypeExpr.shape_eq_of_same equal)] at isArm

theorem Parts.isArm_of_mem {parts : List TypeExpr} (h : Parts parts) (mem : ty ∈ armsOf parts) :
    isArm ty = true := by
  obtain ⟨isPart, notNull⟩ := (mem_armsOf_iff h).1 mem
  refine (h.kinds ty isPart).resolve_left ?_
  rintro rfl
  exact absurd notNull (by decide)

theorem Parts.arms {parts : List TypeExpr} (h : Parts parts)
    (each : ∀ ty ∈ parts, ty.isNull = false → IsDraft decls ty) : Arms (armsOf parts) := by
  refine ⟨fun arm => h.isArm_of_mem,
    (TypeExpr.pairwise_distinct _).imp_of_mem fun {a b} isA isB apart => ?_,
    fun isFloat isInt => ?_, ?_⟩
  · intro shapes
    obtain ⟨partA, notNull⟩ := (mem_armsOf_iff h).1 isA
    obtain rfl := h.unique a partA b ((mem_armsOf_iff h).1 isB).1 shapes
    rw [(each a partA notNull).same_self] at apart
    cases apart
  · exact h.numbers ((mem_armsOf_iff h).1 isFloat).1 ((mem_armsOf_iff h).1 isInt).1
  · refine le_trans (List.Sublist.length_le ?_) h.names
    exact ((TypeExpr.distinct_sublist _).trans List.filter_sublist).filter _

theorem Arms.joined {arms : List TypeExpr} (h : Arms arms)
    (each : ∀ arm ∈ arms, IsDraft decls arm) :
    IsDraft decls (joined arms) ∧ (Inference.joined arms).shape ≠ .optional ∧
      ∀ arm ∈ arms, ∀ v, Conforms decls arm v → Conforms decls (Inference.joined arms) v := by
  match arms with
  | [] => exact ⟨.any, nofun, nofun⟩
  | [only] =>
    have mem : only ∈ [only] := List.mem_cons_self
    refine ⟨each only mem, (shape_of_isArm (h.kinds only mem)).2.1, fun arm isArm v conforms => ?_⟩
    rwa [List.mem_singleton.1 isArm] at conforms
  | _ :: _ :: _ =>
    have draft : IsDraft decls (.union _) := .union (by simp) h each
    exact ⟨draft, nofun, fun arm mem v => .union draft mem⟩

/-- What is put together from the parts is a draft. The values of a part are values of it, and so is
null where it is one of the parts. -/
theorem Parts.settle {parts : List TypeExpr} (h : Parts parts)
    (each : ∀ ty ∈ parts, ty.isNull = false → IsDraft decls ty) :
    IsDraft decls (settle (.unionOf parts)) ∧
      (.null ∈ parts → Conforms decls (Inference.settle (.unionOf parts)) .null) ∧
      ∀ ty ∈ parts, ty.isNull = false → ∀ v, Conforms decls ty v →
        Conforms decls (Inference.settle (.unionOf parts)) v := by
  obtain ⟨draft, notOptional, conforms⟩ := (h.arms each).joined fun arm mem =>
    each arm ((mem_armsOf_iff h).1 mem).1 ((mem_armsOf_iff h).1 mem).2
  have conforms : ∀ ty ∈ parts, ty.isNull = false → ∀ v, Conforms decls ty v →
      Conforms decls (Inference.joined (armsOf parts)) v :=
    fun ty mem notNull => conforms ty ((mem_armsOf_iff h).2 ⟨mem, notNull⟩)
  rw [unionOf_parts h]
  by_cases none : (armsOf parts).isEmpty = true
  case pos =>
    rw [if_pos none]
    rw [List.isEmpty_iff.1 none] at conforms
    exact ⟨.optional .any nofun, fun _ => .null _,
      fun ty mem notNull v isValue => .optional (conforms ty mem notNull v isValue)⟩
  case neg =>
    rw [if_neg none]
    split
    case isTrue =>
      exact ⟨.optional draft notOptional, fun _ => .null _,
        fun ty mem notNull v isValue => .optional (conforms ty mem notNull v isValue)⟩
    case isFalse plain =>
      rw [Inference.settle, if_neg (by rw [draft.isNull]; exact Bool.false_ne_true)]
      refine ⟨draft, fun mem => absurd ?_ plain, conforms⟩
      exact List.any_eq_true.2 ⟨_, mem, rfl⟩

end Joining

end Inference
end RecordCodec
