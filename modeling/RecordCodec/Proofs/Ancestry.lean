import Mathlib.Data.List.Chain
import Mathlib.Data.List.Nodup
import Mathlib.Data.List.Perm.Subperm
import RecordCodec.Proofs.Declarations
import RecordCodec.Registry

set_option autoImplicit false

/-!
# The bases of custom types

Bases are declared freely: one may be missing, be no custom type or lead back to where the search
began. The chain of bases is followed up to the first name that was seen before. A custom type
without a handler of its own is compiled as the first of them that has one.
-/
namespace RecordCodec

namespace Schema

variable {s : Schema} {name base : String} {chain visited : List String}

/-- The base of a custom type, in the spelling of primitives that handlers are found by. -/
def spelledBase? (s : Schema) (name : String) : Option String := (s.base? name).map canonicalName

theorem mem_names_of_spelledBase? (h : s.spelledBase? name = some base) :
    name ∈ s.customs.names := by
  obtain ⟨_, isBase, -⟩ := Option.map_eq_some_iff.1 h
  obtain ⟨_, found, -⟩ := Option.bind_eq_some_iff.1 isBase
  exact Table.isSome_get?_iff.1 (Option.isSome_iff_exists.2 ⟨_, found⟩)

/-- Each name is the base of the one before it, no name comes twice, and the chain only ends where
there is no base or one that was there before. -/
structure IsAncestry (s : Schema) (name : String) (chain : List String) : Prop where
  distinct : (name :: chain).Nodup
  linked : (name :: chain).IsChain fun a b => s.spelledBase? a = some b
  ends : ∀ base, s.spelledBase? (chain.getLastD name) = some base → base ∈ name :: chain

structure Continues (s : Schema) (visited : List String) (name : String) (chain : List String) :
    Prop where
  fresh : ∀ other ∈ chain, other ∉ name :: visited
  distinct : chain.Nodup
  linked : (name :: chain).IsChain fun a b => s.spelledBase? a = some b
  ends : ∀ base, s.spelledBase? (chain.getLastD name) = some base →
    base ∈ chain ∨ base ∈ name :: visited

namespace Continues

theorem stop (h : ∀ base, s.spelledBase? name = some base → base ∈ name :: visited) :
    s.Continues visited name [] where
  fresh _ mem := absurd mem List.not_mem_nil
  distinct := .nil
  linked := .singleton _
  ends base isBase := .inr (h base isBase)

theorem cons (isBase : s.spelledBase? name = some base) (unseen : base ∉ name :: visited)
    (rest : s.Continues (name :: visited) base chain) :
    s.Continues visited name (base :: chain) where
  fresh := List.forall_mem_cons.2
    ⟨unseen, fun other mem seen => rest.fresh other mem (List.mem_cons_of_mem _ seen)⟩
  distinct := List.nodup_cons.2 ⟨fun mem => rest.fresh base mem List.mem_cons_self, rest.distinct⟩
  linked := .cons_cons isBase rest.linked
  ends next isNext := by
    have last : (base :: chain).getLastD name = chain.getLastD base := by
      cases chain <;> rfl
    rw [last] at isNext
    rcases rest.ends next isNext with mem | mem
    · exact .inl (List.mem_cons_of_mem _ mem)
    · rcases List.mem_cons.1 mem with rfl | mem
      · exact .inl List.mem_cons_self
      · exact .inr mem

end Continues

/-- Every name that a step was made from is another custom type, so there is fuel for as many steps
as can be made. -/
theorem ancestorsFrom_continues {fuel : Nat} (distinct : (name :: visited).Nodup)
    (customs : visited ⊆ s.customs.names)
    (enough : s.customs.names.length ≤ fuel + visited.length) :
    s.Continues visited name (s.ancestorsFrom fuel (name :: visited) name) := by
  induction fuel generalizing name visited with
  | zero =>
    refine .stop fun base isBase => ?_
    have all : name :: visited ⊆ s.customs.names :=
      List.cons_subset.2 ⟨mem_names_of_spelledBase? isBase, customs⟩
    have := (List.subperm_of_subset distinct all).length_le
    rw [List.length_cons] at this
    omega
  | succ fuel ih =>
    unfold ancestorsFrom
    cases isBase : s.base? name with
    | none => exact .stop fun base found => by simp [spelledBase?, isBase] at found
    | some base =>
      have spelled : s.spelledBase? name = some (canonicalName base) := by
        rw [spelledBase?, isBase, Option.map_some]
      simp only
      split
      case isTrue seen =>
        refine .stop fun other isOther => ?_
        cases spelled.symm.trans isOther
        exact List.contains_iff_mem.1 seen
      case isFalse unseen =>
        have new : canonicalName base ∉ name :: visited := fun mem =>
          unseen (List.contains_iff_mem.2 mem)
        refine .cons spelled new (ih (List.nodup_cons.2 ⟨new, distinct⟩) ?_ ?_)
        · exact List.cons_subset.2 ⟨mem_names_of_spelledBase? spelled, customs⟩
        · rw [List.length_cons]
          omega

theorem ancestors_isAncestry (s : Schema) (name : String) :
    s.IsAncestry name (s.ancestors name) := by
  have enough : s.customs.names.length ≤ s.customs.entries.length + ([] : List String).length := by
    rw [Table.names, List.length_map, List.length_nil, Nat.add_zero]
  have h : s.Continues [] name (s.ancestors name) :=
    ancestorsFrom_continues (List.nodup_singleton name) (List.nil_subset _) enough
  refine ⟨List.nodup_cons.2 ⟨fun mem => h.fresh name mem List.mem_cons_self, h.distinct⟩, h.linked,
    fun base isBase => ?_⟩
  rcases h.ends base isBase with mem | mem
  · exact List.mem_cons_of_mem _ mem
  · exact List.mem_singleton.1 mem ▸ List.mem_cons_self

end Schema

namespace Registry

variable {s : Schema} {r : Registry} {names : List String}

theorem inherited?_eq_findSome? (s : Schema) (r : Registry) (names : List String) :
    r.inherited? s names = names.findSome? fun name =>
      (r.lookup? (ancestorType s name)).map fun handler => (handler, ancestorType s name) := by
  induction names with
  | nil => rfl
  | cons name rest ih =>
    rw [inherited?, List.findSome?_cons]
    cases r.lookup? (ancestorType s name) with
    | none => exact ih
    | some handler => rfl

theorem inherited?_eq_some_iff {handler : Handler} {target : TypeExpr} :
    r.inherited? s names = some (handler, target) ↔
      ∃ before ancestor after, names = before ++ ancestor :: after ∧
        (∀ a ∈ before, r.lookup? (ancestorType s a) = none) ∧
        target = ancestorType s ancestor ∧ r.lookup? target = some handler := by
  rw [inherited?_eq_findSome?, List.findSome?_eq_some_iff]
  refine exists_congr fun before => exists_congr fun ancestor => exists_congr fun after =>
    and_congr_right fun _ => ?_
  simp only [Option.map_eq_none_iff, Option.map_eq_some_iff, Prod.mk.injEq]
  constructor
  · rintro ⟨⟨_, found, rfl, rfl⟩, before⟩
    exact ⟨before, rfl, found⟩
  · rintro ⟨before, rfl, found⟩
    exact ⟨⟨handler, found, rfl, rfl⟩, before⟩

theorem inherited?_eq_none_iff :
    r.inherited? s names = none ↔ ∀ a ∈ names, r.lookup? (ancestorType s a) = none := by
  simp only [inherited?_eq_findSome?, List.findSome?_eq_none_iff, Option.map_eq_none_iff]

end Registry

/-- The bases of a type are found, whatever is declared, without the type itself and without
repetition, up to where there is no base or one that was there before. A custom type without a
handler is compiled as the nearest of its bases that has one, and it is unsupported just if none
has. -/
theorem Schema.nearest_ancestor (s : Schema) :
    (∀ name, s.IsAncestry name (s.ancestors name)) ∧
    ∀ (r : Registry) (ty : TypeExpr) (name : String), ty.shape = .custom name →
      r.get? (.type name) = none → r.get? (.shape .custom) = none →
      (∀ handler target, r.resolve s ty = .ok (handler, target) ↔
        ∃ before ancestor after, s.ancestors name = before ++ ancestor :: after ∧
          (∀ a ∈ before, r.lookup? (Registry.ancestorType s a) = none) ∧
          target = Registry.ancestorType s ancestor ∧ r.lookup? target = some handler) ∧
      (r.resolve s ty = .error (.of (.unsupportedType ty.text)) ↔
        ∀ a ∈ s.ancestors name, r.lookup? (Registry.ancestorType s a) = none) := by
  refine ⟨s.ancestors_isAncestry, fun r ty name isCustom noName noShape => ?_⟩
  have noHandler : r.lookup? ty = none := by
    rw [Registry.lookup?, isCustom]
    simp only [Shape.typeName?, Shape.declaredName?, Shape.kind, Option.bind_some, noName, noShape,
      Option.or_none]
  have resolved : r.resolve s ty = (r.inherited? s (s.ancestors name)).elim
      (.error (.of (.unsupportedType ty.text))) .ok := by
    rw [Registry.resolve, noHandler, isCustom]
    simp only
    cases r.inherited? s (s.ancestors name) <;> rfl
  rw [← Registry.inherited?_eq_none_iff]
  simp only [← Registry.inherited?_eq_some_iff, resolved]
  cases r.inherited? s (s.ancestors name) with
  | none => exact ⟨fun _ _ => ⟨nofun, nofun⟩, ⟨fun _ => rfl, fun _ => rfl⟩⟩
  | some found =>
    refine ⟨fun handler target => ?_, ⟨nofun, nofun⟩⟩
    rw [Option.elim_some, Except.ok.injEq, Option.some.injEq]

namespace Mail

def schema : Schema where
  customs := (((Table.empty.insert "Email" (some "Text")).insert "Text" (some "str")).insert "A"
    (some "B")).insert "B" (some "A")

end Mail

theorem Schema.nearest_ancestor_email :
    Mail.schema.IsAncestry "Email" ["Text", "str"] ∧ Mail.schema.IsAncestry "A" ["B"] ∧
    Registry.builtin.resolve Mail.schema (.apply (.custom "Email") []) =
      .ok (.scalar .str, .primitive .str) ∧
    Registry.builtin.resolve Mail.schema (.apply (.custom "A") []) =
      .error (.of (.unsupportedType "A")) := by
  obtain ⟨chains, resolve⟩ := nearest_ancestor Mail.schema
  have email : Mail.schema.ancestors "Email" = ["Text", "str"] := by rfl
  have cyclic : Mail.schema.ancestors "A" = ["B"] := by rfl
  refine ⟨email ▸ chains "Email", cyclic ▸ chains "A", ?_, ?_⟩
  · refine ((resolve .builtin (.apply (.custom "Email") []) "Email" rfl rfl rfl).1 _ _).2
      ⟨["Text"], "str", [], email, ?_, rfl, rfl⟩
    exact List.forall_mem_singleton.2 rfl
  · refine (resolve .builtin (.apply (.custom "A") []) "A" rfl rfl rfl).2.2 ?_
    rw [cyclic]
    exact List.forall_mem_singleton.2 rfl

end RecordCodec
