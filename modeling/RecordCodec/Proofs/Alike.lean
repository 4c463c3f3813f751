import Mathlib.Data.List.Perm.Subperm
import RecordCodec.Proofs.Equality

set_option autoImplicit false

/-!
# What is equal to a value

Equal values differ in the order of members only, and in the sign of zeros. Where the keys of
objects are distinct, equality is symmetric, and in any case it is transitive. So equal values have
equal members, and are equal to the same values.
-/
namespace RecordCodec

theorem forall₂_comp {α β γ : Type} {R : α → β → Prop} {S : β → γ → Prop} {T : α → γ → Prop}
    {as : List α} {bs : List β} {cs : List γ} (first : List.Forall₂ R as bs)
    (second : List.Forall₂ S bs cs) (both : ∀ a ∈ as, ∀ b c, R a b → S b c → T a c) :
    List.Forall₂ T as cs := by
  induction first generalizing cs with
  | nil =>
    cases second
    exact .nil
  | cons related _ ih =>
    cases second with
    | cons related' others =>
      obtain ⟨step, later⟩ := List.forall_mem_cons.1 both
      exact .cons (step _ _ related related') (ih others later)

theorem forall₂_imp_of_mem {α β : Type} {R S : α → β → Prop} {as : List α} {bs : List β}
    (h : List.Forall₂ R as bs) (step : ∀ a ∈ as, ∀ b, R a b → S a b) : List.Forall₂ S as bs := by
  have both : List.Forall₂ (fun a b => a ∈ as ∧ R a b) as bs :=
    (List.forall₂_and_left _ _).2 ⟨fun _ mem => mem, h⟩
  exact both.imp fun a b related => step a related.1 b related.2

theorem exists_forall₂_of_forall₂ {α β γ : Type} {S : α → β → Prop} {R : β → γ → Prop}
    {T : α → γ → Prop} {as : List α} {bs : List β} (h : List.Forall₂ S as bs)
    (step : ∀ a b, S a b → ∃ c, R b c ∧ T a c) :
    ∃ cs, List.Forall₂ R bs cs ∧ List.Forall₂ T as cs := by
  induction h with
  | nil => exact ⟨[], .nil, .nil⟩
  | cons related _ ih =>
    obtain ⟨c, first, second⟩ := step _ _ related
    obtain ⟨cs, firsts, seconds⟩ := ih
    exact ⟨c :: cs, .cons first firsts, .cons second seconds⟩

theorem pairwise_of_forall₂ {α β : Type} {R : α → β → Prop} {S : α → α → Prop}
    {T : β → β → Prop} {as : List α} {bs : List β} (h : List.Forall₂ R as bs)
    (pairs : as.Pairwise S)
    (step : ∀ a ∈ as, ∀ a' ∈ as, ∀ b b', R a b → R a' b' → S a a' → T b b') : bs.Pairwise T := by
  induction h with
  | nil => exact .nil
  | cons related others ih =>
    obtain ⟨apart, pairs⟩ := List.pairwise_cons.1 pairs
    refine .cons (fun b' mem => ?_) (ih pairs fun a mem a' mem' =>
      step a (List.mem_cons_of_mem _ mem) a' (List.mem_cons_of_mem _ mem'))
    obtain ⟨a', memA, related'⟩ := exists_of_forall₂ others mem
    exact step _ List.mem_cons_self a' (List.mem_cons_of_mem _ memA) _ _ related related'
      (apart a' memA)

namespace Assoc

variable {α β : Type}

theorem keys_eq_of_forall₂ {R : α → β → Prop} {a : List (String × α)} {b : List (String × β)}
    (h : List.Forall₂ (fun e e' => e.1 = e'.1 ∧ R e.2 e'.2) a b) : keys a = keys b := by
  rw [keys, keys, ← List.forall₂_eq_eq_eq, List.forall₂_map_left_iff, List.forall₂_map_right_iff]
  exact h.imp fun _ _ both => both.1

theorem get?_of_forall₂ {R : α → β → Prop} {a : List (String × α)} {b : List (String × β)}
    (h : List.Forall₂ (fun e e' => e.1 = e'.1 ∧ R e.2 e'.2) a b) (key : String) :
    Option.Rel R (get? key a) (get? key b) := by
  induction h with
  | nil => exact .none
  | @cons e e' _ _ related _ ih =>
    obtain ⟨k, x⟩ := e
    obtain ⟨l, y⟩ := e'
    obtain ⟨rfl, related⟩ := related
    rw [get?, get?]
    split_ifs with isKey
    · exact .some related
    · exact ih

/-- Entries that are all found in a list of the same length are those of the list in another
order. -/
theorem exists_perm_of_found {R : α → β → Prop} {a : List (String × α)} {b : List (String × β)}
    (distinct : (keys a).Nodup) (even : a.length = b.length)
    (found : ∀ e ∈ a, ∃ y, get? e.1 b = some y ∧ R e.2 y) :
    ∃ b', b'.Perm b ∧ List.Forall₂ (fun e e' => e.1 = e'.1 ∧ R e.2 e'.2) a b' := by
  have alone : ∀ e ∈ a, ∃ e', e' ∈ b ∧ e.1 = e'.1 ∧ R e.2 e'.2 := by
    intro e mem
    obtain ⟨y, isValue, related⟩ := found e mem
    exact ⟨(e.1, y), mem_of_get? isValue, rfl, related⟩
  obtain ⟨b', all⟩ := exists_forall₂ alone
  have names : keys a = keys b' := keys_eq_of_forall₂ (all.imp fun _ _ both => both.2)
  have nodup : b'.Nodup := by
    rw [names] at distinct
    exact distinct.of_map
  have subset : b' ⊆ b := by
    intro e mem
    obtain ⟨_, -, isEntry, -⟩ := exists_of_forall₂ all mem
    exact isEntry
  refine ⟨b', (nodup.subperm subset).perm_of_length_le ?_, all.imp fun _ _ both => both.2⟩
  exact Nat.le_of_eq (even.symm.trans all.length_eq)

theorem found_symm {R : α → β → Prop} {a : List (String × α)} {b : List (String × β)}
    (distinct : (keys a).Nodup) (even : a.length = b.length)
    (found : ∀ e ∈ a, ∃ y, get? e.1 b = some y ∧ R e.2 y) :
    (keys b).Nodup ∧ ∀ e ∈ b, ∃ x, (e.1, x) ∈ a ∧ get? e.1 a = some x ∧ R x e.2 := by
  obtain ⟨b', perm, related⟩ := exists_perm_of_found distinct even found
  have names := keys_eq_of_forall₂ related
  have distinct' : (keys b).Nodup := by
    rw [names] at distinct
    exact (perm.map Prod.fst).nodup_iff.1 distinct
  refine ⟨distinct', fun e mem => ?_⟩
  obtain ⟨x, isEntry, isName, related⟩ := exists_of_forall₂ related (perm.mem_iff.2 mem)
  exact ⟨x.2, isName ▸ isEntry, isName ▸ get?_of_mem distinct isEntry, related⟩

theorem found_iff_rel_get? {R : α → β → Prop} {a : List (String × α)} {b : List (String × β)}
    (distinct : (keys a).Nodup) (distinct' : (keys b).Nodup) :
    (a.length = b.length ∧ ∀ e ∈ a, ∃ y, get? e.1 b = some y ∧ R e.2 y) ↔
      ∀ key, Option.Rel R (get? key a) (get? key b) := by
  constructor
  · rintro ⟨even, found⟩ key
    obtain ⟨-, found'⟩ := found_symm distinct even found
    cases isEntry : get? key a with
    | some x =>
      obtain ⟨y, isEntry', related⟩ := found _ (mem_of_get? isEntry)
      rw [isEntry']
      exact .some related
    | none =>
      have absent : get? key b = none := by
        refine get?_eq_none_iff.2 fun mem => ?_
        obtain ⟨e, isMember, rfl⟩ := List.mem_map.1 mem
        obtain ⟨_, mem, -⟩ := found' e isMember
        exact get?_eq_none_iff.1 isEntry (List.mem_map.2 ⟨_, mem, rfl⟩)
      rw [absent]
      exact .none
  · intro related
    have present (key : String) : (get? key a).isSome = (get? key b).isSome := by
      have values := related key
      generalize get? key a = x, get? key b = y at values
      cases values <;> rfl
    have permuted : (keys a).Perm (keys b) := by
      refine (List.perm_ext_iff_of_nodup distinct distinct').2 fun key => ?_
      rw [← isSome_get?_iff, ← isSome_get?_iff, present]
    refine ⟨by simpa [keys] using permuted.length_eq, fun e mem => ?_⟩
    have found := related e.1
    rw [get?_of_mem distinct mem] at found
    generalize get? e.1 b = entry at found ⊢
    cases found with
    | some equal => exact ⟨_, rfl, equal⟩

end Assoc

theorem Binary64.Finite.same_symm {x y : Finite} (h : x.same y = true) : y.same x = true := by
  simp only [same, Bool.or_eq_true, Bool.and_eq_true, beq_iff_eq] at h ⊢
  exact h.imp And.symm Eq.symm

theorem Binary64.Finite.same_trans {x y z : Finite} (h : x.same y = true) (h' : y.same z = true) :
    x.same z = true := by
  simp only [same, Bool.or_eq_true, Bool.and_eq_true, beq_iff_eq] at h h' ⊢
  rcases h with ⟨first, second⟩ | rfl
  · rcases h' with ⟨-, third⟩ | rfl
    · exact .inl ⟨first, third⟩
    · exact .inl ⟨first, second⟩
  · exact h'

theorem Binary64.same_symm {x y : Binary64} (h : x.same y = true) : y.same x = true := by
  cases x <;> cases y <;> simp_all [same, Finite.same_symm]

theorem Binary64.same_trans {x y z : Binary64} (h : x.same y = true) (h' : y.same z = true) :
    x.same z = true := by
  cases x with
  | finite x =>
    cases y <;> cases z <;> simp only [same, Bool.false_eq_true] at h h' ⊢
    exact Finite.same_trans h h'
  | infinite a => cases y <;> cases z <;> simp_all [same]
  | nan => simp [same] at h

namespace Json

theorem Number.same_symm {n m : Number} (h : n.same m = true) : m.same n = true := by
  cases n <;> cases m <;> simp_all [same, Binary64.Finite.same_symm]

theorem Number.same_trans {n m l : Number} (first : n.same m = true) (second : m.same l = true) :
    n.same l = true := by
  cases n with
  | whole n =>
    cases m with
    | whole m =>
      obtain rfl : n = m := by simpa [same] using first
      exact second
    | float => cases first
  | float x =>
    cases m with
    | whole => cases first
    | float y =>
      cases l with
      | whole => cases second
      | float z => exact Binary64.Finite.same_trans first second

theorem induction {motive : Json → Prop} (null : motive .null) (bool : ∀ b, motive (.bool b))
    (number : ∀ n, motive (.number n)) (string : ∀ s, motive (.string s))
    (array : ∀ items, (∀ v ∈ items, motive v) → motive (.array items))
    (object : ∀ members, (∀ e ∈ members, motive e.2) → motive (.object members)) (v : Json) :
    motive v :=
  @Json.rec motive (fun items => ∀ v ∈ items, motive v) (fun members => ∀ e ∈ members, motive e.2)
    (fun e => motive e.2) null bool number string array object
    (fun _ mem => absurd mem List.not_mem_nil)
    (fun _ _ first others => List.forall_mem_cons.2 ⟨first, others⟩)
    (fun _ mem => absurd mem List.not_mem_nil)
    (fun _ _ first others => List.forall_mem_cons.2 ⟨first, others⟩)
    (fun _ _ inner => inner) v

variable {u v w : Json}

theorem sameItems_iff {a b : List Json} :
    sameItems a b = true ↔ List.Forall₂ (fun v w => v.same w = true) a b := by
  induction a generalizing b with
  | nil => cases b <;> simp [sameItems]
  | cons v rest ih => cases b <;> simp [sameItems, ih]

theorem sameMembers_iff {a b : List (String × Json)} :
    sameMembers a b = true ↔ ∀ e ∈ a, ∃ w, Assoc.get? e.1 b = some w ∧ e.2.same w = true := by
  refine ⟨fun h => ?_, sameMembers_of_forall⟩
  induction a with
  | nil => simp
  | cons e rest ih =>
    obtain ⟨key, v⟩ := e
    rw [sameMembers, Bool.and_eq_true] at h
    refine List.forall_mem_cons.2 ⟨?_, ih h.2⟩
    cases found : Assoc.get? key b with
    | none => simp [found] at h
    | some w => exact ⟨w, rfl, by simpa [found] using h.1⟩

theorem exists_of_array_same {a : List Json} (h : same (.array a) w = true) :
    ∃ b, w = .array b ∧ List.Forall₂ (fun v w => v.same w = true) a b := by
  cases w with
  | array b => exact ⟨b, rfl, sameItems_iff.1 (by simpa only [same] using h)⟩
  | _ => simp [same] at h

theorem exists_of_object_same {a : List (String × Json)} (h : same (.object a) w = true) :
    ∃ b, w = .object b ∧ a.length = b.length ∧
      ∀ e ∈ a, ∃ w, Assoc.get? e.1 b = some w ∧ e.2.same w = true := by
  cases w with
  | object b =>
    simp only [same, Bool.and_eq_true, beq_iff_eq] at h
    exact ⟨b, rfl, h.1, sameMembers_iff.1 h.2⟩
  | _ => simp [same] at h

theorem Proper.same_symm (h : v.Proper) (same : v.same w = true) : w.same v = true := by
  induction h generalizing w with
  | null => cases w <;> simp_all [Json.same]
  | bool b => cases w <;> simp_all [Json.same]
  | number n =>
    cases w with
    | number m =>
      rw [Json.same] at same ⊢
      exact n.same_symm same
    | _ => simp [Json.same] at same
  | string s => cases w <;> simp_all [Json.same]
  | array _ ih =>
    obtain ⟨b, rfl, equal⟩ := exists_of_array_same same
    rw [Json.same, sameItems_iff]
    exact (forall₂_imp_of_mem equal ih).flip
  | object distinct _ ih =>
    obtain ⟨b, rfl, even, found⟩ := exists_of_object_same same
    obtain ⟨-, found'⟩ :=
      Assoc.found_symm (R := fun v w => Json.same v w = true) distinct even found
    rw [Json.same, Bool.and_eq_true, beq_iff_eq, sameMembers_iff]
    refine ⟨even.symm, fun e mem => ?_⟩
    obtain ⟨x, isEntry, isFound, equal⟩ := found' e mem
    exact ⟨x, isFound, ih _ isEntry equal⟩

theorem same_trans (first : u.same v = true) (second : v.same w = true) : u.same w = true := by
  induction u using Json.induction generalizing v w with
  | null =>
    cases v with
    | null => exact second
    | _ => simp [same] at first
  | bool b =>
    cases v with
    | bool c =>
      obtain rfl : b = c := by simpa [same] using first
      exact second
    | _ => simp [same] at first
  | number n =>
    cases v with
    | number m =>
      cases w with
      | number l =>
        simp only [same] at first second ⊢
        exact n.same_trans first second
      | _ => simp [same] at second
    | _ => simp [same] at first
  | string s =>
    cases v with
    | string t =>
      obtain rfl : s = t := by simpa [same] using first
      exact second
    | _ => simp [same] at first
  | array items ih =>
    obtain ⟨b, rfl, equal⟩ := exists_of_array_same first
    obtain ⟨c, rfl, equal'⟩ := exists_of_array_same second
    rw [same, sameItems_iff]
    exact forall₂_comp equal equal' fun x mem y z => ih x mem
  | object members ih =>
    obtain ⟨b, rfl, even, found⟩ := exists_of_object_same first
    obtain ⟨c, rfl, even', found'⟩ := exists_of_object_same second
    rw [Json.same, Bool.and_eq_true, beq_iff_eq, sameMembers_iff]
    refine ⟨even.trans even', fun e mem => ?_⟩
    obtain ⟨y, isMember, equal⟩ := found e mem
    obtain ⟨z, isMember', equal'⟩ := found' _ (Assoc.mem_of_get? isMember)
    exact ⟨z, isMember', ih e mem equal equal'⟩

theorem Proper.same_congr (proper : v.Proper) (h : v.same w = true) (u : Json) :
    u.same v = u.same w := by
  rw [Bool.eq_iff_iff]
  exact ⟨fun first => same_trans first h, fun first => same_trans first (proper.same_symm h)⟩

theorem Proper.get? (proper : v.Proper) {key : String} (found : v.get? key = some w) :
    w.Proper := by
  cases proper with
  | object _ inner => exact inner _ (Assoc.mem_of_get? found)
  | _ => cases found

theorem mem_keys_iff {key : String} : key ∈ v.keys ↔ (v.get? key).isSome = true := by
  cases v with
  | object members => exact Assoc.isSome_get?_iff.symm
  | _ => simp [keys, Json.get?]

theorem Proper.get?_same (proper : v.Proper) (h : v.same w = true) (key : String) :
    Option.Rel (fun x y => same x y = true) (v.get? key) (w.get? key) := by
  cases v with
  | object a =>
    obtain ⟨b, rfl, even, found⟩ := exists_of_object_same h
    cases proper with
    | object distinct _ =>
      obtain ⟨distinct', -⟩ :=
        Assoc.found_symm (R := fun v w => Json.same v w = true) distinct even found
      exact (Assoc.found_iff_rel_get? distinct distinct').1 ⟨even, found⟩ key
  | array items =>
    obtain ⟨b, rfl, -⟩ := exists_of_array_same h
    exact .none
  | _ =>
    cases w with
    | object => simp [same] at h
    | _ => exact .none

end Json

end RecordCodec
