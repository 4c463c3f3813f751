import RecordCodec.Proofs.EqualInputs
import RecordCodec.Proofs.Matching

set_option autoImplicit false

/-!
# Members in another order

A value is shuffled if the members of some of its objects, at any depth, are put in another order.
What is looked up in it by key, index or path is the same but shuffled in turn. Instances are
reordered if values at untyped positions are shuffled and mappings hold their entries in another
order. Equality of instances does not notice the former, but the latter it does.
-/
namespace RecordCodec

open Routine

namespace Assoc

variable {α : Type}

theorem get?_perm {a b : List (String × α)} (distinct : (keys a).Nodup) (permuted : a.Perm b)
    (key : String) : get? key a = get? key b := by
  have distinct' : (keys b).Nodup := (permuted.map Prod.fst).nodup_iff.1 distinct
  cases found : get? key a with
  | some v => exact (get?_of_mem distinct' (permuted.mem_iff.1 (mem_of_get? found))).symm
  | none =>
    symm
    rw [get?_eq_none_iff] at found ⊢
    exact fun mem => found ((permuted.map Prod.fst).mem_iff.2 mem)

end Assoc

namespace Json

/-- The members of objects are put in another order, at any depth. The keys of each object are
distinct. -/
inductive Shuffled : Json → Json → Prop where
  | flat {v : Json} : v.depth = 0 → Shuffled v v
  | array {a b : List Json} : a.length = b.length → (∀ e ∈ a.zip b, Shuffled e.1 e.2) →
    Shuffled (.array a) (.array b)
  | object {a b c : List (String × Json)} : (Assoc.keys a).Nodup → a.length = b.length →
    (∀ e ∈ a.zip b, e.1.1 = e.2.1) → (∀ e ∈ a.zip b, Shuffled e.1.2 e.2.2) → b.Perm c →
    Shuffled (.object a) (.object c)

namespace Shuffled

variable {v w : Json}

theorem of_items {a b : List Json} (h : List.Forall₂ Shuffled a b) :
    Shuffled (.array a) (.array b) :=
  .array h.length_eq fun _ mem => (List.forall₂_iff_zip.1 h).2 mem

theorem of_members {a b c : List (String × Json)} (distinct : (Assoc.keys a).Nodup)
    (h : List.Forall₂ (fun e e' => e.1 = e'.1 ∧ Shuffled e.2 e'.2) a b) (permuted : b.Perm c) :
    Shuffled (.object a) (.object c) :=
  .object distinct h.length_eq (fun _ mem => ((List.forall₂_iff_zip.1 h).2 mem).1)
    (fun _ mem => ((List.forall₂_iff_zip.1 h).2 mem).2) permuted

theorem exists_of_array {a : List Json} (h : Shuffled (.array a) w) :
    ∃ b, w = .array b ∧ List.Forall₂ Shuffled a b := by
  cases h with
  | flat isFlat => simp [depth] at isFlat
  | array even inner => exact ⟨_, rfl, List.forall₂_iff_zip.2 ⟨even, fun mem => inner _ mem⟩⟩

theorem exists_of_object {a : List (String × Json)} (h : Shuffled (.object a) w) :
    ∃ b c, w = .object c ∧ (Assoc.keys a).Nodup ∧
      List.Forall₂ (fun e e' => e.1 = e'.1 ∧ Shuffled e.2 e'.2) a b ∧ b.Perm c := by
  cases h with
  | flat isFlat => simp [depth] at isFlat
  | object distinct even names inner permuted =>
    exact ⟨_, _, rfl, distinct,
      List.forall₂_iff_zip.2 ⟨even, fun mem => ⟨names _ mem, inner _ mem⟩⟩, permuted⟩

theorem proper (h : v.Shuffled w) : v.Proper := by
  induction h with
  | @flat v isFlat =>
    cases v with
    | null => exact .null
    | bool b => exact .bool b
    | number n => exact .number n
    | string s => exact .string s
    | array | object => simp [depth] at isFlat
  | @array a b even _ ih =>
    have all : List.Forall₂ (fun v _ => Proper v) a b :=
      List.forall₂_iff_zip.2 ⟨even, fun mem => ih _ mem⟩
    refine .array fun v mem => ?_
    obtain ⟨_, -, proper⟩ := exists_of_forall₂ all.flip mem
    exact proper
  | @object a b c distinct even _ _ _ ih =>
    have all : List.Forall₂ (fun e _ => Proper e.2) a b :=
      List.forall₂_iff_zip.2 ⟨even, fun mem => ih _ mem⟩
    refine .object distinct fun e mem => ?_
    obtain ⟨_, -, proper⟩ := exists_of_forall₂ all.flip mem
    exact proper

theorem refl (proper : v.Proper) : v.Shuffled v := by
  induction proper with
  | null | bool | number | string => exact .flat rfl
  | array _ ih => exact .of_items (List.forall₂_same.2 ih)
  | object distinct _ ih =>
    exact .of_members distinct (List.forall₂_same.2 fun e mem => ⟨rfl, ih e mem⟩) (.refl _)

theorem same (h : v.Shuffled w) : v.same w = true := by
  induction h with
  | flat isFlat => exact (proper (.flat isFlat)).same_self
  | array even _ ih =>
    rw [Json.same]
    exact sameItems_of_forall even ih
  | @object a b c distinct even names _ permuted ih =>
    have related : List.Forall₂ (fun e e' => e.1 = e'.1 ∧ e.2.same e'.2 = true) a b :=
      List.forall₂_iff_zip.2 ⟨even, fun mem => ⟨names _ mem, ih _ mem⟩⟩
    have distinct' : (Assoc.keys b).Nodup := by
      rwa [← Assoc.keys_eq_of_forall₂ (R := fun x y => Json.same x y = true) related]
    rw [Json.same, Bool.and_eq_true, beq_iff_eq, sameMembers_iff]
    refine ⟨even.trans permuted.length_eq, fun e mem => ?_⟩
    obtain ⟨e', isEntry, isName, equal⟩ := exists_of_forall₂ related.flip mem
    refine ⟨e'.2, ?_, equal⟩
    rw [← Assoc.get?_perm distinct' permuted, isName]
    exact Assoc.get?_of_mem distinct' isEntry

theorem get? (h : v.Shuffled w) (key : String) :
    Option.Rel Shuffled (v.get? key) (w.get? key) := by
  cases v with
  | object a =>
    obtain ⟨b, c, rfl, distinct, related, permuted⟩ := h.exists_of_object
    have distinct' : (Assoc.keys b).Nodup := by
      rwa [← Assoc.keys_eq_of_forall₂ related]
    rw [Json.get?, Json.get?, ← Assoc.get?_perm distinct' permuted]
    exact Assoc.get?_of_forall₂ related key
  | array a =>
    obtain ⟨b, rfl, -⟩ := h.exists_of_array
    exact .none
  | _ =>
    cases h
    exact .none

theorem item? (h : v.Shuffled w) (index : Nat) :
    Option.Rel Shuffled (v.item? index) (w.item? index) := by
  cases v with
  | array a =>
    obtain ⟨b, rfl, related⟩ := h.exists_of_array
    exact rel_getElem?_of_forall₂ related index
  | object a =>
    obtain ⟨b, c, rfl, -⟩ := h.exists_of_object
    exact .none
  | _ =>
    cases h
    exact .none

theorem fetchPath (h : v.Shuffled w) (path : List String) :
    Option.Rel Shuffled (Routine.fetchPath path v) (Routine.fetchPath path w) := by
  induction path generalizing v w with
  | nil => exact .some h
  | cons key rest ih =>
    rw [Routine.fetchPath, Routine.fetchPath]
    rcases Direct.rel_cases (h.get? key) with ⟨absent, absent'⟩ | ⟨x, y, isX, isY, inner⟩
    · rw [absent, absent']
      exact .none
    · rw [isX, isY]
      exact ih inner

theorem fetch (h : v.Shuffled w) (place : Location) :
    Option.Rel Shuffled (place.fetch v) (place.fetch w) := by
  cases place with
  | key key => exact h.get? key
  | index i => exact h.item? i
  | path keys => exact h.fetchPath keys

theorem isNull (h : v.Shuffled w) : w.isNull = v.isNull := by
  cases h <;> rfl

theorem string? (h : v.Shuffled w) : w.string? = v.string? := by
  cases h <;> rfl

theorem same_congr (h : v.Shuffled w) (u : Json) : u.same v = u.same w :=
  h.proper.same_congr h.same u

theorem contains (h : v.Shuffled w) (values : List Json) :
    Json.contains values w = Json.contains values v := by
  have compared : (fun u : Json => u.same w) = fun u => u.same v :=
    funext fun u => (h.same_congr u).symm
  simp only [Json.contains, compared]

end Shuffled
end Json

namespace Instance

/-- Values at untyped positions are shuffled, and if it is allowed mappings hold their entries in
another order. -/
inductive Reordered (mappings : Bool) : Instance → Instance → Prop where
  | refl (v : Instance) : Reordered mappings v v
  | dynamic {j k : Json} : j.Shuffled k → Reordered mappings (.dynamic j) (.dynamic k)
  | seq {a b : List Instance} : a.length = b.length →
    (∀ e ∈ a.zip b, Reordered mappings e.1 e.2) → Reordered mappings (.seq a) (.seq b)
  | set {a b : List Instance} : a.length = b.length →
    (∀ e ∈ a.zip b, Reordered mappings e.1 e.2) → Reordered mappings (.set a) (.set b)
  | tuple {a b : List Instance} : a.length = b.length →
    (∀ e ∈ a.zip b, Reordered mappings e.1 e.2) → Reordered mappings (.tuple a) (.tuple b)
  | map {a b c : List (Instance × Instance)} : mappings = true → a.length = b.length →
    (∀ e ∈ a.zip b, e.1.1 = e.2.1) → (∀ e ∈ a.zip b, Reordered mappings e.1.2 e.2.2) →
    b.Perm c → Reordered mappings (.map a) (.map c)
  | defaultMap {a b c : List (Instance × Instance)} (default : Instance) : mappings = true →
    a.length = b.length → (∀ e ∈ a.zip b, e.1.1 = e.2.1) →
    (∀ e ∈ a.zip b, Reordered mappings e.1.2 e.2.2) → b.Perm c →
    Reordered mappings (.defaultMap a default) (.defaultMap c default)
  | record {type : String} {a b : List (String × Instance)} : a.length = b.length →
    (∀ e ∈ a.zip b, e.1.1 = e.2.1) → (∀ e ∈ a.zip b, Reordered mappings e.1.2 e.2.2) →
    Reordered mappings (.record type a) (.record type b)

namespace Reordered

variable {mappings : Bool} {v w v' w' : Instance}

section
variable {a b : List Instance} (h : List.Forall₂ (Reordered mappings) a b)
include h

theorem seq_of_forall₂ : Reordered mappings (.seq a) (.seq b) :=
  .seq h.length_eq fun _ mem => (List.forall₂_iff_zip.1 h).2 mem

theorem set_of_forall₂ : Reordered mappings (.set a) (.set b) :=
  .set h.length_eq fun _ mem => (List.forall₂_iff_zip.1 h).2 mem

theorem tuple_of_forall₂ : Reordered mappings (.tuple a) (.tuple b) :=
  .tuple h.length_eq fun _ mem => (List.forall₂_iff_zip.1 h).2 mem

end

section
variable {a b c : List (Instance × Instance)}
  (h : List.Forall₂ (fun e e' => e.1 = e'.1 ∧ Reordered true e.2 e'.2) a b) (permuted : b.Perm c)
include h permuted

theorem map_of_forall₂ : Reordered true (.map a) (.map c) :=
  .map rfl h.length_eq (fun _ mem => ((List.forall₂_iff_zip.1 h).2 mem).1)
    (fun _ mem => ((List.forall₂_iff_zip.1 h).2 mem).2) permuted

theorem defaultMap_of_forall₂ (default : Instance) :
    Reordered true (.defaultMap a default) (.defaultMap c default) :=
  .defaultMap default rfl h.length_eq (fun _ mem => ((List.forall₂_iff_zip.1 h).2 mem).1)
    (fun _ mem => ((List.forall₂_iff_zip.1 h).2 mem).2) permuted

end

theorem record_of_forall₂ {type : String} {a b : List (String × Instance)}
    (h : List.Forall₂ (fun e e' => e.1 = e'.1 ∧ Reordered mappings e.2 e'.2) a b) :
    Reordered mappings (.record type a) (.record type b) :=
  .record h.length_eq (fun _ mem => ((List.forall₂_iff_zip.1 h).2 mem).1)
    (fun _ mem => ((List.forall₂_iff_zip.1 h).2 mem).2)

theorem field? (h : Reordered mappings v w) (name : String) :
    Option.Rel (Reordered mappings) (v.field? name) (w.field? name) := by
  cases h with
  | refl =>
    cases v.field? name with
    | none => exact .none
    | some x => exact .some (.refl x)
  | record even names inner =>
    exact Assoc.get?_of_forall₂ (List.forall₂_iff_zip.2
      ⟨even, fun mem => ⟨names _ mem, inner _ mem⟩⟩) name
  | _ => exact .none

theorem length_items? (h : Reordered mappings v w) :
    v.items?.map List.length = w.items?.map List.length := by
  cases h with
  | seq even | set even | tuple even => exact congrArg some even
  | _ => rfl

theorem allow (h : Reordered false v w) (mappings : Bool) : Reordered mappings v w := by
  induction h with
  | refl v => exact .refl v
  | dynamic shuffled => exact .dynamic shuffled
  | seq even _ ih => exact .seq even ih
  | set even _ ih => exact .set even ih
  | tuple even _ ih => exact .tuple even ih
  | map allowed | defaultMap _ allowed => cases allowed
  | record even names _ ih => exact .record even names ih

section
variable {a b : List Instance}

theorem sameItems_right (h : List.Forall₂ (fun w w' => ∀ v, same v w = same v w') a b)
    (c : List Instance) : sameItems c a = sameItems c b := by
  induction h generalizing c with
  | nil => rfl
  | cons first _ ih =>
    cases c with
    | nil => simp only [sameItems]
    | cons v rest => rw [sameItems, sameItems, first v, ih rest]

theorem sameItems_left (h : List.Forall₂ (fun v v' => ∀ w, same v w = same v' w) a b)
    (c : List Instance) : sameItems a c = sameItems b c := by
  induction h generalizing c with
  | nil => rfl
  | cons first _ ih =>
    cases c with
    | nil => simp only [sameItems]
    | cons w rest => rw [sameItems, sameItems, first w, ih rest]

end

section
variable {a b : List (String × Instance)}

theorem sameFields_right
    (h : List.Forall₂ (fun e e' => e.1 = e'.1 ∧ ∀ v, same v e.2 = same v e'.2) a b)
    (c : List (String × Instance)) : sameFields c a = sameFields c b := by
  induction c with
  | nil => simp only [sameFields]
  | cons e rest ih =>
    obtain ⟨name, v⟩ := e
    have related := Assoc.get?_of_forall₂ (R := fun w w' => ∀ v, same v w = same v w') h name
    rw [sameFields, sameFields, ih]
    rcases Direct.rel_cases related with ⟨absent, absent'⟩ | ⟨w, w', isW, isW', equal⟩
    · rw [absent, absent']
    · rw [isW, isW']
      exact congrArg (· && _) (equal v)

theorem sameFields_left
    (h : List.Forall₂ (fun e e' => e.1 = e'.1 ∧ ∀ w, same e.2 w = same e'.2 w) a b)
    (c : List (String × Instance)) : sameFields a c = sameFields b c := by
  induction h with
  | nil => rfl
  | @cons e e' _ _ first _ ih =>
    obtain ⟨name, v⟩ := e
    obtain ⟨name', v'⟩ := e'
    obtain ⟨rfl, equal⟩ := first
    rw [sameFields, sameFields, ih]
    cases Assoc.get? name c with
    | none => rfl
    | some w => exact congrArg (· && _) (equal w)

end

theorem same_right (h : Reordered false w w') (v : Instance) : same v w = same v w' := by
  induction h generalizing v with
  | refl => rfl
  | dynamic shuffled =>
    cases v with
    | dynamic u => rw [same, same, shuffled.same_congr u]
    | _ => simp only [same]
  | seq even _ ih =>
    cases v with
    | seq c =>
      rw [same, same]
      exact sameItems_right (List.forall₂_iff_zip.2 ⟨even, fun mem => ih _ mem⟩) c
    | _ => simp only [same]
  | set even _ ih =>
    cases v with
    | set c =>
      rw [same, same]
      exact sameItems_right (List.forall₂_iff_zip.2 ⟨even, fun mem => ih _ mem⟩) c
    | _ => simp only [same]
  | tuple even _ ih =>
    cases v with
    | tuple c =>
      rw [same, same]
      exact sameItems_right (List.forall₂_iff_zip.2 ⟨even, fun mem => ih _ mem⟩) c
    | _ => simp only [same]
  | map allowed | defaultMap _ allowed => cases allowed
  | record even names _ ih =>
    cases v with
    | record type c =>
      have fields := sameFields_right
        (List.forall₂_iff_zip.2 ⟨even, fun mem => ⟨names _ mem, ih _ mem⟩⟩) c
      rw [same, same, fields, even]
    | _ => simp only [same]

theorem same_left (h : Reordered false v v') (w : Instance) : same v w = same v' w := by
  induction h generalizing w with
  | refl => rfl
  | @dynamic j k shuffled =>
    cases w with
    | dynamic u =>
      rw [same, same, Bool.eq_iff_iff]
      have back := shuffled.proper.same_symm shuffled.same
      exact ⟨fun first => Json.same_trans back first, Json.same_trans shuffled.same⟩
    | _ => simp only [same]
  | seq even _ ih =>
    cases w with
    | seq c =>
      rw [same, same]
      exact sameItems_left (List.forall₂_iff_zip.2 ⟨even, fun mem => ih _ mem⟩) c
    | _ => simp only [same]
  | set even _ ih =>
    cases w with
    | set c =>
      rw [same, same]
      exact sameItems_left (List.forall₂_iff_zip.2 ⟨even, fun mem => ih _ mem⟩) c
    | _ => simp only [same]
  | tuple even _ ih =>
    cases w with
    | tuple c =>
      rw [same, same]
      exact sameItems_left (List.forall₂_iff_zip.2 ⟨even, fun mem => ih _ mem⟩) c
    | _ => simp only [same]
  | map allowed | defaultMap _ allowed => cases allowed
  | record even names _ ih =>
    cases w with
    | record type c =>
      have fields := sameFields_left
        (List.forall₂_iff_zip.2 ⟨even, fun mem => ⟨names _ mem, ih _ mem⟩⟩) c
      rw [same, same, fields, even]
    | _ => simp only [same]

/-- As long as mappings are left alone, equality does not notice that instances are reordered. -/
theorem same_congr (first : Reordered false v v') (second : Reordered false w w') :
    same v w = same v' w' :=
  (first.same_left w).trans (second.same_right v')

end Reordered

theorem contains_reordered {items items' : List Instance}
    (h : List.Forall₂ (Reordered false) items items') {v v' : Instance}
    (element : Reordered false v v') : contains items v = contains items' v' := by
  induction h with
  | nil => rfl
  | cons first _ ih =>
    rw [contains, contains] at ih ⊢
    rw [List.any_cons, List.any_cons, first.same_congr element, ih]

end Instance

theorem ItemsForm.unique_reordered {items items' : List Instance}
    (h : List.Forall₂ (Instance.Reordered false) items items') :
    List.Forall₂ (Instance.Reordered false) (unique items) (unique items') := by
  have more {held held' : List Instance}
      (start : List.Forall₂ (Instance.Reordered false) held held') :
      List.Forall₂ (Instance.Reordered false)
        (items.foldl (fun acc v => if Instance.contains acc v then acc else acc ++ [v]) held)
        (items'.foldl (fun acc v => if Instance.contains acc v then acc else acc ++ [v])
          held') := by
    induction h generalizing held held' with
    | nil => exact start
    | cons first _ ih =>
      rw [List.foldl_cons, List.foldl_cons, Instance.contains_reordered start first]
      refine ih ?_
      split
      · exact start
      · exact List.rel_append start (.cons first .nil)
  exact more .nil

end RecordCodec
