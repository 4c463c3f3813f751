import RecordCodec.Proofs.Alike
import RecordCodec.Proofs.Fields

set_option autoImplicit false

/-!
# Fields of equal inputs

In inputs that are equal, the fields of a record are found at the same places, as long as keys are
compared with their case, and what is found there is equal. So the same keys are left over.
-/
namespace RecordCodec

open Routine

variable {j j' : Json}

theorem rel_getElem?_of_forall₂ {α β : Type} {R : α → β → Prop} {as : List α} {bs : List β}
    (h : List.Forall₂ R as bs) (k : Nat) : Option.Rel R as[k]? bs[k]? := by
  induction h generalizing k with
  | nil => exact .none
  | cons related _ ih =>
    cases k with
    | zero => exact .some related
    | succ k => exact ih k

namespace Routine

theorem fetchPath_same (proper : j.Proper) (equal : j.same j' = true) (path : List String) :
    Option.Rel (fun x y => Json.same x y = true) (fetchPath path j) (fetchPath path j') := by
  induction path generalizing j j' with
  | nil => exact .some equal
  | cons key rest ih =>
    rw [fetchPath, fetchPath]
    rcases Direct.rel_cases (proper.get?_same equal key) with
      ⟨absent, absent'⟩ | ⟨x, y, isX, isY, equal⟩
    · rw [absent, absent']
      exact .none
    · rw [isX, isY]
      exact ih (proper.get? isX) equal

theorem Location.fetch_same (proper : j.Proper) (equal : j.same j' = true) (place : Location) :
    Option.Rel (fun x y => Json.same x y = true) (place.fetch j) (place.fetch j') := by
  cases place with
  | key key => exact proper.get?_same equal key
  | path keys => exact fetchPath_same proper equal keys
  | index i =>
    cases j with
    | array items =>
      obtain ⟨items', rfl, related⟩ := Json.exists_of_array_same equal
      exact rel_getElem?_of_forall₂ related i
    | object members =>
      obtain ⟨members', rfl, -⟩ := Json.exists_of_object_same equal
      exact .none
    | _ =>
      cases j' with
      | array => simp [Json.same] at equal
      | _ => exact .none

end Routine

namespace Compile

theorem Locator.locate_same {l : Locator} (cased : l.ignoresCase = false) (proper : j.Proper)
    (equal : j.same j' = true) : l.locate j' = l.locate j := by
  cases j with
  | array items =>
    obtain ⟨items', rfl, related⟩ := Json.exists_of_array_same equal
    simp only [locate, related.length_eq]
  | object members =>
    obtain ⟨members', rfl, -⟩ := Json.exists_of_object_same equal
    have found := fun path => Direct.isSome_of_rel (fetchPath_same proper equal path)
    have present : ∀ key, (Json.object members').keys.contains key =
        (Json.object members).keys.contains key := by
      intro key
      rw [Bool.eq_iff_iff, List.contains_iff_mem, List.contains_iff_mem, Json.mem_keys_iff,
        Json.mem_keys_iff, Direct.isSome_of_rel (proper.get?_same equal key)]
    simp only [locate, found, keyAmong?, present, cased, Bool.false_eq_true, if_false]
  | _ =>
    cases j' with
    | array | object => simp [Json.same] at equal
    | _ => rfl

theorem Decoder.checkForm_same {record : RecordType} (equal : j.same j' = true)
    (form : checkForm record j = .ok ()) : checkForm record j' = .ok () := by
  cases j with
  | array items =>
    obtain ⟨items', rfl, related⟩ := Json.exists_of_array_same equal
    rw [checkForm, related.length_eq] at form
    rw [checkForm]
    split_ifs at form ⊢
    rfl
  | object members =>
    obtain ⟨members', rfl, -⟩ := Json.exists_of_object_same equal
    rfl
  | _ => cases form

end Compile

namespace Direct

open Compile

variable {record : RecordType} {config : Config} (cased : config.decodesWith ≠ .caseInsensitive)
  (proper : j.Proper) (equal : j.same j' = true)
include cased proper equal

theorem place?_same (index : Nat) (field : Field) :
    place? record config j' index field = place? record config j index field :=
  Locator.locate_same (by simpa [Locator.ofField] using cased) proper equal

theorem located?_same (index : Nat) (field : Field) :
    Option.Rel (fun x y => Json.same x y = true) (located? record config j index field)
      (located? record config j' index field) := by
  rw [located?, located?, place?_same cased proper equal]
  cases place? record config j index field with
  | none => exact .none
  | some place => exact place.fetch_same proper equal

theorem takenKeys_same (index : Nat) (fields : List Field) :
    takenKeys record config j' index fields = takenKeys record config j index fields := by
  induction fields generalizing index with
  | nil => rfl
  | cons f rest ih => rw [takenKeys, takenKeys, place?_same cased proper equal, ih]

theorem leftOver_same (nothing : leftOver record config j = []) :
    leftOver record config j' = [] := by
  rw [leftOver, List.filter_eq_nil_iff] at nothing ⊢
  intro key mem
  rw [takenKeys_same cased proper equal]
  refine nothing key ?_
  rw [Json.mem_keys_iff, isSome_of_rel (proper.get?_same equal key), ← Json.mem_keys_iff]
  exact mem

end Direct
end RecordCodec
