import RecordCodec.Proofs.Matching

set_option autoImplicit false

/-!
# Equality of instances is an equivalence

Equality of records looks one way only: there are as many fields, and each field of the first record
is found in the second with an equal value. As the names of a record are distinct, nothing is left
over in the second record, and so equality does not depend on the order in which fields were set.
-/
namespace RecordCodec

namespace Instance

variable {s t : String} {a b : List (String × Instance)}

theorem exists_ofFields_eq (type : String) (sets : List (String × Instance)) :
    ∃ fields, ofFields type sets = .record type fields ∧ (Assoc.keys fields).Nodup :=
  ⟨Assoc.ofList sets, rfl, Assoc.nodup_keys_ofList sets⟩

theorem same_record_iff (distinct : (Assoc.keys a).Nodup) (distinct' : (Assoc.keys b).Nodup) :
    same (.record s a) (.record t b) = true ↔
      s = t ∧ ∀ name, Option.Rel (fun v w => same v w = true) (Assoc.get? name a)
        (Assoc.get? name b) := by
  have found := Assoc.found_iff_rel_get? (R := fun v w => same v w = true) distinct distinct'
  simp only [same, Bool.and_eq_true, beq_iff_eq, sameFields_iff, and_assoc, found]

/-- It does not matter which of two instances is compared with the other. -/
theorem Proper.same_comm {v w : Instance} (proper : v.Proper) (proper' : w.Proper) :
    same v w = same w v :=
  Bool.eq_iff_iff.2 ⟨proper.same_symm, proper'.same_symm⟩

theorem Proper.fields (h : Proper (.record s a)) : ∀ e ∈ a, e.2.Proper := by
  cases h with
  | record _ values => exact values

/-- So the fields of the second record can as well be compared with those of the first. -/
theorem Proper.same_record_exchanged (proper : Proper (.record s a))
    (proper' : Proper (.record t b)) :
    same (.record s a) (.record t b) =
      (s == t && a.length == b.length &&
        a.all fun e => (Assoc.get? e.1 b).any fun w => same w e.2) := by
  have fields : sameFields a b = a.all fun e => (Assoc.get? e.1 b).any fun w => same w e.2 := by
    rw [Bool.eq_iff_iff, sameFields_iff, List.all_eq_true]
    refine forall₂_congr fun e mem => ?_
    rw [Option.any_eq_true]
    refine exists_congr fun w => and_congr_right fun found => ?_
    rw [Proper.same_comm (proper.fields e mem) (proper'.fields _ (Assoc.mem_of_get? found))]
  rw [same, fields]

/-- Equality is an equivalence of the instances in which names are distinct and nothing is
not-a-number, and it takes no notice of the order of fields: records are equal if they have the same
type and give equal values to the same names. A record that is set up field by field has distinct
names. -/
theorem same_equivalence :
    (∀ (type : String) (sets : List (String × Instance)), ∃ fields,
      ofFields type sets = .record type fields ∧ (Assoc.keys fields).Nodup) ∧
    Equivalence (fun v w : {v : Instance // v.Proper} => same v w = true) ∧
    ∀ (s t : String) (a b : List (String × Instance)),
      (Assoc.keys a).Nodup → (Assoc.keys b).Nodup →
      (same (.record s a) (.record t b) = true ↔ s = t ∧ ∀ name,
        Option.Rel (fun v w => same v w = true) (Assoc.get? name a) (Assoc.get? name b)) := by
  refine ⟨exists_ofFields_eq, ?equivalence, fun s t a b => same_record_iff⟩
  case equivalence => exact
    { refl := fun v => v.2.same_self
      symm := fun {v _} => v.2.same_symm
      trans := fun {v _ _} => v.2.same_trans }

theorem same_ofFields_point : (Assoc.keys [("y", Instance.int 4), ("x", .int 3)]).Nodup ∧
    (Assoc.keys [("x", Instance.int 3), ("y", .int 4)]).Nodup ∧
    same (ofFields "Point" [("y", .int 4), ("x", .int 3)])
      (ofFields "Point" [("x", .int 3), ("y", .int 4)]) = true := by
  have distinct : (Assoc.keys [("y", Instance.int 4), ("x", .int 3)]).Nodup := by decide
  have distinct' : (Assoc.keys [("x", Instance.int 3), ("y", .int 4)]).Nodup := by decide
  refine ⟨distinct, distinct',
    (same_equivalence.2.2 "Point" "Point" _ _ distinct distinct').2 ⟨rfl, fun name => ?_⟩⟩
  simp only [Assoc.get?]
  split_ifs with isY isX
  · cases isY
    contradiction
  · exact .some (by simp [same])
  · exact .some (by simp [same])
  · exact .none

end Instance

end RecordCodec
