import RecordCodec.Proofs.Elision

set_option autoImplicit false

/-!
# Decoding gives back what was encoded without defaults

An instance is encoded, fields that equal their defaults left out, and what comes of it decodes to
an instance that matches. So does whatever equals the encoded form. This is what the default of a
field around it needs, if it was declared with its members in another order.
-/
namespace RecordCodec

open Routine Converter

namespace Converter

theorem Collects.matches_build {v : Instance} {items back : List Instance}
    {form : ItemsForm} (collects : Collects form items v) (regular : v.Regular)
    (plain : v.PlainSets) (related : List.Forall₂ Instance.Matches items back) :
    v.Matches (form.build back) := by
  cases collects with
  | list => exact .seq_of_forall₂ related
  | set different =>
    have apart :=
      Instance.Matches.different related (regular.items rfl) plain.elements different
    rw [ItemsForm.build, ItemsForm.unique_of_pairwise apart]
    exact .set_of_forall₂ related
  | tuple => exact .tuple_of_forall₂ related

end Converter

namespace Direct

theorem matches_build {build : List (Instance × Instance) → Instance}
    (isMapping : build = .map ∨ ∃ default, build = fun entries => .defaultMap entries default)
    {entries b c : List (Instance × Instance)} (regular : (build entries).Regular)
    (related : List.Forall₂ (fun e e' =>
      Instance.same e.1 e'.1 = true ∧ Instance.Matches e.2 e'.2) entries b)
    (permuted : b.Perm c) : (build entries).Matches (build c) := by
  rcases isMapping with rfl | ⟨default, rfl⟩
  · exact .map_of_forall₂ related permuted
  · cases regular with
    | defaultMap _ _ _ proper => exact .defaultMap_of_forall₂ related permuted proper.same_self

/-- Through records that leave out defaults an instance comes back up to the order of the entries of
mappings. -/
theorem lawful_restores (schema : Schema) :
    Trip.Lawful schema Restores Instance.PlainSets (Elides schema) where
  items plain isItems := plain.items isItems
  entries plain isEntries := plain.entries isEntries
  fields plain := plain.fields
  types elides := elides.types
  scalar known holds regular := .scalar known holds regular
  null encoded decoded := .of_isExact rfl encoded decoded .null
  notNull := by
    rintro encode encode' decode decode' given back ⟨j, encoded, proper, restores⟩ notNull same
      sameBack
    refine ⟨j, same ▸ encoded, proper, fun j' equal => ?_⟩
    have isSome : j' ≠ .null := by
      rintro rfl
      exact notNull j encoded (Json.eq_of_same rfl (proper.same_symm equal))
    rw [sameBack j' isSome]
    exact restores j' equal
  list collects regular plain isOthers even each :=
    .list _ isOthers (fun _ => collects.matches_build regular plain)
      (List.forall₂_iff_zip.2 ⟨even, fun mem => each _ mem⟩)
  tuple isOthers even evenParts each := .tuple isOthers even evenParts each
  mapping isMapping keys keysBack regular isOthers even each :=
    .mapping _ keys keysBack isOthers (fun _ _ => matches_build isMapping regular)
      (List.forall₂_iff_zip.2 ⟨even, fun mem => each _ mem⟩)
      (regular.entries (entries?_build isMapping _)).1
  literal literals listed := .literal literals listed
  enumeration distinct isValue := .enumeration distinct isValue
  record elides checked shape isRecord each := restores_record elides checked shape isRecord each

end Direct

end RecordCodec
