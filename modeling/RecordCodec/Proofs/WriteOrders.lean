import RecordCodec.Proofs.Elision

set_option autoImplicit false

/-!
# Orders of writing

Objects are equal if equal values are found under all keys. So writes at two places that branch off
from each other commute, and any two orders of writing at such places give equal objects.
-/
namespace RecordCodec

open Routine Compile

namespace Json

theorem same_object_of_get? {a b : List (String × Json)} (distinct : (Assoc.keys a).Nodup)
    (distinct' : (Assoc.keys b).Nodup)
    (h : ∀ key, Option.Rel (fun x y => same x y = true) (Assoc.get? key a) (Assoc.get? key b)) :
    same (.object a) (.object b) = true := by
  obtain ⟨even, found⟩ := (Assoc.found_iff_rel_get? distinct distinct').2 h
  rw [same, Bool.and_eq_true, beq_iff_eq, sameMembers_iff]
  exact ⟨even, found⟩

theorem Proper.distinct {members : List (String × Json)} (h : (Json.object members).Proper) :
    (Assoc.keys members).Nodup := by
  cases h with
  | object distinct _ => exact distinct

theorem rel_self {v : Option Json} (h : ∀ x, v = some x → x.Proper) :
    Option.Rel (fun x y => same x y = true) v v := by
  cases v with
  | none => exact .none
  | some x => exact .some (h x rfl).same_self

end Json

namespace Compile.Target

variable {a b : List (String × Json)} {v w : Json}

/-- What a write at a path puts under the first key, given what was there. -/
def held (v : Json) (rest : List String) (old : Option Json) : Json :=
  match rest with
  | [] => v
  | rest => .object (writePath v rest (membersOf old))

theorem writePath_cons (v : Json) (first : String) (rest : List String)
    (members : List (String × Json)) :
    writePath v (first :: rest) members =
      Assoc.insert first (held v rest (Assoc.get? first members)) members := by
  cases rest <;> rfl

theorem proper_held (proper : v.Proper) (rest : List String) {old : Option Json}
    (h : ∀ x, old = some x → x.Proper) : (held v rest old).Proper := by
  cases rest with
  | nil => exact proper
  | cons => exact proper_writePath proper (proper_membersOf h)

theorem get?_writePath_cons (v : Json) (first : String) (rest : List String)
    (members : List (String × Json)) (key : String) :
    Assoc.get? key (writePath v (first :: rest) members) =
      if key = first then some (held v rest (Assoc.get? first members))
      else Assoc.get? key members := by
  rw [writePath_cons]
  split
  case isTrue eq => rw [eq, Assoc.get?_insert_self]
  case isFalse ne => rw [Assoc.get?_insert_of_ne ne]

theorem held_of_ne {rest : List String} (ne : rest ≠ []) (v : Json) (old : Option Json) :
    held v rest old = .object (writePath v rest (membersOf old)) := by
  cases rest with
  | nil => contradiction
  | cons => rfl

theorem same_insert (key : String) (proper : (Json.object a).Proper)
    (proper' : (Json.object b).Proper) (equal : Json.same (.object a) (.object b) = true)
    (h : v.same w = true) :
    Json.same (.object (Assoc.insert key v a)) (.object (Assoc.insert key w b)) = true := by
  refine Json.same_object_of_get? (Assoc.nodup_keys_insert proper.distinct)
    (Assoc.nodup_keys_insert proper'.distinct) fun other => ?_
  by_cases eq : other = key
  · subst eq
    rw [Assoc.get?_insert_self, Assoc.get?_insert_self]
    exact .some h
  · rw [Assoc.get?_insert_of_ne eq, Assoc.get?_insert_of_ne eq]
    exact proper.get?_same equal other

theorem same_membersOf {x y : Option Json} (h : Option.Rel (fun x y => Json.same x y = true) x y) :
    Json.same (.object (membersOf x)) (.object (membersOf y)) = true := by
  have empty : Json.same (.object []) (.object []) = true := rfl
  cases h with
  | none => exact empty
  | @some x y equal =>
    cases x with
    | object members =>
      obtain ⟨members', rfl, -⟩ := Json.exists_of_object_same equal
      exact equal
    | _ =>
      cases y with
      | object => simp [Json.same] at equal
      | _ => exact empty

theorem same_writePath (proper : v.Proper) {path : List String} (properA : (Json.object a).Proper)
    (properB : (Json.object b).Proper) (equal : Json.same (.object a) (.object b) = true) :
    Json.same (.object (writePath v path a)) (.object (writePath v path b)) = true := by
  induction path generalizing a b with
  | nil => exact equal
  | cons first rest ih =>
    rw [writePath_cons, writePath_cons]
    refine same_insert first properA properB equal ?_
    cases rest with
    | nil => exact proper.same_self
    | cons second more =>
      exact ih (proper_membersOf fun x found => properA.get? found)
        (proper_membersOf fun x found => properB.get? found)
        (same_membersOf (properA.get?_same equal first))

/-- Writes at places that branch off from each other commute. -/
theorem writePath_comm (properV : v.Proper) (properW : w.Proper) {p q : List String}
    (diverge : Diverge p q) (proper : (Json.object a).Proper) :
    Json.same (.object (writePath w q (writePath v p a)))
      (.object (writePath v p (writePath w q a))) = true := by
  induction p generalizing q a with
  | nil => exact absurd rfl diverge.left_ne_nil
  | cons first rest ih =>
    cases q with
    | nil => exact absurd rfl diverge.right_ne_nil
    | cons key more =>
      have left :
          (Json.object (writePath w (key :: more) (writePath v (first :: rest) a))).Proper :=
        proper_writePath properW (proper_writePath properV proper)
      have right :
          (Json.object (writePath v (first :: rest) (writePath w (key :: more) a))).Proper :=
        proper_writePath properV (proper_writePath properW proper)
      refine Json.same_object_of_get? left.distinct right.distinct fun other => ?_
      have unwritten : Option.Rel (fun x y => Json.same x y = true) (Assoc.get? other a)
          (Assoc.get? other a) :=
        Json.rel_self fun x found => proper.get? found
      by_cases same : key = first
      · subst same
        have ne : rest ≠ [] := diverge.below.left_ne_nil
        have ne' : more ≠ [] := diverge.below.right_ne_nil
        -- both paths go on in the object under their common key
        have inside : (Json.object (membersOf (Assoc.get? key a))).Proper :=
          proper_membersOf fun x found => proper.get? found
        have inner := ih diverge.below inside
        simp only [get?_writePath_cons, if_true, held_of_ne ne, held_of_ne ne', membersOf]
        split
        · exact .some inner
        · exact unwritten
      · simp only [get?_writePath_cons, if_neg same, if_neg (Ne.symm same)]
        by_cases eq : other = key
        · subst eq
          rw [if_pos rfl, if_neg same, if_pos rfl]
          exact .some (proper_held properW more fun x found => proper.get? found).same_self
        · rw [if_neg eq]
          split
          case isTrue eq' =>
            exact .some (proper_held properV rest fun x found => proper.get? found).same_self
          case isFalse => exact unwritten

theorem same_writeAll {writes : List (List String × Json)} (proper : ∀ e ∈ writes, e.2.Proper)
    (properA : (Json.object a).Proper) (properB : (Json.object b).Proper)
    (equal : Json.same (.object a) (.object b) = true) :
    Json.same (.object (writeAll writes a)) (.object (writeAll writes b)) = true := by
  induction writes generalizing a b with
  | nil => exact equal
  | cons e rest ih =>
    obtain ⟨first, others⟩ := List.forall_mem_cons.1 proper
    exact ih others (proper_writePath first properA) (proper_writePath first properB)
      (same_writePath first properA properB equal)

theorem writeAll_perm {writes writes' : List (List String × Json)} (permuted : writes.Perm writes')
    (diverge : writes.Pairwise fun a b => Diverge a.1 b.1) (proper : ∀ e ∈ writes, e.2.Proper)
    (properA : (Json.object a).Proper) :
    Json.same (.object (writeAll writes a)) (.object (writeAll writes' a)) = true := by
  induction permuted generalizing a with
  | nil => exact properA.same_self
  | cons e _ ih =>
    obtain ⟨first, others⟩ := List.forall_mem_cons.1 proper
    exact ih (List.pairwise_cons.1 diverge).2 others (proper_writePath first properA)
  | swap e e' rest =>
    obtain ⟨later, others⟩ := List.forall_mem_cons.1 proper
    obtain ⟨first, others⟩ := List.forall_mem_cons.1 others
    have branches : Diverge e'.1 e.1 := (List.pairwise_cons.1 diverge).1 e List.mem_cons_self
    exact same_writeAll others (proper_writePath first (proper_writePath later properA))
      (proper_writePath later (proper_writePath first properA))
      (writePath_comm later first branches properA)
  | trans first _ ih ih' =>
    have diverge' := (first.pairwise_iff fun h => h.symm).1 diverge
    exact Json.same_trans (ih diverge proper properA)
      (ih' diverge' (fun e mem => proper e (first.mem_iff.2 mem)) properA)

theorem foldl_write (writes : List (Target × Json)) (members : List (String × Json)) :
    writes.foldl (fun acc e => e.1.write e.2 acc) members =
      writeAll (writes.map fun e => (e.1.place, e.2)) members := by
  induction writes generalizing members with
  | nil => rfl
  | cons e rest ih => rw [List.foldl_cons, write_eq, ih]; rfl

/-- Where targets branch off from one another, each value that is written into an empty object is
found at its place, and no order of writing makes a difference. -/
theorem fetch_foldl_write (writes : List (Target × Json))
    (places : ∀ e ∈ writes, e.1.place ≠ [])
    (diverge : writes.Pairwise fun a b => Diverge a.1.place b.1.place) :
    (∀ e ∈ writes, ∀ location : Location,
      (location = .path e.1.place ∨ ∃ key, e.1.place = [key] ∧ location = .key key) →
      location.fetch (.object (writes.foldl (fun acc e => e.1.write e.2 acc) [])) = some e.2) ∧
    ∀ writes' : List (Target × Json), writes'.Perm writes → (∀ e ∈ writes, e.2.Proper) →
      Json.same (.object (writes.foldl (fun acc e => e.1.write e.2 acc) []))
        (.object (writes'.foldl (fun acc e => e.1.write e.2 acc) [])) = true := by
  have apart : (writes.map fun e => (e.1.place, e.2)).Pairwise fun a b => Diverge a.1 b.1 :=
    List.pairwise_map.2 diverge
  simp only [foldl_write]
  constructor
  · intro e mem location reads
    have found := fetchPath_writeAll apart (places e mem)
      (List.mem_map_of_mem (f := fun e : Target × Json => (e.1.place, e.2)) mem) []
    rcases reads with rfl | ⟨key, single, rfl⟩
    · exact found
    · rw [single, fetchPath] at found
      rw [Location.fetch]
      simpa [fetchPath] using found
  · intro writes' permuted proper
    refine writeAll_perm (permuted.symm.map _) apart ?_
      (.object .nil fun _ mem => absurd mem List.not_mem_nil)
    rintro _ mem
    obtain ⟨e, isWrite, rfl⟩ := List.mem_map.1 mem
    exact proper e isWrite

def branching : List (Target × Json) :=
  [(.path ["a", "b"], .bool true), (.key "d", .string "x"), (.path ["a", "c"], .null)]

theorem fetch_foldl_write_branching :
    (Location.path ["a", "c"]).fetch
        (.object (branching.foldl (fun acc e => e.1.write e.2 acc) [])) = some .null ∧
      Json.same (.object (branching.foldl (fun acc e => e.1.write e.2 acc) []))
        (.object (branching.reverse.foldl (fun acc e => e.1.write e.2 acc) [])) = true := by
  have apart := fetch_foldl_write branching (by simp [branching, place])
    (by simp [branching, Diverge, place])
  refine ⟨apart.1 (.path ["a", "c"], .null) (by simp [branching]) _ (.inl rfl), ?_⟩
  refine apart.2 _ (List.reverse_perm _) fun e mem => ?_
  simp only [branching, List.mem_cons, List.not_mem_nil, or_false] at mem
  rcases mem with rfl | rfl | rfl
  · exact .bool true
  · exact .string "x"
  · exact .null

end Compile.Target
end RecordCodec
