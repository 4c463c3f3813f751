import RecordCodec.Compile.Encoder
import RecordCodec.Proofs.Direct
import RecordCodec.Proofs.Entries

set_option autoImplicit false

/-!
# Places in objects

A place is a path of keys. What is written at a place is found there, and it changes nothing at a
place that branches off from it. So an encoder that writes each field where the decoder looks for
it first, at places that branch off from one another, makes an object in which the decoder finds
every field and nothing else.
-/
namespace RecordCodec.Compile

open Routine

/-- Neither place leads to the other. -/
def Diverge (p q : List String) : Prop := ¬p <+: q ∧ ¬q <+: p

namespace Diverge

variable {p q : List String}

theorem symm (h : Diverge p q) : Diverge q p := ⟨h.2, h.1⟩

theorem left_ne_nil (h : Diverge p q) : p ≠ [] := by
  rintro rfl
  exact h.1 List.nil_prefix

theorem right_ne_nil (h : Diverge p q) : q ≠ [] := h.symm.left_ne_nil

theorem below {key : String} (h : Diverge (key :: p) (key :: q)) : Diverge p q :=
  ⟨fun le => h.1 (List.cons_prefix_cons.2 ⟨rfl, le⟩),
    fun le => h.2 (List.cons_prefix_cons.2 ⟨rfl, le⟩)⟩

end Diverge

namespace Target

theorem fetchPath_membersOf {path : List String} (ne : path ≠ []) (v : Option Json) :
    fetchPath path (.object (membersOf v)) = v.bind (fetchPath path) := by
  cases path with
  | nil => contradiction
  | cons key rest =>
    cases v with
    | none => rfl
    | some v => cases v <;> rfl

theorem fetchPath_writePath (v : Json) {path : List String} (ne : path ≠ [])
    (members : List (String × Json)) :
    fetchPath path (.object (writePath v path members)) = some v := by
  induction path generalizing members with
  | nil => contradiction
  | cons first rest ih =>
    cases rest with
    | nil => simp [writePath, fetchPath, Json.get?]
    | cons second more =>
      have inner := ih (List.cons_ne_nil _ _) (membersOf (Assoc.get? first members))
      simp only [writePath, fetchPath, Json.get?, Assoc.get?_insert_self, Option.bind_some]
        at inner ⊢
      exact inner

theorem fetchPath_writePath_of_diverge (v : Json) {p q : List String} (h : Diverge p q)
    (members : List (String × Json)) :
    fetchPath q (.object (writePath v p members)) = fetchPath q (.object members) := by
  induction p generalizing q members with
  | nil => exact absurd rfl h.left_ne_nil
  | cons first rest ih =>
    cases q with
    | nil => exact absurd rfl h.right_ne_nil
    | cons key more =>
      by_cases same : key = first
      · subst same
        cases rest with
        | nil => exact absurd rfl h.below.left_ne_nil
        | cons second others =>
          have inner := ih h.below (membersOf (Assoc.get? key members))
          simp only [writePath, fetchPath, Json.get?, Assoc.get?_insert_self, Option.bind_some]
          rw [inner, fetchPath_membersOf h.below.right_ne_nil]
      · cases rest with
        | nil => simp only [writePath, fetchPath, Json.get?, Assoc.get?_insert_of_ne same]
        | cons second others =>
          simp only [writePath, fetchPath, Json.get?, Assoc.get?_insert_of_ne same]

theorem mem_keys_writePath {v : Json} {path : List String} {members : List (String × Json)}
    {key : String} (h : key ∈ Assoc.keys (writePath v path members)) :
    key ∈ Assoc.keys members ∨ path.head? = some key := by
  match path with
  | [] => exact .inl h
  | [last] =>
    rcases Assoc.mem_keys_insert.1 h with rfl | old
    · exact .inr rfl
    · exact .inl old
  | first :: second :: rest =>
    rcases Assoc.mem_keys_insert.1 h with rfl | old
    · exact .inr rfl
    · exact .inl old

def place : Target → List String
  | key k => [k]
  | path keys => keys

theorem write_eq (v : Json) (members : List (String × Json)) (target : Target) :
    target.write v members = writePath v target.place members := by
  cases target <;> rfl

def writeAll : List (List String × Json) → List (String × Json) → List (String × Json)
  | [], members => members
  | (keys, v) :: rest, members => writeAll rest (writePath v keys members)

theorem fetchPath_writeAll_of_diverge {writes : List (List String × Json)} {q : List String}
    (h : ∀ e ∈ writes, Diverge e.1 q) (members : List (String × Json)) :
    fetchPath q (.object (writeAll writes members)) = fetchPath q (.object members) := by
  induction writes generalizing members with
  | nil => rfl
  | cons e rest ih =>
    obtain ⟨first, others⟩ := List.forall_mem_cons.1 h
    rw [writeAll, ih others, fetchPath_writePath_of_diverge e.2 first]

theorem fetchPath_writeAll {writes : List (List String × Json)}
    (diverge : writes.Pairwise fun a b => Diverge a.1 b.1) {path : List String} {v : Json}
    (ne : path ≠ []) (mem : (path, v) ∈ writes) (members : List (String × Json)) :
    fetchPath path (.object (writeAll writes members)) = some v := by
  induction writes generalizing members with
  | nil => cases mem
  | cons e rest ih =>
    obtain ⟨first, others⟩ := List.pairwise_cons.1 diverge
    rw [writeAll]
    rcases List.mem_cons.1 mem with rfl | mem
    · rw [fetchPath_writeAll_of_diverge (fun e later => (first e later).symm),
        fetchPath_writePath v ne]
    · exact ih others mem _

theorem mem_keys_writeAll {writes : List (List String × Json)} {members : List (String × Json)}
    {key : String} (h : key ∈ Assoc.keys (writeAll writes members)) :
    key ∈ Assoc.keys members ∨ ∃ e ∈ writes, e.1.head? = some key := by
  induction writes generalizing members with
  | nil => exact .inl h
  | cons e rest ih =>
    rcases ih h with old | ⟨other, mem, isHead⟩
    · exact (mem_keys_writePath old).imp id fun isHead => ⟨e, List.mem_cons_self, isHead⟩
    · exact .inr ⟨other, List.mem_cons_of_mem _ mem, isHead⟩

end Target

/-- Where the decoder looks for a field in an object, in this order. -/
def decodePlaces (config : Config) (field : Field) : List (List String) :=
  match field.path with
  | some keys => [keys]
  | none => (Locator.keysOf config field).map fun key => [key]

namespace Locator

theorem isSome_fetchPath_key {key : String} {members : List (String × Json)} :
    (fetchPath [key] (.object members)).isSome = true ↔
      (Json.object members).keys.contains key = true := by
  have found : fetchPath [key] (.object members) = Assoc.get? key members := by
    simp only [fetchPath, Json.get?]
    cases Assoc.get? key members <;> rfl
  rw [found, Assoc.isSome_get?_iff, Json.keys, List.contains_iff_mem]

variable {config : Config} {index : Option Nat} {field : Field} {members : List (String × Json)}

theorem locate_eq_some {place : List String} {others : List (List String)}
    (places : decodePlaces config field = place :: others) {v : Json}
    (found : fetchPath place (.object members) = some v) :
    ∃ spot, (ofField config index field).locate (.object members) = some spot ∧
      spot.fetch (.object members) = some v ∧ takenKey? spot = place.head? := by
  unfold decodePlaces at places
  simp only [locate, ofField]
  cases isPath : field.path with
  | some keys =>
    rw [isPath] at places
    cases places
    simp only [found, Option.isSome_some, if_true]
    exact ⟨_, rfl, found, rfl⟩
  | none =>
    rw [isPath] at places
    cases isKeys : keysOf config field with
    | nil => simp [isKeys] at places
    | cons key rest =>
      rw [isKeys] at places
      cases places
      have present := isSome_fetchPath_key.1 (Option.isSome_iff_exists.2 ⟨v, found⟩)
      simp only [keyAmong?, List.find?_cons, present, Option.some_or, Option.map_some]
      refine ⟨_, rfl, ?_, rfl⟩
      simpa [fetchPath, Location.fetch] using found

theorem locate_eq_none (cased : config.decodesWith ≠ .caseInsensitive)
    (absent : ∀ place ∈ decodePlaces config field, fetchPath place (.object members) = none) :
    (ofField config index field).locate (.object members) = none := by
  unfold decodePlaces at absent
  simp only [locate, ofField]
  cases isPath : field.path with
  | some keys =>
    rw [isPath] at absent
    simp [absent keys List.mem_cons_self]
  | none =>
    rw [isPath] at absent
    have unseen : (keysOf config field).find? (fun key => (Json.object members).keys.contains key) =
        none := by
      refine List.find?_eq_none.2 fun key mem isPresent => ?_
      have some := isSome_fetchPath_key.2 isPresent
      rw [absent [key] (List.mem_map_of_mem mem)] at some
      cases some
    have noCase : (config.decodesWith == Casing.caseInsensitive) = false := by simpa using cased
    simp only [keyAmong?, unseen, noCase, Option.none_or, Bool.false_eq_true, if_false,
      Option.map_none]

end Locator
end RecordCodec.Compile
