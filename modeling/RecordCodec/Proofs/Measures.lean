import Mathlib.Data.List.Perm.Subperm
import RecordCodec.Converter.Encode
import RecordCodec.Proofs.Entries
import RecordCodec.Routine.Locals

set_option autoImplicit false

/-!
# Parts are smaller

The parts of a value that a conversion goes on to weigh less than the value. The items and entries
that a text stands for weigh nothing, and neither does the text.
-/
namespace RecordCodec

namespace Json

theorem weight_lt_of_mem_items {items : List Json} {v : Json} (h : v ∈ items) :
    v.weight < (array items).weight := by
  rw [weight]
  induction items with
  | nil => cases h
  | cons w rest ih =>
    rw [weightItems]
    rcases List.mem_cons.1 h with rfl | h
    · omega
    · have := ih h
      omega

theorem weight_lt_of_mem_members {members : List (String × Json)} {e : String × Json}
    (h : e ∈ members) : e.2.weight < (object members).weight := by
  rw [weight]
  induction members with
  | nil => cases h
  | cons head rest ih =>
    rw [weightMembers]
    rcases List.mem_cons.1 h with rfl | h
    · omega
    · have := ih h
      omega

theorem weightMembers_perm {a b : List (String × Json)} (h : a.Perm b) :
    weightMembers a = weightMembers b := by
  induction h with
  | nil => rfl
  | cons e _ ih => rw [weightMembers, weightMembers, ih]
  | swap e e' rest =>
    simp only [weightMembers]
    omega
  | trans _ _ first second => exact first.trans second

theorem weightMembers_sublist {a b : List (String × Json)} (h : a.Sublist b) :
    weightMembers a + b.length ≤ weightMembers b + a.length := by
  induction h with
  | slnil => exact Nat.le_refl _
  | cons e _ ih =>
    rw [weightMembers, List.length_cons]
    omega
  | cons_cons e _ ih =>
    rw [weightMembers, weightMembers, List.length_cons, List.length_cons]
    omega

/-- Some members of an object, in any order, weigh less if they are not all of them. -/
theorem perm_or_weight_lt {a b : List (String × Json)} (distinct : a.Nodup) (subset : a ⊆ b) :
    a.Perm b ∨ (object a).weight < (object b).weight := by
  obtain ⟨c, perm, sublist⟩ := distinct.subperm subset
  have less := weightMembers_sublist sublist
  rw [weight, weight, ← weightMembers_perm perm]
  by_cases all : b.length ≤ c.length
  · rw [sublist.eq_of_length_le all] at perm
    exact .inl perm.symm
  · right
    omega

theorem weight_lt_of_get? {key : String} {v w : Json} (h : v.get? key = some w) :
    w.weight < v.weight := by
  cases v with
  | object members => exact weight_lt_of_mem_members (Assoc.mem_of_get? h)
  | _ => cases h

theorem weight_lt_of_item? {index : Nat} {v w : Json} (h : v.item? index = some w) :
    w.weight < v.weight := by
  cases v with
  | array items => exact weight_lt_of_mem_items (List.mem_of_getElem? h)
  | _ => cases h

theorem weight_le_of_fetchPath {path : List String} {v w : Json}
    (h : Routine.fetchPath path v = some w) : w.weight ≤ v.weight := by
  induction path generalizing v with
  | nil =>
    cases h
    exact Nat.le_refl _
  | cons key rest ih =>
    obtain ⟨inner, got, fetched⟩ := Option.bind_eq_some_iff.1 h
    exact Nat.le_of_lt (Nat.lt_of_le_of_lt (ih fetched) (weight_lt_of_get? got))

theorem weight_lt_of_fetchPath {key : String} {rest : List String} {v w : Json}
    (h : Routine.fetchPath (key :: rest) v = some w) : w.weight < v.weight := by
  obtain ⟨inner, got, fetched⟩ := Option.bind_eq_some_iff.1 h
  exact Nat.lt_of_le_of_lt (weight_le_of_fetchPath fetched) (weight_lt_of_get? got)

theorem weight_le_of_mem_listItems? {v w : Json} {vs : List Json}
    (h : Converter.listItems? v = some vs) (mem : w ∈ vs) : w.weight ≤ v.weight := by
  cases v with
  | array items =>
    cases h
    exact Nat.le_of_lt (weight_lt_of_mem_items mem)
  | string s =>
    cases h
    obtain ⟨item, -, rfl⟩ := List.mem_map.1 mem
    exact Nat.zero_le _
  | _ => cases h

theorem exists_of_mem_mapM {α β : Type} {f : α → Option β} {xs : List α} {ys : List β}
    (h : xs.mapM f = some ys) {y : β} (mem : y ∈ ys) : ∃ x ∈ xs, f x = some y := by
  induction xs generalizing ys with
  | nil =>
    cases h
    cases mem
  | cons x rest ih =>
    rw [List.mapM_cons] at h
    obtain ⟨first, isFirst, h⟩ := Option.bind_eq_some_iff.1 h
    obtain ⟨others, areOthers, h⟩ := Option.bind_eq_some_iff.1 h
    cases h
    rcases List.mem_cons.1 mem with rfl | mem
    · exact ⟨x, List.mem_cons_self, isFirst⟩
    · obtain ⟨z, memZ, made⟩ := ih areOthers mem
      exact ⟨z, List.mem_cons_of_mem _ memZ, made⟩

theorem weight_of_textEntry {item : String} {e : String × Json}
    (h : Converter.textEntry? item = some e) : e.2.weight = 0 := by
  obtain ⟨⟨key, value⟩, -, rfl⟩ := Option.map_eq_some_iff.1 h
  rfl

theorem weight_le_of_mem_mapEntries {v : Json} {entries : List (String × Json)}
    (h : Converter.mapEntries v = .ok entries) {e : String × Json} (mem : e ∈ entries) :
    e.2.weight ≤ v.weight := by
  cases v with
  | object members =>
    cases h
    exact Nat.le_of_lt (weight_lt_of_mem_members mem)
  | string s =>
    simp only [Converter.mapEntries] at h
    split at h
    case h_1 found all =>
      cases h
      obtain ⟨item, -, isEntry⟩ := exists_of_mem_mapM all mem
      rw [weight_of_textEntry isEntry]
      exact Nat.zero_le _
    case h_2 => cases h
  | _ => cases h

/-- A property that a value hands on to the items and entries that it holds or stands for. -/
structure Hereditary (P : Json → Prop) : Prop where
  items : ∀ {v items}, P v → Converter.listItems? v = some items → ∀ w ∈ items, P w
  entries : ∀ {v entries}, P v → Converter.mapEntries v = .ok entries →
    ∀ e ∈ entries, P (.string e.1) ∧ P e.2

theorem hereditary_weight (n : Nat) : Hereditary fun v => v.weight < n where
  items small isItems _ mem := Nat.lt_of_le_of_lt (weight_le_of_mem_listItems? isItems mem) small
  entries small isEntries _ mem :=
    ⟨Nat.lt_of_le_of_lt (Nat.zero_le _) small,
      Nat.lt_of_le_of_lt (weight_le_of_mem_mapEntries isEntries mem) small⟩

/-- From an object, conversions go on to the object itself and to less. -/
theorem hereditary_object (members : List (String × Json)) :
    Hereditary fun v => v = object members ∨ v.weight < (object members).weight where
  items holds isItems w mem := by
    rcases holds with rfl | small
    · cases isItems
    · exact .inr ((hereditary_weight _).items small isItems w mem)
  entries holds isEntries e mem := by
    rcases holds with rfl | small
    · cases isEntries
      have less := weight_lt_of_mem_members mem
      exact ⟨.inr (Nat.lt_of_le_of_lt (Nat.zero_le _) less), .inr less⟩
    · exact ((hereditary_weight _).entries small isEntries e mem).imp .inr .inr

end Json

namespace Instance

theorem depth_le_of_mem_items {items : List Instance} {v : Instance} (h : v ∈ items) :
    v.depth ≤ depthItems items := by
  induction items with
  | nil => cases h
  | cons w rest ih =>
    rw [depthItems]
    rcases List.mem_cons.1 h with rfl | h
    · exact Nat.le_max_left _ _
    · exact Nat.le_trans (ih h) (Nat.le_max_right _ _)

theorem depth_le_of_mem_entries {entries : List (Instance × Instance)} {e : Instance × Instance}
    (h : e ∈ entries) : e.1.depth ≤ depthEntries entries ∧ e.2.depth ≤ depthEntries entries := by
  induction entries with
  | nil => cases h
  | cons head rest ih =>
    rw [depthEntries]
    rcases List.mem_cons.1 h with rfl | h
    · omega
    · have := ih h
      omega

theorem depth_le_of_mem_fields {fields : List (String × Instance)} {e : String × Instance}
    (h : e ∈ fields) : e.2.depth ≤ depthFields fields := by
  induction fields with
  | nil => cases h
  | cons head rest ih =>
    rw [depthFields]
    rcases List.mem_cons.1 h with rfl | h
    · exact Nat.le_max_left _ _
    · exact Nat.le_trans (ih h) (Nat.le_max_right _ _)

theorem depth_le_of_mem_items? {v w : Instance} {vs : List Instance} (h : v.items? = some vs)
    (mem : w ∈ vs) : w.depth ≤ v.depth := by
  cases v with
  | seq items | set items | tuple items =>
    cases h
    rw [depth]
    exact Nat.le_succ_of_le (depth_le_of_mem_items mem)
  | _ => cases h

theorem depth_le_of_mem_entries? {v : Instance} {entries : List (Instance × Instance)}
    (h : v.entries? = some entries) {e : Instance × Instance} (mem : e ∈ entries) :
    e.1.depth ≤ v.depth ∧ e.2.depth ≤ v.depth := by
  cases v with
  | map held | defaultMap held default =>
    cases h
    have := depth_le_of_mem_entries mem
    rw [depth]
    omega
  | _ => cases h

theorem depth_lt_of_field? {name : String} {v w : Instance} (h : v.field? name = some w) :
    w.depth < v.depth := by
  cases v with
  | record type fields =>
    rw [depth]
    exact Nat.lt_succ_of_le (depth_le_of_mem_fields (Assoc.mem_of_get? h))
  | _ => cases h

structure Hereditary (P : Instance → Prop) : Prop where
  items : ∀ {v items}, P v → v.items? = some items → ∀ w ∈ items, P w
  entries : ∀ {v entries}, P v → v.entries? = some entries → ∀ e ∈ entries, P e.1 ∧ P e.2

theorem hereditary_depth (n : Nat) : Hereditary fun v => v.depth < n where
  items small isItems _ mem := Nat.lt_of_le_of_lt (depth_le_of_mem_items? isItems mem) small
  entries small isEntries _ mem :=
    ⟨Nat.lt_of_le_of_lt (depth_le_of_mem_entries? isEntries mem).1 small,
      Nat.lt_of_le_of_lt (depth_le_of_mem_entries? isEntries mem).2 small⟩

end Instance
end RecordCodec
