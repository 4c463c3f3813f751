import RecordCodec.Assoc

set_option autoImplicit false

/-!
# Laws of association lists
-/
namespace RecordCodec.Assoc

variable {κ α : Type} [DecidableEq κ]

theorem mem_of_get? {key : κ} {value : α} {entries : List (κ × α)}
    (h : get? key entries = some value) : (key, value) ∈ entries := by
  induction entries with
  | nil => cases h
  | cons head rest ih =>
    obtain ⟨k, v⟩ := head
    rw [get?] at h
    split at h
    case isTrue eq =>
      cases h
      exact eq ▸ List.mem_cons_self
    case isFalse => exact List.mem_cons_of_mem _ (ih h)

theorem get?_eq_none_iff {key : κ} {entries : List (κ × α)} :
    get? key entries = none ↔ key ∉ keys entries := by
  induction entries with
  | nil => exact iff_of_true rfl List.not_mem_nil
  | cons head rest ih =>
    obtain ⟨k, v⟩ := head
    rw [get?]
    split
    case isTrue eq =>
      subst eq
      exact iff_of_false (by simp) (by simp [keys])
    case isFalse ne =>
      rw [ih]
      simp only [keys, List.map_cons, List.mem_cons, not_or]
      exact ⟨fun h => ⟨fun eq => ne eq.symm, h⟩, And.right⟩

theorem isSome_get?_iff {key : κ} {entries : List (κ × α)} :
    (get? key entries).isSome ↔ key ∈ keys entries := by
  rw [← Decidable.not_iff_not, ← get?_eq_none_iff]
  simp

theorem get?_of_mem {entries : List (κ × α)} (distinct : (keys entries).Nodup) {key : κ} {value : α}
    (mem : (key, value) ∈ entries) : get? key entries = some value := by
  induction entries with
  | nil => cases mem
  | cons head rest ih =>
    obtain ⟨k, v⟩ := head
    obtain ⟨new, others⟩ := List.nodup_cons.1 distinct
    rcases List.mem_cons.1 mem with same | mem
    · cases same
      simp [get?]
    · have ne : k ≠ key := by
        rintro rfl
        exact new (List.mem_map.2 ⟨_, mem, rfl⟩)
      rw [get?, if_neg ne, ih others mem]

theorem get?_append (key : κ) (a b : List (κ × α)) :
    get? key (a ++ b) = (get? key a).or (get? key b) := by
  induction a with
  | nil => rfl
  | cons head rest ih =>
    obtain ⟨k, v⟩ := head
    rw [List.cons_append, get?, get?]
    split
    · rfl
    · exact ih

@[simp] theorem get?_insert_self (key : κ) (value : α) (entries : List (κ × α)) :
    get? key (insert key value entries) = some value := by
  induction entries with
  | nil => simp [insert, get?]
  | cons head rest ih =>
    obtain ⟨k, v⟩ := head
    rw [insert]
    split
    case isTrue eq => simp [get?, eq]
    case isFalse ne => rw [get?, if_neg ne, ih]

theorem get?_insert_of_ne {key other : κ} (ne : other ≠ key) (value : α)
    (entries : List (κ × α)) : get? other (insert key value entries) = get? other entries := by
  induction entries with
  | nil => simp [insert, get?, ne.symm]
  | cons head rest ih =>
    obtain ⟨k, v⟩ := head
    rw [insert]
    split
    case isTrue eq =>
      have skip : k ≠ other := fun same => ne (same ▸ eq)
      rw [get?, get?, if_neg skip, if_neg skip]
    case isFalse =>
      rw [get?, get?, ih]

theorem mem_insert {key : κ} {value : α} {entries : List (κ × α)} {e : κ × α}
    (h : e ∈ insert key value entries) : e = (key, value) ∨ e ∈ entries := by
  induction entries with
  | nil => exact .inl (List.mem_singleton.1 h)
  | cons head rest ih =>
    obtain ⟨k, v⟩ := head
    rw [insert] at h
    split at h
    case isTrue eq =>
      rcases List.mem_cons.1 h with h | h
      · exact .inl (h.trans (by rw [eq]))
      · exact .inr (List.mem_cons_of_mem _ h)
    case isFalse =>
      rcases List.mem_cons.1 h with h | h
      · exact .inr (h ▸ List.mem_cons_self)
      · exact (ih h).imp id (List.mem_cons_of_mem _)

theorem insert_of_not_mem {key : κ} {entries : List (κ × α)} (h : key ∉ keys entries) (value : α) :
    insert key value entries = entries ++ [(key, value)] := by
  induction entries with
  | nil => rfl
  | cons head rest ih =>
    obtain ⟨k, v⟩ := head
    simp only [keys, List.map_cons, List.mem_cons, not_or] at h
    rw [insert, if_neg fun eq => h.1 eq.symm, ih h.2]
    rfl

theorem mem_keys_insert {key other : κ} {value : α} {entries : List (κ × α)} :
    other ∈ keys (insert key value entries) ↔ other = key ∨ other ∈ keys entries := by
  by_cases h : other = key
  · subst h
    simp [← isSome_get?_iff]
  · rw [← isSome_get?_iff, get?_insert_of_ne h, isSome_get?_iff]
    simp [h]

theorem mem_of_mem_ofList {entries : List (κ × α)} {e : κ × α} (h : e ∈ ofList entries) :
    e ∈ entries := by
  have through : ∀ held, e ∈ entries.foldl (fun acc e => insert e.1 e.2 acc) held →
      e ∈ held ∨ e ∈ entries := by
    clear h
    induction entries with
    | nil => exact fun held mem => .inl mem
    | cons head rest ih =>
      intro held mem
      rcases ih _ mem with mem | mem
      · rcases mem_insert mem with rfl | mem
        · exact .inr List.mem_cons_self
        · exact .inl mem
      · exact .inr (List.mem_cons_of_mem _ mem)
  exact (through [] h).resolve_left List.not_mem_nil

theorem nodup_keys_insert {key : κ} {value : α} {entries : List (κ × α)}
    (h : (keys entries).Nodup) : (keys (insert key value entries)).Nodup := by
  induction entries with
  | nil => exact List.pairwise_singleton _ _
  | cons head rest ih =>
    obtain ⟨k, v⟩ := head
    obtain ⟨new, distinct⟩ := List.nodup_cons.1 h
    rw [insert]
    split
    case isTrue => exact h
    case isFalse other =>
      refine List.nodup_cons.2 ⟨fun mem => ?_, ih distinct⟩
      rcases mem_keys_insert.1 mem with same | mem
      · exact other same
      · exact new mem

theorem nodup_keys_ofList (entries : List (κ × α)) : (keys (ofList entries)).Nodup := by
  have through : ∀ held : List (κ × α), (keys held).Nodup →
      (keys (entries.foldl (fun acc e => insert e.1 e.2 acc) held)).Nodup := by
    induction entries with
    | nil => exact fun _ distinct => distinct
    | cons head rest ih => exact fun _ distinct => ih _ (nodup_keys_insert distinct)
  exact through [] List.nodup_nil

theorem ofList_eq_self {entries : List (κ × α)} (h : (keys entries).Nodup) :
    ofList entries = entries := by
  have through : ∀ held : List (κ × α), (keys (held ++ entries)).Nodup →
      entries.foldl (fun acc e => insert e.1 e.2 acc) held = held ++ entries := by
    clear h
    induction entries with
    | nil => exact fun held _ => (List.append_nil held).symm
    | cons head rest ih =>
      intro held distinct
      obtain ⟨key, value⟩ := head
      have new : key ∉ keys held := fun mem => by
        rw [keys, List.map_append] at distinct
        exact (List.nodup_append.1 distinct).2.2 _ mem _ List.mem_cons_self rfl
      have added := ih (insert key value held)
      rw [insert_of_not_mem new, List.append_assoc] at added
      rw [List.foldl_cons]
      change rest.foldl _ (insert key value held) = _
      rw [insert_of_not_mem new]
      exact added distinct
  exact through [] h

end RecordCodec.Assoc
