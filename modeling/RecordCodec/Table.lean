import RecordCodec.Assoc

set_option autoImplicit false

/-!
# Tables by name

A table holds at most one value under a name, in increasing order of the names. Two tables that
hold the same values are equal.
-/
namespace RecordCodec

def Table.Sorted {α : Type} (entries : List (String × α)) : Prop :=
  entries.Pairwise fun a b => a.1 < b.1

structure Table (α : Type) where
  entries : List (String × α)
  sorted : Table.Sorted entries

namespace Table

variable {α : Type}

instance [DecidableEq α] : DecidableEq (Table α) := fun a b =>
  match decEq a.entries b.entries with
  | isTrue h => isTrue (by cases a; cases b; cases h; rfl)
  | isFalse h => isFalse fun e => h (e ▸ rfl)

def empty : Table α := ⟨[], .nil⟩

instance : Inhabited (Table α) := ⟨empty⟩

def insertEntry (name : String) (value : α) : List (String × α) → List (String × α)
  | [] => [(name, value)]
  | (n, v) :: rest =>
    if name < n then (name, value) :: (n, v) :: rest
    else if name = n then (name, value) :: rest
    else (n, v) :: insertEntry name value rest

theorem mem_insertEntry {name : String} {value : α} {entries : List (String × α)}
    {e : String × α} (h : e ∈ insertEntry name value entries) :
    e = (name, value) ∨ e ∈ entries := by
  induction entries with
  | nil => simpa [insertEntry] using h
  | cons head rest ih =>
    obtain ⟨n, v⟩ := head
    simp only [insertEntry] at h
    split at h
    · simpa using h
    · split at h
      · rcases List.mem_cons.1 h with h | h
        · exact .inl h
        · exact .inr (List.mem_cons_of_mem _ h)
      · rcases List.mem_cons.1 h with h | h
        · exact .inr (h ▸ List.mem_cons_self)
        · rcases ih h with h | h
          · exact .inl h
          · exact .inr (List.mem_cons_of_mem _ h)

theorem lt_of_not_lt_of_ne {a b : String} (h : ¬a < b) (ne : a ≠ b) : b < a :=
  Decidable.byContradiction fun n => ne (String.le_antisymm (String.not_lt.1 n) (String.not_lt.1 h))

theorem sorted_insertEntry {name : String} {value : α} {entries : List (String × α)}
    (h : Sorted entries) : Sorted (insertEntry name value entries) := by
  induction entries with
  | nil => simp [insertEntry, Sorted]
  | cons head rest ih =>
    obtain ⟨n, v⟩ := head
    obtain ⟨first, rest_sorted⟩ := List.pairwise_cons.1 h
    simp only [insertEntry]
    split
    case isTrue lt =>
      refine List.pairwise_cons.2 ⟨?_, h⟩
      intro e he
      rcases List.mem_cons.1 he with rfl | he
      · exact lt
      · exact String.lt_trans lt (first e he)
    case isFalse ge =>
      split
      case isTrue eq =>
        subst eq
        exact List.pairwise_cons.2 ⟨first, rest_sorted⟩
      case isFalse ne =>
        refine List.pairwise_cons.2 ⟨?_, ih rest_sorted⟩
        intro e he
        rcases mem_insertEntry he with rfl | he
        · exact lt_of_not_lt_of_ne ge ne
        · exact first e he

def insert (name : String) (value : α) (t : Table α) : Table α :=
  ⟨insertEntry name value t.entries, sorted_insertEntry t.sorted⟩

def get? (name : String) (t : Table α) : Option α := Assoc.get? name t.entries

def contains (name : String) (t : Table α) : Bool := (t.get? name).isSome

def names (t : Table α) : List String := t.entries.map Prod.fst

def values (t : Table α) : List α := t.entries.map Prod.snd

def isEmpty (t : Table α) : Bool := t.entries.isEmpty

/-- Values given one after another; the last one under a name wins. -/
def ofList (entries : List (String × α)) : Table α :=
  entries.foldl (fun t (name, value) => t.insert name value) empty

/-- The values of `upper`, and those of `base` under the other names. -/
def overlay (upper base : Table α) : Table α :=
  upper.entries.foldl (fun t (name, value) => t.insert name value) base

end Table
end RecordCodec
