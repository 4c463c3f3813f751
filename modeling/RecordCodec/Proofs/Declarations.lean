import RecordCodec.Proofs.Entries
import RecordCodec.Schema

set_option autoImplicit false

/-!
# Declared schemas

A schema comes of declarations, one after another, each of which was checked. What the checks
say of a record holds of every record of the schema.
-/
namespace RecordCodec

namespace Table

variable {α : Type}

theorem get?_insert_self (name : String) (value : α) (t : Table α) :
    (t.insert name value).get? name = some value := by
  unfold insert get?
  obtain ⟨entries, sorted⟩ := t
  induction entries with
  | nil => simp [insertEntry, Assoc.get?]
  | cons head rest ih =>
    obtain ⟨n, v⟩ := head
    simp only [insertEntry]
    split
    · simp [Assoc.get?]
    · split
      · simp [Assoc.get?]
      case isFalse ne =>
        rw [Assoc.get?, if_neg (Ne.symm ne)]
        exact ih (List.Pairwise.of_cons sorted)

theorem get?_insert_of_ne {name other : String} (ne : other ≠ name) (value : α) (t : Table α) :
    (t.insert name value).get? other = t.get? other := by
  unfold insert get?
  obtain ⟨entries, sorted⟩ := t
  induction entries with
  | nil => simp [insertEntry, Assoc.get?, ne.symm]
  | cons head rest ih =>
    obtain ⟨n, v⟩ := head
    simp only [insertEntry]
    split
    · rw [Assoc.get?, if_neg (Ne.symm ne)]
    · split
      case isTrue eq =>
        subst eq
        rw [Assoc.get?, Assoc.get?, if_neg (Ne.symm ne), if_neg (Ne.symm ne)]
      case isFalse =>
        rw [Assoc.get?, Assoc.get?, ih (List.Pairwise.of_cons sorted)]

theorem get?_insert (name other : String) (value : α) (t : Table α) :
    (t.insert name value).get? other = if other = name then some value else t.get? other := by
  split
  case isTrue eq => rw [eq, get?_insert_self]
  case isFalse ne => rw [get?_insert_of_ne ne]

theorem nodup_names (t : Table α) : t.names.Nodup := by
  have apart : t.entries.Pairwise fun e e' => e.1 ≠ e'.1 := by
    refine t.sorted.imp fun {e e'} first same => ?_
    rw [same] at first
    exact String.lt_irrefl _ first
  exact List.pairwise_map.2 apart

theorem get?_overlay (name : String) (upper base : Table α) :
    (upper.overlay base).get? name = (upper.get? name).or (base.get? name) := by
  have distinct : (Assoc.keys upper.entries).Nodup := upper.nodup_names
  unfold overlay
  rw [get?.eq_def name upper]
  generalize upper.entries = entries at distinct ⊢
  induction entries generalizing base with
  | nil => rfl
  | cons e rest ih =>
    obtain ⟨n, v⟩ := e
    obtain ⟨new, others⟩ := List.nodup_cons.1 distinct
    rw [List.foldl_cons, ih _ others, get?_insert, Assoc.get?]
    by_cases same : n = name
    · subst same
      rw [Assoc.get?_eq_none_iff.2 new, if_pos rfl, if_pos rfl]
      rfl
    · rw [if_neg (Ne.symm same), if_neg same]

theorem isSome_get?_iff {name : String} {t : Table α} :
    (t.get? name).isSome ↔ name ∈ t.names :=
  Assoc.isSome_get?_iff

theorem mem_names_overlay {name : String} {upper base : Table α} :
    name ∈ (upper.overlay base).names ↔ name ∈ upper.names ∨ name ∈ base.names := by
  rw [← isSome_get?_iff, get?_overlay, Option.isSome_or, Bool.or_eq_true, isSome_get?_iff,
    isSome_get?_iff]

end Table

theorem bind_eq_ok_iff {ε α β : Type} {r : Except ε α} {f : α → Except ε β} {b : β} :
    r >>= f = .ok b ↔ ∃ a, r = .ok a ∧ f a = .ok b := by
  cases r with
  | error e => simp [bind, Except.bind]
  | ok a => simp [bind, Except.bind]

namespace Config

structure Valid (fields : List String) (c : Config) : Prop where
  casing : c.encodeCasing ≠ some .caseInsensitive
  aliases : ∀ name ∈ c.decodeAliases.names ++ c.encodeAliases.names, name ∈ fields
  tagKey : c.tagKey? ≠ some ""

theorem check_eq_ok_iff {record : String} {fields : List String} {c : Config} :
    c.check record fields = .ok () ↔ c.Valid fields := by
  have shape : c.check record fields = .ok () ↔ c.encodeCasing ≠ some .caseInsensitive ∧
      (c.decodeAliases.names ++ c.encodeAliases.names).find?
        (fun name => !fields.contains name) = none ∧ c.tagKey? ≠ some "" := by
    unfold check
    by_cases casing : c.encodeCasing = some .caseInsensitive
    · simp [casing, bind, Except.bind]
    · cases unknown : (c.decodeAliases.names ++ c.encodeAliases.names).find?
          (fun name => !fields.contains name) with
      | some name => simp [casing, bind, Except.bind]
      | none =>
        by_cases tagKey : c.tagKey? = some ""
        · simp [casing, bind, Except.bind, tagKey]
        · simp [casing, bind, Except.bind, pure, Except.pure, tagKey]
  rw [shape, List.find?_eq_none]
  constructor
  · rintro ⟨casing, aliases, tagKey⟩
    exact ⟨casing, fun name mem => by simpa using aliases name mem, tagKey⟩
  · rintro ⟨casing, aliases, tagKey⟩
    exact ⟨casing, fun name mem => by simpa using aliases name mem, tagKey⟩

theorem Valid.empty (fields : List String) : Valid fields {} :=
  ⟨nofun, fun _ mem => absurd mem List.not_mem_nil, nofun⟩

/-- Only the casing can come from a record around. -/
theorem Valid.inherit {fields fields' : List String} {own outer : Config}
    (h : own.Valid fields) (h' : outer.Valid fields') : (own.inherit outer).Valid fields := by
  unfold Config.inherit
  split
  · exact ⟨fun same => (Option.or_eq_some_iff.1 same).elim h.casing fun outer => h'.casing outer.2,
      h.aliases, h.tagKey⟩
  · exact h

theorem tagKey?_overlay (upper base : Config) :
    (upper.overlay base).tagKey? = upper.tagKey?.or base.tagKey? := by
  obtain ⟨_, _, _, _, _, d, _⟩ := upper
  obtain ⟨_, _, _, _, _, d', _⟩ := base
  cases d <;> cases d' <;> simp [tagKey?, overlay, overlayDiscriminator, Discriminator.overlay]

theorem Valid.overlay {fields : List String} {upper base : Config} (h : upper.Valid fields)
    (h' : base.Valid fields) : (upper.overlay base).Valid fields := by
  refine ⟨fun same => ?_, fun name mem => ?_, fun same => ?_⟩
  · exact (Option.or_eq_some_iff.1 same).elim h.casing fun other => h'.casing other.2
  · rcases List.mem_append.1 mem with decode | encode
    · exact (Table.mem_names_overlay.1 decode).elim
        (fun mem => h.aliases name (List.mem_append_left _ mem))
        fun mem => h'.aliases name (List.mem_append_left _ mem)
    · exact (Table.mem_names_overlay.1 encode).elim
        (fun mem => h.aliases name (List.mem_append_right _ mem))
        fun mem => h'.aliases name (List.mem_append_right _ mem)
  · rw [tagKey?_overlay] at same
    exact (Option.or_eq_some_iff.1 same).elim h.tagKey fun other => h'.tagKey other.2

end Config

namespace RecordType

theorem checkFields_eq_ok {record : String} {seen : List String} {fields : List Field}
    (h : checkFields record seen fields = .ok ()) :
    (∀ f ∈ fields, f.name ∉ seen) ∧ (fields.map Field.name).Nodup ∧
      ∀ f ∈ fields, ∀ path, f.path = some path → path ≠ [] := by
  induction fields generalizing seen with
  | nil => simp
  | cons f rest ih =>
    rw [checkFields] at h
    split at h
    case isTrue => cases h
    case isFalse new =>
      split at h
      case isTrue => cases h
      case isFalse proper =>
        obtain ⟨unseen, distinct, paths⟩ := ih h
        refine ⟨?_, ?_, ?_⟩
        · refine List.forall_mem_cons.2 ⟨by simpa using new, fun g mem isSeen => ?_⟩
          exact unseen g mem (List.mem_cons_of_mem _ isSeen)
        · refine List.nodup_cons.2 ⟨fun mem => ?_, distinct⟩
          obtain ⟨g, memG, same⟩ := List.mem_map.1 mem
          exact unseen g memG (same ▸ List.mem_cons_self)
        · refine List.forall_mem_cons.2 ⟨?_, paths⟩
          rintro path isPath rfl
          simp [isPath] at proper

structure Checked (r : RecordType) : Prop where
  distinct : (r.fields.map Field.name).Nodup
  path : ∀ f ∈ r.fields, ∀ path, f.path = some path → path ≠ []
  catchAll : r.fields.filter Field.catchAll = [] ∨ r.kind ≠ .positional ∧
    ∃ f, r.fields.filter Field.catchAll = [f] ∧ f.path = none ∧
      (f.type.shape.kind = .mapping ∨ f.type.shape.kind = .defaultMapping)
  config : r.ownConfig.Valid (r.fields.map Field.name)

theorem Checked.not_catchAll {r : RecordType} (h : r.Checked) {k k' : Nat} {f g : Field}
    (isG : r.fields[k']? = some g) (last : g.catchAll = true) (isF : r.fields[k]? = some f)
    (other : k ≠ k') : f.catchAll = false := by
  refine Bool.eq_false_iff.2 fun also => ?_
  have both : f ∈ r.fields.filter Field.catchAll ∧ g ∈ r.fields.filter Field.catchAll :=
    ⟨List.mem_filter.2 ⟨List.mem_of_getElem? isF, also⟩,
      List.mem_filter.2 ⟨List.mem_of_getElem? isG, last⟩⟩
  rcases h.catchAll with none | ⟨-, only, one, -⟩
  · rw [none] at both
    cases both.1
  · rw [one, List.mem_singleton, List.mem_singleton] at both
    have inRange := (List.getElem?_eq_some_iff.1 isF).1
    have same : (r.fields.map Field.name)[k]? = (r.fields.map Field.name)[k']? := by
      rw [List.getElem?_map, List.getElem?_map, isF, isG, both.1, both.2]
    exact other ((List.getElem?_inj (by simpa using inRange) h.distinct).1 same)

theorem Checked.noCatchAll {r : RecordType} (h : r.Checked) (positional : r.kind = .positional) :
    ∀ f ∈ r.fields, f.catchAll = false := by
  intro f mem
  rcases h.catchAll with none | ⟨keyword, -⟩
  · exact Bool.eq_false_iff.2 (List.filter_eq_nil_iff.1 none f mem)
  · exact absurd positional keyword

theorem Checked.isMapping {r : RecordType} (h : r.Checked) {f : Field} (mem : f ∈ r.fields)
    (last : f.catchAll = true) :
    f.type.shape.kind = .mapping ∨ f.type.shape.kind = .defaultMapping := by
  have inFilter : f ∈ r.fields.filter Field.catchAll := List.mem_filter.2 ⟨mem, last⟩
  rcases h.catchAll with none | ⟨-, only, one, -, isMapping⟩
  · rw [none] at inFilter
    cases inFilter
  · rw [one, List.mem_singleton] at inFilter
    exact inFilter ▸ isMapping

theorem checkCatchAll_eq_ok {r : RecordType} (h : r.checkCatchAll = .ok ()) :
    r.fields.filter Field.catchAll = [] ∨ r.kind ≠ .positional ∧
      ∃ f, r.fields.filter Field.catchAll = [f] ∧ f.path = none ∧
        (f.type.shape.kind = .mapping ∨ f.type.shape.kind = .defaultMapping) := by
  unfold checkCatchAll at h
  split at h
  case h_1 none => exact .inl none
  case h_2 f one =>
    refine .inr ?_
    split at h
    case isTrue => cases h
    case isFalse kind =>
      split at h
      case isTrue => cases h
      case isFalse mapping =>
        split at h
        case isTrue => cases h
        case isFalse path =>
          refine ⟨kind, f, one, by simpa using path, ?_⟩
          exact Decidable.byContradiction fun neither => mapping (not_or.1 neither)
  case h_3 => cases h

theorem check_eq_ok {r : RecordType} (h : r.check = .ok ()) : r.Checked := by
  rw [check, bind_eq_ok_iff] at h
  obtain ⟨_, fields, h⟩ := h
  rw [bind_eq_ok_iff] at h
  obtain ⟨_, catchAll, h⟩ := h
  obtain ⟨-, distinct, path⟩ := checkFields_eq_ok fields
  have config : r.ownConfig.Valid (r.fields.map Field.name) := by
    unfold ownConfig
    cases isOwn : r.config with
    | none => exact .empty _
    | some config =>
      rw [isOwn] at h
      exact Config.check_eq_ok_iff.1 h
  exact ⟨distinct, path, checkCatchAll_eq_ok catchAll, config⟩

end RecordType

namespace Schema

/-- The schemas that declarations make. -/
inductive Declared : Schema → Prop where
  | empty : Declared {}
  | record {s s' : Schema} (r : RecordType) : Declared s → s.addRecord r = .ok s' → Declared s'
  | enum {s s' : Schema} (e : EnumType) : Declared s → s.addEnum e = .ok s' → Declared s'
  | custom {s s' : Schema} (name : String) (base : Option String) :
    Declared s → s.addCustom name base = .ok s' → Declared s'

variable {s s' : Schema}

theorem checkFree_eq_ok {name : String} (h : s.checkFree name = .ok ()) :
    Primitive.ofName? name = none := by
  unfold checkFree at h
  split at h
  case isTrue => cases h
  case isFalse free =>
    cases found : Primitive.ofName? name with
    | none => rfl
    | some p => simp [isTaken, found] at free

theorem addRecord_eq_ok {r : RecordType} (h : s.addRecord r = .ok s') :
    Primitive.ofName? r.name = none ∧ r.Checked ∧
      s' = { s with records := s.records.insert r.name r } := by
  rw [addRecord, bind_eq_ok_iff] at h
  obtain ⟨_, free, h⟩ := h
  rw [bind_eq_ok_iff] at h
  obtain ⟨_, checked, h⟩ := h
  cases h
  exact ⟨checkFree_eq_ok free, RecordType.check_eq_ok checked, rfl⟩

theorem addEnum_eq_ok {e : EnumType} (h : s.addEnum e = .ok s') :
    s' = { s with enums := s.enums.insert e.name e } := by
  rw [addEnum, bind_eq_ok_iff] at h
  obtain ⟨_, _, h⟩ := h
  split at h
  · cases h
  · cases h
    rfl

theorem addCustom_eq_ok {name : String} {base : Option String}
    (h : s.addCustom name base = .ok s') :
    s' = { s with customs := s.customs.insert name base } := by
  rw [addCustom, bind_eq_ok_iff] at h
  obtain ⟨_, _, h⟩ := h
  cases h
  rfl

theorem Declared.checked (h : s.Declared) {name : String} {r : RecordType}
    (found : s.record? name = some r) :
    r.name = name ∧ Primitive.ofName? name = none ∧ r.Checked := by
  induction h with
  | empty => cases found
  | record r' _ added ih =>
    obtain ⟨free, checked, rfl⟩ := addRecord_eq_ok added
    rw [record?, Table.get?_insert] at found
    split at found
    case isTrue same =>
      cases found
      exact ⟨same.symm, same ▸ free, checked⟩
    case isFalse => exact ih found
  | enum e _ added ih =>
    obtain rfl := addEnum_eq_ok added
    exact ih found
  | custom name base _ added ih =>
    obtain rfl := addCustom_eq_ok added
    exact ih found

end Schema
end RecordCodec
