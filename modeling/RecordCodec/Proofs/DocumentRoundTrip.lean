import RecordCodec.Document.Printer
import RecordCodec.Document.Reader
import RecordCodec.Proofs.Alike
import RecordCodec.Proofs.Results
import RecordCodec.Proofs.SampleTypes

set_option autoImplicit false

/-!
# Documents are read back

A declaration is written as an object with the keys that its reader knows, each at most once and in
the same order, so the reader finds under each key what was written there. What is left out is what
the reader takes for an absent key: a flag that is off, an empty list or table, or nothing. A null
that was given as a default or as a value is written, and it is read for itself.
-/
namespace RecordCodec

namespace Table

variable {α : Type}

theorem insertEntry_of_forall_lt {name : String} {value : α} {entries : List (String × α)}
    (h : ∀ e ∈ entries, e.1 < name) :
    insertEntry name value entries = entries ++ [(name, value)] := by
  induction entries with
  | nil => rfl
  | cons head rest ih =>
    obtain ⟨n, v⟩ := head
    obtain ⟨first, others⟩ := List.forall_mem_cons.1 h
    have notBefore : ¬name < n := fun lt => String.lt_irrefl _ (String.lt_trans first lt)
    have notSame : name ≠ n := fun same => String.lt_irrefl _ (same ▸ first)
    rw [insertEntry, if_neg notBefore, if_neg notSame, ih others, List.cons_append]

theorem ofList_entries (t : Table α) : ofList t.entries = t := by
  have through : ∀ (rest : List (String × α)) (held : Table α), Sorted (held.entries ++ rest) →
      (rest.foldl (fun t e => t.insert e.1 e.2) held).entries =
        held.entries ++ rest := by
    intro rest
    induction rest with
    | nil => exact fun held _ => (List.append_nil _).symm
    | cons e rest ih =>
      intro held sorted
      obtain ⟨-, -, across⟩ := List.pairwise_append.1 sorted
      have last : (held.insert e.1 e.2).entries = held.entries ++ [e] :=
        insertEntry_of_forall_lt fun e' mem => across e' mem e List.mem_cons_self
      rw [List.foldl_cons, ih _ (by rw [last, List.append_assoc]; exact sorted), last,
        List.append_assoc, List.singleton_append]
  have same := through t.entries empty t.sorted
  rw [show empty.entries = ([] : List (String × α)) from rfl, List.nil_append] at same
  cases t
  cases held : ofList _
  rw [ofList] at held
  rw [held] at same
  cases same
  rfl

end Table

namespace Json

theorem itemsToWritten_eq (items : List Json) : itemsToWritten items = items.map toWritten := by
  induction items with
  | nil => rfl
  | cons v rest ih => rw [itemsToWritten, ih, List.map_cons]

theorem membersToWritten_eq (members : List (String × Json)) :
    membersToWritten members = members.map fun e => (some e.1, e.2.toWritten) := by
  induction members with
  | nil => rfl
  | cons e rest ih => rw [membersToWritten, ih, List.map_cons]

theorem settleItems_toWritten {room : Nat} {items : List Json}
    (h : ∀ v ∈ items, v.toWritten.settle room = some v) :
    Written.settleItems room (itemsToWritten items) = some items := by
  induction items with
  | nil => rfl
  | cons v rest ih =>
    obtain ⟨first, others⟩ := List.forall_mem_cons.1 h
    simp [itemsToWritten, Written.settleItems, first, ih others]

theorem settleMembers_toWritten {room : Nat} {members : List (String × Json)}
    (h : ∀ e ∈ members, e.2.toWritten.settle room = some e.2) :
    Written.settleMembers room (membersToWritten members) = some members := by
  induction members with
  | nil => rfl
  | cons e rest ih =>
    obtain ⟨first, others⟩ := List.forall_mem_cons.1 h
    simp [membersToWritten, Written.settleMembers, first, ih others]

theorem depth_le_of_mem_items {room : Nat} {items : List Json}
    (fits : (array items).depth ≤ room + 1) {v : Json} (mem : v ∈ items) : v.depth ≤ room :=
  Nat.le_of_lt_succ (Nat.lt_of_lt_of_le (depth_lt_of_mem_items mem) fits)

theorem depth_le_of_mem_members {room : Nat} {members : List (String × Json)}
    (fits : (object members).depth ≤ room + 1) {e : String × Json} (mem : e ∈ members) :
    e.2.depth ≤ room :=
  Nat.le_of_lt_succ (Nat.lt_of_lt_of_le (depth_lt_of_mem_members mem) fits)

/-- A value is what its tree settles to, if there is room for it. -/
theorem Proper.settle_toWritten {v : Json} (h : v.Proper) {room : Nat} (fits : v.depth ≤ room) :
    v.toWritten.settle room = some v := by
  induction h generalizing room with
  | null | bool | number | string => cases room <;> rfl
  | @array items _ ih =>
    cases room with
    | zero => exact absurd fits (Nat.not_succ_le_zero _)
    | succ room =>
      have inner : ∀ v ∈ items, v.toWritten.settle room = some v := fun v mem =>
        ih v mem (depth_le_of_mem_items fits mem)
      rw [toWritten, Written.settle, settleItems_toWritten inner, Option.map_some]
  | @object members distinct _ ih =>
    cases room with
    | zero => exact absurd fits (Nat.not_succ_le_zero _)
    | succ room =>
      have inner : ∀ e ∈ members, e.2.toWritten.settle room = some e.2 := fun e mem =>
        ih e mem (depth_le_of_mem_members fits mem)
      rw [toWritten, Written.settle, settleMembers_toWritten inner, Option.map_some, ofMembers,
        Assoc.ofList_eq_self distinct]

end Json

namespace Document

open Json (Written)

/-- The reader gets back what was written, if there is room for it. -/
def ReadsBack {α : Type} (read : Reader α) (toJson : α → Json) (a : α) : Prop :=
  ∀ room, (toJson a).depth ≤ room → read room (toJson a).toWritten = some a

theorem readsBack_string (s : String) : ReadsBack string .string s := fun _ _ => rfl

theorem readsBack_bool (b : Bool) : ReadsBack bool .bool b := fun _ _ => rfl

section Lists

variable {α : Type} {read : Reader α} {toJson : α → Json}

theorem readAll_toWritten {room : Nat} {as : List α}
    (h : ∀ a ∈ as, read room (toJson a).toWritten = some a) :
    readAll read room (as.map fun a => (toJson a).toWritten) = some as := by
  induction as with
  | nil => rfl
  | cons a rest ih =>
    obtain ⟨first, others⟩ := List.forall_mem_cons.1 h
    simp [readAll, first, ih others]

theorem readsBack_list {as : List α} (h : ∀ a ∈ as, ReadsBack read toJson a) :
    ReadsBack (listOf read) (fun as => .array (as.map toJson)) as := by
  intro room fits
  cases room with
  | zero => exact absurd fits (Nat.not_succ_le_zero _)
  | succ room =>
    have inner : ∀ a ∈ as, read room (toJson a).toWritten = some a := fun a mem =>
      h a mem room (Json.depth_le_of_mem_items fits (List.mem_map_of_mem mem))
    rw [Json.toWritten, Json.itemsToWritten_eq, listOf, List.map_map]
    exact readAll_toWritten inner

theorem readMembers_toWritten {room : Nat} {entries : List (String × α)}
    (h : ∀ e ∈ entries, read room (toJson e.2).toWritten = some e.2) :
    readMembers read room (entries.map fun e => (some e.1, (toJson e.2).toWritten)) =
      some entries := by
  induction entries with
  | nil => rfl
  | cons e rest ih =>
    obtain ⟨first, others⟩ := List.forall_mem_cons.1 h
    simp [readMembers, first, ih others]

theorem readsBack_table {t : Table α} (h : ∀ e ∈ t.entries, ReadsBack read toJson e.2) :
    ReadsBack (tableOf read) (tableToJson toJson) t := by
  intro room fits
  cases room with
  | zero => exact absurd fits (Nat.not_succ_le_zero _)
  | succ room =>
    have inner : ∀ e ∈ t.entries, read room (toJson e.2).toWritten = some e.2 := by
      intro e mem
      have isMember : (e.1, toJson e.2) ∈ t.entries.map fun e => (e.1, toJson e.2) :=
        List.mem_map_of_mem mem
      exact h e mem room (Json.depth_le_of_mem_members fits isMember)
    rw [tableToJson, Json.toWritten, Json.membersToWritten_eq, tableOf, List.map_map]
    exact (congrArg (Option.map Table.ofList) (readMembers_toWritten inner)).trans
      (congrArg some t.ofList_entries)

end Lists

/-! ### The parts of a declaration -/

def Member.Named (name : String) (m : Member) : Prop := ∀ e ∈ m, e.1 = name

@[simp] theorem named_member (name : String) (v : Json) : (member name v).Named name := by
  rintro e ⟨⟩
  rfl

@[simp] theorem named_memberIf (name : String) (present : Bool) (v : Json) :
    (memberIf name present v).Named name := by
  cases present with
  | false => nofun
  | true => exact named_member name v

@[simp] theorem named_memberOf {α : Type} (name : String) (toJson : α → Json) (a : Option α) :
    (memberOf name toJson a).Named name := by
  cases a with
  | none => nofun
  | some a => exact named_member name (toJson a)

def Member.written (m : Member) : Option Written := m.map fun e => e.2.toWritten

def Member.Fits (room : Nat) (m : Member) : Prop := ∀ e ∈ m, e.2.depth ≤ room

section Parts

variable {names : List String} {members : List Member}

theorem mem_names_of_named (named : List.Forall₂ Member.Named names members)
    {e : String × Json} (mem : e ∈ members.filterMap id) : e.1 ∈ names := by
  obtain ⟨m, isMember, isSome⟩ := List.mem_filterMap.1 mem
  obtain ⟨name, isName, isNamed⟩ := exists_of_forall₂ named isMember
  exact isNamed e isSome ▸ isName

theorem filter_members (distinct : names.Nodup) (named : List.Forall₂ Member.Named names members) :
    List.Forall₂ (fun name m => (members.filterMap id).filter (fun e => e.1 == name) =
      Option.toList m) names members := by
  induction named with
  | nil => exact .nil
  | @cons name m names members isNamed named ih =>
    obtain ⟨new, distinct⟩ := List.nodup_cons.1 distinct
    have here : (Option.toList m).filter (fun e => e.1 == name) = Option.toList m :=
      List.filter_eq_self.2 fun e mem => by simp [isNamed e (by simpa using mem)]
    have split : (m :: members).filterMap id = Option.toList m ++ members.filterMap id := by
      cases m <;> rfl
    refine .cons ?_ (forall₂_imp_of_mem (ih distinct) fun other isName m' isOnly => ?_)
    · have nothing : (members.filterMap id).filter (fun e => e.1 == name) = [] :=
        List.filter_eq_nil_iff.2 fun e mem same =>
          new (beq_iff_eq.1 same ▸ mem_names_of_named named mem)
      rw [split, List.filter_append, here, nothing, List.append_nil]
    · have nothing : (Option.toList m).filter (fun e => e.1 == other) = [] :=
        List.filter_eq_nil_iff.2 fun e mem same => by
          have first : e.1 = name := isNamed e (by simpa using mem)
          exact new (first ▸ beq_iff_eq.1 same ▸ isName)
      rw [split, List.filter_append, nothing, List.nil_append, isOnly]

theorem memberOnce_toWritten {name : String} {m : Member} {all : List (String × Json)}
    (only : all.filter (fun e => e.1 == name) = Option.toList m) :
    memberOnce name (Json.membersToWritten all) = some m.written := by
  have found : (Json.membersToWritten all).filter (fun e => e.1 == some name) =
      (Option.toList m).map fun e => (some e.1, e.2.toWritten) := by
    rw [Json.membersToWritten_eq, List.filter_map, ← only]
    rfl
  unfold memberOnce
  simp only [found]
  cases m <;> rfl

theorem parts_objectOf (names : List String) (distinct : names.Nodup)
    (named : List.Forall₂ Member.Named names members) {room : Nat}
    (fits : (objectOf members).depth ≤ room) :
    ∃ inner, parts names room (objectOf members).toWritten =
      some (inner, members.map Member.written) ∧ ∀ m ∈ members, m.Fits inner := by
  cases room with
  | zero => exact absurd fits (Nat.not_succ_le_zero _)
  | succ inner =>
    refine ⟨inner, ?_, fun m mem e isThere => ?_⟩
    · have found : names.mapM (fun name => memberOnce name
          (Json.membersToWritten (members.filterMap id))) = some (members.map Member.written) := by
        refine mapM_of_forall₂ (List.forall₂_map_right_iff.2 ?_)
        exact (filter_members distinct named).imp fun name m only => memberOnce_toWritten only
      have keyed : (Json.membersToWritten (members.filterMap id)).all
          (fun e => e.1.isSome) = true := by
        rw [Json.membersToWritten_eq, List.all_map]
        exact List.all_eq_true.2 fun _ _ => rfl
      rw [objectOf, Json.toWritten, parts]
      simp only [keyed, if_true, found, Option.map_some]
    · exact Json.depth_le_of_mem_members fits (List.mem_filterMap.2 ⟨m, mem, isThere⟩)

end Parts

section Members

variable {α : Type} {read : Reader α} {toJson : α → Json} {name : String} {room : Nat}

theorem needed_member {a : α} (h : ReadsBack read toJson a)
    (fits : (member name (toJson a)).Fits room) :
    needed read room (member name (toJson a)).written = some a :=
  h room (fits _ rfl)

theorem orElse_member (default : α) {a : α} (h : ReadsBack read toJson a)
    (fits : (member name (toJson a)).Fits room) :
    orElse default read room (member name (toJson a)).written = some a :=
  h room (fits _ rfl)

theorem orElse_memberIf {default a : α} {present : Bool} (absent : present = false → a = default)
    (h : ReadsBack read toJson a) (fits : (memberIf name present (toJson a)).Fits room) :
    orElse default read room (memberIf name present (toJson a)).written = some a := by
  cases present with
  | false => exact congrArg some (absent rfl).symm
  | true => exact h room (fits _ rfl)

theorem optional_memberOf {a : Option α} (h : ∀ x ∈ a, ReadsBack read toJson x)
    (notNull : ∀ x, (toJson x).toWritten ≠ .null) (fits : (memberOf name toJson a).Fits room) :
    optional read room (memberOf name toJson a).written = some a := by
  cases a with
  | none => rfl
  | some x =>
    have isRead := h x rfl room (fits _ rfl)
    change optional read room (some (toJson x).toWritten) = some (some x)
    unfold optional
    split
    case h_1 none => cases none
    case h_2 isNull => exact absurd (Option.some.inj isNull) (notNull x)
    case h_3 w isSome =>
      obtain rfl := Option.some.inj isSome
      rw [isRead, Option.map_some]

/-- A null that was written is read as itself. -/
theorem present_memberOf {v : Option Json} (proper : ∀ x ∈ v, x.Proper)
    (fits : (memberOf name id v).Fits room) :
    present room (memberOf name id v).written = some v := by
  cases v with
  | none => rfl
  | some x =>
    have settled := (proper x rfl).settle_toWritten (fits _ rfl)
    change (x.toWritten.settle room).map some = _
    rw [settled, Option.map_some]

end Members

/-! ### Declarations -/

theorem read_bind {α β : Type} {x : Option α} {f : α → Option β} {a : α} {b : β} (h : x = some a)
    (rest : f a = some b) : (x >>= f) = some b := by
  rw [h]
  exact rest

theorem toWritten_object_ne_null (members : List Member) :
    (objectOf members).toWritten ≠ .null := nofun

theorem readsBack_skipDecl (s : SkipDecl) : ReadsBack skipDecl SkipDecl.toJson s := by
  intro room fits
  obtain ⟨inner, found, below⟩ :=
    parts_objectOf ["always", "if-default", "if-none"] (by decide) (by simp) fits
  simp only [List.forall_mem_cons] at below
  obtain ⟨always, ifDefault, ifNone, -⟩ := below
  exact read_bind found <| read_bind (orElse_member _ (readsBack_bool _) always) <|
    read_bind (orElse_member _ (readsBack_bool _) ifDefault) <|
    read_bind (orElse_member _ (readsBack_bool _) ifNone) rfl

theorem optional_string {name : String} {room : Nat} {s : Option String}
    (fits : (memberOf name .string s).Fits room) :
    optional string room (memberOf name .string s).written = some s :=
  optional_memberOf (fun s _ => readsBack_string s) nofun fits

theorem optional_bool {name : String} {room : Nat} {b : Option Bool}
    (fits : (memberOf name .bool b).Fits room) :
    optional bool room (memberOf name .bool b).written = some b :=
  optional_memberOf (fun b _ => readsBack_bool b) nofun fits

theorem readsBack_discriminatorDecl (d : DiscriminatorDecl) :
    ReadsBack discriminatorDecl DiscriminatorDecl.toJson d := by
  intro room fits
  obtain ⟨inner, found, below⟩ :=
    parts_objectOf ["key", "auto-tag"] (by decide) (by simp) fits
  simp only [List.forall_mem_cons] at below
  obtain ⟨key, autoTag, -⟩ := below
  exact read_bind found <| read_bind (optional_string key) <|
    read_bind (optional_bool autoTag) rfl

theorem readsBack_strings (texts : List String) : ReadsBack (listOf string) strings texts :=
  readsBack_list fun s _ => readsBack_string s

theorem eq_empty_of_isEmpty {α : Type} {t : Table α} (h : (!t.isEmpty) = false) :
    t = .empty := by
  obtain ⟨entries, sorted⟩ := t
  obtain rfl : entries = [] := List.isEmpty_iff.1 (by simpa [Table.isEmpty] using h)
  rfl

theorem readsBack_configDecl (c : ConfigDecl) : ReadsBack configDecl ConfigDecl.toJson c := by
  intro room fits
  obtain ⟨inner, found, below⟩ :=
    parts_objectOf configNames (by decide) (by simp [configNames]) fits
  simp only [List.forall_mem_cons] at below
  obtain ⟨decodeCasing, encodeCasing, decodeAliases, encodeAliases, unknownKeys, discriminator,
    omitNone, omitDefault, encodeByAlias, positionalAsMap, allowAmbiguousUnions, recursive, -⟩ :=
    below
  have decodeAliases := orElse_memberIf eq_empty_of_isEmpty
    (readsBack_table fun e _ => readsBack_strings e.2) decodeAliases
  have encodeAliases := orElse_memberIf eq_empty_of_isEmpty
    (readsBack_table fun e _ => readsBack_string e.2) encodeAliases
  have discriminator := optional_memberOf (fun d _ => readsBack_discriminatorDecl d)
    (fun d => toWritten_object_ne_null _) discriminator
  exact read_bind found <| read_bind (optional_string decodeCasing) <|
    read_bind (optional_string encodeCasing) <| read_bind decodeAliases <|
    read_bind encodeAliases <| read_bind (optional_string unknownKeys) <|
    read_bind discriminator <| read_bind (optional_bool omitNone) <|
    read_bind (optional_bool omitDefault) <| read_bind (optional_bool encodeByAlias) <|
    read_bind (optional_bool positionalAsMap) <| read_bind (optional_bool allowAmbiguousUnions) <|
    read_bind (optional_bool recursive) rfl

theorem readsBack_fieldDecl {f : FieldDecl} (proper : ∀ v ∈ f.default, v.Proper) :
    ReadsBack fieldDecl FieldDecl.toJson f := by
  intro room fits
  obtain ⟨inner, found, below⟩ :=
    parts_objectOf fieldNames (by decide) (by simp [fieldNames]) fits
  simp only [List.forall_mem_cons] at below
  obtain ⟨name, type, default, defaultFactory, aliasKey, path, skip, catchAll, required,
    discriminator, -⟩ := below
  have path := optional_memberOf (fun texts _ => readsBack_strings texts) nofun path
  have skip := optional_memberOf (fun s _ => readsBack_skipDecl s)
    (fun s => toWritten_object_ne_null _) skip
  have catchAll : orElse false bool inner
      (memberIf "catch-all" f.catchAll (.bool true)).written = some f.catchAll := by
    cases f.catchAll <;> rfl
  exact read_bind found <| read_bind (needed_member (readsBack_string _) name) <|
    read_bind (needed_member (readsBack_string _) type) <|
    read_bind (present_memberOf proper default) <| read_bind (optional_string defaultFactory) <|
    read_bind (optional_string aliasKey) <| read_bind path <| read_bind skip <|
    read_bind catchAll <| read_bind (optional_bool required) <|
    read_bind (optional_string discriminator) rfl

theorem readsBack_recordKind (k : RecordKind) : ReadsBack recordKind RecordKind.toJson k := by
  intro room _
  cases k <;> cases room <;> rfl

theorem readsBack_recordDecl {r : RecordDecl}
    (proper : ∀ f ∈ r.fields, ∀ v ∈ f.default, v.Proper) :
    ReadsBack recordDecl RecordDecl.toJson r := by
  intro room fits
  obtain ⟨inner, found, below⟩ :=
    parts_objectOf ["name", "kind", "fields", "tag", "config"] (by decide) (by simp) fits
  simp only [List.forall_mem_cons] at below
  obtain ⟨name, kind, fields, tag, config, -⟩ := below
  have fields := orElse_member []
    (readsBack_list fun f mem => readsBack_fieldDecl (proper f mem)) fields
  have config := optional_memberOf (fun c _ => readsBack_configDecl c)
    (fun c => toWritten_object_ne_null _) config
  exact read_bind found <| read_bind (needed_member (readsBack_string _) name) <|
    read_bind (orElse_member _ (readsBack_recordKind _) kind) <| read_bind fields <|
    read_bind (optional_string tag) <| read_bind config rfl

theorem readsBack_variantDecl {v : VariantDecl} (proper : ∀ value ∈ v.value, value.Proper) :
    ReadsBack variantDecl VariantDecl.toJson v := by
  intro room fits
  obtain ⟨inner, found, below⟩ :=
    parts_objectOf ["name", "value"] (by decide) (by simp) fits
  simp only [List.forall_mem_cons] at below
  obtain ⟨name, value, -⟩ := below
  exact read_bind found <| read_bind (needed_member (readsBack_string _) name) <|
    read_bind (present_memberOf proper value) rfl

theorem readsBack_enumDecl {e : EnumDecl}
    (proper : ∀ v ∈ e.variants, ∀ value ∈ v.value, value.Proper) :
    ReadsBack enumDecl EnumDecl.toJson e := by
  intro room fits
  obtain ⟨inner, found, below⟩ :=
    parts_objectOf ["name", "variants"] (by decide) (by simp) fits
  simp only [List.forall_mem_cons] at below
  obtain ⟨name, variants, -⟩ := below
  have variants := needed_member
    (readsBack_list fun v mem => readsBack_variantDecl (proper v mem)) variants
  exact read_bind found <| read_bind (needed_member (readsBack_string _) name) <|
    read_bind variants rfl

theorem readsBack_customDecl (c : CustomDecl) : ReadsBack customDecl CustomDecl.toJson c := by
  intro room fits
  obtain ⟨inner, found, below⟩ :=
    parts_objectOf ["name", "base"] (by decide) (by simp) fits
  simp only [List.forall_mem_cons] at below
  obtain ⟨name, base, -⟩ := below
  exact read_bind found <| read_bind (needed_member (readsBack_string _) name) <|
    read_bind (optional_string base) rfl

/-- No object in a default or in the value of a variant has a key twice. -/
structure Proper (d : Document) : Prop where
  defaults : ∀ r ∈ d.records, ∀ f ∈ r.fields, ∀ v ∈ f.default, v.Proper
  values : ∀ e ∈ d.enums, ∀ variant ∈ e.variants, ∀ v ∈ variant.value, v.Proper

theorem eq_nil_of_isEmpty {α : Type} {as : List α} (h : (!as.isEmpty) = false) : as = [] :=
  List.isEmpty_iff.1 (by simpa using h)

theorem readsBack_document {d : Document} (proper : d.Proper) : ReadsBack document toJson d := by
  intro room fits
  obtain ⟨inner, found, below⟩ :=
    parts_objectOf ["records", "enums", "custom"] (by decide) (by simp) fits
  simp only [List.forall_mem_cons] at below
  obtain ⟨records, enums, custom, -⟩ := below
  have records := orElse_memberIf eq_nil_of_isEmpty
    (readsBack_list fun r mem => readsBack_recordDecl (proper.defaults r mem)) records
  have enums := orElse_memberIf eq_nil_of_isEmpty
    (readsBack_list fun e mem => readsBack_enumDecl (proper.values e mem)) enums
  have custom := orElse_memberIf eq_nil_of_isEmpty
    (readsBack_list fun c _ => readsBack_customDecl c) custom
  exact read_bind found <| read_bind records <| read_bind enums <| read_bind custom rfl

/-- A document is read from what it is written to: from its tree, if there is room for it, and from
any text of this tree that nests no deeper than a text may. -/
theorem read_toJson {d : Document} (proper : d.Proper) :
    (∀ room, d.toJson.depth ≤ room → document room d.toJson.toWritten = some d) ∧
      ∀ text, Written.read text = .ok d.toJson.toWritten → d.toJson.depth ≤ Json.nestingLimit →
        read text = .ok d := by
  refine ⟨readsBack_document proper, fun text isTree fits => ?_⟩
  simp only [read, isTree, bind, Except.bind, readsBack_document proper _ fits]

def notes : Document where
  records :=
    [{ name := "Note", fields := [{ name := "id", type := "int", default := some .null }] }]
  enums := [{ name := "Level", variants := [⟨"none", some .null⟩, ⟨"high", none⟩] }]

theorem notes_proper : notes.Proper := by
  constructor
  · intro r isRecord f isField v isDefault
    obtain rfl := List.mem_singleton.1 isRecord
    obtain rfl := List.mem_singleton.1 isField
    cases isDefault
    exact .null
  · intro e isEnum variant isVariant v isValue
    obtain rfl := List.mem_singleton.1 isEnum
    rcases List.mem_pair.1 isVariant with rfl | rfl <;> cases isValue
    exact .null

theorem read_toJson_notes :
    notes.Proper ∧ notes.toJson.depth = 5 ∧ document 5 notes.toJson.toWritten = some notes := by
  have depth : notes.toJson.depth = 5 := by decide
  exact ⟨notes_proper, depth, (read_toJson notes_proper).1 5 (Nat.le_of_eq depth)⟩

end Document
end RecordCodec
