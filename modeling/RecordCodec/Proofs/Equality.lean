import RecordCodec.Proofs.Entries
import RecordCodec.Proofs.Reversible

set_option autoImplicit false

/-!
# Equality of values

Equality looks members and fields up by their keys. So values with distinct keys are equal to
themselves, and instances to what they become when fields are put in another order.
-/
namespace RecordCodec

theorem mem_of_mem_zip_self {α : Type} {items : List α} {e : α × α} (h : e ∈ items.zip items) :
    e.1 ∈ items ∧ e.2 = e.1 := by
  obtain ⟨k, isPair⟩ := List.mem_iff_getElem?.1 h
  obtain ⟨first, second⟩ := List.getElem?_zip_eq_some.1 isPair
  rw [first] at second
  exact ⟨List.mem_of_getElem? first, (Option.some.inj second).symm⟩

namespace Json

theorem sameItems_of_forall {a b : List Json} (even : a.length = b.length)
    (h : ∀ e ∈ a.zip b, e.1.same e.2 = true) : sameItems a b = true := by
  induction a generalizing b with
  | nil =>
    cases b with
    | nil => rfl
    | cons w rest => cases even
  | cons v rest ih =>
    cases b with
    | nil => cases even
    | cons w others =>
      obtain ⟨first, later⟩ := List.forall_mem_cons.1 h
      rw [sameItems, Bool.and_eq_true]
      exact ⟨first, ih (Nat.succ.inj even) later⟩

theorem sameMembers_of_forall {a b : List (String × Json)}
    (h : ∀ e ∈ a, ∃ w, Assoc.get? e.1 b = some w ∧ e.2.same w = true) :
    sameMembers a b = true := by
  induction a with
  | nil => rfl
  | cons e rest ih =>
    obtain ⟨first, later⟩ := List.forall_mem_cons.1 h
    obtain ⟨w, found, same⟩ := first
    simp [sameMembers, found, same, ih later]

theorem Proper.same_self {v : Json} (h : v.Proper) : v.same v = true := by
  induction h with
  | null => rfl
  | bool b => simp [same]
  | number n =>
    cases n with
    | whole n => simp [same, Number.same]
    | float x => simp [same, Number.same, Binary64.Finite.same]
  | string s => simp [same]
  | array _ ih =>
    rw [same]
    refine sameItems_of_forall rfl fun e mem => ?_
    obtain ⟨isItem, eq⟩ := mem_of_mem_zip_self mem
    rw [eq]
    exact ih _ isItem
  | object distinct _ ih =>
    rw [same, Bool.and_eq_true]
    refine ⟨by simp, sameMembers_of_forall fun e mem => ?_⟩
    exact ⟨e.2, Assoc.get?_of_mem distinct mem, ih e mem⟩

end Json

namespace Instance

theorem sameItems_of_forall {a b : List Instance} (even : a.length = b.length)
    (h : ∀ e ∈ a.zip b, same e.1 e.2 = true) : sameItems a b = true := by
  induction a generalizing b with
  | nil =>
    cases b with
    | nil => rw [sameItems]
    | cons w rest => cases even
  | cons v rest ih =>
    cases b with
    | nil => cases even
    | cons w others =>
      obtain ⟨first, later⟩ := List.forall_mem_cons.1 h
      rw [sameItems, Bool.and_eq_true]
      exact ⟨first, ih (Nat.succ.inj even) later⟩

theorem sameEntries_of_forall {a b : List (Instance × Instance)} (even : a.length = b.length)
    (h : ∀ e ∈ a.zip b, same e.1.1 e.2.1 = true ∧ same e.1.2 e.2.2 = true) :
    sameEntries a b = true := by
  induction a generalizing b with
  | nil =>
    cases b with
    | nil => rw [sameEntries]
    | cons w rest => cases even
  | cons v rest ih =>
    cases b with
    | nil => cases even
    | cons w others =>
      obtain ⟨first, later⟩ := List.forall_mem_cons.1 h
      rw [sameEntries, Bool.and_eq_true, Bool.and_eq_true]
      exact ⟨first, ih (Nat.succ.inj even) later⟩

theorem sameFields_of_forall {a b : List (String × Instance)}
    (h : ∀ e ∈ a, ∃ w, Assoc.get? e.1 b = some w ∧ same e.2 w = true) :
    sameFields a b = true := by
  induction a with
  | nil => rw [sameFields]
  | cons e rest ih =>
    obtain ⟨name, v⟩ := e
    obtain ⟨first, later⟩ := List.forall_mem_cons.1 h
    obtain ⟨w, found, equal⟩ := first
    rw [sameFields, found, Bool.and_eq_true]
    exact ⟨equal, ih later⟩

/-- No number in the instance is not-a-number, and the names of the fields of each record in it are
distinct, as are the keys of the objects at untyped positions. -/
inductive Proper : Instance → Prop where
  | null : Proper .null
  | bool (b : Bool) : Proper (.bool b)
  | int (n : Int64) : Proper (.int n)
  | float {x : Binary64} : x ≠ .nan → Proper (.float x)
  | str (s : String) : Proper (.str s)
  | bytes (octets : List UInt8) : Proper (.bytes octets)
  | date (d : Calendar.Date) : Proper (.date d)
  | time (t : Calendar.Time) : Proper (.time t)
  | dateTime (t : Calendar.DateTime) : Proper (.dateTime t)
  | duration (d : Calendar.Span) : Proper (.duration d)
  | dynamic {v : Json} : v.Proper → Proper (.dynamic v)
  | enumeration {e : EnumValue} : e.value.Proper → Proper (.enumeration e)
  | seq {items : List Instance} : (∀ v ∈ items, Proper v) → Proper (.seq items)
  | set {items : List Instance} : (∀ v ∈ items, Proper v) → Proper (.set items)
  | tuple {items : List Instance} : (∀ v ∈ items, Proper v) → Proper (.tuple items)
  | map {entries : List (Instance × Instance)} : (∀ e ∈ entries, Proper e.1) →
    (∀ e ∈ entries, Proper e.2) → Proper (.map entries)
  | defaultMap {entries : List (Instance × Instance)} {default : Instance} :
    (∀ e ∈ entries, Proper e.1) → (∀ e ∈ entries, Proper e.2) → Proper default →
    Proper (.defaultMap entries default)
  | record {type : String} {fields : List (String × Instance)} : (Assoc.keys fields).Nodup →
    (∀ e ∈ fields, Proper e.2) → Proper (.record type fields)

theorem Regular.proper {v : Instance} (h : v.Regular) : v.Proper := by
  induction h with
  | null => exact .null
  | bool b => exact .bool b
  | int n => exact .int n
  | float x => exact .float (by simp)
  | str s => exact .str s
  | bytes octets => exact .bytes octets
  | date d => exact .date d
  | time t => exact .time t
  | dateTime t => exact .dateTime t
  | duration d => exact .duration d
  | dynamic proper => exact .dynamic proper
  | enumeration proper => exact .enumeration proper
  | seq _ ih => exact .seq ih
  | set _ ih => exact .set ih
  | tuple _ ih => exact .tuple ih
  | map _ _ _ keys values => exact .map keys values
  | defaultMap _ _ _ _ keys values default => exact .defaultMap keys values default
  | record distinct _ ih => exact .record distinct ih

theorem Proper.same_self {v : Instance} (h : v.Proper) : same v v = true := by
  induction h with
  | @float x notNan => cases x <;> simp_all [same, Binary64.same, Binary64.Finite.same]
  | dateTime t => simp [same, Calendar.DateTime.same]
  | dynamic proper => rw [same, proper.same_self]
  | enumeration proper => simp [same, proper.same_self]
  | seq _ ih | set _ ih | tuple _ ih =>
    rw [same]
    refine sameItems_of_forall rfl fun e mem => ?_
    obtain ⟨isItem, eq⟩ := mem_of_mem_zip_self mem
    rw [eq]
    exact ih _ isItem
  | map _ _ keys values =>
    rw [same]
    refine sameEntries_of_forall rfl fun e mem => ?_
    obtain ⟨isEntry, eq⟩ := mem_of_mem_zip_self mem
    rw [eq]
    exact ⟨keys _ isEntry, values _ isEntry⟩
  | defaultMap _ _ _ keys values default =>
    rw [same, Bool.and_eq_true]
    refine ⟨sameEntries_of_forall rfl fun e mem => ?_, default⟩
    obtain ⟨isEntry, eq⟩ := mem_of_mem_zip_self mem
    rw [eq]
    exact ⟨keys _ isEntry, values _ isEntry⟩
  | record distinct _ ih =>
    simp only [same, beq_self_eq_true, Bool.true_and]
    exact sameFields_of_forall fun e mem => ⟨e.2, Assoc.get?_of_mem distinct mem, ih e mem⟩
  | _ => simp [same]

theorem Regular.same_self {v : Instance} (h : v.Regular) : same v v = true := h.proper.same_self

theorem fst_eq_of_mem_zip {α β : Type} {a b : List (α × β)} (keys : a.map Prod.fst = b.map Prod.fst)
    {e : (α × β) × α × β} (mem : e ∈ a.zip b) : e.1.1 = e.2.1 := by
  obtain ⟨k, isPair⟩ := List.mem_iff_getElem?.1 mem
  obtain ⟨first, second⟩ := List.getElem?_zip_eq_some.1 isPair
  have same := congrArg (fun l => l[k]?) keys
  simpa only [List.getElem?_map, first, second, Option.map_some, Option.some.injEq] using same

theorem get?_of_rearranged {a b c : List (String × Instance)} (distinct : (Assoc.keys a).Nodup)
    (names : a.map Prod.fst = b.map Prod.fst) (permuted : b.Perm c) {name : String} {v : Instance}
    (mem : (name, v) ∈ a) :
    ∃ w, Assoc.get? name c = some w ∧ ((name, v), (name, w)) ∈ a.zip b := by
  obtain ⟨k, isField⟩ := List.mem_iff_getElem?.1 mem
  have lengths : a.length = b.length := by simpa using congrArg List.length names
  have inRange := (List.getElem?_eq_some_iff.1 isField).1
  obtain ⟨e, isOther⟩ : ∃ e, b[k]? = some e := ⟨_, List.getElem?_eq_getElem (by omega)⟩
  have isPair : ((name, v), e) ∈ a.zip b :=
    List.mem_of_getElem? (List.getElem?_zip_eq_some.2 ⟨isField, isOther⟩)
  have isName : name = e.1 := fst_eq_of_mem_zip names isPair
  have distinct' : (Assoc.keys c).Nodup := by
    have same : (b.map Prod.fst).Perm (c.map Prod.fst) := permuted.map _
    exact same.nodup_iff.1 (names ▸ distinct)
  have found := Assoc.get?_of_mem distinct' (permuted.mem_iff.1 (List.mem_of_getElem? isOther))
  exact ⟨e.2, isName ▸ found, isName ▸ isPair⟩

/-- An instance is equal to what it becomes when fields are put in another order. -/
theorem Rearranged.same {v w : Instance} (h : Rearranged v w) (regular : v.Regular) :
    Instance.same v w = true := by
  induction h with
  | refl v => exact regular.same_self
  | seq even _ ih =>
    cases regular with
    | seq items =>
      rw [Instance.same]
      exact sameItems_of_forall even fun e mem => ih e mem (items _ (List.of_mem_zip mem).1)
  | set even _ ih =>
    cases regular with
    | set items =>
      rw [Instance.same]
      exact sameItems_of_forall even fun e mem => ih e mem (items _ (List.of_mem_zip mem).1)
  | tuple even _ ih =>
    cases regular with
    | tuple items =>
      rw [Instance.same]
      exact sameItems_of_forall even fun e mem => ih e mem (items _ (List.of_mem_zip mem).1)
  | map keys _ ih =>
    cases regular with
    | map _ regularKeys values =>
      rw [Instance.same]
      refine sameEntries_of_forall (by simpa using congrArg List.length keys) fun e mem => ?_
      have isEntry := (List.of_mem_zip mem).1
      rw [← fst_eq_of_mem_zip keys mem]
      exact ⟨(regularKeys _ isEntry).same_self, ih e mem (values _ isEntry)⟩
  | defaultMap default keys _ ih =>
    cases regular with
    | defaultMap _ regularKeys values regularDefault =>
      rw [Instance.same, Bool.and_eq_true]
      refine ⟨?_, regularDefault.same_self⟩
      refine sameEntries_of_forall (by simpa using congrArg List.length keys) fun e mem => ?_
      have isEntry := (List.of_mem_zip mem).1
      rw [← fst_eq_of_mem_zip keys mem]
      exact ⟨(regularKeys _ isEntry).same_self, ih e mem (values _ isEntry)⟩
  | @record type a b c names _ permuted ih =>
    cases regular with
    | record distinct values =>
      have lengths : a.length = c.length := by
        have := congrArg List.length names
        simpa [permuted.length_eq] using this
      simp only [Instance.same, beq_self_eq_true, lengths, Bool.true_and]
      refine sameFields_of_forall fun e mem => ?_
      obtain ⟨w, found, isPair⟩ := get?_of_rearranged distinct names permuted mem
      exact ⟨w, found, ih _ isPair (values e mem)⟩

end Instance
end RecordCodec
