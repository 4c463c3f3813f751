import RecordCodec.Proofs.Alike

set_option autoImplicit false

/-!
# Instances that match

Matching instances are equal up to the order in which mappings hold their entries. Equality tells
two orders apart, so it is the same as matching just where no mappings are held. That is why the
elements of a set may be replaced by matching ones if they hold none: they stay different.
-/
namespace RecordCodec

namespace Instance

/-- Mappings are held nowhere inside. An untyped position holds none, whatever it keeps. -/
inductive MapFree : Instance → Prop where
  | flat {v : Instance} : v.depth = 0 → MapFree v
  | seq {items : List Instance} : (∀ v ∈ items, MapFree v) → MapFree (.seq items)
  | set {items : List Instance} : (∀ v ∈ items, MapFree v) → MapFree (.set items)
  | tuple {items : List Instance} : (∀ v ∈ items, MapFree v) → MapFree (.tuple items)
  | record {type : String} {fields : List (String × Instance)} : (∀ e ∈ fields, MapFree e.2) →
    MapFree (.record type fields)

inductive PlainSets : Instance → Prop where
  | flat {v : Instance} : v.depth = 0 → PlainSets v
  | seq {items : List Instance} : (∀ v ∈ items, PlainSets v) → PlainSets (.seq items)
  | set {items : List Instance} : (∀ v ∈ items, MapFree v) → PlainSets (.set items)
  | tuple {items : List Instance} : (∀ v ∈ items, PlainSets v) → PlainSets (.tuple items)
  | map {entries : List (Instance × Instance)} : (∀ e ∈ entries, PlainSets e.2) →
    PlainSets (.map entries)
  | defaultMap {entries : List (Instance × Instance)} {default : Instance} :
    (∀ e ∈ entries, PlainSets e.2) → PlainSets (.defaultMap entries default)
  | record {type : String} {fields : List (String × Instance)} : (∀ e ∈ fields, PlainSets e.2) →
    PlainSets (.record type fields)

/-- Equality up to the order of the entries of mappings. -/
inductive Matches : Instance → Instance → Prop where
  | flat {v w : Instance} : v.depth = 0 → same v w = true → Matches v w
  | seq {a b : List Instance} : a.length = b.length → (∀ e ∈ a.zip b, Matches e.1 e.2) →
    Matches (.seq a) (.seq b)
  | set {a b : List Instance} : a.length = b.length → (∀ e ∈ a.zip b, Matches e.1 e.2) →
    Matches (.set a) (.set b)
  | tuple {a b : List Instance} : a.length = b.length → (∀ e ∈ a.zip b, Matches e.1 e.2) →
    Matches (.tuple a) (.tuple b)
  | map {a b c : List (Instance × Instance)} : a.length = b.length →
    (∀ e ∈ a.zip b, same e.1.1 e.2.1 = true) → (∀ e ∈ a.zip b, Matches e.1.2 e.2.2) →
    b.Perm c → Matches (.map a) (.map c)
  | defaultMap {a b c : List (Instance × Instance)} {x y : Instance} : a.length = b.length →
    (∀ e ∈ a.zip b, same e.1.1 e.2.1 = true) → (∀ e ∈ a.zip b, Matches e.1.2 e.2.2) →
    b.Perm c → same x y = true → Matches (.defaultMap a x) (.defaultMap c y)
  | record {type : String} {a b : List (String × Instance)} :
    (Assoc.keys a).Perm (Assoc.keys b) →
    (∀ name v w, Assoc.get? name a = some v → Assoc.get? name b = some w → Matches v w) →
    Matches (.record type a) (.record type b)

variable {u v w : Instance}

theorem MapFree.plainSets (h : v.MapFree) : v.PlainSets := by
  induction h with
  | flat isFlat => exact .flat isFlat
  | seq _ ih => exact .seq ih
  | set free _ => exact .set free
  | tuple _ ih => exact .tuple ih
  | record _ ih => exact .record ih

theorem MapFree.items (h : v.MapFree) {items : List Instance} (isItems : v.items? = some items) :
    ∀ x ∈ items, x.MapFree := by
  cases h with
  | flat isFlat => cases v <;> simp [depth] at isFlat <;> cases isItems
  | seq free | set free | tuple free =>
    cases isItems
    exact free
  | record => cases isItems

theorem MapFree.fields {type : String} {fields : List (String × Instance)}
    (h : MapFree (.record type fields)) : ∀ e ∈ fields, e.2.MapFree := by
  cases h with
  | flat isFlat => simp [depth] at isFlat
  | record free => exact free

theorem PlainSets.items (h : v.PlainSets) {items : List Instance}
    (isItems : v.items? = some items) : ∀ x ∈ items, x.PlainSets := by
  cases h with
  | flat isFlat => cases v <;> simp [depth] at isFlat <;> cases isItems
  | seq plain | tuple plain =>
    cases isItems
    exact plain
  | set free =>
    cases isItems
    exact fun x mem => (free x mem).plainSets
  | _ => cases isItems

theorem PlainSets.entries (h : v.PlainSets) {entries : List (Instance × Instance)}
    (isEntries : v.entries? = some entries) : ∀ e ∈ entries, e.2.PlainSets := by
  cases h with
  | flat isFlat => cases v <;> simp [depth] at isFlat <;> cases isEntries
  | map plain | defaultMap plain =>
    cases isEntries
    exact plain
  | _ => cases isEntries

theorem PlainSets.fields {type : String} {fields : List (String × Instance)}
    (h : PlainSets (.record type fields)) : ∀ e ∈ fields, e.2.PlainSets := by
  cases h with
  | flat isFlat => simp [depth] at isFlat
  | record plain => exact plain

theorem PlainSets.elements {items : List Instance} (h : PlainSets (.set items)) :
    ∀ x ∈ items, x.MapFree := by
  cases h with
  | flat isFlat => simp [depth] at isFlat
  | set free => exact free

theorem sameItems_iff {a b : List Instance} :
    sameItems a b = true ↔ List.Forall₂ (fun v w => same v w = true) a b := by
  induction a generalizing b with
  | nil => cases b <;> simp [sameItems]
  | cons v rest ih => cases b <;> simp [sameItems, ih]

theorem sameEntries_iff {a b : List (Instance × Instance)} :
    sameEntries a b = true ↔
      List.Forall₂ (fun e e' => same e.1 e'.1 = true ∧ same e.2 e'.2 = true) a b := by
  induction a generalizing b with
  | nil => cases b <;> simp [sameEntries]
  | cons e rest ih =>
    cases b with
    | nil => simp [sameEntries]
    | cons e' others =>
      obtain ⟨k, v⟩ := e
      obtain ⟨l, w⟩ := e'
      simp [sameEntries, ih]

theorem sameFields_iff {a b : List (String × Instance)} :
    sameFields a b = true ↔ ∀ e ∈ a, ∃ w, Assoc.get? e.1 b = some w ∧ same e.2 w = true := by
  refine ⟨fun h => ?_, sameFields_of_forall⟩
  induction a with
  | nil => simp
  | cons e rest ih =>
    obtain ⟨name, v⟩ := e
    rw [sameFields, Bool.and_eq_true] at h
    refine List.forall_mem_cons.2 ⟨?_, ih h.2⟩
    cases found : Assoc.get? name b with
    | none => simp [found] at h
    | some w => exact ⟨w, rfl, by simpa [found] using h.1⟩

section
variable {a : List Instance}

theorem exists_of_seq_same (h : same (.seq a) w = true) :
    ∃ b, w = .seq b ∧ List.Forall₂ (fun v w => same v w = true) a b := by
  cases w with
  | seq b => exact ⟨b, rfl, sameItems_iff.1 (by simpa only [same] using h)⟩
  | _ => simp [same] at h

theorem exists_of_set_same (h : same (.set a) w = true) :
    ∃ b, w = .set b ∧ List.Forall₂ (fun v w => same v w = true) a b := by
  cases w with
  | set b => exact ⟨b, rfl, sameItems_iff.1 (by simpa only [same] using h)⟩
  | _ => simp [same] at h

theorem exists_of_tuple_same (h : same (.tuple a) w = true) :
    ∃ b, w = .tuple b ∧ List.Forall₂ (fun v w => same v w = true) a b := by
  cases w with
  | tuple b => exact ⟨b, rfl, sameItems_iff.1 (by simpa only [same] using h)⟩
  | _ => simp [same] at h

end

theorem exists_of_map_same {a : List (Instance × Instance)} (h : same (.map a) w = true) :
    ∃ b, w = .map b ∧
      List.Forall₂ (fun e e' => same e.1 e'.1 = true ∧ same e.2 e'.2 = true) a b := by
  cases w with
  | map b => exact ⟨b, rfl, sameEntries_iff.1 (by simpa only [same] using h)⟩
  | _ => simp [same] at h

theorem exists_of_defaultMap_same {a : List (Instance × Instance)} {x : Instance}
    (h : same (.defaultMap a x) w = true) :
    ∃ b y, w = .defaultMap b y ∧
      List.Forall₂ (fun e e' => same e.1 e'.1 = true ∧ same e.2 e'.2 = true) a b ∧
      same x y = true := by
  cases w with
  | defaultMap b y =>
    rw [same, Bool.and_eq_true] at h
    exact ⟨b, y, rfl, sameEntries_iff.1 h.1, h.2⟩
  | _ => simp [same] at h

theorem exists_of_record_same {type : String} {a : List (String × Instance)}
    (h : same (.record type a) w = true) :
    ∃ b, w = .record type b ∧ a.length = b.length ∧
      ∀ e ∈ a, ∃ w, Assoc.get? e.1 b = some w ∧ same e.2 w = true := by
  cases w with
  | record other b =>
    simp only [same, Bool.and_eq_true, beq_iff_eq] at h
    obtain ⟨⟨rfl, even⟩, found⟩ := h
    exact ⟨b, rfl, even, sameFields_iff.1 found⟩
  | _ => simp [same] at h

/-- The kinds of which equal instances are the same one. -/
def isExact : Instance → Bool
  | null | bool _ | int _ | str _ | bytes _ | date _ | time _ | duration _ => true
  | _ => false

theorem eq_of_same (exact : v.isExact = true) (h : same v w = true) : w = v := by
  cases v with
  | null | bool | int | str | bytes | date | time | duration => cases w <;> simp_all [same]
  | _ => cases exact

theorem exists_of_float_same {x : Binary64} (h : same (.float x) w = true) :
    ∃ y, w = .float y ∧ x.same y = true := by
  cases w with
  | float y => exact ⟨y, rfl, by simpa only [same] using h⟩
  | _ => simp [same] at h

theorem exists_of_dateTime_same {t : Calendar.DateTime} (h : same (.dateTime t) w = true) :
    ∃ s, w = .dateTime s ∧ t.instant = s.instant := by
  cases w with
  | dateTime s => exact ⟨s, rfl, by simpa [same, Calendar.DateTime.same] using h⟩
  | _ => simp [same] at h

theorem exists_of_dynamic_same {j : Json} (h : same (.dynamic j) w = true) :
    ∃ k, w = .dynamic k ∧ j.same k = true := by
  cases w with
  | dynamic k => exact ⟨k, rfl, by simpa only [same] using h⟩
  | _ => simp [same] at h

theorem exists_of_enumeration_same {d : EnumValue} (h : same (.enumeration d) w = true) :
    ∃ value, w = .enumeration { d with value } ∧ d.value.same value = true := by
  cases w with
  | enumeration e =>
    simp only [same, Bool.and_eq_true, beq_iff_eq] at h
    obtain ⟨type, variant, value⟩ := e
    obtain ⟨⟨rfl, rfl⟩, equal⟩ := h
    exact ⟨value, rfl, equal⟩
  | _ => simp [same] at h

theorem Proper.same_trans (h : u.Proper) (first : same u v = true) (second : same v w = true) :
    same u w = true := by
  induction h generalizing v w with
  | seq _ ih =>
    obtain ⟨b, rfl, equal⟩ := exists_of_seq_same first
    obtain ⟨c, rfl, equal'⟩ := exists_of_seq_same second
    rw [same, sameItems_iff]
    exact forall₂_comp equal equal' fun x mem y z => ih x mem
  | set _ ih =>
    obtain ⟨b, rfl, equal⟩ := exists_of_set_same first
    obtain ⟨c, rfl, equal'⟩ := exists_of_set_same second
    rw [same, sameItems_iff]
    exact forall₂_comp equal equal' fun x mem y z => ih x mem
  | tuple _ ih =>
    obtain ⟨b, rfl, equal⟩ := exists_of_tuple_same first
    obtain ⟨c, rfl, equal'⟩ := exists_of_tuple_same second
    rw [same, sameItems_iff]
    exact forall₂_comp equal equal' fun x mem y z => ih x mem
  | map _ _ keys values =>
    obtain ⟨b, rfl, equal⟩ := exists_of_map_same first
    obtain ⟨c, rfl, equal'⟩ := exists_of_map_same second
    rw [same, sameEntries_iff]
    exact forall₂_comp equal equal' fun e mem _ _ first second =>
      ⟨keys e mem first.1 second.1, values e mem first.2 second.2⟩
  | defaultMap _ _ _ keys values default =>
    obtain ⟨b, y, rfl, equal, equalDefault⟩ := exists_of_defaultMap_same first
    obtain ⟨c, z, rfl, equal', equalDefault'⟩ := exists_of_defaultMap_same second
    rw [same, Bool.and_eq_true, sameEntries_iff]
    refine ⟨?_, default equalDefault equalDefault'⟩
    exact forall₂_comp equal equal' fun e mem _ _ first second =>
      ⟨keys e mem first.1 second.1, values e mem first.2 second.2⟩
  | record _ _ ih =>
    obtain ⟨b, rfl, even, found⟩ := exists_of_record_same first
    obtain ⟨c, rfl, even', found'⟩ := exists_of_record_same second
    simp only [same, beq_self_eq_true, even.trans even', Bool.true_and, sameFields_iff]
    intro e mem
    obtain ⟨y, isField, equal⟩ := found e mem
    obtain ⟨z, isField', equal'⟩ := found' _ (Assoc.mem_of_get? isField)
    exact ⟨z, isField', ih e mem equal equal'⟩
  | float =>
    obtain ⟨y, rfl, equal⟩ := exists_of_float_same first
    obtain ⟨z, rfl, equal'⟩ := exists_of_float_same second
    rw [same]
    exact Binary64.same_trans equal equal'
  | dateTime t =>
    obtain ⟨s, rfl, equal⟩ := exists_of_dateTime_same first
    obtain ⟨r, rfl, equal'⟩ := exists_of_dateTime_same second
    simp [same, Calendar.DateTime.same, equal, equal']
  | dynamic =>
    obtain ⟨k, rfl, equal⟩ := exists_of_dynamic_same first
    obtain ⟨l, rfl, equal'⟩ := exists_of_dynamic_same second
    rw [same]
    exact Json.same_trans equal equal'
  | enumeration =>
    obtain ⟨_, rfl, equal⟩ := exists_of_enumeration_same first
    obtain ⟨_, rfl, equal'⟩ := exists_of_enumeration_same second
    simp [same, Json.same_trans equal equal']
  | _ =>
    rw [eq_of_same rfl first] at second
    exact second

theorem Proper.same_symm (proper : v.Proper) (h : same v w = true) : same w v = true := by
  induction proper generalizing w with
  | seq _ ih =>
    obtain ⟨b, rfl, equal⟩ := exists_of_seq_same h
    rw [same, sameItems_iff]
    exact (forall₂_imp_of_mem equal ih).flip
  | set _ ih =>
    obtain ⟨b, rfl, equal⟩ := exists_of_set_same h
    rw [same, sameItems_iff]
    exact (forall₂_imp_of_mem equal ih).flip
  | tuple _ ih =>
    obtain ⟨b, rfl, equal⟩ := exists_of_tuple_same h
    rw [same, sameItems_iff]
    exact (forall₂_imp_of_mem equal ih).flip
  | map _ _ keys values =>
    obtain ⟨b, rfl, equal⟩ := exists_of_map_same h
    rw [same, sameEntries_iff]
    exact .flip (forall₂_imp_of_mem equal fun e mem _ both =>
      ⟨keys e mem both.1, values e mem both.2⟩)
  | defaultMap _ _ _ keys values default =>
    obtain ⟨b, y, rfl, equal, equalDefault⟩ := exists_of_defaultMap_same h
    rw [same, Bool.and_eq_true, sameEntries_iff]
    refine ⟨?_, default equalDefault⟩
    exact .flip (forall₂_imp_of_mem equal fun e mem _ both =>
      ⟨keys e mem both.1, values e mem both.2⟩)
  | record distinct _ ih =>
    obtain ⟨b, rfl, even, found⟩ := exists_of_record_same h
    obtain ⟨-, found'⟩ := Assoc.found_symm (R := fun v w => same v w = true) distinct even found
    simp only [same, beq_self_eq_true, even, Bool.true_and, sameFields_iff]
    intro e mem
    obtain ⟨x, isEntry, isField, equal⟩ := found' e mem
    exact ⟨x, isField, ih _ isEntry equal⟩
  | float =>
    obtain ⟨y, rfl, equal⟩ := exists_of_float_same h
    rw [same]
    exact Binary64.same_symm equal
  | dateTime t =>
    obtain ⟨s, rfl, equal⟩ := exists_of_dateTime_same h
    simp [same, Calendar.DateTime.same, equal.symm]
  | dynamic proper =>
    obtain ⟨k, rfl, equal⟩ := exists_of_dynamic_same h
    rw [same]
    exact proper.same_symm equal
  | enumeration proper =>
    obtain ⟨_, rfl, equal⟩ := exists_of_enumeration_same h
    simp [same, proper.same_symm equal]
  | _ =>
    have eq := eq_of_same rfl h
    subst eq
    exact h

theorem Regular.same_trans (h : u.Regular) (first : same u v = true) (second : same v w = true) :
    same u w = true :=
  h.proper.same_trans first second

theorem Regular.same_symm (regular : v.Regular) (h : same v w = true) : same w v = true :=
  regular.proper.same_symm h

namespace Matches

section
variable {a b : List Instance}

theorem seq_of_forall₂ (h : List.Forall₂ Matches a b) : Matches (.seq a) (.seq b) :=
  .seq h.length_eq fun _ mem => (List.forall₂_iff_zip.1 h).2 mem

theorem set_of_forall₂ (h : List.Forall₂ Matches a b) : Matches (.set a) (.set b) :=
  .set h.length_eq fun _ mem => (List.forall₂_iff_zip.1 h).2 mem

theorem tuple_of_forall₂ (h : List.Forall₂ Matches a b) : Matches (.tuple a) (.tuple b) :=
  .tuple h.length_eq fun _ mem => (List.forall₂_iff_zip.1 h).2 mem

end

section
variable {a b c : List (Instance × Instance)}
  (h : List.Forall₂ (fun e e' => same e.1 e'.1 = true ∧ Matches e.2 e'.2) a b) (permuted : b.Perm c)
include h permuted

theorem map_of_forall₂ : Matches (.map a) (.map c) :=
  .map h.length_eq (fun _ mem => ((List.forall₂_iff_zip.1 h).2 mem).1)
    (fun _ mem => ((List.forall₂_iff_zip.1 h).2 mem).2) permuted

theorem defaultMap_of_forall₂ {x y : Instance} (equal : same x y = true) :
    Matches (.defaultMap a x) (.defaultMap c y) :=
  .defaultMap h.length_eq (fun _ mem => ((List.forall₂_iff_zip.1 h).2 mem).1)
    (fun _ mem => ((List.forall₂_iff_zip.1 h).2 mem).2) permuted equal

end

theorem record_of_forall₂ {type : String} {a b : List (String × Instance)}
    (h : List.Forall₂ (fun e e' => e.1 = e'.1 ∧ Matches e.2 e'.2) a b) :
    Matches (.record type a) (.record type b) := by
  refine .record (.of_eq (Assoc.keys_eq_of_forall₂ h)) fun name v w isV isW => ?_
  have related := Assoc.get?_of_forall₂ h name
  rw [isV, isW] at related
  cases related with
  | some related => exact related

theorem of_same (regular : v.Regular) (h : same v w = true) : v.Matches w := by
  induction regular generalizing w with
  | seq _ ih =>
    obtain ⟨b, rfl, equal⟩ := exists_of_seq_same h
    exact seq_of_forall₂ (forall₂_imp_of_mem equal ih)
  | set _ ih =>
    obtain ⟨b, rfl, equal⟩ := exists_of_set_same h
    exact set_of_forall₂ (forall₂_imp_of_mem equal ih)
  | tuple _ ih =>
    obtain ⟨b, rfl, equal⟩ := exists_of_tuple_same h
    exact tuple_of_forall₂ (forall₂_imp_of_mem equal ih)
  | map _ _ _ _ ih =>
    obtain ⟨b, rfl, equal⟩ := exists_of_map_same h
    refine map_of_forall₂ (forall₂_imp_of_mem equal ?_) (.refl b)
    exact fun e mem _ both => ⟨both.1, ih e mem both.2⟩
  | defaultMap _ _ _ _ _ ih _ =>
    obtain ⟨b, y, rfl, equal, equalDefault⟩ := exists_of_defaultMap_same h
    refine defaultMap_of_forall₂ (forall₂_imp_of_mem equal ?_) (.refl b) equalDefault
    exact fun e mem _ both => ⟨both.1, ih e mem both.2⟩
  | record distinct _ ih =>
    obtain ⟨b, rfl, even, found⟩ := exists_of_record_same h
    obtain ⟨c, permuted, related⟩ :=
      Assoc.exists_perm_of_found (R := fun v w => same v w = true) distinct even found
    refine .record ?_ fun name x y isX isY => ?_
    · rw [Assoc.keys_eq_of_forall₂ (R := fun v w => same v w = true) related]
      exact permuted.map Prod.fst
    · have mem := Assoc.mem_of_get? isX
      obtain ⟨z, isZ, equal⟩ := found _ mem
      cases isY.symm.trans isZ
      exact ih _ mem equal
  | _ => exact .flat rfl h

/-- Where no mappings are held, matching instances are equal. -/
theorem same (h : v.Matches w) (regular : v.Regular) (free : v.MapFree) :
    Instance.same v w = true := by
  induction h with
  | flat _ equal => exact equal
  | seq even _ ih =>
    cases regular with
    | seq regular =>
      rw [Instance.same]
      exact sameItems_of_forall even fun e mem =>
        have isItem := (List.of_mem_zip mem).1
        ih e mem (regular _ isItem) (free.items rfl _ isItem)
  | set even _ ih =>
    cases regular with
    | set regular =>
      rw [Instance.same]
      exact sameItems_of_forall even fun e mem =>
        have isItem := (List.of_mem_zip mem).1
        ih e mem (regular _ isItem) (free.items rfl _ isItem)
  | tuple even _ ih =>
    cases regular with
    | tuple regular =>
      rw [Instance.same]
      exact sameItems_of_forall even fun e mem =>
        have isItem := (List.of_mem_zip mem).1
        ih e mem (regular _ isItem) (free.items rfl _ isItem)
  | @record type a b permuted _ ih =>
    cases regular with
    | record distinct regular =>
      have even : a.length = b.length := by simpa [Assoc.keys] using permuted.length_eq
      simp only [Instance.same, beq_self_eq_true, even, Bool.true_and]
      refine sameFields_of_forall fun e mem => ?_
      have isField : Assoc.get? e.1 a = some e.2 := Assoc.get?_of_mem distinct mem
      obtain ⟨y, isOther⟩ := Option.isSome_iff_exists.1
        (Assoc.isSome_get?_iff.2 (permuted.mem_iff.1 (List.mem_map_of_mem mem)))
      exact ⟨y, isOther, ih e.1 e.2 y isField isOther (regular e mem) (free.fields e mem)⟩
  | map | defaultMap =>
    cases free with
    | flat isFlat => simp [depth] at isFlat

theorem different {items others : List Instance} (h : List.Forall₂ Matches items others)
    (regular : ∀ v ∈ items, v.Regular) (free : ∀ v ∈ items, v.MapFree)
    (apart : items.Pairwise fun v w => Instance.same v w = false) :
    others.Pairwise fun v w => Instance.same v w = false := by
  refine pairwise_of_forall₂ h apart fun v memV w memW v' w' matchesV matchesW apart => ?_
  have equalV := matchesV.same (regular v memV) (free v memV)
  have equalW := matchesW.same (regular w memW) (free w memW)
  by_contra equal
  have equal : Instance.same v' w' = true := by simpa using equal
  have both := (regular v memV).same_trans ((regular v memV).same_trans equalV equal)
    ((regular w memW).same_symm equalW)
  rw [apart] at both
  cases both

end Matches

end Instance
end RecordCodec
