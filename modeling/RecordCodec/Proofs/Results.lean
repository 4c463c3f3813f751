import Mathlib.Data.List.Forall2
import RecordCodec.Proofs.Fuel

set_option autoImplicit false

/-!
# Results of conversions

A conversion of several items returns a list just when every item returns its element. What goes
into the path of a failure plays no part in that.
-/
namespace RecordCodec

namespace Routine.Run

variable {α β : Type} {r : Run α} {a b : α}

def Returns (r : Run α) (a : α) : Prop := r.run = some (.ok a)

namespace Returns

@[simp] theorem pure_iff : Returns (pure a : Run α) b ↔ a = b := by
  constructor
  · intro h
    cases h
    rfl
  · rintro rfl
    rfl

theorem eq_pure (h : Returns r a) : r = pure a := ExceptT.ext h

theorem unique (first : r.Returns a) (second : r.Returns b) : a = b := by
  cases first.symm.trans second
  rfl

@[simp] theorem throw_iff (e : Failure) : Returns (throw e : Run α) a ↔ False := by
  constructor
  · intro h
    cases h
  · exact False.elim

@[simp] theorem unfinished_iff : Returns (ExceptT.mk none : Run α) a ↔ False := by
  constructor
  · intro h
    cases h
  · exact False.elim

@[simp] theorem bind_iff {f : α → Run β} {b : β} :
    Returns (r >>= f) b ↔ ∃ a, r.Returns a ∧ (f a).Returns b := by
  unfold Returns
  rw [bind_run]
  cases h : r.run with
  | none => simp
  | some result => cases result <;> simp

@[simp] theorem ofExcept_iff {x : Except Failure α} :
    Returns (.ofExcept x : Run α) a ↔ x = .ok a := by
  cases x with
  | error e => rw [ofExcept_error]; simp
  | ok c => rw [ofExcept_ok]; simp

@[simp] theorem mapError_iff {f : Failure → Failure} :
    Returns (r.mapError f) a ↔ r.Returns a := by
  change r.run.map (Except.mapError f) = some (.ok a) ↔ r.run = some (.ok a)
  cases r.run with
  | none => simp
  | some result =>
    cases result with
    | ok b => rfl
    | error e =>
      constructor <;> intro same <;> cases same

end Returns

def Fails (r : Run α) (e : Failure) : Prop := r.run = some (.error e)

namespace Fails

variable {e : Failure}

@[simp] theorem pure_iff : Fails (pure a : Run α) e ↔ False := by
  constructor
  · intro h
    cases h
  · exact False.elim

@[simp] theorem throw_iff {e' : Failure} : Fails (throw e' : Run α) e ↔ e' = e := by
  constructor
  · intro h
    cases h
    rfl
  · rintro rfl
    rfl

@[simp] theorem unfinished_iff : Fails (ExceptT.mk none : Run α) e ↔ False := by
  constructor
  · intro h
    cases h
  · exact False.elim

@[simp] theorem bind_iff {f : α → Run β} :
    Fails (r >>= f) e ↔ r.Fails e ∨ ∃ a, r.Returns a ∧ (f a).Fails e := by
  unfold Fails Returns
  rw [bind_run]
  cases h : r.run with
  | none => simp
  | some result => cases result <;> simp

@[simp] theorem ofExcept_iff {x : Except Failure α} :
    Fails (.ofExcept x : Run α) e ↔ x = .error e := by
  cases x with
  | error e' => rw [ofExcept_error]; simp
  | ok c => rw [ofExcept_ok]; simp

@[simp] theorem mapError_iff {f : Failure → Failure} :
    Fails (r.mapError f) e ↔ ∃ e', r.Fails e' ∧ f e' = e := by
  change r.run.map (Except.mapError f) = some (.error e) ↔ ∃ e', r.run = some (.error e') ∧ f e' = e
  cases r.run with
  | none => simp
  | some result => cases result <;> simp [Except.mapError]

end Fails

theorem discard_run (r : Run α) :
    (do let _ ← r; pure () : Run Unit).run = r.run.map (Except.map fun _ => ()) := by
  rw [bind_run]
  cases r.run with
  | none => rfl
  | some result => cases result <;> rfl

def failsWith (test : Failure → Bool) (r : Run α) : Bool :=
  match r.run with
  | some (.error e) => test e
  | _ => false

theorem exists_of_failsWith {test : Failure → Bool} (h : r.failsWith test = true) :
    ∃ e, r.Fails e ∧ test e = true := by
  unfold failsWith at h
  unfold Fails
  cases ran : r.run with
  | none => simp [ran] at h
  | some result =>
    cases result with
    | ok a => simp [ran] at h
    | error e => exact ⟨e, rfl, by simpa [ran] using h⟩

/-- Evaluates a run to see whether it returns a result that passes a test. -/
def returnsWith (test : α → Bool) (r : Run α) : Bool :=
  match r.run with
  | some (.ok a) => test a
  | _ => false

theorem exists_of_returnsWith {test : α → Bool} (h : r.returnsWith test = true) :
    ∃ a, r.Returns a ∧ test a = true := by
  unfold returnsWith at h
  unfold Returns
  cases ran : r.run with
  | none => simp [ran] at h
  | some result =>
    cases result with
    | error e => simp [ran] at h
    | ok a => exact ⟨a, rfl, by simpa [ran] using h⟩

end Routine.Run

theorem exists_of_forall₂ {α β : Type} {R : α → β → Prop} {as : List α} {bs : List β}
    (h : List.Forall₂ R as bs) {b : β} (mem : b ∈ bs) : ∃ a ∈ as, R a b := by
  induction h with
  | nil => cases mem
  | cons related _ ih =>
    rcases List.mem_cons.1 mem with rfl | mem
    · exact ⟨_, List.mem_cons_self, related⟩
    · obtain ⟨a, memA, related⟩ := ih mem
      exact ⟨a, List.mem_cons_of_mem _ memA, related⟩

theorem exists_forall₂ {α β : Type} {R : α → β → Prop} {as : List α}
    (h : ∀ a ∈ as, ∃ b, R a b) : ∃ bs, List.Forall₂ R as bs := by
  induction as with
  | nil => exact ⟨[], .nil⟩
  | cons a rest ih =>
    obtain ⟨⟨b, related⟩, later⟩ := List.forall_mem_cons.1 h
    obtain ⟨bs, others⟩ := ih later
    exact ⟨b :: bs, .cons related others⟩

theorem mapM_of_forall₂ {α β : Type} {f : α → Option β} {as : List α} {bs : List β}
    (h : List.Forall₂ (fun a b => f a = some b) as bs) : as.mapM f = some bs := by
  induction h with
  | nil => rfl
  | cons first _ ih => rw [List.mapM_cons, first, ih]; rfl

namespace Converter

open Routine

theorem decodeItems_returns_iff {decode : Decode} {index : Nat} {vs : List Json}
    {is : List Instance} :
    (decodeItems decode index vs).Returns is ↔
      List.Forall₂ (fun v i => (decode v).Returns i) vs is := by
  induction vs generalizing index is with
  | nil => simp [decodeItems, eq_comm]
  | cons v rest ih =>
    simp only [decodeItems, Run.Returns.bind_iff, Run.Returns.mapError_iff, Run.Returns.pure_iff,
      List.forall₂_cons_left_iff, ih]
    constructor
    · rintro ⟨first, isFirst, others, areOthers, rfl⟩
      exact ⟨first, others, isFirst, areOthers, rfl⟩
    · rintro ⟨first, others, isFirst, areOthers, rfl⟩
      exact ⟨first, isFirst, others, areOthers, rfl⟩

theorem decodeParts_returns_iff {index : Nat} {decoders : List Decode} {vs : List Json}
    (even : vs.length = decoders.length) {is : List Instance} :
    (decodeParts index decoders vs).Returns is ↔
      List.Forall₂ (fun (part : Decode × Json) i => (part.1 part.2).Returns i)
        (decoders.zip vs) is := by
  induction decoders generalizing index vs is with
  | nil =>
    have none : vs = [] := List.eq_nil_of_length_eq_zero even
    simp [decodeParts, none, eq_comm]
  | cons decode rest ih =>
    cases vs with
    | nil => simp at even
    | cons v vs =>
      have even : vs.length = rest.length := by simpa using even
      simp only [decodeParts, Run.Returns.bind_iff, Run.Returns.mapError_iff,
        Run.Returns.pure_iff, List.zip_cons_cons, List.forall₂_cons_left_iff, ih even]
      constructor
      · rintro ⟨first, isFirst, others, areOthers, rfl⟩
        exact ⟨first, others, isFirst, areOthers, rfl⟩
      · rintro ⟨first, others, isFirst, areOthers, rfl⟩
        exact ⟨first, isFirst, others, areOthers, rfl⟩

theorem decodeEntries_returns_iff {key item : Decode} {entries : List (String × Json)}
    {is : List (Instance × Instance)} :
    (decodeEntries key item entries).Returns is ↔
      List.Forall₂ (fun e i => (key (.string e.1)).Returns i.1 ∧ (item e.2).Returns i.2)
        entries is := by
  induction entries generalizing is with
  | nil => simp [decodeEntries, eq_comm]
  | cons e rest ih =>
    obtain ⟨k, v⟩ := e
    simp only [decodeEntries, Run.Returns.bind_iff, Run.Returns.mapError_iff,
      Run.Returns.pure_iff, List.forall₂_cons_left_iff, ih]
    constructor
    · rintro ⟨first, isFirst, second, isSecond, others, areOthers, rfl⟩
      exact ⟨(first, second), others, ⟨isFirst, isSecond⟩, areOthers, rfl⟩
    · rintro ⟨⟨first, second⟩, others, ⟨isFirst, isSecond⟩, areOthers, rfl⟩
      exact ⟨first, isFirst, second, isSecond, others, areOthers, rfl⟩

theorem exists_of_firstSuccess_returns {α β : Type} {failure : Failure} {v : α}
    {candidates : List (α → Run β)} {b : β} (h : (firstSuccess failure v candidates).Returns b) :
    ∃ f ∈ candidates, (f v).Returns b := by
  induction candidates with
  | nil => simp [firstSuccess] at h
  | cons f rest ih =>
    cases ran : (f v).run with
    | none =>
      rw [firstSuccess, ran] at h
      simp at h
    | some result =>
      rw [firstSuccess, ran] at h
      cases result with
      | ok found =>
        have same : found = b := by simpa using h
        exact ⟨f, List.mem_cons_self, same ▸ ran⟩
      | error e =>
        obtain ⟨g, mem, returns⟩ := ih h
        exact ⟨g, List.mem_cons_of_mem _ mem, returns⟩

theorem exists_of_decodeUnion_returns {plan : UnionPlan} {decoders : List Decode} {v : Json}
    {i : Instance} (h : (decodeUnion plan decoders v).Returns i) :
    ∃ decode ∈ decoders, (decode v).Returns i := by
  unfold decodeUnion at h
  simp only at h
  split at h
  · split at h
    case h_1 arm decode found =>
      have mem := List.mem_of_find?_eq_some found
      exact ⟨decode, (List.of_mem_zip mem).2, h⟩
    case h_2 => simp at h
  · obtain ⟨decode, mem, returns⟩ := exists_of_firstSuccess_returns h
    obtain ⟨⟨arm, decode⟩, tried, rfl⟩ := List.mem_map.1 mem
    exact ⟨decode, (List.of_mem_zip (mem_trialOrder.1 tried)).2, returns⟩

end Converter

namespace Direct

open Routine

section
variable {record : RecordType} {config : Config} {input : Json} {convert : Field → Converter.Decode}

theorem decodeFields_returns_iff {index : Nat} {fields : List Field}
    {values : List (Option Instance)} :
    (decodeFields record config input convert index fields).Returns values ↔
      List.Forall₂ (fun (e : Field × Nat) o =>
        (decodeInTurn record config input (convert e.1) e.2 e.1).Returns o)
        (fields.zipIdx index) values := by
  induction fields generalizing index values with
  | nil => simp [decodeFields, eq_comm]
  | cons f rest ih =>
    simp only [decodeFields, Run.Returns.bind_iff, Run.Returns.pure_iff, List.zipIdx_cons,
      List.forall₂_cons_left_iff, ih]
    constructor
    · rintro ⟨first, isFirst, others, areOthers, rfl⟩
      exact ⟨first, others, isFirst, areOthers, rfl⟩
    · rintro ⟨first, others, isFirst, areOthers, rfl⟩
      exact ⟨first, isFirst, others, areOthers, rfl⟩

theorem decodeInTurn_of_decodeFields {fields : List Field} {values : List (Option Instance)}
    (decoded : (decodeFields record config input convert 0 fields).Returns values) {k : Nat}
    {f : Field} {o : Option Instance} (isField : fields[k]? = some f)
    (isValue : values[k]? = some o) :
    (decodeInTurn record config input (convert f) k f).Returns o := by
  obtain ⟨-, inTurn⟩ := List.forall₂_iff_zip.1 (decodeFields_returns_iff.1 decoded)
  have isPair : (fields.zipIdx 0)[k]? = some (f, k) := by simp [List.getElem?_zipIdx, isField]
  exact inTurn (List.mem_of_getElem? (List.getElem?_zip_eq_some.2 ⟨isPair, isValue⟩))

theorem decodeField_of_decodeInTurn {decode : Converter.Decode} {k : Nat} {f : Field}
    {v : Instance} (decoded : (decodeInTurn record config input decode k f).Returns (some v)) :
    f.catchAll = false ∧ (decodeField record config input decode k f).Returns (some v) := by
  unfold decodeInTurn at decoded
  split at decoded
  case isTrue => cases Run.Returns.pure_iff.1 decoded
  case isFalse notLast => exact ⟨by simpa using notLast, decoded⟩

theorem decodeRecord_returns_iff {i : Instance} :
    (decodeRecord record config input convert).Returns i ↔
      Compile.Decoder.checkForm record input = .ok () ∧
      missingFields record config input 0 record.fields = [] ∧
      ∃ values values', (decodeFields record config input convert 0 record.fields).Returns values ∧
        (decodeLeftOver record config input convert values).Returns values' ∧
        i = .record record.name (present record.fields values') := by
  unfold decodeRecord
  simp only [Run.Returns.bind_iff, Run.Returns.ofExcept_iff]
  cases missingFields record config input 0 record.fields with
  | nil =>
    simp only [Run.Returns.pure_iff]
    constructor
    · rintro ⟨_, form, values, decoded, values', completed, rfl⟩
      exact ⟨form, trivial, values, values', decoded, completed, rfl⟩
    · rintro ⟨form, -, values, values', decoded, completed, rfl⟩
      exact ⟨(), form, values, decoded, values', completed, rfl⟩
  | cons name rest => simp

theorem encodeRecord_returns_iff {given : Instance} {convert : Field → Converter.Encode}
    {j : Json} :
    (encodeRecord record config given convert).Returns j ↔
      Compile.Encoder.checkType record given = .ok () ∧
      absentFields record given (Compile.Encoder.fields record config) = [] ∧
      (encodeOutput record config given convert
        (Compile.Encoder.fields record config)).Returns j := by
  unfold encodeRecord
  simp only [Run.Returns.bind_iff, Run.Returns.ofExcept_iff]
  cases absentFields record given (Compile.Encoder.fields record config) with
  | nil =>
    simp only [Run.Returns.pure_iff]
    constructor
    · rintro ⟨_, isRecord, output, encoded, rfl⟩
      exact ⟨isRecord, trivial, encoded⟩
    · rintro ⟨isRecord, -, encoded⟩
      exact ⟨(), isRecord, j, encoded, rfl⟩
  | cons name rest => simp

theorem encodeRecord_ne_null {given : Instance} {convert : Field → Converter.Encode} {j : Json}
    (h : (encodeRecord record config given convert).Returns j) : j ≠ .null := by
  obtain ⟨-, -, h⟩ := encodeRecord_returns_iff.1 h
  unfold encodeOutput at h
  split at h
  · obtain ⟨elements, -, same⟩ := Run.Returns.bind_iff.1 h
    rw [← Run.Returns.pure_iff.1 same]
    nofun
  · unfold encodeObject at h
    obtain ⟨members, -, h⟩ := Run.Returns.bind_iff.1 h
    split at h
    · obtain ⟨extra, -, same⟩ := Run.Returns.bind_iff.1 h
      rw [← Run.Returns.pure_iff.1 same]
      nofun
    · rw [← Run.Returns.pure_iff.1 h]
      nofun

theorem catchAllAt_eq_none_iff {index : Nat} {fields : List Field} :
    catchAllAt index fields = none ↔ ∀ f ∈ fields, f.catchAll = false := by
  induction fields generalizing index with
  | nil => simp [catchAllAt]
  | cons f rest ih =>
    rw [catchAllAt, List.forall_mem_cons]
    cases f.catchAll <;> simp [ih]

theorem missingFields_eq_nil_iff {index : Nat} {fields : List Field} :
    missingFields record config input index fields = [] ↔
      ∀ e ∈ fields.zipIdx index, located? record config input e.2 e.1 = none →
        e.1.isRequired record.kind = false := by
  induction fields generalizing index with
  | nil => simp [missingFields]
  | cons f rest ih =>
    simp only [missingFields, List.append_eq_nil_iff, ih, List.zipIdx_cons, List.forall_mem_cons]
    refine and_congr ?_ Iff.rfl
    cases located? record config input index f <;> simp

theorem mem_present_iff {fields : List Field} {values : List (Option Instance)} {name : String}
    {v : Instance} :
    (name, v) ∈ present fields values ↔
      ∃ (k : Nat) (f : Field), fields[k]? = some f ∧ values[k]? = some (some v) ∧
        f.name = name := by
  induction fields generalizing values with
  | nil => simp [present]
  | cons f fields ih =>
    cases values with
    | nil => simp [present]
    | cons o values =>
      have later :
          (∃ (k : Nat) (g : Field), (f :: fields)[k]? = some g ∧
            (o :: values)[k]? = some (some v) ∧ g.name = name) ↔
          (o = some v ∧ f.name = name) ∨
            ∃ (k : Nat) (g : Field), fields[k]? = some g ∧ values[k]? = some (some v) ∧
              g.name = name := by
        constructor
        · rintro ⟨_ | k, g, isField, isValue, isName⟩
          · simp only [List.getElem?_cons_zero, Option.some.injEq] at isField isValue
            exact .inl ⟨isValue, isField ▸ isName⟩
          · exact .inr ⟨k, g, isField, isValue, isName⟩
        · rintro (⟨rfl, isName⟩ | ⟨k, g, isField, isValue, isName⟩)
          · exact ⟨0, f, rfl, rfl, isName⟩
          · exact ⟨k + 1, g, isField, isValue, isName⟩
      rw [later, ← ih]
      cases o with
      | none => simp [present]
      | some w =>
        simp only [present, List.mem_cons, Prod.mk.injEq, Option.some.injEq]
        exact or_congr_left (by rw [and_comm, eq_comm, @eq_comm _ name])

/-- The names are distinct, so the value that a field has in the end is the one at its index. -/
theorem getElem?_of_mem_present {fields : List Field}
    (distinct : (fields.map Field.name).Nodup) {values : List (Option Instance)} {k : Nat}
    {f : Field} {v : Instance} (isField : fields[k]? = some f)
    (isValue : (f.name, v) ∈ present fields values) : values[k]? = some (some v) := by
  obtain ⟨index, g, isField', isValue, sameName⟩ := mem_present_iff.1 isValue
  have inRange := (List.getElem?_eq_some_iff.1 isField').1
  have names : (fields.map Field.name)[index]? = (fields.map Field.name)[k]? := by
    simp [isField, isField', sameName]
  obtain rfl := (List.getElem?_inj (by simpa using inRange) distinct).1 names
  exact isValue

theorem present_sublist (fields : List Field) (values : List (Option Instance)) :
    ((present fields values).map Prod.fst).Sublist (fields.map Field.name) := by
  induction fields generalizing values with
  | nil => simp [present]
  | cons f fields ih =>
    cases values with
    | nil => simp [present]
    | cons o values =>
      cases o with
      | none => exact (ih values).cons _
      | some v => exact (ih values).cons_cons _

end
end Direct
end RecordCodec
