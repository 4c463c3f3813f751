import RecordCodec.Proofs.Direct
import RecordCodec.Proofs.Entries
import RecordCodec.Proofs.Lowering

set_option autoImplicit false

/-!
# Runs of decoders

The body of a decoder, run on vacant slots, fills the slots with the instances of the direct
interpretation, in its order and with its failures. The keys that it consumes are those that fields
are found at, and the missing fields that it notes are those that the input does not have.
-/
namespace RecordCodec

open Routine Compile Direct

namespace Routine

theorem Run.bind_congr_of {α β : Type} {r : Run α} {f g : α → Run β}
    (h : ∀ a, r.run = some (.ok a) → f a = g a) : r >>= f = r >>= g := by
  apply ExceptT.ext
  rw [Run.bind_run, Run.bind_run]
  match ran : r.run with
  | none => rfl
  | some (.error e) => rfl
  | some (.ok a) => exact congrArg ExceptT.run (h a ran)

namespace Store

def consumeAll (keys : List String) (consumed : List String) : List String :=
  keys.foldl (fun acc key => if acc.contains key then acc else key :: acc) consumed

theorem contains_consumeAll (keys consumed : List String) (key : String) :
    (consumeAll keys consumed).contains key = (consumed.contains key || keys.contains key) := by
  induction keys generalizing consumed with
  | nil => simp [consumeAll]
  | cons first rest ih =>
    rw [consumeAll, List.foldl_cons, ← consumeAll, ih]
    split
    case isTrue present =>
      by_cases same : key = first
      · subst same
        simp only [present, List.contains_cons, BEq.rfl, Bool.true_or]
      · simp [same]
    case isFalse => simp [Bool.or_assoc, Bool.or_comm, Bool.or_left_comm]

end Store
end Routine

namespace Compile.Locator

theorem fetch_of_locate {l : Locator} {input : Json} {place : Location}
    (h : l.locate input = some place) : (place.fetch input).isSome := by
  unfold locate at h
  split at h
  case h_1 items =>
    obtain ⟨i, inRange, rfl⟩ := Option.map_eq_some_iff.1 h
    have short := (Option.filter_eq_some_iff.1 inRange).2
    simpa [Location.fetch, Json.item?] using short
  case h_2 members =>
    split at h
    case h_1 path =>
      split at h
      case isTrue found =>
        cases h
        exact found
      case isFalse => cases h
    case h_2 =>
      obtain ⟨key, found, rfl⟩ := Option.map_eq_some_iff.1 h
      have mem : key ∈ Assoc.keys members := by
        rcases Option.or_eq_some_iff.1 found with exact | ⟨-, upToCase⟩
        · simpa [Json.keys] using List.find?_some exact
        · split at upToCase
          · obtain ⟨_, _, found⟩ := List.exists_of_findSome?_eq_some upToCase
            exact List.mem_of_find?_eq_some found
          · cases upToCase
      exact Assoc.isSome_get?_iff.2 mem
  case h_3 => cases h

end Compile.Locator

namespace Compile.Decoder

/-- What a slot holds once its field is done with. -/
def slotOf : Option Instance → Slot
  | some v => .typed v
  | none => .vacant

section
variable (record : RecordType) (config : Config) (input : Json) (calls : Calls Json Instance)
  {convert : Field → Converter.Decode}

/-- The store in which the slots before one are done with and those from it on are vacant. -/
def storeAt (done : List Slot) (vacant : Nat) (consumed missing : List String) : Store where
  slots := done ++ List.replicate vacant .vacant
  consumed := consumed
  missing := missing

section
variable {done : List Slot} {vacant : Nat} {consumed missing : List String}

theorem slot_storeAt :
    (storeAt done (vacant + 1) consumed missing).slot done.length = .vacant := by
  simp [storeAt, Store.slot, Store.slot?]

theorem set_storeAt (slot : Slot) :
    (storeAt done (vacant + 1) consumed missing).set done.length slot =
      storeAt (done ++ [slot]) vacant consumed missing := by
  simp [storeAt, Store.set, List.replicate_succ]

theorem set_storeAt_last (first second : Slot) :
    (storeAt (done ++ [first]) vacant consumed missing).set done.length second =
      storeAt (done ++ [second]) vacant consumed missing := by
  simp [storeAt, Store.set]

theorem slot_storeAt_last (slot : Slot) :
    (storeAt (done ++ [slot]) vacant consumed missing).slot done.length = slot := by
  simp [storeAt, Store.slot, Store.slot?]

theorem consume_storeAt (key : String) :
    (storeAt done vacant consumed missing).consume key =
      storeAt done vacant (Store.consumeAll [key] consumed) missing := by
  by_cases before : key ∈ consumed <;> simp [Store.consume, storeAt, Store.consumeAll, before]

theorem storeAt_vacant :
    storeAt done (vacant + 1) consumed missing =
      storeAt (done ++ [slotOf none]) vacant consumed missing := by
  simp [storeAt, slotOf, List.replicate_succ]

end

/-- The operations for one field or for several, from a slot on: when the slots before are done
with, they run as given. -/
def FillsFrom (slot vacant left : Nat) (ops : List (Op Json Instance))
    (values : Run (List (Option Instance))) (consumed missing : List String) : Prop :=
  ∃ b, Nests ops b ∧ ∀ (done : List Slot) (before noted keys : List String), done.length = slot →
    b.execute calls input ⟨storeAt done vacant before noted, keys⟩ = values >>= fun values =>
      pure ⟨storeAt (done ++ values.map slotOf) left (Store.consumeAll consumed before)
        (noted ++ missing), keys⟩

def missingOf (slot : Nat) (field : Field) : List String :=
  if (located? record config input slot field).isNone && field.isRequired record.kind then
    [field.name] else []

theorem absentOps_runs (slot vacant : Nat) (field : Field) (c : Converter)
    (converts : c.decode calls = convert field) :
    FillsFrom input calls slot (vacant + 1) vacant (absentOps record field c slot)
      (decodeAbsent record (convert field) field >>= fun value => pure [value]) []
      (if field.isRequired record.kind then [field.name] else []) := by
  unfold absentOps decodeAbsent
  cases given : field.default with
  | none =>
    cases field.isRequired record.kind with
    | true =>
      refine ⟨_, .step _ .done, ?_⟩
      rintro done before noted keys rfl
      simp only [storeAt_vacant]
      simp [missingStep, Store.markMissing, storeAt, Store.consumeAll]
    | false =>
      refine ⟨_, .done, ?_⟩
      rintro done before noted keys rfl
      simp [storeAt_vacant, Store.consumeAll]
  | some default =>
    have optional : field.isRequired record.kind = false := by simp [Field.isRequired, given]
    cases default with
    | value v | fresh v =>
      refine ⟨_, .step _ .done, ?_⟩
      rintro done before noted keys rfl
      simp [defaultStep, set_storeAt, optional, slotOf, Store.consumeAll]
    | declared raw =>
      refine ⟨_, .step _ .done, ?_⟩
      rintro done before noted keys rfl
      simp [declaredStep, set_storeAt, optional, slotOf, converts, Store.consumeAll]

/-- The operations for a field: the slot gets what the direct interpretation decodes. -/
theorem fieldOps_runs (slot vacant : Nat) (field : Field) (c : Converter)
    (converts : c.decode calls = convert field) :
    FillsFrom input calls slot (vacant + 1) vacant (fieldOps record config field c slot)
      (decodeField record config input (convert field) slot field >>= fun value => pure [value])
      ((place? record config input slot field).bind takenKey?).toList
      (missingOf record config input slot field) := by
  obtain ⟨absent, nests, runs⟩ := absentOps_runs record input calls slot vacant field c converts
  refine ⟨_, .step _ (.branch _ (.guard _ (.step _ .done) .done) nests .done), ?_⟩
  rintro done before noted keys rfl
  rw [Block.execute_step]
  cases found : place? record config input done.length field with
  | none =>
    have isAbsent : located? record config input done.length field = none := by
      rw [located?, found]
      rfl
    unfold place? at found
    simp only [locateStep, Block.outcome_onStore, found, Act.outcome_pure, pure_bind,
      Block.execute_branch, Store.isVacant, slot_storeAt, Slot.isVacant, Bool.not_true,
      Bool.false_eq_true, if_false]
    rw [runs done before noted keys rfl]
    simp [decodeField, isAbsent, missingOf]
  | some place =>
    obtain ⟨raw, fetched⟩ := Option.isSome_iff_exists.1 (Locator.fetch_of_locate found)
    have isLocated : located? record config input done.length field = some raw := by
      rw [located?, found]
      exact fetched
    have locates : (locateStep (.ofField config (if record.kind = .positional then some done.length
          else none) field) done.length calls input
            ⟨storeAt done (vacant + 1) before noted, keys⟩).outcome =
        pure ⟨storeAt (done ++ [.located place]) vacant
          (Store.consumeAll (takenKey? place).toList before) noted, keys⟩ := by
      unfold place? at found
      rw [locateStep, Block.outcome_onStore, found, Act.outcome_modify, pure_bind, ← set_storeAt]
      cases takenKey? place with
      | none => rfl
      | some key => simp only [consume_storeAt, Option.toList]
    rw [locates]
    simp only [pure_bind, Block.execute_branch, Block.execute_guard, Block.execute_onStore,
      Block.execute_done, Store.isVacant, slot_storeAt_last, Slot.isVacant, Bool.not_false, if_true,
      convertStep, Act.outcome_bind, Act.outcome_store, Slot.target?, fetched, Act.outcome_ofRun,
      Act.outcome_modify, bind_assoc, set_storeAt_last, converts, decodeField, isLocated,
      Run.mapError_bind_pure, missingOf]
    simp [slotOf]

theorem allFieldOps_runs (slot : Nat) (fields : List (Field × Converter))
    (converts : ∀ f c, (f, c) ∈ fields → c.decode calls = convert f) :
    FillsFrom input calls slot fields.length 0 (allFieldOps record config slot fields)
      (decodeFields record config input convert slot (fields.map Prod.fst))
      (takenKeys record config input slot (fields.map Prod.fst))
      (missingFields record config input slot (fields.map Prod.fst)) := by
  induction fields generalizing slot with
  | nil =>
    refine ⟨_, .done, ?_⟩
    rintro done before noted keys rfl
    simp [decodeFields, takenKeys, missingFields, Store.consumeAll]
  | cons head rest ih =>
    obtain ⟨field, c⟩ := head
    -- the first field fills its slot, or leaves it vacant if it is a catch-all
    have first : FillsFrom input calls slot (rest.length + 1) rest.length
        (if field.catchAll then [] else fieldOps record config field c slot)
        (decodeInTurn record config input (convert field) slot field >>= fun value => pure [value])
        (if field.catchAll then none else
          (place? record config input slot field).bind takenKey?).toList
        (missingOf record config input slot field) := by
      unfold decodeInTurn
      cases isCatchAll : field.catchAll with
      | false =>
        exact fieldOps_runs record config input calls slot rest.length field c
          (converts field c List.mem_cons_self)
      | true =>
        refine ⟨_, .done, ?_⟩
        rintro done before noted keys rfl
        simp [missingOf, Field.isRequired, isCatchAll, Store.consumeAll, storeAt_vacant]
    obtain ⟨b, nests, runs⟩ := first
    obtain ⟨b', nests', runs'⟩ := ih (slot + 1) fun f c mem =>
      converts f c (List.mem_cons_of_mem _ mem)
    refine ⟨_, nests.append nests', ?_⟩
    rintro done before noted keys rfl
    rw [Block.execute_append, List.length_cons, runs done before noted keys rfl]
    simp only [bind_assoc, pure_bind, List.map_cons, List.map_nil, decodeFields, takenKeys,
      missingFields]
    apply bind_congr
    intro value
    rw [runs' _ _ _ _ (by simp)]
    apply bind_congr
    intro values
    simp [Store.consumeAll, missingOf]

theorem loopKeys_of_pure {body : Locals → Run Locals} {f : String → Store → Store}
    (h : ∀ key s keys, body ⟨s, key :: keys⟩ = pure ⟨f key s, key :: keys⟩) (among : List String)
    (s : Store) (keys : List String) :
    loopKeys body among ⟨s, keys⟩ = pure ⟨among.foldl (fun s key => f key s) s, keys⟩ := by
  induction among generalizing s with
  | nil => rfl
  | cons key rest ih =>
    rw [loopKeys, Locals.enterKey, h, pure_bind]
    exact ih (f key s)

/-- A key that belongs to no field, with the keys consumed so far. -/
def isFree (tagKey : Option String) (s : Store) (key : String) : Bool :=
  !s.isConsumed key && tagKey != some key

theorem execute_whenLeftOver (tagKey : Option String) (b : Block Json Instance) (s : Store)
    (key : String) (keys : List String) :
    (Block.branch (isLeftOver tagKey) b .done .done).execute calls input ⟨s, key :: keys⟩ =
      if isFree tagKey s key then b.execute calls input ⟨s, key :: keys⟩
      else pure ⟨s, key :: keys⟩ := by
  rw [Block.execute_branch]
  exact bind_pure _

def gather (slot : Nat) (key : String) (s : Store) : Store :=
  match s.slot slot with
  | .dynamic (.object members) =>
    s.set slot (.dynamic (.object (Assoc.insert key ((input.get? key).getD .null) members)))
  | _ => s

theorem gather_foldl (tagKey : Option String) (slot : Nat) (among : List String) (s : Store)
    (members : List (String × Json)) (inRange : slot < s.slots.length) :
    among.foldl (fun s key => if isFree tagKey s key then gather input slot key s else s)
        (s.set slot (.dynamic (.object members))) =
      s.set slot (.dynamic (.object
        (((among.filter (isFree tagKey s)).map fun key => (key, (input.get? key).getD .null)).foldl
          (fun acc (k, v) => Assoc.insert k v acc) members))) := by
  induction among generalizing members with
  | nil => rfl
  | cons key rest ih =>
    have same : isFree tagKey (s.set slot (.dynamic (.object members))) key = isFree tagKey s key :=
      by simp [isFree, Store.isConsumed, Store.set, inRange]
    have gathers : gather input slot key (s.set slot (.dynamic (.object members))) =
        s.set slot (.dynamic (.object
          (Assoc.insert key ((input.get? key).getD .null) members))) := by
      simp [gather, Store.slot, Store.slot?, Store.set, inRange]
    rw [List.foldl_cons, same, List.filter_cons]
    split
    case isTrue => rw [gathers, ih, List.map_cons, List.foldl_cons]
    case isFalse => exact ih members

theorem catchAllOps_runs (tagKey : Option String) (slot : Nat) (field : Field) (c : Converter)
    (converts : c.decode calls = convert field) :
    ∃ b, Nests (catchAllOps record tagKey field c slot) b ∧ ∀ (s : Store) (keys : List String),
      slot < s.slots.length → b.execute calls input ⟨s, keys⟩ =
        (convert field (.ofMembers ((input.keys.filter (isFree tagKey s)).map fun key =>
          (key, (input.get? key).getD .null)))).mapError
            (Failure.inField record.name field.name) >>= fun v =>
          pure ⟨s.set slot (.typed v), keys⟩ := by
  refine ⟨_,
    .guard _ (.step _ (.forEachKey _ (.when _ (.step _ .done) .done) (.step _ .done))) .done,
    fun s keys inRange => ?_⟩
  have gathers : ∀ key s keys, (Block.branch (isLeftOver tagKey) (.step (gatherStep slot) .done)
        .done .done).execute calls input ⟨s, key :: keys⟩ =
      pure ⟨if isFree tagKey s key then gather input slot key s else s, key :: keys⟩ := by
    intro key s keys
    rw [execute_whenLeftOver]
    cases isFree tagKey s key <;> rfl
  have slotAfter : ∀ x, (s.set slot x).slot slot = x := by
    simp [Store.slot, Store.slot?, Store.set, inRange]
  have setAfter : ∀ x y, ((s.set slot x).vacate slot).set slot y = s.set slot y := by
    simp [Store.vacate, Store.set, inRange]
  simp only [Block.execute_guard, Block.execute_onStore, Block.execute_forEachKey,
    Act.outcome_modify, pure_bind, loopKeys_of_pure gathers,
    gather_foldl input tagKey slot _ s _ inRange, convertGathered, Act.outcome_bind,
    Act.outcome_store, slotAfter, Act.outcome_ofRun, bind_assoc, setAfter, converts,
    Block.execute_done, Run.mapError_bind_pure]
  rfl

theorem unknownKeyOps_runs (tagKey : Option String) (policy : UnknownKeys) :
    ∃ b, Nests (unknownKeyOps record tagKey policy) b ∧ ∀ (s : Store) (keys : List String),
      b.execute calls input ⟨s, keys⟩ =
        match policy, input.keys.filter (isFree tagKey s) with
        | .raise, key :: _ => throw (.of (.unknownKey record.name key))
        | _, _ => pure ⟨s, keys⟩ := by
  refine ⟨_, .forEachKey _ (.when _ (.step _ .done) .done) .done, fun s keys => ?_⟩
  have loops : ∀ among, loopKeys ((Block.branch (isLeftOver tagKey)
        (.step (unknownKeyStep record policy) .done) .done .done).execute calls input) among
        ⟨s, keys⟩ =
      match policy, among.filter (isFree tagKey s) with
      | .raise, key :: _ => throw (.of (.unknownKey record.name key))
      | _, _ => pure ⟨s, keys⟩ := by
    intro among
    induction among with
    | nil => cases policy <;> rfl
    | cons key rest ih =>
      rw [loopKeys, Locals.enterKey, execute_whenLeftOver, List.filter_cons]
      split
      case isTrue free =>
        cases policy with
        | raise => rfl
        | ignore | warn => exact ih
      case isFalse => exact ih
  rw [Block.execute_forEachKey, loops]
  exact bind_pure _

end

theorem typedFields_eq (fields : List Field) (done : List Slot) (values : List (Option Instance))
    (s : Store) (slots : s.slots = done ++ values.map slotOf) :
    typedFields s done.length fields = present fields values := by
  induction fields generalizing done values with
  | nil => rfl
  | cons field rest ih =>
    cases values with
    | nil =>
      have vacant : ∀ i, s.slot (done.length + i) = .vacant := by
        intro i
        simp [Store.slot, Store.slot?, slots]
      have none : ∀ (fields : List Field) i, typedFields s (done.length + i) fields = [] := by
        intro fields
        induction fields with
        | nil => intro i; rfl
        | cons f more ih => intro i; rw [typedFields, vacant]; exact ih (i + 1)
      exact none (field :: rest) 0
    | cons value values =>
      have here : s.slot done.length = slotOf value := by
        simp [Store.slot, Store.slot?, slots]
      have tail := ih (done ++ [slotOf value]) values (by rw [slots]; simp)
      rw [List.length_append] at tail
      rw [typedFields, here]
      cases value with
      | none => exact tail
      | some v => exact congrArg ((field.name, v) :: ·) tail

theorem catchAll?_eq (slot : Nat) (fields : List (Field × Converter)) :
    (catchAll? slot fields).map (fun (field, _, slot) => (field, slot)) =
      catchAllAt slot (fields.map Prod.fst) := by
  induction fields generalizing slot with
  | nil => rfl
  | cons head rest ih =>
    rw [catchAll?, List.map_cons, catchAllAt]
    split
    · rfl
    · exact ih (slot + 1)

theorem mem_of_catchAll? {slot found : Nat} {fields : List (Field × Converter)} {field : Field}
    {c : Converter} (h : catchAll? slot fields = some (field, c, found)) :
    (field, c) ∈ fields ∧ slot ≤ found ∧ found < slot + fields.length := by
  induction fields generalizing slot with
  | nil => cases h
  | cons head rest ih =>
    rw [catchAll?] at h
    split at h
    · cases h
      exact ⟨List.mem_cons_self, Nat.le_refl _, by simp⟩
    · obtain ⟨mem, low, high⟩ := ih h
      exact ⟨List.mem_cons_of_mem _ mem, by omega, by rw [List.length_cons]; omega⟩

theorem length_of_decodeFields {record : RecordType} {config : Config} {input : Json}
    {convert : Field → Converter.Decode} {index : Nat} {fields : List Field}
    {values : List (Option Instance)}
    (h : (decodeFields record config input convert index fields).run = some (.ok values)) :
    values.length = fields.length := by
  induction fields generalizing index values with
  | nil =>
    cases h
    rfl
  | cons field rest ih =>
    rw [decodeFields, Run.bind_run] at h
    split at h
    case h_1 first _ =>
      rw [Run.bind_run] at h
      split at h
      case h_1 others ran =>
        cases h
        rw [List.length_cons, List.length_cons, ih ran]
      case h_2 => cases h
      case h_3 => cases h
    case h_2 => cases h
    case h_3 => cases h

section
variable (record : RecordType) (config : Config) (input : Json) (calls : Calls Json Instance)
  {convert : Field → Converter.Decode}

theorem leftOverOps_runs (fields : List (Field × Converter))
    (all : fields.map Prod.fst = record.fields)
    (converts : ∀ f c, (f, c) ∈ fields → c.decode calls = convert f) :
    ∃ b, Nests (leftOverOps record config fields) b ∧
      ∀ (values : List (Option Instance)) (missing : List String),
        values.length = record.fields.length →
        b.execute calls input ⟨storeAt (values.map slotOf) 0
            (Store.consumeAll (takenKeys record config input 0 record.fields) []) missing, []⟩ =
          decodeLeftOver record config input convert values >>= fun values =>
            pure ⟨storeAt (values.map slotOf) 0
              (Store.consumeAll (takenKeys record config input 0 record.fields) []) missing,
            []⟩ := by
  have free : ∀ (slots : List Slot) (missing : List String), input.keys.filter
      (isFree (tagKeyOf? record config) (storeAt slots 0
        (Store.consumeAll (takenKeys record config input 0 record.fields) []) missing)) =
      leftOver record config input := by
    intro slots missing
    refine List.filter_congr fun key _ => ?_
    simp only [isFree, storeAt, Store.isConsumed, Store.contains_consumeAll]
    rfl
  have same := catchAll?_eq 0 fields
  rw [all] at same
  unfold leftOverOps decodeLeftOver
  cases found : catchAll? 0 fields with
  | some entry =>
    obtain ⟨field, c, slot⟩ := entry
    rw [found] at same
    obtain ⟨mem, -, inRange⟩ := mem_of_catchAll? found
    obtain ⟨b, nests, runs⟩ := catchAllOps_runs record input calls (tagKeyOf? record config) slot
      field c (converts field c mem)
    refine ⟨b, nests, fun values missing count => ?_⟩
    have inRange : slot < values.length := by
      rw [count, ← all, List.length_map]
      omega
    rw [runs _ _ (by simpa [storeAt] using inRange), free, ← same]
    simp only [Option.map_some, bind_assoc, pure_bind, gathered]
    apply bind_congr
    intro v
    simp [storeAt, Store.set, inRange, List.map_set, slotOf]
  | none =>
    rw [found] at same
    rw [← same]
    cases policy : config.policy with
    | ignore =>
      refine ⟨_, .done, fun values missing _ => ?_⟩
      simp
    | warn | raise =>
      obtain ⟨b, nests, runs⟩ := unknownKeyOps_runs record input calls (tagKeyOf? record config)
        config.policy
      rw [policy] at nests
      refine ⟨b, nests, fun values missing _ => ?_⟩
      rw [runs, free, policy]
      cases leftOver record config input <;> rfl

/-- A run of a decoder is the direct interpretation of its record. -/
theorem run_of_lower {name : String} {fields : List (Field × Converter)}
    (all : fields.map Prod.fst = record.fields)
    (converts : ∀ f c, (f, c) ∈ fields → c.decode calls = convert f) {code : Code Json Instance}
    (lowers : (draft record config name fields).lower = .ok code) :
    code.run calls input = decodeRecord record config input convert := by
  obtain ⟨fill, nestsFill, runsFill⟩ :=
    allFieldOps_runs record config input calls 0 fields converts
  obtain ⟨left, nestsLeft, runsLeft⟩ :=
    leftOverOps_runs record config input calls fields all converts
  have lowered := Draft.lower_of_nests (d := draft record config name fields)
    (.step (checkStep record) (nestsFill.append nestsLeft)) rfl
  rw [lowers] at lowered
  cases lowered
  have start : Store.ofSlots fields.length = storeAt [] fields.length [] [] := rfl
  rw [Code.run_eq, checkStep, Block.execute_onStore, draft, start]
  simp only [Act.outcome_ofRun, bind_assoc, pure_bind, Block.execute_append]
  rw [runsFill [] [] [] [] rfl, all, decodeRecord]
  apply bind_congr
  intro _
  rw [bind_assoc]
  apply Run.bind_congr_of
  intro values ran
  rw [pure_bind, List.nil_append, runsLeft _ _ (length_of_decodeFields ran), bind_assoc]
  apply bind_congr
  intro values
  rw [pure_bind, List.nil_append, finish]
  cases missingFields record config input 0 record.fields with
  | nil =>
    have typed := typedFields_eq record.fields [] values (storeAt (values.map slotOf) 0
      (Store.consumeAll (takenKeys record config input 0 record.fields) []) [])
      (by simp [storeAt])
    rw [List.length_nil] at typed
    exact congrArg (fun fields => (pure (.record record.name fields) : Run Instance)) typed
  | cons => rfl

end
end Compile.Decoder
end RecordCodec
