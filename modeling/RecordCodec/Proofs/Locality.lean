import RecordCodec.Proofs.Compiles
import RecordCodec.Proofs.Declarations
import RecordCodec.Proofs.Fuel
import RecordCodec.Proofs.Measures

set_option autoImplicit false

/-!
# What conversions call

The converter of a type calls other routines on parts of its value. Two converters that were made
of one type, in whatever sessions, differ only in the names that they call. A record converts its
fields on proper parts of its input, which weigh less, and on declared defaults; a catch-all field
is converted on an object that weighs less as well, unless it is all of the input.
-/
namespace RecordCodec

open Routine Run Compile Converter

/-- What the converter of a type is made of, by the handler that compiles it. -/
def Compile.Form (schema : Schema) (registry : Registry) (bound : Binding)
    (here : Direct.Position) (target : TypeExpr) (c : Converter) : Handler → Prop
  | .scalar p => c = .scalar p
  | .optional => ∃ inner, c = .optional inner ∧
    Compiles schema registry bound here (target.arg 0) inner
  | .sequence => ∃ item, c = .items .list item ∧
    Compiles schema registry bound here (target.arg 0) item
  | .set => ∃ item, c = .items .set item ∧
    Compiles schema registry bound here (target.arg 0) item
  | .variadicTuple => ∃ item, c = .items .tuple item ∧
    Compiles schema registry bound here (target.arg 0) item
  | .fixedTuple => ∃ parts, c = .tuple parts ∧ parts.length = target.args.length ∧
    ∀ (i : Nat) (inner : TypeExpr) (part : Converter), target.args[i]? = some inner →
      parts[i]? = some part → Compiles schema registry bound here inner part
  | .mapping => ∃ key item, c = .mapping key item ∧
    Compiles schema registry bound here (target.arg 0) key ∧
    Compiles schema registry bound here (target.arg 1) item
  | .defaultMapping => ∃ key item,
    c = .defaultMapping key item (Converter.zeroOf (target.arg 1)) ∧
    Compiles schema registry bound here (target.arg 0) key ∧
    Compiles schema registry bound here (target.arg 1) item
  | .literal => c = .literal target.literals
  | .enumeration => ∃ e, c = .enumeration e ∧ findEnum schema target = .ok e
  | .record => ∃ name routine, c = .record routine ∧ target.shape.recordName? = some name ∧
    bound routine name (here.nestedConfig schema name)
  | .union => ∃ arms, c = .union (here.plan schema target) arms ∧
    arms.length = target.args.length ∧
    ((here.plan schema target).arms.filterMap UnionArm.tag).Nodup ∧
    (∀ (i : Nat) (inner : TypeExpr) (arm : Converter), target.args[i]? = some inner →
      arms[i]? = some arm → ∀ name config, (here.arm schema inner).record = some (name, config) →
      ∃ routine, arm = .record routine ∧ bound routine name config) ∧
    ∀ (i : Nat) (inner : TypeExpr) (arm : Converter), target.args[i]? = some inner →
      arms[i]? = some arm → (here.arm schema inner).record = none →
      Compiles schema registry bound here inner arm
  | .custom decode encode => c = .custom decode encode

namespace Compile.Compiles

variable {schema : Schema} {registry : Registry} {bound bound' : Binding}
  {here : Direct.Position} {ty : TypeExpr} {c c' : Converter}

theorem form {target : TypeExpr} {handler : Handler}
    (handled : Handled schema registry ty handler target)
    (h : Compiles schema registry bound here ty c) :
    Form schema registry bound here target c handler := by
  cases h with
  | scalar handled' | literal handled' | custom handled' =>
    obtain ⟨rfl, rfl⟩ := handled.unique handled'
    rfl
  | optional handled' inner =>
    obtain ⟨rfl, rfl⟩ := handled.unique handled'
    exact ⟨_, rfl, inner⟩
  | items form handled' item =>
    obtain ⟨rfl, rfl⟩ := handled.unique handled'
    cases form <;> exact ⟨_, rfl, item⟩
  | tuple handled' count parts =>
    obtain ⟨rfl, rfl⟩ := handled.unique handled'
    exact ⟨_, rfl, count, parts⟩
  | mapping handled' key item | defaultMapping handled' key item =>
    obtain ⟨rfl, rfl⟩ := handled.unique handled'
    exact ⟨_, _, rfl, key, item⟩
  | enumeration handled' found =>
    obtain ⟨rfl, rfl⟩ := handled.unique handled'
    exact ⟨_, rfl, found⟩
  | record handled' named known =>
    obtain ⟨rfl, rfl⟩ := handled.unique handled'
    exact ⟨_, _, rfl, named, known⟩
  | union handled' count distinct records others =>
    obtain ⟨rfl, rfl⟩ := handled.unique handled'
    exact ⟨_, rfl, count, distinct, records, others⟩

theorem map_zip_fst {α β γ : Type} {f : α → γ} {as : List α} {bs : List β}
    (same : as.length = bs.length) : ((as.zip bs).map fun x => f x.1) = as.map f := by
  have first := congrArg (List.map f) (List.map_fst_zip (Nat.le_of_eq same))
  rwa [List.map_map] at first

theorem map_zip_snd {α β γ : Type} {f : β → γ} {as : List α} {bs : List β}
    (same : as.length = bs.length) : ((as.zip bs).map fun x => f x.2) = bs.map f := by
  have second := congrArg (List.map f) (List.map_snd_zip (Nat.le_of_eq same.symm))
  rwa [List.map_map] at second

theorem exists_of_mem_zip {α β γ : Type} {as : List α} {bs : List β} {cs : List γ}
    (count : as.length = cs.length) {x : α × β} (mem : x ∈ as.zip bs) :
    ∃ (i : Nat) (c : γ), cs[i]? = some c ∧ as[i]? = some x.1 ∧ bs[i]? = some x.2 := by
  obtain ⟨i, atX⟩ := List.getElem?_of_mem mem
  obtain ⟨atA, atB⟩ := List.getElem?_zip_eq_some.1 atX
  have inRange : i < cs.length := count ▸ (List.getElem?_eq_some_iff.1 atA).1
  exact ⟨i, cs[i], List.getElem?_eq_getElem inRange, atA, atB⟩

theorem armPair {R : Converter → Converter → Prop} {target : TypeExpr} {arms arms' : List Converter}
    (records : ∀ (i : Nat) (inner : TypeExpr) (arm : Converter), target.args[i]? = some inner →
      arms[i]? = some arm → ∀ name config, (here.arm schema inner).record = some (name, config) →
      ∃ routine, arm = .record routine ∧ bound routine name config)
    (records' : ∀ (i : Nat) (inner : TypeExpr) (arm : Converter), target.args[i]? = some inner →
      arms'[i]? = some arm → ∀ name config, (here.arm schema inner).record = some (name, config) →
      ∃ routine, arm = .record routine ∧ bound' routine name config)
    (others : ∀ (i : Nat) (inner : TypeExpr) (arm arm' : Converter), target.args[i]? = some inner →
      arms[i]? = some arm → arms'[i]? = some arm' → (here.arm schema inner).record = none →
      R arm arm')
    (calls : ∀ routine routine' name config, bound routine name config →
      bound' routine' name config → R (.record routine) (.record routine'))
    {x : TypeExpr × Converter × Converter} (mem : x ∈ target.args.zip (arms.zip arms')) :
    R x.2.1 x.2.2 := by
  obtain ⟨i, atX⟩ := List.getElem?_of_mem mem
  obtain ⟨atType, atArms⟩ := List.getElem?_zip_eq_some.1 atX
  obtain ⟨atArm, atArm'⟩ := List.getElem?_zip_eq_some.1 atArms
  cases planned : (here.arm schema x.1).record with
  | none => exact others i _ _ _ atType atArm atArm' planned
  | some key =>
    obtain ⟨routine, isRoutine, known⟩ := records i _ _ atType atArm key.1 key.2 planned
    obtain ⟨routine', isRoutine', known'⟩ := records' i _ _ atType atArm' key.1 key.2 planned
    rw [isRoutine, isRoutine']
    exact calls _ _ _ _ known known'

section
variable {calls calls' : Calls Json Instance} {P : Json → Prop}

theorem decodeList_below (hereditary : Json.Hereditary P) (form : ItemsForm) {f g : Decode}
    (h : ∀ w, P w → Below (f w) (g w)) {v : Json} (holds : P v) :
    Below (Direct.decodeList form f v) (Direct.decodeList form g v) := by
  unfold Direct.decodeList
  cases isItems : listItems? v with
  | none => exact .refl _
  | some vs =>
    have items := decodeItems_below 0 fun w mem => h w (hereditary.items holds isItems w mem)
    exact .bind items fun decoded => .refl _

theorem decodeMapping_below (hereditary : Json.Hereditary P)
    (build : List (Instance × Instance) → Instance) {key key' item item' : Decode}
    (keys : ∀ w, P w → Below (key w) (key' w)) (items : ∀ w, P w → Below (item w) (item' w))
    {v : Json} (holds : P v) :
    Below (Direct.decodeMapping build key item v) (Direct.decodeMapping build key' item' v) := by
  unfold Direct.decodeMapping
  cases found : mapEntries v with
  | error e => exact .refl _
  | ok entries =>
    have parts := hereditary.entries holds found
    simp only [Run.ofExcept_ok, pure_bind]
    exact .bind (decodeEntries_below (fun e mem => keys _ (parts e mem).1)
      fun e mem => items _ (parts e mem).2) fun _ => .refl _

/-- Decoding calls routines only on parts of the value, the value itself among them. -/
theorem decode_below (hereditary : Json.Hereditary P)
    (same : ∀ routine routine' name config, bound routine name config →
      bound' routine' name config → ∀ w, P w → Below (calls routine w) (calls' routine' w))
    (h : Compiles schema registry bound here ty c)
    (h' : Compiles schema registry bound' here ty c') {v : Json} (holds : P v) :
    Below (c.decode calls v) (c'.decode calls' v) := by
  induction h generalizing c' v with
  | scalar handled | literal handled | custom handled =>
    cases h'.form handled
    exact .refl _
  | enumeration handled found =>
    obtain ⟨e, rfl, found'⟩ := h'.form handled
    cases found.symm.trans found'
    exact .refl _
  | optional handled _ ih =>
    obtain ⟨inner, rfl, compiled⟩ := h'.form handled
    exact .ite (.refl _) (ih compiled holds)
  | items form handled _ ih =>
    cases form <;>
      (obtain ⟨item, rfl, compiled⟩ := h'.form handled
       exact decodeList_below hereditary _ (fun _ holds => ih compiled holds) holds)
  | @tuple _ target parts handled count _ ih =>
    obtain ⟨parts', rfl, count', compiled⟩ := h'.form handled
    have both := count.trans count'.symm
    simp only [Converter.decode, decodeAll_eq]
    rw [← map_zip_fst both, ← map_zip_snd both]
    refine decodeTuple_below fun x mem vs isItems w memW => ?_
    obtain ⟨i, inner, atType, atPart, atPart'⟩ := exists_of_mem_zip count mem
    exact ih i inner _ atType atPart (compiled i inner _ atType atPart')
      (hereditary.items holds isItems w memW)
  | mapping handled _ _ ihKey ihItem | defaultMapping handled _ _ ihKey ihItem =>
    obtain ⟨key, item, rfl, compiledKey, compiledItem⟩ := h'.form handled
    exact decodeMapping_below hereditary _ (fun _ holds => ihKey compiledKey holds)
      (fun _ holds => ihItem compiledItem holds) holds
  | record handled named known =>
    obtain ⟨name, routine, rfl, named', known'⟩ := h'.form handled
    cases named.symm.trans named'
    exact same _ _ _ _ known known' v holds
  | @union _ target arms handled count _ records _ ih =>
    obtain ⟨arms', rfl, count', -, records', compiled⟩ := h'.form handled
    have both := count.trans count'.symm
    have count₂ : (arms.zip arms').length = target.args.length := by simp [count, count']
    simp only [Converter.decode, decodeAll_eq]
    rw [← map_zip_fst both, ← map_zip_snd both, ← map_zip_snd count₂.symm,
      ← map_zip_snd count₂.symm]
    refine decodeUnion_below (map_zip_fst count₂.symm).symm fun x mem => ?_
    refine armPair (R := fun arm arm' => Below (arm.decode calls v) (arm'.decode calls' v))
      records records' (fun i inner arm arm' atType atArm atArm' planned => ?_)
      (fun _ _ _ _ known known' => same _ _ _ _ known known' v holds) mem
    exact ih i inner arm atType atArm planned (compiled i inner arm' atType atArm' planned) holds

end

section
variable {calls calls' : Calls Instance Json} {P : Instance → Prop}

theorem encodeList_below (hereditary : Instance.Hereditary P) (form : ItemsForm) {f g : Encode}
    (h : ∀ w, P w → Below (f w) (g w)) {v : Instance} (holds : P v) :
    Below (Direct.encodeList form f v) (Direct.encodeList form g v) := by
  unfold Direct.encodeList
  cases isItems : v.items? with
  | none => exact .refl _
  | some vs =>
    have items := encodeItems_below 0 fun w mem => h w (hereditary.items holds isItems w mem)
    exact .bind items fun encoded => .refl _

theorem encodeMapping_below (hereditary : Instance.Hereditary P) {key key' item item' : Encode}
    (keys : ∀ w, P w → Below (key w) (key' w)) (items : ∀ w, P w → Below (item w) (item' w))
    {v : Instance} (holds : P v) :
    Below (encodeMapping key item v) (encodeMapping key' item' v) := by
  unfold encodeMapping
  cases found : v.entries? with
  | none => exact .refl _
  | some entries =>
    have parts := hereditary.entries holds found
    exact .bind (encodeEntries_below (fun e mem => keys _ (parts e mem).1)
      (fun e mem => items _ (parts e mem).2) []) fun _ => .refl _

theorem encode_below (hereditary : Instance.Hereditary P)
    (same : ∀ routine routine' name config, bound routine name config →
      bound' routine' name config → ∀ w, P w → Below (calls routine w) (calls' routine' w))
    (h : Compiles schema registry bound here ty c)
    (h' : Compiles schema registry bound' here ty c') {v : Instance} (holds : P v) :
    Below (c.encode calls v) (c'.encode calls' v) := by
  induction h generalizing c' v with
  | scalar handled | literal handled | custom handled =>
    cases h'.form handled
    exact .refl _
  | enumeration handled found =>
    obtain ⟨e, rfl, found'⟩ := h'.form handled
    cases found.symm.trans found'
    exact .refl _
  | optional handled _ ih =>
    obtain ⟨inner, rfl, compiled⟩ := h'.form handled
    exact .ite (.refl _) (ih compiled holds)
  | items form handled _ ih =>
    cases form <;>
      (obtain ⟨item, rfl, compiled⟩ := h'.form handled
       exact encodeList_below hereditary _ (fun _ holds => ih compiled holds) holds)
  | @tuple _ target parts handled count _ ih =>
    obtain ⟨parts', rfl, count', compiled⟩ := h'.form handled
    have both := count.trans count'.symm
    simp only [Converter.encode, encodeAll_eq]
    rw [← map_zip_fst both, ← map_zip_snd both]
    refine encodeTuple_below fun x mem vs isItems w memW => ?_
    obtain ⟨i, inner, atType, atPart, atPart'⟩ := exists_of_mem_zip count mem
    exact ih i inner _ atType atPart (compiled i inner _ atType atPart')
      (hereditary.items holds isItems w memW)
  | mapping handled _ _ ihKey ihItem | defaultMapping handled _ _ ihKey ihItem =>
    obtain ⟨key, item, rfl, compiledKey, compiledItem⟩ := h'.form handled
    exact encodeMapping_below hereditary (fun _ holds => ihKey compiledKey holds)
      (fun _ holds => ihItem compiledItem holds) holds
  | record handled named known =>
    obtain ⟨name, routine, rfl, named', known'⟩ := h'.form handled
    cases named.symm.trans named'
    exact same _ _ _ _ known known' v holds
  | @union _ target arms handled count _ records _ ih =>
    obtain ⟨arms', rfl, count', -, records', compiled⟩ := h'.form handled
    have both := count.trans count'.symm
    have count₂ : (arms.zip arms').length = target.args.length := by simp [count, count']
    simp only [Converter.encode, encodeAll_eq]
    rw [← map_zip_fst both, ← map_zip_snd both, ← map_zip_snd count₂.symm,
      ← map_zip_snd count₂.symm]
    refine encodeUnion_below (map_zip_fst count₂.symm).symm fun x mem => ?_
    refine armPair (R := fun arm arm' => Below (arm.encode calls v) (arm'.encode calls' v))
      records records' (fun i inner arm arm' atType atArm atArm' planned => ?_)
      (fun _ _ _ _ known known' => same _ _ _ _ known known' v holds) mem
    exact ih i inner arm atType atArm planned (compiled i inner arm' atType atArm' planned) holds

end
end Compile.Compiles

namespace Direct

section Decoding
variable {record : RecordType} {config : Config} {input : Json} {convert convert' : Field → Decode}

theorem weight_lt_of_located? (checked : record.Checked) {index : Nat} {field : Field} {raw : Json}
    (mem : field ∈ record.fields) (h : located? record config input index field = some raw) :
    raw.weight < input.weight := by
  obtain ⟨place, located, fetched⟩ := Option.bind_eq_some_iff.1 h
  cases place with
  | key key => exact Json.weight_lt_of_get? fetched
  | index i => exact Json.weight_lt_of_item? fetched
  | path keys =>
    have isPath : field.path = some keys := by
      unfold place? Locator.locate at located
      split at located
      · simp at located
      · split at located
        case h_1 path isPath =>
          split at located
          · cases located
            exact isPath
          · cases located
        case h_2 => simp at located
      · cases located
    cases keys with
    | nil => exact absurd rfl (checked.path field mem _ isPath)
    | cons key rest => exact Json.weight_lt_of_fetchPath fetched

theorem decodeField_below (field : Field) (index : Nat)
    (parts : ∀ raw, located? record config input index field = some raw →
      Below (convert field raw) (convert' field raw))
    (defaults : ∀ raw, field.default = some (.declared raw) →
      Below (convert field raw) (convert' field raw)) :
    Below (decodeField record config input (convert field) index field)
      (decodeField record config input (convert' field) index field) := by
  unfold decodeField
  split
  case h_1 raw found => exact .bind ((parts raw found).mapError _) fun v => .refl _
  case h_2 =>
    unfold decodeAbsent
    split
    case h_3 raw given => exact .bind ((defaults raw given).mapError _) fun v => .refl _
    all_goals exact .refl _

theorem decodeFields_below (index : Nat) {fields : List Field}
    (h : ∀ f ∈ fields, ∀ index, Below (decodeInTurn record config input (convert f) index f)
      (decodeInTurn record config input (convert' f) index f)) :
    Below (decodeFields record config input convert index fields)
      (decodeFields record config input convert' index fields) := by
  induction fields generalizing index with
  | nil => exact .refl _
  | cons f rest ih =>
    refine .bind (h f List.mem_cons_self index) fun first => ?_
    exact .bind (ih _ fun g mem => h g (List.mem_cons_of_mem _ mem)) fun others => .refl _

theorem mem_of_catchAllAt {index found : Nat} {fields : List Field} {field : Field}
    (h : catchAllAt index fields = some (field, found)) :
    field ∈ fields ∧ field.catchAll = true := by
  induction fields generalizing index with
  | nil => cases h
  | cons f rest ih =>
    rw [catchAllAt] at h
    split at h
    case isTrue isCatchAll =>
      cases h
      exact ⟨List.mem_cons_self, isCatchAll⟩
    case isFalse =>
      obtain ⟨mem, isCatchAll⟩ := ih h
      exact ⟨List.mem_cons_of_mem _ mem, isCatchAll⟩

theorem mem_gathered {members : List (String × Json)}
    (h : gathered record config input = .object members) {e : String × Json} (mem : e ∈ members) :
    input.get? e.1 = some e.2 := by
  cases h
  obtain ⟨key, isLeft, rfl⟩ := List.mem_map.1 (Assoc.mem_of_mem_ofList mem)
  have present : (input.get? key).isSome := by
    have there := (List.mem_filter.1 isLeft).1
    cases input with
    | object members => exact Assoc.isSome_get?_iff.2 there
    | _ => cases there
  obtain ⟨v, got⟩ := Option.isSome_iff_exists.1 present
  simp [got]

/-- What is gathered weighs less than the input, or nothing is taken from the input. -/
theorem gathered_eq_or_weight_lt {members : List (String × Json)}
    (isObject : input = .object members) :
    gathered record config input = input ∨
      (gathered record config input).weight < input.weight := by
  let held := Assoc.ofList ((leftOver record config input).map fun key =>
    (key, (input.get? key).getD .null))
  have isHeld : gathered record config input = .object held := rfl
  have distinct : (Assoc.keys held).Nodup := Assoc.nodup_keys_ofList _
  have subset : held ⊆ members := fun e mem => by
    have got := mem_gathered isHeld mem
    rw [isObject] at got
    exact Assoc.mem_of_get? got
  rw [isHeld, isObject]
  have different : held.Nodup :=
    List.Pairwise.of_map _ (fun _ _ ne same => ne (congrArg _ same)) distinct
  refine (Json.perm_or_weight_lt different subset).imp (fun perm => ?_) id
  -- nothing is left out, so the keys are different ones and all of them are left over
  have all : (Assoc.keys members).Nodup := (perm.map Prod.fst).nodup_iff.1 distinct
  have keys : input.keys = Assoc.keys members := by rw [isObject]; rfl
  have everyKey : leftOver record config input = input.keys := by
    refine List.filter_eq_self.2 fun key mem => ?_
    rw [keys] at mem
    obtain ⟨e, inHeld, isKey⟩ := List.mem_map.1 ((perm.map Prod.fst).mem_iff.2 mem)
    obtain ⟨key', isLeft, rfl⟩ := List.mem_map.1 (Assoc.mem_of_mem_ofList inHeld)
    exact isKey ▸ (List.mem_filter.1 isLeft).2
  have entries : ((leftOver record config input).map fun key =>
      (key, (input.get? key).getD .null)) = members := by
    rw [everyKey, keys, Assoc.keys, List.map_map]
    refine (List.map_congr_left fun e mem => ?_).trans (List.map_id _)
    have got : input.get? e.1 = some e.2 := by
      rw [isObject]
      exact Assoc.get?_of_mem all mem
    simp [got]
  simp only [held, entries, Assoc.ofList_eq_self all]

theorem exists_object_of_catchAll (checked : record.Checked) {f : Field} (mem : f ∈ record.fields)
    (isCatchAll : f.catchAll = true) (form : Decoder.checkForm record input = .ok ()) :
    ∃ members, input = .object members := by
  have inFilter : f ∈ record.fields.filter Field.catchAll := List.mem_filter.2 ⟨mem, isCatchAll⟩
  have other : record.kind ≠ .positional := by
    rcases checked.catchAll with none | ⟨other, -⟩
    · rw [none] at inFilter
      cases inFilter
    · exact other
  cases input with
  | object members => exact ⟨members, rfl⟩
  | _ => simp [Decoder.checkForm, other] at form

/-- Decoding a record converts proper parts of the input, declared defaults, and for the catch-all
field an object that is the input itself or weighs less. -/
theorem decodeRecord_below (checked : record.Checked)
    (parts : ∀ f ∈ record.fields, ∀ raw : Json, raw.weight < input.weight →
      Below (convert f raw) (convert' f raw))
    (defaults : ∀ f ∈ record.fields, ∀ raw, f.default = some (.declared raw) →
      Below (convert f raw) (convert' f raw))
    (rest : ∀ f ∈ record.fields, f.catchAll = true → ∀ members,
      .object members = input ∨ (Json.object members).weight < input.weight →
      Below (convert f (.object members)) (convert' f (.object members))) :
    Below (decodeRecord record config input convert)
      (decodeRecord record config input convert') := by
  unfold decodeRecord
  cases form : Decoder.checkForm record input with
  | error e => exact .refl _
  | ok =>
    refine .bind (.refl _) fun _ => .bind (decodeFields_below 0 fun f mem index => ?_)
      fun values => .bind ?_ fun values => .refl _
    · refine .ite (.refl _) (decodeField_below f index (fun raw found => ?_) (defaults f mem))
      exact parts f mem raw (weight_lt_of_located? checked mem found)
    · unfold decodeLeftOver
      split
      case h_1 f index found =>
        obtain ⟨mem, isCatchAll⟩ := mem_of_catchAllAt found
        obtain ⟨members, isObject⟩ := exists_object_of_catchAll checked mem isCatchAll form
        have less : gathered record config input = input ∨
            (gathered record config input).weight < input.weight :=
          gathered_eq_or_weight_lt isObject
        have below := rest f mem isCatchAll _ less
        exact .bind (below.mapError _) fun v => .refl _
      case h_2 => exact .refl _

end Decoding

section Encoding
variable {record : RecordType} {config : Config} {input : Instance}
  {convert convert' : Field → Encode}

theorem encodeMembers_below {fields : List Field} (members : List (String × Json))
    (h : ∀ f ∈ fields, ∀ v, input.field? f.name = some v →
      Below (convert f v) (convert' f v)) :
    Below (encodeMembers record config input convert fields members)
      (encodeMembers record config input convert' fields members) := by
  induction fields generalizing members with
  | nil => exact .refl _
  | cons f rest ih =>
    refine .bind (.ite (.refl _) ?_) fun members =>
      ih _ fun g mem => h g (List.mem_cons_of_mem _ mem)
    unfold encodeMember
    split
    · exact .refl _
    case h_2 v present =>
      exact .ite (.refl _) (.bind ((h f List.mem_cons_self v present).mapError _) fun _ => .refl _)

theorem splatMembers_below (field : Field)
    (h : ∀ v, input.field? field.name = some v → Below (convert field v) (convert' field v)) :
    Below (splatMembers record input (convert field) field)
      (splatMembers record input (convert' field) field) := by
  unfold splatMembers
  split
  · exact .refl _
  case h_2 v present => exact (Below.bind (h v present) fun _ => .refl _).mapError _

theorem encodeElements_below {fields : List Field}
    (h : ∀ f ∈ fields, Below (encodeElement record input (convert f) f)
      (encodeElement record input (convert' f) f)) :
    Below (encodeElements record input convert fields)
      (encodeElements record input convert' fields) := by
  induction fields with
  | nil => exact .refl _
  | cons f rest ih =>
    refine .bind (h f List.mem_cons_self) fun first => ?_
    exact .bind (ih fun g mem => h g (List.mem_cons_of_mem _ mem)) fun others => .refl _

theorem encodeRecord_below
    (parts : ∀ f ∈ Encoder.fields record config, ∀ v : Instance, v.depth < input.depth →
      Below (convert f v) (convert' f v))
    (defaults : ∀ f ∈ Encoder.fields record config, ∀ v,
      f.default = some (.value v) ∨ f.default = some (.fresh v) →
      Below (convert f v) (convert' f v)) :
    Below (encodeRecord record config input convert)
      (encodeRecord record config input convert') := by
  refine .bind (.refl _) fun _ => .bind (.ite (.bind ?_ fun _ => .refl _) ?_) fun _ => .refl _
  · refine encodeElements_below fun f mem => .mapError _ ?_
    split
    case h_1 v present => exact parts f mem v (Instance.depth_lt_of_field? present)
    case h_2 =>
      unfold Encoder.encodeDefault
      split
      case h_1 v given => exact defaults f mem v (.inl given)
      case h_2 v given => exact defaults f mem v (.inr given)
      all_goals exact .refl _
  · refine .bind (encodeMembers_below _ fun f mem v present => ?_) fun members => ?_
    · exact parts f mem v (Instance.depth_lt_of_field? present)
    · split
      case h_1 f found =>
        refine .bind (splatMembers_below f fun v present => ?_) fun _ => .refl _
        exact parts f (List.mem_of_find?_eq_some found) v (Instance.depth_lt_of_field? present)
      case h_2 => exact .refl _

end Encoding
end Direct
end RecordCodec
