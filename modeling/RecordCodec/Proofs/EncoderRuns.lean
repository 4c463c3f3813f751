import RecordCodec.Proofs.Direct
import RecordCodec.Proofs.Lowering

set_option autoImplicit false

/-!
# Runs of encoders

The body of an encoder keeps its output in one slot. Each of its parts changes the members or the
elements there as the direct interpretation does, and the fields that it notes as missing are the
required ones that the instance does not have.
-/
namespace RecordCodec.Compile.Encoder

open Routine Direct

def holding (v : Json) (missing : List String) : Store where
  slots := [.dynamic v]
  missing := missing

theorem onMembers_holding (f : List (String × Json) → List (String × Json))
    (members : List (String × Json)) (missing : List String) :
    onMembers f (holding (.object members) missing) = holding (.object (f members)) missing := rfl

theorem onElements_holding (v : Json) (items : List Json) (missing : List String) :
    onElements v (holding (.array items) missing) = holding (.array (items ++ [v])) missing := rfl

section
variable (record : RecordType) (config : Config) (input : Instance) (calls : Calls Instance Json)
  {convert : Field → Converter.Encode}

/-- The operations change the content of the output and note missing fields. -/
def Writes {α : Type} (output : α → Json) (ops : List (Op Instance Json)) (change : α → Run α)
    (missing : List String) : Prop :=
  ∃ b, Nests ops b ∧ ∀ (content : α) (noted keys : List String),
    b.execute calls input ⟨holding (output content) noted, keys⟩ =
      change content >>= fun content => pure ⟨holding (output content) (noted ++ missing), keys⟩

variable {input calls}

theorem Writes.nothing {α : Type} {output : α → Json} : Writes input calls output [] pure [] := by
  refine ⟨_, .done, fun content noted keys => ?_⟩
  simp

theorem Writes.append {α : Type} {output : α → Json} {ops more : List (Op Instance Json)}
    {change next : α → Run α} {missing others : List String}
    (first : Writes input calls output ops change missing)
    (second : Writes input calls output more next others) :
    Writes input calls output (ops ++ more) (fun content => change content >>= next)
      (missing ++ others) := by
  obtain ⟨b, nests, runs⟩ := first
  obtain ⟨b', nests', runs'⟩ := second
  refine ⟨_, nests.append nests', fun content noted keys => ?_⟩
  rw [Block.execute_append, runs, bind_assoc, bind_assoc]
  apply bind_congr
  intro content
  rw [pure_bind, runs', List.append_assoc]

theorem Writes.after {α : Type} {output : α → Json} {ops more : List (Op Instance Json)}
    {change : α → Run α} {missing : List String}
    (first : Writes input calls output ops pure missing)
    (second : Writes input calls output more change []) :
    Writes input calls output (ops ++ more) change missing := by
  have both := first.append second
  simp only [pure_bind, List.append_nil] at both
  exact both

theorem absentFields_cons (field : Field) (rest : List Field) :
    absentFields record input (field :: rest) =
      absentFields record input [field] ++ absentFields record input rest := by
  simp only [absentFields, List.filter_cons, List.filter_nil]
  split <;> simp

theorem missingOps_write {α : Type} (output : α → Json) (field : Field) :
    Writes input calls output (missingOps record field) pure
      (absentFields record input [field]) := by
  unfold missingOps
  cases required : field.isRequired record.kind with
  | false =>
    rw [show absentFields record input [field] = [] by simp [absentFields, required]]
    exact .nothing
  | true =>
    refine ⟨_, .step _ .done, fun content noted keys => ?_⟩
    cases absent : input.field? field.name <;>
      simp [missingStep, absent, absentFields, required, holding, Store.markMissing]

theorem memberOps_write (field : Field) (c : Converter)
    (converts : c.encode calls = convert field) :
    Writes input calls .object (memberOps record config field c)
      (encodeMember record config input (convert field) field)
      (absentFields record input [field]) := by
  have member : Writes input calls .object
      [.opening (.when fun input _ => (input.field? field.name).any fun v =>
          !(Omission.ofField config field).omits v),
        .opening (.guard (Recover.inField record.name field.name)),
        .emit (memberStep (.ofField config field) (.ofField config field) field c), .close, .close]
      (encodeMember record config input (convert field) field) [] := by
    refine ⟨_, .when _ (.guard _ (.step _ .done) .done) .done, fun content noted keys => ?_⟩
    simp only [Block.execute_branch, Block.execute_guard, Block.execute_onStore,
      Block.execute_done, memberStep, encodeMember, List.append_nil]
    cases present : input.field? field.name with
    | none => simp
    | some v =>
      cases omits : (Omission.ofField config field).omits v with
      | true => simp [omits]
      | false =>
        simp only [Option.any_some, omits, Bool.not_false, if_true, Bool.false_eq_true, if_false,
          Act.outcome_bind, Act.outcome_ofRun, bind_assoc, pure_bind, converts]
        have decides : ∀ encoded : Json, (if (Omission.ofField config field).omitsEncoded encoded
              then pure () else Act.modify (onMembers fun members =>
                (Target.ofField config field).write encoded members)).outcome
                  (holding (.object content) noted) =
            pure ((), holding (.object (if (Omission.ofField config field).omitsEncoded encoded
              then content else (Target.ofField config field).write encoded content)) noted) := by
          intro encoded
          cases (Omission.ofField config field).omitsEncoded encoded <;> rfl
        simp only [decides, pure_bind, Run.mapError_bind_pure, bind_assoc, Block.execute_done]
  exact (missingOps_write record .object field).after member

theorem elementOps_write (field : Field) (c : Converter)
    (converts : c.encode calls = convert field) :
    Writes input calls .array (elementOps record field c)
      (fun items => encodeElement record input (convert field) field >>= fun v =>
        pure (items ++ [v]))
      (absentFields record input [field]) := by
  have element : Writes input calls .array
      [.opening (.guard (Recover.inField record.name field.name)), .emit (elementStep field c),
        .close]
      (fun items => encodeElement record input (convert field) field >>= fun v =>
        pure (items ++ [v])) [] := by
    refine ⟨_, .guard _ (.step _ .done) .done, fun content noted keys => ?_⟩
    cases present : input.field? field.name <;>
      simp only [Block.execute_guard, Block.execute_onStore, Block.execute_done, elementStep,
        Act.outcome_bind, Act.outcome_ofRun, Act.outcome_modify, onElements_holding, bind_assoc,
        pure_bind, Run.mapError_bind_pure, present, converts, encodeElement, List.append_nil]
  exact (missingOps_write record .array field).after element

theorem memberFields_write {fields : List (Field × Converter)}
    (form : inArrayForm record config = false)
    (converts : ∀ f c, (f, c) ∈ fields → c.encode calls = convert f) :
    Writes input calls .object (fields.flatMap fun (field, c) => fieldOps record config field c)
      (encodeMembers record config input convert (fields.map Prod.fst))
      (absentFields record input (fields.map Prod.fst)) := by
  induction fields with
  | nil => exact .nothing
  | cons head rest ih =>
    obtain ⟨field, c⟩ := head
    have first : Writes input calls .object (fieldOps record config field c)
        (encodeInTurn record config input (convert field) field)
        (absentFields record input [field]) := by
      unfold fieldOps
      cases isCatchAll : field.catchAll with
      | true =>
        have none : absentFields record input [field] = [] := by
          simp [absentFields, Field.isRequired, isCatchAll]
        have turn : encodeInTurn record config input (convert field) field = pure := by
          funext members
          simp [encodeInTurn, isCatchAll]
        rw [none, turn]
        exact .nothing
      | false =>
        have turn : encodeInTurn record config input (convert field) field =
            encodeMember record config input (convert field) field := by
          funext members
          simp [encodeInTurn, isCatchAll]
        simp only [form, Bool.false_eq_true, if_false, turn]
        exact memberOps_write record config field c (converts field c List.mem_cons_self)
    have tail := ih fun f c mem => converts f c (List.mem_cons_of_mem _ mem)
    rw [List.flatMap_cons, List.map_cons, absentFields_cons]
    exact first.append tail

theorem elementFields_write {fields : List (Field × Converter)}
    (form : inArrayForm record config = true) (plain : ∀ e ∈ fields, e.1.catchAll = false)
    (converts : ∀ f c, (f, c) ∈ fields → c.encode calls = convert f) :
    Writes input calls .array (fields.flatMap fun (field, c) => fieldOps record config field c)
      (fun items => encodeElements record input convert (fields.map Prod.fst) >>= fun more =>
        pure (items ++ more))
      (absentFields record input (fields.map Prod.fst)) := by
  induction fields with
  | nil =>
    have stays : (fun items => encodeElements record input convert [] >>= fun more =>
        pure (items ++ more)) = pure := by
      funext items
      simp [encodeElements]
    rw [List.map_nil, stays]
    exact .nothing
  | cons head rest ih =>
    obtain ⟨field, c⟩ := head
    have first : Writes input calls .array (fieldOps record config field c)
        (fun items => encodeElement record input (convert field) field >>= fun v =>
          pure (items ++ [v])) (absentFields record input [field]) := by
      have here : field.catchAll = false := plain _ List.mem_cons_self
      simp only [fieldOps, here, form, Bool.false_eq_true, if_false, if_true]
      exact elementOps_write record field c (converts field c List.mem_cons_self)
    have tail := ih (fun e mem => plain e (List.mem_cons_of_mem _ mem))
      fun f c mem => converts f c (List.mem_cons_of_mem _ mem)
    have both := first.append tail
    rw [List.flatMap_cons, List.map_cons, absentFields_cons]
    simp only [encodeElements, bind_assoc, pure_bind, List.append_assoc, List.singleton_append]
      at both ⊢
    exact both

theorem tagOps_write (form : inArrayForm record config = false) :
    Writes input calls .object (tagOps record config)
      (fun members => pure ((tagMembers record config).foldl
        (fun acc (k, v) => Assoc.insert k v acc) members)) [] := by
  unfold tagOps tagMembers
  rw [form]
  cases config.tagKey? with
  | none => exact .nothing
  | some key =>
    cases record.tagUnder config with
    | none => exact .nothing
    | some tag =>
      refine ⟨_, .step _ .done, fun content noted keys => ?_⟩
      simp [onMembers_holding]

theorem splatOps_write {fields : List (Field × Converter)}
    (converts : ∀ f c, (f, c) ∈ fields → c.encode calls = convert f) :
    Writes input calls .object (splatOps record fields)
      (fun members =>
        match (fields.map Prod.fst).find? Field.catchAll with
        | some field => splatMembers record input (convert field) field >>= fun extra =>
            pure (addFree extra members)
        | none => pure members) [] := by
  have same : (fields.map Prod.fst).find? Field.catchAll =
      (fields.find? fun (field, _) => field.catchAll).map Prod.fst := by
    rw [List.find?_map]
    rfl
  unfold splatOps
  rw [same]
  cases found : fields.find? fun (field, _) => field.catchAll with
  | none => exact .nothing
  | some entry =>
    obtain ⟨field, c⟩ := entry
    refine ⟨_, .guard _ (.step _ .done) .done, fun content noted keys => ?_⟩
    simp only [Block.execute_guard, Block.execute_onStore, Block.execute_done, splatStep,
      Option.map_some, splatMembers, List.append_nil]
    cases input.field? field.name with
    | none => simp [addFree]
    | some v =>
      rw [← converts field c (List.mem_of_find?_eq_some found)]
      simp only [Act.outcome_bind, Act.outcome_ofRun, bind_assoc, pure_bind]
      refine (bind_pure _).trans ?_
      rw [← Run.mapError_bind_pure, bind_assoc]
      refine congrArg (Run.mapError _) ?_
      apply bind_congr
      intro extra
      cases extra <;> rfl

end

section
variable (record : RecordType) (config : Config) (input : Instance) (calls : Calls Instance Json)
  {convert : Field → Converter.Encode} {name : String} {fields : List (Field × Converter)}
  {code : Code Instance Json}

theorem body_write (converts : ∀ f c, (f, c) ∈ fields → c.encode calls = convert f)
    (form : inArrayForm record config = false) :
    Writes input calls .object
      (tagOps record config ++ (fields.flatMap fun (field, c) => fieldOps record config field c) ++
        splatOps record fields)
      (fun members =>
        encodeMembers record config input convert (fields.map Prod.fst)
            ((tagMembers record config).foldl (fun acc (k, v) => Assoc.insert k v acc) members) >>=
          fun members =>
            match (fields.map Prod.fst).find? Field.catchAll with
            | some field => splatMembers record input (convert field) field >>= fun extra =>
                pure (addFree extra members)
            | none => pure members)
      (absentFields record input (fields.map Prod.fst)) := by
  have tag : Writes input calls .object (tagOps record config) _ _ :=
    tagOps_write record config form
  have whole := (tag.append (memberFields_write record config form converts)).append
    (splatOps_write record converts)
  simp only [pure_bind, List.nil_append, List.append_nil] at whole
  exact whole

/-- A run of an encoder is the direct interpretation of its record. -/
theorem insert_tagMembers (record : RecordType) (config : Config) :
    (tagMembers record config).foldl (fun acc (k, v) => Assoc.insert k v acc) [] =
      tagMembers record config := by
  unfold tagMembers
  split <;> rfl

theorem run_of_lower (all : fields.map Prod.fst = Encoder.fields record config)
    (plain : inArrayForm record config = true → ∀ f ∈ record.fields, f.catchAll = false)
    (converts : ∀ f c, (f, c) ∈ fields → c.encode calls = convert f)
    (lowers : (draft record config name fields).lower = .ok code) :
    code.run calls input = encodeRecord record config input convert := by
  cases form : inArrayForm record config with
  | true =>
    have plain : ∀ e ∈ fields, e.1.catchAll = false := by
      intro e mem
      have there : e.1 ∈ Encoder.fields record config := all ▸ List.mem_map_of_mem mem
      exact plain form e.1 (List.mem_filter.1 there).1
    have noTag : tagOps record config = [] := by
      unfold tagOps
      rw [form]
    have noSplat : splatOps record fields = [] := by
      unfold splatOps
      rw [List.find?_eq_none.2 fun e mem => by simp [plain e mem]]
    have elements : Writes input calls .array _ _ _ :=
      elementFields_write record config form plain converts
    obtain ⟨b, nests, runs⟩ := elements
    have whole :
        Nests (draft record config name fields).ops (.step (startStep record config) b) := by
      rw [draft, noTag, noSplat, List.append_nil, List.nil_append]
      exact .step (startStep record config) nests
    have lowered := Draft.lower_of_nests whole rfl
    rw [lowers] at lowered
    cases lowered
    rw [Code.run_eq, startStep, Block.execute_onStore]
    simp only [form, if_true, Act.outcome_bind, Act.outcome_ofRun, Act.outcome_modify,
      bind_assoc, pure_bind, encodeRecord, encodeOutput]
    apply bind_congr
    intro _
    rw [show (Store.set output (.dynamic (.array [])) (Store.ofSlots (draft record config name
      fields).slots)) = holding (.array []) [] from rfl, runs [] [] [], all]
    simp only [bind_assoc, pure_bind, List.nil_append]
    apply bind_congr
    intro elements
    rw [finish]
    cases absentFields record input (Encoder.fields record config) <;> rfl
  | false =>
    obtain ⟨b, nests, runs⟩ := body_write record config input calls converts form
    have lowered := Draft.lower_of_nests (d := draft record config name fields)
      (.step (startStep record config) nests) rfl
    rw [lowers] at lowered
    cases lowered
    rw [Code.run_eq, startStep, Block.execute_onStore]
    simp only [form, Bool.false_eq_true, if_false, Act.outcome_bind, Act.outcome_ofRun,
      Act.outcome_modify, bind_assoc, pure_bind, encodeRecord, encodeOutput]
    apply bind_congr
    intro _
    rw [show (Store.set output (.dynamic (.object [])) (Store.ofSlots (draft record config name
      fields).slots)) = holding (.object []) [] from rfl, runs [] [] [], all]
    simp only [bind_assoc, pure_bind, List.nil_append, encodeObject]
    rw [insert_tagMembers]
    apply bind_congr
    intro members
    cases (Encoder.fields record config).find? Field.catchAll with
    | none =>
      simp only [pure_bind]
      rw [finish]
      cases absentFields record input (Encoder.fields record config) <;> rfl
    | some field =>
      simp only [bind_assoc, pure_bind]
      apply bind_congr
      intro extra
      rw [finish]
      cases absentFields record input (Encoder.fields record config) <;> rfl

end
end RecordCodec.Compile.Encoder
