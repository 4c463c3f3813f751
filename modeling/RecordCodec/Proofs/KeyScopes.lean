import RecordCodec.Proofs.Nesting

set_option autoImplicit false

/-!
# The keys of loops

A running body keeps the keys of its loops on a stack. Here a part of a body gets the keys of the
loops that it stands in, and only the store is passed from part to part, also by a failure on its
way to the guard that recovers from it. A body runs as this says if its steps and recoveries leave
the keys as they find them, and then so does the body, whether it succeeds or fails. The bodies of
decoders and encoders are made of such steps.
-/
namespace RecordCodec.Routine

variable {I O : Type}

/-- However the step ends, the keys are those that it found. -/
def Step.KeepsKeys (s : Step I O) : Prop :=
  ∀ calls input l r l', s calls input l = some (r, l') → l'.keys = l.keys

def Recover.KeepsKeys (recover : Recover I) : Prop :=
  ∀ e input l, (recover e input l).2.keys = l.keys

def Block.KeepsKeys : Block I O → Prop
  | done => True
  | step s rest => s.KeepsKeys ∧ rest.KeepsKeys
  | branch _ yes no rest => yes.KeepsKeys ∧ no.KeepsKeys ∧ rest.KeepsKeys
  | forEachKey _ body rest => body.KeepsKeys ∧ rest.KeepsKeys
  | guard recover body rest => recover.KeepsKeys ∧ body.KeepsKeys ∧ rest.KeepsKeys

/-! ### Scopes -/

theorem Locals.with_store {l l' : Locals} (same : l'.keys = l.keys) :
    { l with store := l'.store } = l' := by
  cases l'
  cases same
  rfl

namespace Act

def locals (keys : List String) : Act Locals := do pure { store := ← store, keys }

/-- Runs a step inside loops over some keys. What it leaves as keys is lost. -/
def ofStep (s : Step I O) (calls : Calls I O) (input : I) (keys : List String) : Act Unit :=
  ExceptT.mk fun store => (s calls input { store, keys }).map fun (result, l) => (result, l.store)

def recover (recover : Recover I) (input : I) (keys : List String) (e : Failure) : Act Unit :=
  ExceptT.mk fun store =>
    let (result, l) := recover e input { store, keys }
    some (result, l.store)

theorem ending_bind {first second : Act Unit} {l : Locals} {next : Locals → Ending}
    (h : ∀ store, next { l with store } = second.ending { l with store }) :
    (first >>= fun _ => second).ending l = (first.ending l).andThen next := by
  change (first.run l.store >>= fun ending => _ : Option _).map _ = _
  rw [ending]
  cases first.run l.store with
  | none => rfl
  | some ended =>
    obtain ⟨result, store⟩ := ended
    cases result with
    | ok => exact (h store).symm
    | error e => rfl

theorem ending_ofStep {s : Step I O} (keeps : s.KeepsKeys) (calls : Calls I O) (input : I)
    (l : Locals) : (ofStep s calls input l.keys).ending l = s calls input l := by
  change ((s calls input l).map _).map _ = _
  cases ran : s calls input l with
  | none => rfl
  | some ended =>
    obtain ⟨result, l'⟩ := ended
    exact congrArg (fun left => some (result, left)) (Locals.with_store (keeps _ _ _ _ _ ran))

theorem ending_tryCatch (body : Act Unit) {recover : Recover I} (keeps : recover.KeepsKeys)
    (input : I) (l : Locals) : (tryCatch body (Act.recover recover input l.keys)).ending l =
      (body.ending l).recoverBy fun e l => recover e input l := by
  change (body.run l.store >>= fun ending => _ : Option _).map _ = _
  rw [ending]
  cases body.run l.store with
  | none => rfl
  | some ended =>
    obtain ⟨result, store⟩ := ended
    cases result with
    | ok => rfl
    | error e =>
      have same := Locals.with_store (keeps e input { l with store })
      exact congrArg (fun left => some ((recover e input { l with store }).1, left)) same

/-- The body of a loop sees its key in front of the keys around the loop. -/
theorem ending_forM {step : List String → Act Unit} {body : Locals → Ending}
    (h : ∀ l, body l = (step l.keys).ending l) (names : List String) (l : Locals) :
    (names.forM fun key => step (key :: l.keys)).ending l = runKeys body names l := by
  induction names generalizing l with
  | nil => rfl
  | cons key rest ih =>
    have others : ∀ store, runKeys body rest { l with store } =
        (rest.forM fun key => step (key :: l.keys)).ending { l with store } :=
      fun store => (ih { l with store }).symm
    rw [List.forM, ending_bind others, runKeys, h, ending, ending]
    -- the body ends on the same store under one more key, which is then taken back
    simp only [Locals.enterKey]
    cases (step (key :: l.keys)).run l.store with
    | none => rfl
    | some ended =>
      obtain ⟨result, store⟩ := ended
      cases result <;> rfl

end Act

namespace Block

/-- A block as an action on the store. Inside a loop the key of the loop comes before the keys
around it. -/
def asAction : Block I O → Calls I O → I → List String → Act Unit
  | done, _, _, _ => pure ()
  | step s rest, calls, input, keys => do
    Act.ofStep s calls input keys
    rest.asAction calls input keys
  | branch cond yes no rest, calls, input, keys => do
    let l ← Act.locals keys
    (if cond input l then yes.asAction calls input keys else no.asAction calls input keys)
    rest.asAction calls input keys
  | forEachKey source body rest, calls, input, keys => do
    let l ← Act.locals keys
    (source input l).forM fun key => body.asAction calls input (key :: keys)
    rest.asAction calls input keys
  | guard recover body rest, calls, input, keys => do
    tryCatch (body.asAction calls input keys) (Act.recover recover input keys)
    rest.asAction calls input keys

theorem KeepsKeys.run_eq {b : Block I O} (keeps : b.KeepsKeys) (calls : Calls I O) (input : I)
    (l : Locals) : b.run calls input l = (b.asAction calls input l.keys).ending l := by
  induction b generalizing l with
  | done => rfl
  | step s rest ih =>
    obtain ⟨here, after⟩ := keeps
    rw [run, ← Act.ending_ofStep here]
    exact (Act.ending_bind fun store => ih after { l with store }).symm
  | branch cond yes no rest ihYes ihNo ih =>
    obtain ⟨first, second, after⟩ := keeps
    let part : Act Unit :=
      if cond input l then yes.asAction calls input l.keys else no.asAction calls input l.keys
    have ends : part.ending l =
        if cond input l then yes.run calls input l else no.run calls input l := by
      rw [ihYes first, ihNo second]
      exact apply_ite (Act.ending · l) ..
    rw [run, ← ends]
    exact (Act.ending_bind fun store => ih after { l with store }).symm
  | forEachKey source body rest ihBody ih =>
    obtain ⟨inside, after⟩ := keeps
    rw [run, ← Act.ending_forM (ihBody inside)]
    exact (Act.ending_bind fun store => ih after { l with store }).symm
  | guard recover body rest ihBody ih =>
    obtain ⟨recovers, inside, after⟩ := keeps
    rw [run, ihBody inside, ← Act.ending_tryCatch _ recovers]
    exact (Act.ending_bind fun store => ih after { l with store }).symm

end Block

/-! ### Bodies that keep the keys -/

@[simp] theorem Step.keepsKeys_onStore (act : Calls I O → I → List String → Act Unit) :
    (Step.onStore act).KeepsKeys := by
  intro calls input l r l' ran
  obtain ⟨ended, -, same⟩ := Option.map_eq_some_iff.1 ran
  cases same
  rfl

@[simp] theorem Recover.keepsKeys_inField (record field : String) :
    (Recover.inField record field : Recover I).KeepsKeys := fun _ _ _ => rfl

@[simp] def Op.KeepsKeys : Op I O → Prop
  | emit s => s.KeepsKeys
  | opening (.guard recover) => recover.KeepsKeys
  | opening _ | otherwise | close => True

theorem Nests.keepsKeys {ops : List (Op I O)} {b : Block I O} (nests : Nests ops b)
    (each : ∀ op ∈ ops, op.KeepsKeys) : b.KeepsKeys := by
  induction nests with
  | done => trivial
  | step s _ ih =>
    simp only [List.forall_mem_cons] at each
    exact ⟨each.1, ih each.2⟩
  | when cond _ _ ihBody ih =>
    simp only [List.forall_mem_cons, List.forall_mem_append] at each
    exact ⟨ihBody each.2.1, trivial, ih each.2.2.2⟩
  | branch cond _ _ _ ihYes ihNo ih =>
    simp only [List.forall_mem_cons, List.forall_mem_append] at each
    exact ⟨ihYes each.2.1, ihNo each.2.2.2.1, ih each.2.2.2.2.2⟩
  | forEachKey source _ _ ihBody ih =>
    simp only [List.forall_mem_cons, List.forall_mem_append] at each
    exact ⟨ihBody each.2.1, ih each.2.2.2⟩
  | guard recover _ _ ihBody ih =>
    simp only [List.forall_mem_cons, List.forall_mem_append] at each
    exact ⟨each.1, ihBody each.2.1, ih each.2.2.2⟩

end RecordCodec.Routine

namespace RecordCodec.Compile

open Routine

namespace Decoder

theorem keepsKeys_fieldOps (record : RecordType) (config : Config) (field : Field) (c : Converter)
    (slot : Nat) : ∀ op ∈ fieldOps record config field c slot, op.KeepsKeys := by
  have absent : ∀ op ∈ absentOps record field c slot, op.KeepsKeys := by
    unfold absentOps
    split
    · simp [defaultStep]
    · simp [defaultStep]
    · simp [declaredStep]
    · split <;> simp [missingStep]
  refine List.forall_mem_append.2 ⟨List.forall_mem_append.2 ⟨?_, absent⟩, ?_⟩
  · simp [locateStep, convertStep]
  · simp

theorem keepsKeys_allFieldOps (record : RecordType) (config : Config) (slot : Nat)
    (fields : List (Field × Converter)) :
    ∀ op ∈ allFieldOps record config slot fields, op.KeepsKeys := by
  induction fields generalizing slot with
  | nil => simp [allFieldOps]
  | cons e rest ih =>
    obtain ⟨field, c⟩ := e
    refine List.forall_mem_append.2 ⟨?_, ih (slot + 1)⟩
    split
    · simp
    · exact keepsKeys_fieldOps record config field c slot

theorem keepsKeys_leftOverOps (record : RecordType) (config : Config)
    (fields : List (Field × Converter)) :
    ∀ op ∈ leftOverOps record config fields, op.KeepsKeys := by
  unfold leftOverOps
  split
  · simp [catchAllOps, gatherStep, convertGathered]
  · simp
  · simp [unknownKeyOps, unknownKeyStep]

theorem keepsKeys_of_lower {record : RecordType} {config : Config} {name : String}
    {fields : List (Field × Converter)} {code : Code Json Instance}
    (lowered : (draft record config name fields).lower = .ok code) : code.body.KeepsKeys := by
  obtain ⟨b, finish, nests, -, rfl⟩ := Draft.lower_eq_ok_iff.1 lowered
  refine nests.keepsKeys (List.forall_mem_cons.2 ⟨?_, List.forall_mem_append.2
    ⟨keepsKeys_allFieldOps record config 0 fields, keepsKeys_leftOverOps record config fields⟩⟩)
  exact Step.keepsKeys_onStore _

end Decoder

namespace Encoder

theorem keepsKeys_fieldOps (record : RecordType) (config : Config) (field : Field)
    (c : Converter) : ∀ op ∈ fieldOps record config field c, op.KeepsKeys := by
  have missing : ∀ op ∈ missingOps record field, op.KeepsKeys := by
    unfold missingOps
    split <;> simp [missingStep]
  unfold fieldOps
  split
  · simp
  · split
    · exact List.forall_mem_append.2 ⟨missing, by simp [elementStep]⟩
    · exact List.forall_mem_append.2 ⟨missing, by simp [memberStep]⟩

theorem keepsKeys_of_lower {record : RecordType} {config : Config} {name : String}
    {fields : List (Field × Converter)} {code : Code Instance Json}
    (lowered : (draft record config name fields).lower = .ok code) : code.body.KeepsKeys := by
  obtain ⟨b, finish, nests, -, rfl⟩ := Draft.lower_eq_ok_iff.1 lowered
  have tag : ∀ op ∈ tagOps record config, op.KeepsKeys := by
    unfold tagOps
    split <;> simp
  have splat : ∀ op ∈ splatOps record fields, op.KeepsKeys := by
    unfold splatOps
    split <;> simp [splatStep]
  have each : ∀ op ∈ fields.flatMap fun e => fieldOps record config e.1 e.2, op.KeepsKeys := by
    rw [List.forall_mem_flatMap]
    exact fun e _ => keepsKeys_fieldOps record config e.1 e.2
  refine nests.keepsKeys (List.forall_mem_cons.2 ⟨Step.keepsKeys_onStore _, ?_⟩)
  exact List.forall_mem_append.2 ⟨List.forall_mem_append.2 ⟨tag, each⟩, splat⟩

end Encoder

end RecordCodec.Compile

namespace RecordCodec.Routine.Block

/-- A block in which all steps and recoveries keep the keys runs as it is scoped: its steps,
conditions, sources and recoveries get the keys of the loops around them, whatever was recovered
from before. However it ends, the keys are those that it started with. The bodies of decoders and
encoders are such blocks. -/
theorem run_scoped :
    (∀ {I O : Type} (b : Block I O), b.KeepsKeys → ∀ (calls : Calls I O) (input : I) (l : Locals),
      b.run calls input l = (b.asAction calls input l.keys).ending l ∧
        ∀ r l', b.run calls input l = some (r, l') → l'.keys = l.keys) ∧
    (∀ record config name fields code,
      (Compile.Decoder.draft record config name fields).lower = .ok code → code.body.KeepsKeys) ∧
    ∀ record config name fields code,
      (Compile.Encoder.draft record config name fields).lower = .ok code → code.body.KeepsKeys := by
  refine ⟨fun b keeps calls input l => ⟨keeps.run_eq calls input l, fun r l' ran => ?_⟩,
    fun _ _ _ _ _ => Compile.Decoder.keepsKeys_of_lower,
    fun _ _ _ _ _ => Compile.Encoder.keepsKeys_of_lower⟩
  rw [keeps.run_eq] at ran
  obtain ⟨ended, -, same⟩ := Option.map_eq_some_iff.1 ran
  cases same
  rfl

/-- Fails inside two loops, with or without a guard around them. For each key the guarded one notes
the key that the recovery sees, and the key of the step after it. -/
def escaping (guarded : Bool) : Block Unit Unit :=
  let failing : Block Unit Unit :=
    .step (.onStore fun _ _ _ => throw (.of (.unlinkedRoutine "d"))) .done
  let nested := .forEachKey (fun _ _ => ["c"]) (.forEachKey (fun _ _ => ["d"]) failing .done) .done
  let note := Act.modify ∘ Store.markMissing ∘ (List.headD · "")
  .forEachKey (fun _ _ => ["a", "b"])
    (if guarded then
      .guard
        (fun _ _ l => (.ok (), { l with store := l.store.markMissing (l.currentKey?.getD "") }))
        nested (.step (.onStore fun _ _ => note) .done)
    else nested) .done

def text : Field := { name := "text", type := .primitive .str }

def label : RecordType := { name := "Label", fields := [text] }

theorem run_scoped_escaping :
    (∀ guarded, (escaping guarded).KeepsKeys) ∧
    (∃ l, (escaping true).run (fun _ _ => pure ()) () { store := {}, keys := ["outer"] } =
      some (.ok (), l) ∧ l.store.missing = ["a", "a", "b", "b"] ∧ l.keys = ["outer"]) ∧
    (∃ e l, (escaping false).run (fun _ _ => pure ()) () { store := {}, keys := ["outer"] } =
      some (.error e, l) ∧ l.keys = ["outer"]) ∧
    (∃ code, (Compile.Decoder.draft label {} "decode::Label" [(text, .scalar .str)]).lower =
      .ok code ∧ code.body.KeepsKeys) ∧
    ∃ code, (Compile.Encoder.draft label {} "encode::Label" [(text, .scalar .str)]).lower =
      .ok code ∧ code.body.KeepsKeys := by
  have keeps : ∀ guarded, (escaping guarded).KeepsKeys := by
    intro guarded
    cases guarded <;> simp [escaping, KeepsKeys, Recover.KeepsKeys]
  have ended := fun guarded => run_scoped.1 (escaping guarded) (keeps guarded) (fun _ _ => pure ())
    () { store := {}, keys := ["outer"] }
  obtain ⟨decoder, decodes⟩ := Compile.Decoder.draft_lowers label {} "decode::Label"
    [(text, .scalar .str)]
  obtain ⟨encoder, encodes⟩ := Compile.Encoder.draft_lowers label {} "encode::Label"
    [(text, .scalar .str)]
  exact ⟨keeps, ⟨_, rfl, rfl, (ended true).2 _ _ rfl⟩, ⟨_, _, rfl, (ended false).2 _ _ rfl⟩,
    ⟨decoder, decodes, run_scoped.2.1 _ _ _ _ _ decodes⟩,
    encoder, encodes, run_scoped.2.2 _ _ _ _ _ encodes⟩

/-- A step that exchanges its locals loses the keys of all loops around it. -/
example : ∃ l, (.forEachKey (fun _ _ => ["a"]) (.step (fun _ _ _ => some (.ok (), { store := {} }))
    .done) .done : Block Unit Unit).run (fun _ _ => pure ()) () { store := {}, keys := ["outer"] } =
      some (.ok (), l) ∧ l.keys = [] :=
  ⟨_, rfl, rfl⟩

end RecordCodec.Routine.Block
