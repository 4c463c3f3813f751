import RecordCodec.Compile.Decoder
import RecordCodec.Compile.Encoder
import RecordCodec.Proofs.Lowering

set_option autoImplicit false

/-!
# Drafts of records are well nested

The operations for a field close every block that they open, and so do those for what is left over,
so the draft of a record can always be lowered.
-/
namespace RecordCodec

namespace Routine

variable {I O : Type}

def WellNested (ops : List (Op I O)) : Prop := ∃ b, Nests ops b

namespace WellNested

variable {body other ops : List (Op I O)}

theorem nil : WellNested ([] : List (Op I O)) := ⟨_, .done⟩

theorem append (h : WellNested body) (h' : WellNested ops) : WellNested (body ++ ops) := by
  obtain ⟨_, first⟩ := h
  obtain ⟨_, second⟩ := h'
  exact ⟨_, first.append second⟩

theorem emit (s : Step I O) (h : WellNested ops) : WellNested (.emit s :: ops) := by
  obtain ⟨_, rest⟩ := h
  exact ⟨_, .step s rest⟩

theorem when (cond : Cond I) (h : WellNested body) :
    WellNested (.opening (.when cond) :: (body ++ [.close])) := by
  obtain ⟨_, inner⟩ := h
  exact ⟨_, .when cond inner .done⟩

theorem branch (cond : Cond I) (h : WellNested body) (h' : WellNested other) :
    WellNested (.opening (.when cond) :: (body ++ .otherwise :: (other ++ [.close]))) := by
  obtain ⟨_, yes⟩ := h
  obtain ⟨_, no⟩ := h'
  exact ⟨_, .branch cond yes no .done⟩

theorem forEachKey (source : KeySource I) (h : WellNested body) :
    WellNested (.opening (.forEachKey source) :: (body ++ [.close])) := by
  obtain ⟨_, inner⟩ := h
  exact ⟨_, .forEachKey source inner .done⟩

theorem guard (recover : Recover I) (h : WellNested body) :
    WellNested (.opening (.guard recover) :: (body ++ [.close])) := by
  obtain ⟨_, inner⟩ := h
  exact ⟨_, .guard recover inner .done⟩

theorem flatMap {α : Type} {f : α → List (Op I O)} {xs : List α}
    (h : ∀ x ∈ xs, WellNested (f x)) : WellNested (xs.flatMap f) := by
  induction xs with
  | nil => exact nil
  | cons x rest ih =>
    obtain ⟨first, others⟩ := List.forall_mem_cons.1 h
    exact first.append (ih others)

end WellNested

def Draft.Lowers (d : Draft I O) : Prop := ∃ code, d.lower = .ok code

theorem Draft.lowers_of_wellNested {d : Draft I O} (h : WellNested d.ops)
    (finished : d.finish.isSome = true) : d.Lowers := by
  obtain ⟨b, nests⟩ := h
  obtain ⟨finish, isFinish⟩ := Option.isSome_iff_exists.1 finished
  exact ⟨_, Draft.lower_of_nests nests isFinish⟩

end Routine

namespace Compile

open Routine

namespace Decoder

theorem wellNested_fieldOps (record : RecordType) (config : Config) (field : Field) (c : Converter)
    (slot : Nat) : WellNested (fieldOps record config field c slot) := by
  have absent : WellNested (absentOps record field c slot) := by
    unfold absentOps
    split
    · exact .emit _ .nil
    · exact .emit _ .nil
    · exact .emit _ .nil
    · split
      · exact .emit _ .nil
      · exact .nil
  have guarded := WellNested.guard (Recover.inField record.name field.name)
    (.emit (convertStep c slot) .nil)
  exact .emit _ (.branch _ guarded absent)

theorem wellNested_allFieldOps (record : RecordType) (config : Config) (slot : Nat)
    (fields : List (Field × Converter)) : WellNested (allFieldOps record config slot fields) := by
  induction fields generalizing slot with
  | nil => exact .nil
  | cons e rest ih =>
    obtain ⟨field, c⟩ := e
    refine .append ?_ (ih (slot + 1))
    split
    · exact .nil
    · exact wellNested_fieldOps record config field c slot

theorem wellNested_leftOverOps (record : RecordType) (config : Config)
    (fields : List (Field × Converter)) : WellNested (leftOverOps record config fields) := by
  unfold leftOverOps
  split
  case h_1 _ _ field c slot _ =>
    have each := WellNested.forEachKey (fun (input : Json) _ => input.keys)
      (.when (isLeftOver (tagKeyOf? record config)) (.emit (gatherStep slot) .nil))
    exact .guard _ (.emit _ (each.append (.emit _ .nil)))
  case h_2 => exact .nil
  case h_3 => exact .forEachKey _ (.when _ (.emit _ .nil))

theorem draft_lowers (record : RecordType) (config : Config) (name : String)
    (fields : List (Field × Converter)) : (draft record config name fields).Lowers :=
  Draft.lowers_of_wellNested (.emit _ ((wellNested_allFieldOps record config 0 fields).append
    (wellNested_leftOverOps record config fields))) rfl

end Decoder

namespace Encoder

theorem wellNested_missingOps (record : RecordType) (field : Field) :
    WellNested (missingOps record field) := by
  unfold missingOps
  split
  · exact .emit _ .nil
  · exact .nil

theorem wellNested_fieldOps (record : RecordType) (config : Config) (field : Field)
    (c : Converter) : WellNested (fieldOps record config field c) := by
  have missing := wellNested_missingOps record field
  unfold fieldOps
  split
  · exact .nil
  · split
    · exact missing.append (.guard _ (.emit _ .nil))
    · exact missing.append (.when _ (.guard _ (.emit _ .nil)))

theorem draft_lowers (record : RecordType) (config : Config) (name : String)
    (fields : List (Field × Converter)) : (draft record config name fields).Lowers := by
  have tag : WellNested (tagOps record config) := by
    unfold tagOps
    split
    · exact .emit _ .nil
    · exact .nil
  have splat : WellNested (splatOps record fields) := by
    unfold splatOps
    split
    · exact .guard _ (.emit _ .nil)
    · exact .nil
  have each : WellNested (fields.flatMap fun e => fieldOps record config e.1 e.2) :=
    .flatMap fun e _ => wellNested_fieldOps record config e.1 e.2
  exact Draft.lowers_of_wellNested (.emit _ ((tag.append each).append splat)) rfl

end Encoder

end Compile
end RecordCodec
