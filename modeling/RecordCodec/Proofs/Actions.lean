import RecordCodec.Compile.Types
import RecordCodec.Proofs.Compiles

set_option autoImplicit false

/-!
# Successful actions of a compile session

What it takes for an action to succeed, and what the session is like then.
-/
namespace RecordCodec.Compile

open Routine Direct

variable {I O α β : Type}

/-- The action succeeds with a result and leaves the session as given. -/
def Gives (action : Action I O α) (s : Compilation I O) (x : α) (s' : Compilation I O) : Prop :=
  action.run s = some (.ok x, s')

def Compilation.position (s : Compilation I O) : Position :=
  ⟨s.config, s.site.bind FieldSite.discriminator⟩

namespace Gives

variable {s s' : Compilation I O}

@[simp] theorem pure_iff {x y : α} : Gives (pure x) s y s' ↔ y = x ∧ s' = s := by
  constructor
  · intro h
    cases h
    exact ⟨rfl, rfl⟩
  · rintro ⟨rfl, rfl⟩
    rfl

@[simp] theorem throw_iff {e : Failure} {x : α} :
    Gives (throw e : Action I O α) s x s' ↔ False := by
  constructor
  · intro h
    cases h
  · exact False.elim

theorem bind_iff {action : Action I O α} {next : α → Action I O β} {y : β} :
    Gives (action >>= next) s y s' ↔
      ∃ x s₁, Gives action s x s₁ ∧ Gives (next x) s₁ y s' := by
  unfold Gives
  change (action.run s >>= fun ending => _ : Option _) = _ ↔ _
  cases h : action.run s with
  | none => simp
  | some ending =>
    obtain ⟨result, s₁⟩ := ending
    cases result with
    | ok x =>
      constructor
      · intro ran
        exact ⟨x, s₁, rfl, ran⟩
      · rintro ⟨x', s₁', same, ran⟩
        cases same
        exact ran
    | error e =>
      constructor
      · intro ran
        cases ran
      · rintro ⟨x', s₁', same, -⟩
        cases same

@[simp] theorem unfinished_iff {x : α} :
    Gives (Action.unfinished : Action I O α) s x s' ↔ False := by
  constructor
  · intro h
    cases h
  · exact False.elim

@[simp] theorem ofExcept_iff {r : Except Failure α} {x : α} :
    Gives (Action.ofExcept r : Action I O α) s x s' ↔ r = .ok x ∧ s' = s := by
  constructor
  · intro h
    cases h
    exact ⟨rfl, rfl⟩
  · rintro ⟨rfl, rfl⟩
    rfl

@[simp] theorem state_iff {x : Compilation I O} :
    Gives (Action.state : Action I O _) s x s' ↔ x = s ∧ s' = s := by
  constructor
  · intro h
    cases h
    exact ⟨rfl, rfl⟩
  · rintro ⟨rfl, rfl⟩
    rfl

@[simp] theorem modify_iff {f : Compilation I O → Compilation I O} {x : Unit} :
    Gives (Action.modify f : Action I O Unit) s x s' ↔ s' = f s := by
  constructor
  · intro h
    cases h
    rfl
  · rintro rfl
    rfl

theorem within_iff {enter : Compilation I O → Compilation I O}
    {leave : Compilation I O → Compilation I O → Compilation I O} {action : Action I O α} {x : α} :
    Gives (Action.within enter leave action) s x s' ↔
      ∃ s₁, Gives action (enter s) x s₁ ∧ s' = leave s s₁ := by
  unfold Gives
  simp only [Action.within, ExceptT.run_mk]
  cases h : action.run (enter s) with
  | none => simp
  | some ending =>
    obtain ⟨result, s₁⟩ := ending
    constructor
    · intro ran
      cases ran
      exact ⟨s₁, rfl, rfl⟩
    · rintro ⟨s₁', same, rfl⟩
      cases same
      rfl

theorem mapError_iff {f : Failure → Failure} {action : Action I O α} {x : α} :
    Gives (action.mapError f) s x s' ↔ Gives action s x s' := by
  unfold Gives
  change (action.run s).map _ = _ ↔ _
  cases action.run s with
  | none => simp
  | some ending =>
    obtain ⟨result, s₁⟩ := ending
    cases result with
    | ok y => rfl
    | error e =>
      constructor <;> intro same <;> cases same

end Gives

section
variable {cx : Context I O} {s s' : Compilation I O}

theorem findRecord_eq_ok {schema : Schema} {name : String} {record : RecordType} :
    schema.findRecord name = .ok record ↔ schema.record? name = some record := by
  unfold Schema.findRecord
  cases schema.record? name <;> simp

theorem gives_nestedConfig_iff {name : String} {config : Config} :
    Gives (nestedConfig cx name) s config s' ↔
      ∃ declared, cx.schema.record? name = some declared ∧
        config = declared.ownConfig.inherit s.config ∧ s' = s := by
  simp only [nestedConfig, Gives.bind_iff, Gives.ofExcept_iff, Gives.state_iff, Gives.pure_iff,
    findRecord_eq_ok]
  constructor
  · rintro ⟨declared, _, ⟨found, rfl⟩, _, _, ⟨rfl, rfl⟩, rfl, rfl⟩
    exact ⟨declared, found, rfl, rfl⟩
  · rintro ⟨declared, found, rfl, rfl⟩
    exact ⟨declared, _, ⟨found, rfl⟩, _, _, ⟨rfl, rfl⟩, rfl, rfl⟩

theorem nestedConfig_gives {name : String} {config : Config}
    (h : Gives (nestedConfig cx name) s config s') :
    s' = s ∧ config = s.position.nestedConfig cx.schema name ∧
      (cx.schema.record? name).isSome := by
  obtain ⟨declared, found, rfl, rfl⟩ := gives_nestedConfig_iff.1 h
  exact ⟨rfl, (s'.position.nestedConfig_of_declared found).symm, by simp [found]⟩

theorem arm_type (schema : Schema) (here : Position) (ty : TypeExpr) :
    (here.arm schema ty).type = ty := by
  unfold Position.arm
  split <;> rfl

theorem planArm_gives {arm : TypeExpr} {planned : UnionArm}
    (h : Gives (planArm cx s.position.unionKey s.config.autoTags arm) s planned s') :
    s' = s ∧ planned = s.position.arm cx.schema arm := by
  cases named : arm.shape.recordName? with
  | none =>
    rw [planArm, named, Gives.pure_iff] at h
    rw [Position.arm, named]
    exact ⟨h.2, h.1⟩
  | some name =>
    rw [planArm, named, Gives.bind_iff] at h
    obtain ⟨config, s₁, nested, planned⟩ := h
    obtain ⟨rfl, rfl, -⟩ := nestedConfig_gives nested
    rw [Gives.pure_iff] at planned
    rw [Position.arm, named]
    exact ⟨planned.2, planned.1⟩

theorem planArms_gives {refuse : String → Failure} {seen : List String} {tys : List TypeExpr}
    {arms : List UnionArm}
    (h : Gives (planArms cx s.position.unionKey s.config.autoTags refuse seen tys) s arms s') :
    s' = s ∧ arms = tys.map (s.position.arm cx.schema) ∧
      (arms.filterMap UnionArm.tag).Nodup ∧ ∀ tag ∈ arms.filterMap UnionArm.tag, tag ∉ seen := by
  induction tys generalizing seen arms s' with
  | nil =>
    rw [planArms, Gives.pure_iff] at h
    exact ⟨h.2, h.1, by simp [h.1], by simp [h.1]⟩
  | cons ty rest ih =>
    rw [planArms, Gives.bind_iff] at h
    obtain ⟨planned, s₁, first, checked⟩ := h
    obtain ⟨rfl, rfl⟩ := planArm_gives first
    -- a tag that was seen before ends the plan
    obtain ⟨new, tail⟩ : (∀ tag, (s₁.position.arm cx.schema ty).tag = some tag → tag ∉ seen) ∧
        Gives (planArms cx s₁.position.unionKey s₁.config.autoTags refuse
            ((s₁.position.arm cx.schema ty).tag.toList ++ seen) rest
          >>= fun others => pure (s₁.position.arm cx.schema ty :: others)) s₁ arms s' := by
      cases isTag : (s₁.position.arm cx.schema ty).tag with
      | none =>
        rw [isTag] at checked
        exact ⟨fun tag same => by simp at same, checked⟩
      | some tag =>
        rw [isTag] at checked
        simp only at checked
        split at checked
        · simp at checked
        case isFalse unseen =>
          refine ⟨fun other same => ?_, checked⟩
          cases same
          simpa using unseen
    rw [Gives.bind_iff] at tail
    obtain ⟨others, s₂, tail, last⟩ := tail
    obtain ⟨rfl, rfl, distinct, unseen⟩ := ih tail
    obtain ⟨rfl, rfl⟩ := Gives.pure_iff.1 last
    refine ⟨rfl, rfl, ?_, ?_⟩
    · cases isTag : (s'.position.arm cx.schema ty).tag with
      | none => rwa [List.filterMap_cons_none isTag]
      | some tag =>
        rw [List.filterMap_cons_some isTag]
        rw [isTag] at unseen
        exact List.nodup_cons.2 ⟨fun mem => unseen tag mem (by simp), distinct⟩
    · intro tag mem
      rcases List.mem_filterMap.1 mem with ⟨arm, isArm, isTag⟩
      rcases List.mem_cons.1 isArm with rfl | later
      · exact new tag isTag
      · exact fun before => unseen tag (List.mem_filterMap.2 ⟨arm, later, isTag⟩)
          (List.mem_append_right _ before)

theorem planUnion_gives {ty : TypeExpr} {plan : UnionPlan} (h : Gives (planUnion cx ty) s plan s') :
    s' = s ∧ plan = s.position.plan cx.schema ty ∧
      (plan.arms.filterMap UnionArm.tag).Nodup := by
  rw [planUnion, Gives.bind_iff] at h
  obtain ⟨_, _, state, h⟩ := h
  obtain ⟨rfl, rfl⟩ := Gives.state_iff.1 state
  rw [Gives.bind_iff] at h
  obtain ⟨arms, s₁, planned, h⟩ := h
  obtain ⟨rfl, rfl, distinct, -⟩ := planArms_gives planned
  split at h
  · simp at h
  · obtain ⟨rfl, rfl⟩ := Gives.pure_iff.1 h
    exact ⟨rfl, rfl, distinct⟩

end
end RecordCodec.Compile
