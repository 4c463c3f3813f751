import RecordCodec.Proofs.CodecRoundTrip
import RecordCodec.Proofs.SampleSchemas
import RecordCodec.Proofs.Unions

set_option autoImplicit false

/-!
# Drafted records can be compiled

Drafted records have no settings and no tags, so there are two configurations that they compile
under, that of a record by itself and that of an arm of a union. A union has one record arm at most,
so nothing is ambiguous.
-/
namespace RecordCodec

namespace Compile

open Routine Direct

section Planning

variable {I O : Type} {cx : Context I O} {s : Compilation I O} {here : Spot} {target : TypeExpr}

theorem nestedConfig_gives_of_declared {name : String}
    (declared : (cx.schema.record? name).isSome = true) :
    Gives (nestedConfig cx name) s (s.position.nestedConfig cx.schema name) s := by
  obtain ⟨r, found⟩ := Option.isSome_iff_exists.1 declared
  exact gives_nestedConfig_iff.2 ⟨r, found, s.position.nestedConfig_of_declared found, rfl⟩

theorem planArms_gives_of_noTags {refuse : String → Failure} {seen : List String}
    {arms : List TypeExpr}
    (declared : ∀ arm ∈ arms, ∀ name, arm.shape.recordName? = some name →
      (cx.schema.record? name).isSome = true)
    (noTags : ∀ arm ∈ arms, (s.position.arm cx.schema arm).tag = none) :
    Gives (planArms cx s.position.unionKey s.config.autoTags refuse seen arms) s
      (arms.map (s.position.arm cx.schema)) s := by
  induction arms generalizing seen with
  | nil => exact Gives.pure_iff.2 ⟨rfl, rfl⟩
  | cons arm arms ih =>
    obtain ⟨noTag, others⟩ := List.forall_mem_cons.1 noTags
    obtain ⟨found, othersFound⟩ := List.forall_mem_cons.1 declared
    have first : Gives (planArm cx s.position.unionKey s.config.autoTags arm) s
        (s.position.arm cx.schema arm) s := by
      cases isName : arm.shape.recordName? with
      | none =>
        rw [planArm, isName, Position.arm, isName]
        exact Gives.pure_iff.2 ⟨rfl, rfl⟩
      | some name =>
        rw [planArm, isName, Position.arm, isName]
        exact Gives.bind_iff.2 ⟨_, s, nestedConfig_gives_of_declared (found name isName),
          Gives.pure_iff.2 ⟨rfl, rfl⟩⟩
    rw [planArms]
    refine Gives.bind_iff.2 ⟨_, s, first, ?_⟩
    rw [noTag]
    exact Gives.bind_iff.2 ⟨_, s, ih othersFound others, Gives.pure_iff.2 ⟨rfl, rfl⟩⟩

theorem planAt_returns
    (declared : ∀ arm ∈ target.args, ∀ name, arm.shape.recordName? = some name →
      (cx.schema.record? name).isSome = true)
    (noTags : ∀ arm ∈ target.args, (here.position.arm cx.schema arm).tag = none)
    (one : (untagged (here.position.plan cx.schema target).arms).length ≤ 1) :
    (planAt cx here target).Returns (here.position.plan cx.schema target) := by
  let s : Compilation I O := { config := here.config, site := here.site }
  have planned : Gives (planUnion cx target) s (here.position.plan cx.schema target) s := by
    unfold planUnion
    refine Gives.bind_iff.2 ⟨s, s, Gives.state_iff.2 ⟨rfl, rfl⟩, ?_⟩
    refine Gives.bind_iff.2 ⟨_, s, planArms_gives_of_noTags declared noTags, ?_⟩
    have unambiguous : ¬(decide (1 < (untagged (target.args.map
        (s.position.arm cx.schema))).length) && !s.config.allowsAmbiguousUnions) = true := by
      rw [Bool.and_eq_true, decide_eq_true_eq]
      exact fun more => absurd more.1 (Nat.not_lt.2 one)
    rw [if_neg unambiguous]
    exact Gives.pure_iff.2 ⟨rfl, rfl⟩
  unfold planAt Action.answer Run.Returns
  rw [ExceptT.run_mk, planned]
  rfl

end Planning
end Compile

namespace Inference

open Routine Compile Direct

/-- The configuration of a drafted record by itself and that of one as an arm of a union. -/
def plainConfigs : List Config := [{}, armConfig Config.defaultTagKey false {}]

structure Plain (here : Position) : Prop where
  config : here.config ∈ plainConfigs
  discriminator : here.discriminator = none

section Positions

variable {schema : Schema} {decls : List Document.RecordDecl} {here : Position} {name : String}
  {fields : List (String × TypeExpr)} {ty : TypeExpr}

theorem Plain.unionKey (plain : Plain here) : here.unionKey = Config.defaultTagKey := by
  have keys : ∀ config ∈ plainConfigs, config.tagKey?.getD Config.defaultTagKey =
      Config.defaultTagKey := by decide
  unfold Position.unionKey
  rw [plain.discriminator, Option.none_or]
  exact keys _ plain.config

theorem Plain.autoTags (plain : Plain here) : here.config.autoTags = false := by
  have off : ∀ config ∈ plainConfigs, config.autoTags = false := by decide
  exact off _ plain.config

theorem Plain.nestedConfig (plain : Plain here)
    (found : schema.record? name = some (recordFor name fields)) :
    here.nestedConfig schema name = {} := by
  have own : ∀ config ∈ plainConfigs, ({} : Config).inherit config = {} := by decide
  rw [here.nestedConfig_of_declared found]
  exact own _ plain.config

theorem checkConfig_recordFor {config : Config} (isPlain : config ∈ plainConfigs) :
    (recordFor name fields).checkConfig config = .ok () := by
  have casing : ∀ config ∈ plainConfigs, config.encodeCasing ≠ some .caseInsensitive := by decide
  have aliases : ∀ config ∈ plainConfigs,
      config.decodeAliases.names ++ config.encodeAliases.names = [] := by decide
  have tagKey : ∀ config ∈ plainConfigs, config.tagKey? ≠ some "" := by decide
  refine Config.check_eq_ok_iff.2 ⟨casing _ isPlain, fun name mem => ?_, tagKey _ isPlain⟩
  rw [aliases _ isPlain] at mem
  cases mem

theorem resolve_named (found : schema.record? name = some (recordFor name fields)) :
    schema.resolve (.named name) = .apply (.record .keyword name) [] := by
  have shape : schema.classify name = .record .keyword name := by
    unfold Schema.classify
    rw [found]
    rfl
  change (⟨schema.classify name, [], []⟩ : TypeExpr) = _
  rw [shape]
  rfl

theorem Plain.arm_named (plain : Plain here)
    (found : schema.record? name = some (recordFor name fields)) :
    here.arm schema (schema.resolve (.named name)) =
      { type := schema.resolve (.named name)
        record := some (name, armConfig Config.defaultTagKey false {}), tag := none } := by
  rw [resolve_named found]
  simp only [Position.arm, TypeExpr.apply, Shape.recordName?, plain.unionKey, plain.autoTags,
    plain.nestedConfig found, found, Option.bind_some]
  rfl

theorem shape_resolve_of_isArm (isArm : isArm ty = true) (notName : isName ty = false) :
    (schema.resolve ty).shape = ty.shape ∧ ty.shape.recordName? = none := by
  obtain ⟨shape, args, literals⟩ := ty
  cases shape with
  | primitive => exact ⟨rfl, rfl⟩
  | sequence => exact ⟨rfl, rfl⟩
  | named => cases notName
  | _ => cases isArm

theorem arm_of_notName (isArm : Inference.isArm ty = true) (notName : isName ty = false) :
    (here.arm schema (schema.resolve ty)).record = none ∧
      (here.arm schema (schema.resolve ty)).tag = none := by
  obtain ⟨same, noRecord⟩ := shape_resolve_of_isArm isArm notName
  exact here.arm_of_none schema (same ▸ noRecord)

theorem IsDraft.exists_name (draft : IsDraft decls ty) (isName : Inference.isName ty = true) :
    ∃ name fields, ty = .named name ∧ declOf name fields ∈ decls ∧
      ∀ e ∈ fields, IsDraft decls e.2 := by
  cases draft with
  | record isDecl types => exact ⟨_, _, rfl, isDecl, types⟩
  | _ => cases isName

end Positions

section Checks

variable {I O : Type} {cx : Context I O} {decls : List Document.RecordDecl} {ty : TypeExpr}

/-- The type passes the check wherever it stands in a drafted record, and so does a record of this
name. -/
structure PassesWith (cx : Context I O) (fuel : Nat) (ty : TypeExpr) : Prop where
  type : ∀ active here, Plain here.position → (check cx fuel active here ty).Returns ()
  record : ∀ name, ty = .named name → ∀ active, ∀ config ∈ plainConfigs,
    (checkRecord cx (check cx fuel) active (name, config)).Returns ()

theorem PassesWith.mono {fuel more : Nat} (h : PassesWith cx fuel ty) (le : fuel ≤ more) :
    PassesWith cx more ty where
  type active here plain := check_mono le (List.Subset.refl _) (h.type active here plain)
  record name isName active config isPlain :=
    checkRecord_mono le (List.Subset.refl _) (h.record name isName active config isPlain)

theorem exists_fuel {tys : List TypeExpr} (each : ∀ ty ∈ tys, ∃ fuel, PassesWith cx fuel ty) :
    ∃ fuel, ∀ ty ∈ tys, PassesWith cx fuel ty := by
  induction tys with
  | nil => exact ⟨0, fun _ mem => absurd mem List.not_mem_nil⟩
  | cons ty tys ih =>
    obtain ⟨⟨first, passes⟩, later⟩ := List.forall_mem_cons.1 each
    obtain ⟨others, pass⟩ := ih later
    refine ⟨max first others, List.forall_mem_cons.2 ⟨passes.mono (Nat.le_max_left _ _), ?_⟩⟩
    exact fun ty mem => (pass ty mem).mono (Nat.le_max_right _ _)

theorem PassesWith.of_type {fuel : Nat} (notName : isName ty = false)
    (type : ∀ active here, Plain here.position → (check cx fuel active here ty).Returns ()) :
    PassesWith cx fuel ty :=
  ⟨type, fun name same => by subst same; cases notName⟩

theorem check_resolve {fuel : Nat} {active : List (String × Config)} {here : Spot} :
    check cx fuel active here (cx.schema.resolve ty) = check cx fuel active here ty := by
  cases fuel with
  | zero => rfl
  | succ fuel => simp only [check, cx.schema.resolve_resolve]

theorem length_untagged_le {schema : Schema} {here : Position} {arms : List TypeExpr}
    (kinds : ∀ arm ∈ arms, isArm arm = true) :
    (untagged (arms.map fun arm => here.arm schema (schema.resolve arm))).length ≤
      (arms.filter isName).length := by
  induction arms with
  | nil => exact Nat.le_refl _
  | cons arm arms ih =>
    obtain ⟨kind, kinds⟩ := List.forall_mem_cons.1 kinds
    have others := ih kinds
    unfold untagged at others ⊢
    cases name : isName arm with
    | true =>
      rw [List.filter_cons_of_pos name, List.length_cons, List.map_cons, List.filterMap_cons]
      split
      · exact Nat.le_succ_of_le others
      · exact Nat.succ_le_succ others
    | false =>
      have none : (here.arm schema (schema.resolve arm)).record = none :=
        (arm_of_notName kind name).1
      rw [List.filter_cons_of_neg (by simp [name]), List.map_cons, List.filterMap_cons, none]
      exact others

section
variable (holds : Holds cx.schema decls) (readable : ∀ decl ∈ decls, decl.Readable)
include holds readable

theorem checkRecord_drafted (own : cx.mode.Own) {name : String}
    {fields : List (String × TypeExpr)} (isDecl : declOf name fields ∈ decls)
    (types : ∀ e ∈ fields, IsDraft decls e.2) {fuel : Nat}
    (pass : ∀ e ∈ fields, PassesWith cx fuel e.2) (active : List (String × Config))
    {config : Config} (isPlain : config ∈ plainConfigs) :
    (checkRecord cx (check cx fuel) active (name, config)).Returns () := by
  have found := holds.found readable isDecl types
  refine checkRecord_returns.2 (.inr ⟨_, found, checkConfig_recordFor isPlain, fun f mem => ?_⟩)
  obtain ⟨e, isField, rfl⟩ := List.mem_map.1 (own _ _ f mem)
  exact (pass e isField).type _ _ ⟨isPlain, rfl⟩

theorem checkUnion_drafted {arms : List TypeExpr} (separate : Arms arms)
    (types : ∀ arm ∈ arms, IsDraft decls arm) {fuel : Nat}
    (pass : ∀ arm ∈ arms, PassesWith cx fuel arm) (active : List (String × Config)) {here : Spot}
    (plain : Plain here.position) :
    (checkAs cx (check cx fuel) active here (cx.schema.resolve (.union arms)) .union).Returns
      () := by
  have args : (cx.schema.resolve (.union arms)).args = arms.map cx.schema.resolve :=
    cx.schema.resolve_args _
  have named : ∀ arm ∈ arms, isName arm = true → ∃ name fields,
      arm = .named name ∧ cx.schema.record? name = some (recordFor name fields) := by
    intro arm mem isName
    obtain ⟨name, fields, rfl, isDecl, drafts⟩ := (types arm mem).exists_name isName
    exact ⟨name, fields, rfl, holds.found readable isDecl drafts⟩
  have planned : (planAt cx here (cx.schema.resolve (.union arms))).Returns
      (here.position.plan cx.schema (cx.schema.resolve (.union arms))) := planAt_returns
    (by
      rw [args]
      refine List.forall_mem_map.2 fun arm mem name isRecord => ?_
      cases isName : isName arm with
      | true =>
        obtain ⟨other, fields, rfl, found⟩ := named arm mem isName
        rw [resolve_named found] at isRecord
        cases isRecord
        rw [found]
        rfl
      | false =>
        obtain ⟨same, none⟩ := shape_resolve_of_isArm (separate.kinds arm mem) isName
        rw [same, none] at isRecord
        cases isRecord)
    (by
      rw [args]
      refine List.forall_mem_map.2 fun arm mem => ?_
      cases isName : isName arm with
      | true =>
        obtain ⟨_, fields, rfl, found⟩ := named arm mem isName
        rw [plain.arm_named found]
      | false => exact (arm_of_notName (separate.kinds arm mem) isName).2)
    (by
      rw [Position.plan, args, List.map_map]
      exact (length_untagged_le separate.kinds).trans separate.names)
  refine Run.Returns.bind_iff.2 ⟨_, planned, checkAll_returns.2 ?_⟩
  rw [Position.plan, args, List.map_map, List.map_map]
  refine List.forall_mem_map.2 fun arm mem => ?_
  simp only [Function.comp_apply, checkArm]
  cases isName : isName arm with
  | true =>
    obtain ⟨name, fields, rfl, found⟩ := named arm mem isName
    rw [plain.arm_named found]
    exact (pass _ mem).record name rfl active _ (by decide)
  | false =>
    rw [(arm_of_notName (separate.kinds arm mem) isName).1, arm_type]
    simp only [check_resolve]
    exact (pass arm mem).type active here plain

/-- On how the type was drafted: every record is drafted from types before it. -/
theorem IsDraft.passes (builtin : cx.registry = .builtin) (own : cx.mode.Own)
    (draft : IsDraft decls ty) :
    ∃ fuel, PassesWith cx fuel ty := by
  induction draft with
  | any =>
    refine ⟨1, .of_type rfl fun active here plain => check_succ_returns.2 ?_⟩
    exact ⟨.scalar .any, .any, builtin ▸ rfl, Run.Returns.pure_iff.2 rfl⟩
  | @scalar p =>
    refine ⟨1, .of_type rfl fun active here plain => check_succ_returns.2 ?_⟩
    have handled : Handled cx.schema .builtin (.primitive p) (.scalar p) (.primitive p) := by
      cases p <;> rfl
    exact ⟨.scalar p, _, builtin ▸ handled, Run.Returns.pure_iff.2 rfl⟩
  | @sequence item _ ih =>
    obtain ⟨fuel, pass⟩ := ih
    refine ⟨fuel + 1, .of_type rfl fun active here plain => check_succ_returns.2 ?_⟩
    have handled : Handled cx.schema .builtin (.sequence item) .sequence
      (cx.schema.resolve (.sequence item)) := rfl
    refine ⟨.sequence, _, builtin ▸ handled, ?_⟩
    change (check cx fuel active here (cx.schema.resolve item)).Returns ()
    rw [check_resolve]
    exact pass.type active here plain
  | @optional inner _ _ ih =>
    obtain ⟨fuel, pass⟩ := ih
    refine ⟨fuel + 1, .of_type rfl fun active here plain => check_succ_returns.2 ?_⟩
    have handled : Handled cx.schema .builtin (.optional inner) .optional
      (cx.schema.resolve (.optional inner)) := rfl
    refine ⟨.optional, _, builtin ▸ handled, ?_⟩
    change (check cx fuel active here (cx.schema.resolve inner)).Returns ()
    rw [check_resolve]
    exact pass.type active here plain
  | @union arms _ separate types ih =>
    obtain ⟨fuel, pass⟩ := exists_fuel ih
    refine ⟨fuel + 1, .of_type rfl fun active here plain => check_succ_returns.2 ?_⟩
    have handled : Handled cx.schema .builtin (.union arms) .union
      (cx.schema.resolve (.union arms)) := rfl
    exact ⟨.union, _, builtin ▸ handled,
      checkUnion_drafted holds readable separate types pass active plain⟩
  | @record name fields isDecl types ih =>
    have found := holds.found readable isDecl types
    obtain ⟨fuel, pass⟩ := exists_fuel (List.forall_mem_map.2 ih)
    have records : ∀ active, ∀ config ∈ plainConfigs,
        (checkRecord cx (check cx fuel) active (name, config)).Returns () :=
      fun active config => checkRecord_drafted holds readable own isDecl types
        (List.forall_mem_map.1 pass) active
    refine ⟨fuel + 1, fun active here plain => check_succ_returns.2 ?_,
      fun other same active config isPlain => ?_⟩
    · have free := (readable _ isDecl).notPrimitive
      have handled : Handled cx.schema .builtin (.named name) .record
          (cx.schema.resolve (.named name)) :=
        .of_record (by rw [resolve_named found]; rfl) free
      refine ⟨.record, _, builtin ▸ handled, ?_⟩
      rw [resolve_named found]
      simp only [checkAs, TypeExpr.apply, Shape.recordName?, plain.nestedConfig found]
      exact Run.Returns.bind_iff.2 ⟨_, Run.Returns.ofExcept_iff.2 (findRecord_eq_ok.2 found),
        records active {} (by decide)⟩
    · cases same
      exact checkRecord_mono (Nat.le_succ _) (List.Subset.refl _) (records active config isPlain)

end
end Checks

end Inference
end RecordCodec
