import RecordCodec.Proofs.Checking
import RecordCodec.Proofs.Compositional

set_option autoImplicit false

/-!
# With which errors sessions fail

A session fails for what the schema or a configuration says, or for a routine. The check of a record
knows of no routines, so what is left there is the schema and the configuration.
-/
namespace RecordCodec

/-- The schema, a configuration or a routine is at fault, and not a value. -/
def Cause.isCompilation : Cause → Bool
  | duplicateRoutine _ | malformedRoutine _ _ | unlinkedRoutine _ => true
  | cause => cause.isDeclaration

def Failure.IsCompilation (e : Failure) : Prop := e.cause.isCompilation = true

theorem Failure.IsDeclaration.isCompilation {e : Failure} (h : e.IsDeclaration) :
    e.IsCompilation := by
  obtain ⟨cause, path⟩ := e
  cases cause <;> first | rfl | cases h

open Routine Compile

theorem RecordType.isDeclaration_of_checkConfig {record : RecordType} {config : Config}
    {e : Failure} (h : record.checkConfig config = .error e) : e.IsDeclaration := by
  simp only [checkConfig, Config.check, bind, Except.bind] at h
  split at h
  · cases h
    exact .refl _
  · cases h' : (config.decodeAliases.names ++ config.encodeAliases.names).find? fun name =>
        !(record.fields.map Field.name).contains name with
    | some name =>
      rw [h'] at h
      cases h
      exact .refl _
    | none =>
      rw [h'] at h
      simp only at h
      split at h <;> cases h
      exact .refl _

namespace Compile

variable {I O α β : Type} {cx : Context I O} {Q : Failure → Prop}

/-- Wherever the action is taken, it fails in these ways only. -/
def Action.FailsOnly (Q : Failure → Prop) (action : Action I O α) : Prop :=
  ∀ ⦃s e s'⦄, action.run s = some (.error e, s') → Q e

namespace Action.FailsOnly

theorem pure (x : α) : FailsOnly Q (Pure.pure x : Action I O α) := by
  intro s e s' h
  cases h

theorem throw {e : Failure} (h : Q e) : FailsOnly Q (throw e : Action I O α) := by
  intro s e' s' same
  cases same
  exact h

theorem unfinished : FailsOnly Q (Action.unfinished : Action I O α) := by
  intro s e s' h
  cases h

theorem ofExcept {r : Except Failure α} (h : ∀ e, r = .error e → Q e) :
    FailsOnly Q (Action.ofExcept r : Action I O α) := by
  intro s e s' same
  cases same
  exact h e rfl

theorem state : FailsOnly Q (Action.state : Action I O _) := by
  intro s e s' h
  cases h

theorem modify (f : Compilation I O → Compilation I O) : FailsOnly Q (Action.modify f) := by
  intro s e s' h
  cases h

theorem bind {action : Action I O α} {next : α → Action I O β} (first : FailsOnly Q action)
    (others : ∀ x, FailsOnly Q (next x)) : FailsOnly Q (action >>= next) := by
  intro s e s' h
  change (action.run s >>= fun ending => _ : Option _) = _ at h
  cases ran : action.run s with
  | none =>
    rw [ran] at h
    cases h
  | some ending =>
    obtain ⟨result, s₁⟩ := ending
    rw [ran] at h
    cases result with
    | ok x => exact others x h
    | error e' =>
      cases h
      exact first ran

theorem mapError {f : Failure → Failure} {action : Action I O α} (h : FailsOnly Q action)
    (step : ∀ e, Q e → Q (f e)) : FailsOnly Q (action.mapError f) := by
  intro s e s' same
  obtain ⟨⟨result, s₁⟩, ran, made⟩ := Option.map_eq_some_iff.1 same
  cases result with
  | ok x => cases made
  | error e' =>
    cases made
    exact step e' (h ran)

theorem within {enter : Compilation I O → Compilation I O}
    {leave : Compilation I O → Compilation I O → Compilation I O} {action : Action I O α}
    (h : FailsOnly Q action) : FailsOnly Q (Action.within enter leave action) := by
  intro s e s' same
  simp only [Action.within, ExceptT.run_mk] at same
  split at same
  case h_1 result s₁ ran =>
    cases same
    exact h ran
  case h_2 => cases same

theorem mapM {action : α → Action I O β} (h : ∀ x, FailsOnly Q (action x)) (xs : List α) :
    FailsOnly Q (xs.mapM action) := by
  induction xs with
  | nil =>
    rw [List.mapM_nil]
    exact .pure []
  | cons x rest ih =>
    rw [List.mapM_cons]
    exact (h x).bind fun _ => ih.bind fun _ => .pure _

end Action.FailsOnly

section
variable (declares : ∀ e, e.IsDeclaration → Q e)
include declares

theorem nestedConfig_fails (record : String) : (nestedConfig cx record).FailsOnly Q :=
  .bind (.ofExcept fun e h => declares e (Schema.isDeclaration_of_findRecord h)) fun _ =>
    Action.FailsOnly.state.bind fun _ => .pure _

theorem planArm_fails (key : String) (autoTag : Bool) (arm : TypeExpr) :
    (planArm cx key autoTag arm).FailsOnly Q := by
  unfold planArm
  split
  · exact .pure _
  · exact (nestedConfig_fails declares _).bind fun _ => .pure _

theorem planArms_fails (key : String) (autoTag : Bool) {refuse : String → Failure}
    (refuses : ∀ tag, (refuse tag).IsDeclaration) (seen : List String) (tys : List TypeExpr) :
    (planArms cx key autoTag refuse seen tys).FailsOnly Q := by
  induction tys generalizing seen with
  | nil => exact .pure _
  | cons ty rest ih =>
    refine (planArm_fails declares key autoTag ty).bind fun planned => ?_
    have tail : ∀ seen, (planArms cx key autoTag refuse seen rest >>=
        fun others => pure (planned :: others)).FailsOnly Q :=
      fun seen => (ih seen).bind fun _ => .pure _
    split
    · split
      · exact .bind (.throw (declares _ (refuses _))) fun _ => tail _
      · exact tail _
    · exact tail _

theorem planUnion_fails (ty : TypeExpr) : (planUnion cx ty).FailsOnly Q := by
  refine Action.FailsOnly.state.bind fun _ =>
    (planArms_fails declares _ _ (fun _ => by rfl) _ _).bind fun arms => ?_
  split
  · exact .bind (.throw (declares _ (.refl _))) fun _ => .pure _
  · exact .pure _

end

section
variable {inner : TypeExpr → Action I O Converter}

theorem freshName_fails (direction : Direction) (record : String) :
    (freshName direction record : Action I O String).FailsOnly Q :=
  Action.FailsOnly.state.bind fun _ => (Action.FailsOnly.modify _).bind fun _ => .pure _

theorem openRoutine_fails (name : String) :
    (openRoutine name : Action I O Unit).FailsOnly Failure.IsCompilation := by
  refine Action.FailsOnly.state.bind fun s =>
    .bind (.ofExcept fun e h => ?_) fun _ => .modify _
  unfold Synthesis.openRoutine at h
  split at h <;> cases h
  exact .refl _

variable (types : ∀ ty, (inner ty).FailsOnly Failure.IsCompilation)
include types

theorem compileFields_fails (record : RecordType) (fields : List Field) :
    (compileFields inner record fields).FailsOnly Failure.IsCompilation := by
  induction fields with
  | nil => exact .pure _
  | cons f rest ih =>
    exact .bind (.mapError (.within (types f.type)) fun _ same => same) fun _ =>
      ih.bind fun _ => .pure _

theorem ensureRoutine_fails (record : String) (config : Config) :
    (ensureRoutine cx inner record config).FailsOnly Failure.IsCompilation := by
  refine Action.FailsOnly.state.bind fun s => ?_
  split
  · exact .pure _
  · exact (freshName_fails _ _).bind fun _ => (Action.FailsOnly.modify _).bind fun _ => .pure _
  · refine .bind (.ofExcept fun e h => (Schema.isDeclaration_of_findRecord h).isCompilation)
      fun declared => .bind (.ofExcept fun e h =>
        (RecordType.isDeclaration_of_checkConfig h).isCompilation) fun _ =>
          (freshName_fails _ _).bind fun name => .bind (.within ?_) fun _ =>
            (Action.FailsOnly.modify _).bind fun _ => .pure _
    exact (openRoutine_fails name).bind fun _ =>
      (compileFields_fails types declared _).bind fun _ => .modify _

theorem recordConverter_fails (record : String) (config : Config) :
    (recordConverter cx inner record config).FailsOnly Failure.IsCompilation :=
  (ensureRoutine_fails types record config).bind fun _ =>
    (Action.FailsOnly.modify _).bind fun _ => .pure _

theorem armConverter_fails (arm : UnionArm) :
    (armConverter cx inner arm).FailsOnly Failure.IsCompilation := by
  unfold armConverter
  split
  · exact recordConverter_fails types _ _
  · exact types _

theorem handle_fails (handler : Handler) (ty : TypeExpr) :
    (handle cx inner handler ty).FailsOnly Failure.IsCompilation := by
  have declares : ∀ e : Failure, e.IsDeclaration → e.IsCompilation := fun _ h => h.isCompilation
  cases handler with
  | scalar | literal | custom => exact .pure _
  | optional | sequence | set | variadicTuple => exact (types _).bind fun _ => .pure _
  | fixedTuple => exact (Action.FailsOnly.mapM types _).bind fun _ => .pure _
  | mapping | defaultMapping =>
    exact (types _).bind fun _ => (types _).bind fun _ => .pure _
  | enumeration =>
    exact .bind (.ofExcept fun e h => (isDeclaration_of_findEnum h).isCompilation) fun _ => .pure _
  | union =>
    exact (planUnion_fails declares ty).bind fun _ =>
      (Action.FailsOnly.mapM (armConverter_fails types) _).bind fun _ => .pure _
  | record =>
    simp only [handle]
    split
    · exact (nestedConfig_fails declares _).bind fun _ => recordConverter_fails types _ _
    · exact .throw (.refl _)

end

theorem converterFor_fails (fuel : Nat) (ty : TypeExpr) :
    (converterFor cx fuel ty).FailsOnly Failure.IsCompilation := by
  induction fuel generalizing ty with
  | zero => exact .unfinished
  | succ fuel ih =>
    exact .bind (.ofExcept fun e h => (Registry.isDeclaration_of_resolve h).isCompilation)
      fun found => handle_fails ih found.1 found.2

theorem isCompilation_of_lowerAll {drafts : List (Draft I O)} {e : Failure}
    (h : Synthesis.lowerAll drafts = .error e) : e.IsCompilation := by
  induction drafts with
  | nil => cases h
  | cons d rest ih =>
    unfold Synthesis.lowerAll at h
    split at h
    · cases h
      exact .refl _
    · cases others : Synthesis.lowerAll rest with
      | error e' =>
        rw [others] at h
        cases h
        exact ih others
      | ok codes =>
        rw [others] at h
        cases h

theorem isCompilation_of_finalize {environment : Environment I O} {stamp : Nat}
    {s : Synthesis I O} {e : Failure} (h : s.finalize environment stamp = .error e) :
    e.IsCompilation := by
  simp only [Synthesis.finalize, bind, Except.bind] at h
  split at h
  case h_1 =>
    cases h
    exact .refl _
  case h_2 =>
    split at h
    case h_1 failed =>
      cases h
      exact isCompilation_of_lowerAll failed
    case h_2 =>
      split at h <;> cases h
      exact .refl _

theorem compile_isCompilation (stamp : Nat) (record : String) (config : Config) :
    (compile cx stamp record config).FailsOnly Failure.IsCompilation := by
  intro e h
  simp only [compile] at h
  split at h
  case h_1 name s ran =>
    have linked := Run.Fails.ofExcept_iff.1 h
    simp only [link, bind, Except.bind] at linked
    split at linked
    case h_1 failed =>
      cases linked
      exact isCompilation_of_finalize failed
    case h_2 =>
      split at linked <;> cases linked
      exact .refl _
  case h_2 e' s ran =>
    obtain rfl := Run.Fails.throw_iff.1 h
    exact ensureRoutine_fails (converterFor_fails _) record config ran
  case h_3 => cases h

section
open Run

theorem planAt_fails (here : Spot) (ty : TypeExpr) :
    (planAt cx here ty).FailsOnly Failure.IsDeclaration := by
  intro e h
  obtain ⟨⟨result, s⟩, ran, failed⟩ := Option.map_eq_some_iff.1 h
  obtain rfl : result = .error e := failed
  exact planUnion_fails (fun _ h => h) ty ran

theorem checkAll_fails {rs : List (Run Unit)} (h : ∀ r ∈ rs, r.FailsOnly Failure.IsDeclaration) :
    (checkAll rs).FailsOnly Failure.IsDeclaration := by
  induction rs with
  | nil => exact .pure _
  | cons r rest ih =>
    obtain ⟨first, others⟩ := List.forall_mem_cons.1 h
    exact first.bind fun _ _ => ih others

section
variable {inner : List (String × Config) → Spot → TypeExpr → Run Unit}
  (types : ∀ active here ty, (inner active here ty).FailsOnly Failure.IsDeclaration)
include types

theorem checkRecord_fails (active : List (String × Config)) (key : String × Config) :
    (checkRecord cx inner active key).FailsOnly Failure.IsDeclaration := by
  unfold checkRecord
  split
  · exact .pure _
  · refine .bind (.ofExcept fun _ => Schema.isDeclaration_of_findRecord) fun record _ =>
      .bind (.ofExcept fun _ => RecordType.isDeclaration_of_checkConfig) fun _ _ =>
        checkAll_fails fun r mem => ?_
    obtain ⟨f, -, rfl⟩ := List.mem_map.1 mem
    exact (types _ _ _).mapError fun _ same => same

theorem checkAs_fails (active : List (String × Config)) (here : Spot) (target : TypeExpr)
    (handler : Handler) :
    (checkAs cx inner active here target handler).FailsOnly Failure.IsDeclaration := by
  cases handler with
  | scalar | literal | custom => exact .pure _
  | optional | sequence | set | variadicTuple => exact types _ _ _
  | fixedTuple =>
    refine checkAll_fails fun r mem => ?_
    obtain ⟨ty, -, rfl⟩ := List.mem_map.1 mem
    exact types _ _ _
  | mapping | defaultMapping =>
    refine checkAll_fails fun r mem => ?_
    rcases List.mem_pair.1 mem with rfl | rfl <;> exact types _ _ _
  | enumeration => exact .bind (.ofExcept fun _ => isDeclaration_of_findEnum) fun _ _ => .pure _
  | union =>
    refine (planAt_fails here target).bind fun plan _ => checkAll_fails fun r mem => ?_
    obtain ⟨arm, -, rfl⟩ := List.mem_map.1 mem
    unfold checkArm
    split
    · exact checkRecord_fails types _ _
    · exact types _ _ _
  | record =>
    simp only [checkAs]
    split
    · exact .bind (.ofExcept fun _ => Schema.isDeclaration_of_findRecord) fun _ _ =>
        checkRecord_fails types _ _
    · exact .throw (.refl _)

end

theorem check_fails (fuel : Nat) (active : List (String × Config)) (here : Spot) (ty : TypeExpr) :
    (check cx fuel active here ty).FailsOnly Failure.IsDeclaration := by
  induction fuel generalizing active here ty with
  | zero =>
    intro e h
    cases h
  | succ fuel ih =>
    exact .bind (.ofExcept fun _ => Registry.isDeclaration_of_resolve) fun _ _ =>
      checkAs_fails ih active here _ _

end
end Compile
end RecordCodec
