import Mathlib.Tactic.Tauto
import RecordCodec.Proofs.Actions
import RecordCodec.Proofs.Budget
import RecordCodec.Proofs.Results

set_option autoImplicit false

/-!
# Which types can be compiled

Whether a type can be compiled, and with which error it cannot, is a matter of the schema, of the
handlers and of the records that are being compiled around it. `check` says it and compiles nothing;
every record counts as good while it is being checked. What passes among more such records passes
among fewer, if the others pass themselves.
-/
namespace RecordCodec.Compile

open Routine Direct

variable {I O α : Type}

structure Spot where
  config : Config
  site : Option FieldSite

def Spot.position (here : Spot) : Position :=
  ⟨here.config, here.site.bind FieldSite.discriminator⟩

/-- What comes of an action, without the session that it leaves. -/
def Action.answer (action : Action I O α) (s : Compilation I O) : Run α :=
  ExceptT.mk ((action.run s).map Prod.fst)

def checkAll : List (Run Unit) → Run Unit
  | [] => pure ()
  | r :: rest => do
    r
    checkAll rest

section
variable (cx : Context I O)

/-- The plan of a union, made in a session of its own. -/
def planAt (here : Spot) (ty : TypeExpr) : Run UnionPlan :=
  (planUnion cx ty).answer { config := here.config, site := here.site }

section
variable (inner : List (String × Config) → Spot → TypeExpr → Run Unit)
  (active : List (String × Config))

def checkField (record : RecordType) (config : Config) (f : Field) : Run Unit :=
  (inner active ⟨config, some ⟨record.name, f.name, f.discriminator⟩⟩ f.type).mapError
    (Failure.atKey f.name)

/-- Checks a record under a configuration, unless that is being done already. -/
def checkRecord (key : String × Config) : Run Unit :=
  if key ∈ active then pure ()
  else do
    let record ← Run.ofExcept (cx.schema.findRecord key.1)
    Run.ofExcept (record.checkConfig key.2)
    checkAll ((cx.mode.fields record key.2).map (checkField inner (active ++ [key]) record key.2))

def checkArm (here : Spot) (arm : UnionArm) : Run Unit :=
  match arm.record with
  | some key => checkRecord cx inner active key
  | none => inner active here arm.type

def checkAs (here : Spot) (target : TypeExpr) : Handler → Run Unit
  | .scalar _ | .literal | .custom _ _ => pure ()
  | .optional | .sequence | .set | .variadicTuple => inner active here (target.arg 0)
  | .fixedTuple => checkAll (target.args.map (inner active here))
  | .mapping | .defaultMapping =>
    checkAll [inner active here (target.arg 0), inner active here (target.arg 1)]
  | .enumeration => do
    let _ ← Run.ofExcept (findEnum cx.schema target)
    pure ()
  | .union => do
    let plan ← planAt cx here target
    checkAll (plan.arms.map (checkArm cx inner active here))
  | .record =>
    match target.shape.recordName? with
    | some name => do
      let _ ← Run.ofExcept (cx.schema.findRecord name)
      checkRecord cx inner active (name, here.position.nestedConfig cx.schema name)
    | none => throw (.of (.unsupportedType target.text))

end

/-- Checks a type. The fuel counts as it does for converters. -/
def check : Nat → List (String × Config) → Spot → TypeExpr → Run Unit
  | 0 => fun _ _ _ => ExceptT.mk none
  | fuel + 1 => fun active here ty => do
    let (handler, target) ← Run.ofExcept (cx.registry.resolve cx.schema (cx.schema.resolve ty))
    checkAs cx (check fuel) active here target handler

end

theorem checkAll_returns {rs : List (Run Unit)} :
    (checkAll rs).Returns () ↔ ∀ r ∈ rs, r.Returns () := by
  induction rs with
  | nil => simp [checkAll]
  | cons r rest ih =>
    rw [checkAll, Run.Returns.bind_iff, List.forall_mem_cons, ← ih]
    exact ⟨fun ⟨_, first, others⟩ => ⟨first, others⟩, fun ⟨first, others⟩ => ⟨(), first, others⟩⟩

variable {cx : Context I O} {inner inner' : List (String × Config) → Spot → TypeExpr → Run Unit}
  {active active' : List (String × Config)} {key : String × Config} {here : Spot}
  {ty target : TypeExpr} {handler : Handler}

theorem checkRecord_returns : (checkRecord cx inner active key).Returns () ↔ key ∈ active ∨
    ∃ record, cx.schema.record? key.1 = some record ∧ record.checkConfig key.2 = .ok () ∧
      ∀ f ∈ cx.mode.fields record key.2, (inner (active ++ [key])
        ⟨key.2, some ⟨record.name, f.name, f.discriminator⟩⟩ f.type).Returns () := by
  unfold checkRecord
  split
  case isTrue mem => simp [mem]
  case isFalse idle =>
    simp only [Run.Returns.bind_iff, Run.Returns.ofExcept_iff, findRecord_eq_ok, checkAll_returns,
      List.forall_mem_map, checkField, Run.Returns.mapError_iff, idle, false_or]
    constructor
    · rintro ⟨record, declared, ⟨⟩, valid, fields⟩
      exact ⟨record, declared, valid, fields⟩
    · rintro ⟨record, declared, valid, fields⟩
      exact ⟨record, declared, (), valid, fields⟩

theorem check_succ_returns {fuel : Nat} : (check cx (fuel + 1) active here ty).Returns () ↔
    ∃ handler target, Handled cx.schema cx.registry ty handler target ∧
      (checkAs cx (check cx fuel) active here target handler).Returns () := by
  rw [check, Run.Returns.bind_iff, Prod.exists]
  simp only [Run.Returns.ofExcept_iff, Handled]

theorem eq_plan_of_planAt {plan : UnionPlan} (h : (planAt cx here ty).Returns plan) :
    plan = here.position.plan cx.schema ty := by
  obtain ⟨⟨result, s⟩, ran, same⟩ := Option.map_eq_some_iff.1 h
  cases same
  exact (planUnion_gives ran).2.1

theorem checkAs_transport
    (types : ∀ ty, ty ∈ target.args ∨ ty = .any → (inner active here ty).Returns () →
      (inner' active' here ty).Returns ())
    (records : ∀ key, Meets cx.schema here.position target key →
      (checkRecord cx inner active key).Returns () →
      (checkRecord cx inner' active' key).Returns ())
    (h : (checkAs cx inner active here target handler).Returns ()) :
    (checkAs cx inner' active' here target handler).Returns () := by
  have argument : ∀ index, (inner active here (target.arg index)).Returns () →
      (inner' active' here (target.arg index)).Returns () :=
    fun index => types _ (target.arg_mem_or_any index)
  cases handler with
  | scalar | literal | custom | enumeration => exact h
  | optional | sequence | set | variadicTuple => exact argument 0 h
  | fixedTuple =>
    simp only [checkAs, checkAll_returns, List.forall_mem_map] at h ⊢
    exact fun ty mem => types ty (.inl mem) (h ty mem)
  | mapping | defaultMapping =>
    simp only [checkAs, checkAll_returns, List.forall_mem_cons] at h ⊢
    exact ⟨argument 0 h.1, argument 1 h.2.1, h.2.2⟩
  | union =>
    simp only [checkAs, Run.Returns.bind_iff, checkAll_returns, List.forall_mem_map] at h ⊢
    obtain ⟨plan, planned, arms⟩ := h
    refine ⟨plan, planned, fun arm mem => ?_⟩
    have passes := arms arm mem
    rw [eq_plan_of_planAt planned, Position.plan] at mem
    obtain ⟨ty, isArg, rfl⟩ := List.mem_map.1 mem
    unfold checkArm at passes ⊢
    split at passes
    case h_1 key isRecord => exact records key (.inr ⟨ty, isArg, isRecord⟩) passes
    case h_2 other =>
      rw [arm_type] at passes ⊢
      exact types ty (.inl isArg) passes
  | record =>
    simp only [checkAs] at h ⊢
    split at h
    case h_1 name isName =>
      rw [Run.Returns.bind_iff] at h ⊢
      obtain ⟨record, found, passes⟩ := h
      exact ⟨record, found, records _ (.inl ⟨isName, rfl⟩) passes⟩
    case h_2 => simp at h

theorem checkRecord_transport (subset : active ⊆ active')
    (types : ∀ here ty, (inner (active ++ [key]) here ty).Returns () →
      (inner' (active' ++ [key]) here ty).Returns ())
    (h : (checkRecord cx inner active key).Returns ()) :
    (checkRecord cx inner' active' key).Returns () := by
  rcases checkRecord_returns.1 h with mem | ⟨record, declared, valid, fields⟩
  · exact checkRecord_returns.2 (.inl (subset mem))
  · refine checkRecord_returns.2 (.inr ⟨record, declared, valid, fun f mem => ?_⟩)
    exact types _ _ (fields f mem)

theorem append_subset_append (subset : active ⊆ active') (key : String × Config) :
    active ++ [key] ⊆ active' ++ [key] :=
  List.append_subset.2 ⟨List.Subset.trans subset (List.subset_append_left _ _),
    List.subset_append_right _ _⟩

theorem check_mono {fuel more : Nat} (le : fuel ≤ more) (subset : active ⊆ active')
    (h : (check cx fuel active here ty).Returns ()) :
    (check cx more active' here ty).Returns () := by
  induction fuel generalizing more active active' here ty with
  | zero => simp [check] at h
  | succ fuel ih =>
    obtain ⟨more, rfl⟩ := Nat.exists_eq_add_of_le' (Nat.le_trans (Nat.le_add_left 1 fuel) le)
    have le := Nat.le_of_succ_le_succ le
    obtain ⟨handler, target, handled, passes⟩ := check_succ_returns.1 h
    refine check_succ_returns.2 ⟨handler, target, handled, ?_⟩
    exact checkAs_transport (fun ty _ => ih le subset) (fun key _ =>
      checkRecord_transport subset fun here ty => ih le (append_subset_append subset key)) passes

theorem checkRecord_mono {fuel more : Nat} (le : fuel ≤ more) (subset : active ⊆ active')
    (h : (checkRecord cx (check cx fuel) active key).Returns ()) :
    (checkRecord cx (check cx more) active' key).Returns () :=
  checkRecord_transport subset (fun _ _ => check_mono le (append_subset_append subset key)) h

theorem append_pair_subset (active : List (String × Config)) (key other : String × Config) :
    active ++ [key] ++ [other] ⊆ active ++ [other] ++ [key] := by
  intro k mem
  simp only [List.mem_append, List.mem_singleton] at mem ⊢
  tauto

theorem checkRecord_cut {other : String × Config}
    (passes : (checkRecord cx inner' active key).Returns ())
    (types : ∀ here ty, (inner (active ++ [key] ++ [other]) here ty).Returns () →
      (inner' (active ++ [other]) here ty).Returns ())
    (h : (checkRecord cx inner (active ++ [key]) other).Returns ()) :
    (checkRecord cx inner' active other).Returns () := by
  rcases checkRecord_returns.1 h with mem | ⟨record, declared, valid, fields⟩
  · rcases List.mem_append.1 mem with mem | last
    · exact checkRecord_returns.2 (.inl mem)
    · obtain rfl := List.mem_singleton.1 last
      exact passes
  · refine checkRecord_returns.2 (.inr ⟨record, declared, valid, fun f mem => ?_⟩)
    exact types _ _ (fields f mem)

/-- A record that passes beside a type need not be taken for good. -/
theorem check_cut {fuel more : Nat}
    (passes : (checkRecord cx (check cx more) active key).Returns ())
    (h : (check cx fuel (active ++ [key]) here ty).Returns ()) :
    (check cx (fuel + more) active here ty).Returns () := by
  -- Where the record was taken for good, its own check comes in, which is paid from `more`.
  induction fuel generalizing active here ty with
  | zero => simp [check] at h
  | succ fuel ih =>
    obtain ⟨handler, target, handled, inside⟩ := check_succ_returns.1 h
    rw [Nat.succ_add]
    refine check_succ_returns.2 ⟨handler, target, handled, ?_⟩
    refine checkAs_transport (fun ty _ => ih passes) (fun other _ => ?_) inside
    refine checkRecord_cut (checkRecord_mono (Nat.le_add_left _ _) (List.Subset.refl _) passes)
      fun here ty inside => ?_
    exact ih (checkRecord_mono (Nat.le_refl _) (List.subset_append_left _ _) passes)
      (check_mono (Nat.le_refl _) (append_pair_subset active key other) inside)

/-- The record passes inside the others, with some fuel. -/
def Good (cx : Context I O) (active : List (String × Config)) (key : String × Config) : Prop :=
  ∃ fuel, (checkRecord cx (check cx fuel) active key).Returns ()

namespace Good

theorem weaken (h : Good cx active key) (subset : active ⊆ active') : Good cx active' key := by
  obtain ⟨fuel, passes⟩ := h
  exact ⟨fuel, checkRecord_mono (Nat.le_refl _) subset passes⟩

theorem of_mem (h : key ∈ active) : Good cx active key := ⟨0, checkRecord_returns.2 (.inl h)⟩

theorem cut {other : String × Config} (passes : Good cx active key)
    (h : Good cx (active ++ [key]) other) : Good cx active other := by
  obtain ⟨more, inside⟩ := passes
  obtain ⟨fuel, passes⟩ := h
  refine ⟨fuel + more, checkRecord_cut (checkRecord_mono (Nat.le_add_left _ _)
    (List.Subset.refl _) inside) (fun here ty h => ?_) passes⟩
  exact check_cut (checkRecord_mono (Nat.le_refl _) (List.subset_append_left _ _) inside)
    (check_mono (Nat.le_refl _) (append_pair_subset active key other) h)

end Good

theorem check_any {fuel : Nat} (h : (check cx fuel active here .any).Returns ()) :
    (check cx 1 active here .any).Returns () := by
  induction fuel with
  | zero => simp [check] at h
  | succ fuel ih =>
    by_contra fails
    obtain ⟨handler, target, handled, inside⟩ := check_succ_returns.1 h
    obtain rfl : target = .any := handled.target_any
    refine fails (check_succ_returns.2 ⟨handler, _, handled, ?_⟩)
    refine checkAs_transport (fun ty isAny passes => ?_) (fun key isMet _ => ?_) inside
    · obtain rfl := isAny.resolve_left List.not_mem_nil
      exact absurd (ih passes) fails
    · rcases isMet with ⟨named, -⟩ | ⟨_, mem, -⟩
      · cases named
      · cases mem

section
variable (own : cx.mode.Own) {start : String × Config} {fuel : Nat}
include own

theorem checkRecord_of_affords (within : Within cx.schema start active)
    (mem : ∀ record, cx.schema.record? key.1 = some record → key ∈ sessionKeys cx.schema start)
    (enough : need cx.schema active 0 ≤ fuel)
    (types : ∀ here ty, Placed cx.schema start (active ++ [key]) here.position →
      Affords cx.schema (active ++ [key]) ty fuel → (inner (active ++ [key]) here ty).Returns () →
      (inner' (active ++ [key]) here ty).Returns ())
    (h : (checkRecord cx inner active key).Returns ()) :
    (checkRecord cx inner' active key).Returns () := by
  by_cases idle : key ∈ active
  case pos => exact checkRecord_returns.2 (.inl idle)
  case neg =>
    obtain ⟨record, declared, valid, fields⟩ := (checkRecord_returns.1 h).resolve_left idle
    refine checkRecord_returns.2 (.inr ⟨record, declared, valid, fun f isField => ?_⟩)
    have isMember := mem record declared
    have entered := within.enter idle isMember
    have less := need_enter_lt (entered.length_le declared)
      (depth_le_typeDepth declared (own record key.2 f isField))
    refine types _ _ ?_ (.inl (Nat.lt_of_lt_of_le less enough)) (fields f isField)
    exact .field entered isMember declared (own record key.2 f isField)

/-- What passes at all passes with the fuel that a session has for it. -/
theorem check_of_affords {any : Nat} (placed : Placed cx.schema start active here.position)
    (enough : Affords cx.schema active ty fuel) (h : (check cx any active here ty).Returns ()) :
    (check cx fuel active here ty).Returns () := by
  -- On the fuel of the session: it lasts for what is left of the keys, whatever `any` is.
  induction fuel generalizing any active here ty with
  | zero =>
    rcases enough with enough | ⟨-, enough⟩
    · exact absurd enough (Nat.not_lt_zero _)
    · exact absurd enough (Nat.lt_irrefl _)
  | succ fuel ih =>
    rcases enough with enough | ⟨rfl, -⟩
    · cases any with
      | zero => simp [check] at h
      | succ any =>
        have enough := Nat.le_of_lt_succ enough
        obtain ⟨handler, target, handled, inside⟩ := check_succ_returns.1 h
        refine check_succ_returns.2 ⟨handler, target, handled, ?_⟩
        refine checkAs_transport (fun ty isArg => ih placed (.of_mem_or_any enough handled isArg))
          (fun key isMet => ?_) inside
        have forRecord : need cx.schema active 0 ≤ fuel := by
          unfold need at enough ⊢
          omega
        exact checkRecord_of_affords own placed.toWithin (fun _ => placed.meets isMet) forRecord
          fun _ _ => ih
    · exact check_mono (Nat.le_add_left 1 fuel) (List.Subset.refl _) (check_any h)

theorem Good.checkRecord (within : Within cx.schema start active)
    (mem : ∀ record, cx.schema.record? key.1 = some record → key ∈ sessionKeys cx.schema start)
    (enough : need cx.schema active 0 ≤ fuel) (h : Good cx active key) :
    (checkRecord cx (check cx fuel) active key).Returns () := by
  obtain ⟨_, passes⟩ := h
  exact checkRecord_of_affords own within mem enough
    (fun _ _ placed enough => check_of_affords own placed enough) passes

end
end RecordCodec.Compile
