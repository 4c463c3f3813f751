import RecordCodec.Proofs.Following
import RecordCodec.Proofs.Termination

set_option autoImplicit false

/-!
# What comes of a compile session

A session succeeds where the check of its record passes, and fails with the error of the check where
it does not. What the session knows or takes over is not compiled again, but all of it passes the
check as well, so nothing is missed.
-/
namespace RecordCodec.Compile

open Routine Direct Compilation

variable {I O : Type} {cx : Context I O} {s s' : Compilation I O}

/-- Drafts have the names that they are made for, and they can be lowered. -/
structure Mode.Lawful (mode : Mode I O) : Prop where
  named : mode.Named
  own : mode.Own
  lowers : ∀ record config name fields, (mode.draft record config name fields).Lowers

theorem Mode.lawful_decoding : Mode.decoding.Lawful :=
  ⟨RecordCodec.Mode.named_decoding, own_decoding, Decoder.draft_lowers⟩

theorem Mode.lawful_encoding : Mode.encoding.Lawful :=
  ⟨RecordCodec.Mode.named_encoding, own_encoding, Encoder.draft_lowers⟩

/-- What a session is to compile against for the check to tell how it ends. -/
structure Context.Regular (cx : Context I O) : Prop where
  lawful : cx.mode.Lawful
  unnumbered : cx.schema.Unnumbered
  valid : cx.Valid
  good : ∀ name config linked, cx.cached ⟨name, config, cx.mode.direction⟩ = some linked →
    Good cx.fresh [] (name, config)

theorem Context.Regular.fresh (h : cx.Regular) : cx.fresh.Regular where
  lawful := h.lawful
  unnumbered := h.unnumbered
  valid _ _ _ present := by cases present
  good _ _ _ present := by cases present

variable {start : String × Config} {ty target : TypeExpr} {handler : Handler} {fuel : Nat}
  {active : List (String × Config)}

/-- The session stands inside routines whose keys are different ones of the session. -/
structure Inside (cx : Context I O) (start : String × Config) (s : Compilation I O) : Prop where
  directed : s.guard.Directed cx.mode.direction
  within : Within cx.schema start s.guard.keys

structure InsideRecord (cx : Context I O) (start : String × Config) (s : Compilation I O) :
    Prop where
  directed : s.guard.Directed cx.mode.direction
  placed : Placed cx.schema start s.guard.keys s.position

theorem InsideRecord.inside (h : InsideRecord cx start s) : Inside cx start s :=
  ⟨h.directed, h.placed.toWithin⟩

theorem Inside.extend (h : Inside cx start s) (more : Extends s s') : Inside cx start s' :=
  ⟨more.guard ▸ h.directed, more.guard ▸ h.within⟩

theorem InsideRecord.extend (h : InsideRecord cx start s) (more : Extends s s') :
    InsideRecord cx start s' :=
  ⟨more.guard ▸ h.directed, more.guard ▸ more.position ▸ h.placed⟩

/-- The fuel is enough for the type, or does not matter, as no record is ever reached from it. -/
def Fits (schema : Schema) (active : List (String × Config)) (ty : TypeExpr) (fuel : Nat) : Prop :=
  need schema active ty.depth < fuel ∨ ty = .any

theorem Fits.arg {schema : Schema} {registry : Registry} {arg : TypeExpr}
    (h : Fits schema active ty (fuel + 1)) (handled : Handled schema registry ty handler target)
    (isArg : arg ∈ target.args ∨ arg = .any) : Fits schema active arg fuel := by
  rcases h with enough | rfl
  · exact (Affords.of_mem_or_any (Nat.le_of_lt_succ enough) handled isArg).imp id And.left
  · obtain rfl : target = .any := handled.target_any
    exact .inr (isArg.resolve_left List.not_mem_nil)

theorem Fits.record {schema : Schema} {registry : Registry} {here : Position}
    {key : String × Config} (h : Fits schema active ty (fuel + 1))
    (handled : Handled schema registry ty handler target) (isMet : Meets schema here target key) :
    need schema active 0 ≤ fuel := by
  rcases h with enough | rfl
  · unfold need at enough ⊢
    omega
  · obtain rfl : target = .any := handled.target_any
    rcases isMet with ⟨isName, -⟩ | ⟨_, mem, -⟩
    · cases isName
    · cases mem

/-- Every type that the fuel fits is compiled as the check says. -/
def FollowsTypes (cx : Context I O) (start : String × Config)
    (inner : TypeExpr → Action I O Converter) (fuel : Nat) : Prop :=
  ∀ ⦃ty s⦄, Settled cx s → InsideRecord cx start s → Fits cx.schema s.guard.keys ty fuel →
    Follows cx (inner ty) s (check cx.fresh fuel s.guard.keys s.spot ty)

section
variable {inner : TypeExpr → Action I O Converter} (follows : FollowsTypes cx start inner fuel)
include follows

theorem compileFields_follows {name : String} {record : RecordType}
    (declared : cx.schema.record? name = some record) {fields : List Field}
    (mine : ∀ f ∈ fields, f ∈ record.fields) (settled : Settled cx s) (inside : Inside cx start s)
    (config : (name, s.config) ∈ sessionKeys cx.schema start)
    (enough : ∀ f ∈ fields, Fits cx.schema s.guard.keys f.type fuel) :
    Follows cx (compileFields inner record fields) s
      (checkAll (fields.map (checkField (check cx.fresh fuel) s.guard.keys record s.config))) := by
  induction fields generalizing s with
  | nil => exact .pure settled []
  | cons f rest ih =>
    obtain ⟨isField, others⟩ := List.forall_mem_cons.1 mine
    obtain ⟨first, later⟩ := List.forall_mem_cons.1 enough
    have atField : InsideRecord cx start
        { s with site := some ⟨record.name, f.name, f.discriminator⟩ } :=
      ⟨inside.directed, .field inside.within config declared isField⟩
    have compiled := follows (settled.relocate s.config _) atField first
    have here : Follows cx (inField record f (inner f.type)) s (check cx.fresh fuel s.guard.keys
        ⟨s.config, some ⟨record.name, f.name, f.discriminator⟩⟩ f.type) := by
      refine ⟨compiled.mirrors.within, fun c s' gives => ?_⟩
      obtain ⟨s₁, ran, rfl⟩ := Gives.within_iff.1 gives
      obtain ⟨settled₁, more⟩ := compiled.settles ran
      exact ⟨settled₁.relocate s₁.config s.site,
        more.config, rfl, more.guard, more.known, more.fresh⟩
    refine (here.mapError (Failure.atKey f.name)).bind fun c s₁ _ settled₁ more => ?_
    have tail := ih others settled₁ (inside.extend more) (more.config ▸ config)
      (more.guard ▸ later)
    rw [more.guard, more.config] at tail
    exact tail.map _

end

section
variable (regular : cx.Regular) {name : String} {config : Config} {record : RecordType}
  (settled : Settled cx s) (declared : cx.schema.record? name = some record)
include regular settled declared

theorem Compilation.Settled.not_opened :
    (s.names.fresh cx.mode.direction name).1 ∉ s.synthesis.opened := by
  rcases settled.sound.separate with ⟨numbered, -⟩ | ⟨unnumbered, counted⟩
  · exact absurd regular.unnumbered numbered
  · exact fun mem => counted.not_uses unnumbered declared (.inl mem)

theorem openRoutine_gives :
    Gives (openRoutine (s.names.fresh cx.mode.direction name).1)
      (Compilation.inside ⟨name, config, cx.mode.direction⟩ (s.names.fresh cx.mode.direction name).1
        { s with names := (s.names.fresh cx.mode.direction name).2 }) ()
      (s.begun ⟨name, config, cx.mode.direction⟩) := by
  have unopened := settled.not_opened regular declared
  have opened : s.synthesis.openRoutine (s.names.fresh cx.mode.direction name).1 =
      .ok { s.synthesis with
        opened := s.synthesis.opened ++ [(s.names.fresh cx.mode.direction name).1] } := by
    rw [Synthesis.openRoutine, if_neg (by simpa using unopened)]
  exact Gives.bind_iff.2 ⟨_, _, Gives.state_iff.2 ⟨rfl, rfl⟩, Gives.bind_iff.2
    ⟨_, _, Gives.ofExcept_iff.2 ⟨opened, rfl⟩, Gives.modify_iff.2 rfl⟩⟩

theorem Compilation.Settled.begun : Settled cx (s.begun ⟨name, config, cx.mode.direction⟩) := by
  refine ⟨settled.sound.begin declared rfl (settled.not_opened regular declared),
    settled.orderly.begin _ _ _, fun e mem => ?_⟩
  have keys : (s.begun ⟨name, config, cx.mode.direction⟩).guard.keys =
      s.guard.keys ++ [(name, config)] := RecursionGuard.keys_enter _ _ _
  rw [keys]
  exact (settled.good e mem).weaken (List.subset_append_left _ _)

end

theorem settled_of_filled {key : RoutineKey} {routine : String} {filled : Compilation I O}
    {d : Draft I O} (settled : Settled cx filled)
    (h : filled.guard = s.guard.enter key routine) (unknown : Assoc.get? key filled.known = none)
    (named : d.name = routine)
    (sound : Sound cx { s.outside key { filled with synthesis := filled.synthesis.submit d } with
      known := Assoc.insert key routine filled.known
      compiled := filled.compiled ++ [(key, routine)] })
    (good : Good cx.fresh s.guard.keys (key.record, key.config)) :
    Settled cx { s.outside key { filled with synthesis := filled.synthesis.submit d } with
      known := Assoc.insert key routine filled.known
      compiled := filled.compiled ++ [(key, routine)] } := by
  refine ⟨sound, settled.orderly.finish h unknown named, fun e mem => ?_⟩
  change Good cx.fresh (filled.guard.leave key).keys _
  rw [h, RecursionGuard.leave_enter]
  rcases (mem_insert_known unknown).1 mem with before | rfl
  · -- It passed while the record was taken for good, so it needs the check of the record itself.
    have inside := settled.good e before
    rw [h, RecursionGuard.keys_enter] at inside
    exact good.cut inside
  · exact good

theorem Compilation.Settled.good_of_present (settled : Settled cx s) {name routine : String}
    {config : Config}
    (present : (s.guard.name? ⟨name, config, cx.mode.direction⟩).or
      (Assoc.get? ⟨name, config, cx.mode.direction⟩ s.known) = some routine) :
    Good cx.fresh s.guard.keys (name, config) := by
  rcases Option.or_eq_some_iff.1 present with active | ⟨-, known⟩
  · exact .of_mem (List.mem_map_of_mem (f := fun e => (e.1.record, e.1.config))
      (Assoc.mem_of_get? active))
  · exact settled.good _ (Assoc.mem_of_get? known)

section
variable {inner : TypeExpr → Action I O Converter} (follows : FollowsTypes cx start inner fuel)
  (regular : cx.Regular) {name : String} {config : Config} (settled : Settled cx s)
include regular settled

section
variable {record : RecordType} (declared : cx.schema.record? name = some record)
include declared

theorem compileRoutine_mirrors {r : Run Unit}
    (fields : Mirrors (compileFields inner record (cx.mode.fields record config))
      (s.begun ⟨name, config, cx.mode.direction⟩) r) :
    Mirrors (inRoutine ⟨name, config, cx.mode.direction⟩ (s.names.fresh cx.mode.direction name).1
      (compileRoutine cx inner record config (s.names.fresh cx.mode.direction name).1))
      { s with names := (s.names.fresh cx.mode.direction name).2 } r :=
  .within (.of_gives (openRoutine_gives regular settled declared)
    (fields.andThen fun _ _ _ => rfl))

theorem exists_filled
    (h : Gives (inRoutine ⟨name, config, cx.mode.direction⟩
        (s.names.fresh cx.mode.direction name).1
        (compileRoutine cx inner record config (s.names.fresh cx.mode.direction name).1))
      { s with names := (s.names.fresh cx.mode.direction name).2 } () s') :
    ∃ fields filled, Gives (compileFields inner record (cx.mode.fields record config))
        (s.begun ⟨name, config, cx.mode.direction⟩) fields filled ∧
      s' = s.outside ⟨name, config, cx.mode.direction⟩ { filled with
        synthesis := filled.synthesis.submit
          (cx.mode.draft record config (s.names.fresh cx.mode.direction name).1 fields) } := by
  obtain ⟨inside, ran, rfl⟩ := Gives.within_iff.1 h
  obtain ⟨_, opened, opens, ran⟩ := Gives.bind_iff.1 ran
  obtain ⟨fields, filled, fills, submits⟩ := Gives.bind_iff.1 ran
  obtain rfl := Gives.modify_iff.1 submits
  cases opens.symm.trans (openRoutine_gives regular settled declared)
  exact ⟨fields, filled, fills, rfl⟩

end

variable (inside : Inside cx start s)
  (mem : ∀ r, cx.schema.record? name = some r → (name, config) ∈ sessionKeys cx.schema start)
  (enough : need cx.schema s.guard.keys 0 ≤ fuel)
include follows inside mem enough

theorem routineFields_follow {record : RecordType}
    (declared : cx.schema.record? name = some record) (idle : (name, config) ∉ s.guard.keys) :
    Follows cx (compileFields inner record (cx.mode.fields record config))
      (s.begun ⟨name, config, cx.mode.direction⟩)
      (checkAll ((cx.mode.fields record config).map
        (checkField (check cx.fresh fuel) (s.guard.keys ++ [(name, config)]) record config))) := by
  have isMember := mem record declared
  have keys : (s.begun ⟨name, config, cx.mode.direction⟩).guard.keys =
      s.guard.keys ++ [(name, config)] := RecursionGuard.keys_enter _ _ _
  have entered : Inside cx start (s.begun ⟨name, config, cx.mode.direction⟩) :=
    ⟨inside.directed.enter _ _ _, keys ▸ inside.within.enter idle isMember⟩
  have bounded := entered.within.length_le declared
  rw [keys] at bounded
  have compiled := compileFields_follows follows declared (regular.lawful.own record config)
    (settled.begun regular declared) entered isMember fun f isField => .inl ?_
  · rwa [keys] at compiled
  · rw [keys]
    exact Nat.lt_of_lt_of_le (need_enter_lt bounded
      (depth_le_typeDepth declared (regular.lawful.own record config f isField))) enough

section
variable (compiles : CompilesTypes cx (Sound cx) inner)
include compiles

omit follows inside mem enough in
theorem ensureRoutine_sound {routine : String}
    (gives : Gives (ensureRoutine cx inner name config) s routine s') :
    Sound cx s' ∧ Extends s s' := by
  obtain ⟨sound, more, -⟩ :=
    ensureRoutine_gives compiles regular.lawful.named regular.valid settled.sound gives
  exact ⟨sound, more⟩

omit follows in
/-- What is in the cache passed the check when it was compiled. -/
theorem ensureRoutine_follows_of_cached
    (absent : (s.guard.name? ⟨name, config, cx.mode.direction⟩).or
      (Assoc.get? ⟨name, config, cx.mode.direction⟩ s.known) = none) {linked : Linked I O}
    (cached : cx.cached ⟨name, config, cx.mode.direction⟩ = some linked) :
    Follows cx (ensureRoutine cx inner name config) s
      (checkRecord cx.fresh (check cx.fresh fuel) s.guard.keys (name, config)) := by
  have new := (Option.or_eq_none_iff.1 absent).2
  have gives : Gives (ensureRoutine cx inner name config) s _ _ :=
    ensureRoutine_of_cached absent cached
  have good : Good cx.fresh s.guard.keys (name, config) :=
    (regular.good name config linked cached).weaken (List.nil_subset _)
  obtain ⟨isSound, more⟩ := ensureRoutine_sound regular settled compiles gives
  refine .of_gives gives (good.checkRecord regular.fresh.lawful.own inside.within mem enough)
    ⟨isSound, settled.orderly.adopt new _ _, fun e isKnown => ?_⟩ more
  rcases (mem_insert_known new).1 isKnown with before | rfl
  · exact settled.good e before
  · exact good

/-- What is new is compiled, and passes the check if its fields do. -/
theorem ensureRoutine_follows_of_uncached
    (absent : (s.guard.name? ⟨name, config, cx.mode.direction⟩).or
      (Assoc.get? ⟨name, config, cx.mode.direction⟩ s.known) = none)
    (uncached : cx.cached ⟨name, config, cx.mode.direction⟩ = none) :
    Follows cx (ensureRoutine cx inner name config) s
      (checkRecord cx.fresh (check cx.fresh fuel) s.guard.keys (name, config)) := by
  obtain ⟨inactive, new⟩ := Option.or_eq_none_iff.1 absent
  have idle : (name, config) ∉ s.guard.keys :=
    (RecursionGuard.name?_eq_none_iff inside.directed).1 inactive
  have mirrors : Mirrors (ensureRoutine cx inner name config) s
      (checkRecord cx.fresh (check cx.fresh fuel) s.guard.keys (name, config)) := by
    refine .of_gives (Gives.state_iff.2 ⟨rfl, rfl⟩) ?_
    simp only [absent, uncached]
    rw [checkRecord, if_neg idle]
    refine .of_reads (ofExcept_reads _) fun record finds => ?_
    have declared := findRecord_eq_ok.1 (Run.Returns.ofExcept_iff.1 finds)
    refine .of_reads (ofExcept_reads _) fun _ _ => ?_
    have fields := routineFields_follow follows regular settled inside mem enough declared idle
    exact .of_gives (freshName_does _ _ _)
      ((compileRoutine_mirrors regular settled declared fields.mirrors).andThen fun _ _ _ => rfl)
  -- A session that gives a routine shows through `mirrors` that the whole record passes.
  refine ⟨mirrors, fun routine s' gives => ?_⟩
  obtain ⟨isSound, more⟩ := ensureRoutine_sound regular settled compiles gives
  have good : Good cx.fresh s.guard.keys (name, config) := ⟨fuel, mirrors.returns gives⟩
  obtain ⟨record, after, declared, rfl, compiled, rfl⟩ := compiled_of_gives absent uncached gives
  obtain ⟨-, -, unknown⟩ :=
    compileRoutine_gives compiles regular.lawful.named declared settled.sound new rfl compiled
  obtain ⟨fields, filled, fills, rfl⟩ := exists_filled regular settled declared compiled
  obtain ⟨filledSettled, extends₁⟩ := (routineFields_follow follows regular settled inside mem
    enough declared idle).settles fills
  have named := regular.lawful.named record config (s.names.fresh cx.mode.direction name).1 fields
  exact ⟨settled_of_filled filledSettled extends₁.guard unknown named isSound good, more⟩

theorem ensureRoutine_follows :
    Follows cx (ensureRoutine cx inner name config) s
      (checkRecord cx.fresh (check cx.fresh fuel) s.guard.keys (name, config)) := by
  cases present : (s.guard.name? ⟨name, config, cx.mode.direction⟩).or
      (Assoc.get? ⟨name, config, cx.mode.direction⟩ s.known) with
  | some routine =>
    have gives : Gives (ensureRoutine cx inner name config) s routine s := by
      refine Gives.bind_iff.2 ⟨_, _, Gives.state_iff.2 ⟨rfl, rfl⟩, ?_⟩
      simp only [present, Gives.pure_iff, and_self]
    have good := settled.good_of_present present
    exact .of_gives gives (good.checkRecord regular.fresh.lawful.own inside.within mem enough)
      settled (.refl s)
  | none =>
    cases cached : cx.cached ⟨name, config, cx.mode.direction⟩ with
    | some linked =>
      exact ensureRoutine_follows_of_cached regular settled inside mem enough compiles present
        cached
    | none =>
      exact ensureRoutine_follows_of_uncached follows regular settled inside mem enough compiles
        present cached

end

theorem recordConverter_follows (compiles : CompilesTypes cx (Sound cx) inner) :
    Follows cx (recordConverter cx inner name config) s
      (checkRecord cx.fresh (check cx.fresh fuel) s.guard.keys (name, config)) := by
  refine (ensureRoutine_follows follows regular settled inside mem enough compiles).andThen
    fun routine s₁ gives settled₁ _ => ?_
  obtain ⟨-, -, bound⟩ :=
    ensureRoutine_gives compiles regular.lawful.named regular.valid settled.sound gives
  have refers : Gives (reference routine) s₁ (.record routine)
      { s₁ with synthesis := s₁.synthesis.reference routine } := rfl
  obtain ⟨sound, more, -⟩ := reference_gives settled₁.sound refers
  exact .of_gives refers (Run.Returns.pure_iff.2 rfl)
    ⟨sound, settled₁.orderly.reference bound, settled₁.good⟩ more

end

section
variable {inner : TypeExpr → Action I O Converter} (follows : FollowsTypes cx start inner fuel)
  (compiles : CompilesTypes cx (Sound cx) inner) (regular : cx.Regular) (settled : Settled cx s)
  (inside : InsideRecord cx start s)
include follows compiles regular settled inside

theorem handle_follows (handled : Handled cx.schema cx.registry ty handler target)
    (fits : Fits cx.schema s.guard.keys ty (fuel + 1)) :
    Follows cx (handle cx inner handler target) s
      (checkAs cx.fresh (check cx.fresh fuel) s.guard.keys s.spot target handler) := by
  have argument : ∀ arg s', arg ∈ target.args ∨ arg = .any → Settled cx s' → Extends s s' →
      Follows cx (inner arg) s' (check cx.fresh fuel s.guard.keys s.spot arg) := by
    intro arg s' isArg settled' more
    have fits' := fits.arg handled isArg
    rw [← more.guard] at fits'
    rw [← more.guard, ← more.spot]
    exact follows settled' (inside.extend more) fits'
  have record : ∀ key s', Meets cx.schema s.position target key → Settled cx s' → Extends s s' →
      Follows cx (recordConverter cx inner key.1 key.2) s'
        (checkRecord cx.fresh (check cx.fresh fuel) s.guard.keys key) := by
    intro key s' isMet settled' more
    have enough := fits.record handled isMet
    rw [← more.guard] at enough ⊢
    exact recordConverter_follows follows regular settled' (inside.extend more).inside
      (fun _ declared => inside.placed.meets isMet declared) enough compiles
  have one : ∀ build : Converter → Converter,
      Follows cx (do pure (build (← inner (target.arg 0)))) s
        (check cx.fresh fuel s.guard.keys s.spot (target.arg 0)) := fun build =>
    (argument _ s (target.arg_mem_or_any 0) settled (.refl s)).map build
  have two : ∀ build : Converter → Converter → Converter,
      Follows cx (do
          let key ← inner (target.arg 0)
          let item ← inner (target.arg 1)
          pure (build key item)) s
        (checkAll [check cx.fresh fuel s.guard.keys s.spot (target.arg 0),
          check cx.fresh fuel s.guard.keys s.spot (target.arg 1)]) := fun build =>
    (argument _ s (target.arg_mem_or_any 0) settled (.refl s)).bind fun key s₁ _ settled₁ more =>
      (argument _ s₁ (target.arg_mem_or_any 1) settled₁ more).bind fun item _ _ settled₂ _ =>
        .pure settled₂ (build key item)
  cases handler with
  | scalar | literal | custom => exact .pure settled _
  | optional => exact one .optional
  | sequence => exact one (.items .list)
  | set => exact one (.items .set)
  | variadicTuple => exact one (.items .tuple)
  | mapping => exact two .mapping
  | defaultMapping =>
    exact two fun key item => .defaultMapping key item (Converter.zeroOf (target.arg 1))
  | enumeration => exact .of_reads (ofExcept_reads _) fun e _ => .pure settled _
  | fixedTuple =>
    exact (Follows.mapM settled fun arg mem s' => argument arg s' (.inl mem)).map Converter.tuple
  | record =>
    cases isName : target.shape.recordName? with
    | none =>
      simp only [handle, checkAs, isName]
      exact .throw _
    | some name =>
      simp only [handle, checkAs, isName]
      have whole : Follows cx (nestedConfig cx name >>= recordConverter cx inner name) s
          ((do
            let _ ← Run.ofExcept (cx.schema.findRecord name)
            pure (s.spot.position.nestedConfig cx.schema name)) >>= fun config =>
              checkRecord cx.fresh (check cx.fresh fuel) s.guard.keys (name, config)) := by
        refine .of_reads (nestedConfig_reads name) fun config isConfig => ?_
        obtain ⟨_, -, isConfig⟩ := Run.Returns.bind_iff.1 isConfig
        obtain rfl := Run.Returns.pure_iff.1 isConfig
        exact record (name, _) s (.inl ⟨isName, rfl⟩) settled (.refl s)
      rw [bind_assoc] at whole
      simp only [pure_bind] at whole
      exact whole
  | union =>
    refine .of_reads (planUnion_reads target) fun plan planned => ?_
    refine (Follows.mapM settled fun arm mem s' settled' more => ?_).map _
    rw [eq_plan_of_planAt planned, Position.plan] at mem
    obtain ⟨arg, isArg, rfl⟩ := List.mem_map.1 mem
    unfold armConverter checkArm
    cases isRecord : (s.spot.position.arm cx.fresh.schema arg).record with
    | some key => exact record key s' (.inr ⟨arg, isArg, isRecord⟩) settled' more
    | none =>
      rw [arm_type]
      exact argument arg s' (.inl isArg) settled' more

end

theorem converterFor_follows (regular : cx.Regular) (fuel : Nat) :
    FollowsTypes cx start (converterFor cx fuel) fuel := by
  -- The session and the check go into a type alike, with one unit of fuel less.
  induction fuel with
  | zero => exact fun _ _ _ _ _ => .unfinished
  | succ fuel ih =>
    intro ty s settled inside fits
    refine .of_reads (ofExcept_reads _) fun found resolves => ?_
    obtain ⟨handler, target⟩ := found
    exact handle_follows ih (converterFor_gives regular.lawful.named regular.valid fuel) regular
      settled inside (Run.Returns.ofExcept_iff.1 resolves) fits

theorem settled_start (unnumbered : cx.schema.Unnumbered) : Settled cx {} where
  sound := sound_start (.inr unnumbered)
  orderly := ⟨fun _ mem => absurd mem List.not_mem_nil, fun _ mem => absurd mem List.not_mem_nil⟩
  good _ mem := absurd mem List.not_mem_nil

/-- Whether a record can be compiled, and with which error it cannot. -/
def Context.verdict (cx : Context I O) (key : String × Config) : Run Unit :=
  checkRecord cx.fresh (check cx.fresh (fuelFor cx.schema)) [] key

theorem Good.verdict (own : cx.mode.Own) {key : String × Config} (h : Good cx.fresh [] key) :
    (cx.verdict key).Returns () := by
  have own : cx.fresh.mode.Own := own
  have enough : need cx.fresh.schema [] 0 ≤ fuelFor cx.schema := need_le_fuelFor
  exact h.checkRecord own .nil (fun _ _ => start_mem_sessionKeys) enough

theorem good_of_linked (settled : Settled cx s) (idle : s.guard.active = []) {stamp : Nat}
    {routine : String} {compiled : Compiled I O} (linked : link stamp routine s = .ok compiled) :
    ∀ e ∈ compiled.all, Good cx.fresh [] (e.1.record, e.1.config) := by
  intro e mem
  obtain ⟨session, -, -, -, all⟩ := link_eq_ok linked
  rw [all] at mem
  obtain ⟨⟨key, name⟩, isCompiled, isKept⟩ := List.mem_filterMap.1 mem
  obtain ⟨_, -, rfl⟩ := Option.map_eq_some_iff.1 isKept
  have good := settled.good _ (settled.sound.compiled _ isCompiled).1
  rwa [RecursionGuard.keys, idle] at good

theorem session_follows (regular : cx.Regular) (record : String) (config : Config) :
    Follows cx (ensureRoutine cx (converterFor cx (fuelFor cx.schema)) record config) {}
      (cx.verdict (record, config)) := by
  have inside : Inside cx (record, config) {} := ⟨fun _ mem => absurd mem List.not_mem_nil, .nil⟩
  exact ensureRoutine_follows (converterFor_follows regular (fuelFor cx.schema)) regular
    (settled_start regular.unnumbered) inside (fun _ _ => start_mem_sessionKeys)
    need_le_fuelFor (converterFor_gives regular.lawful.named regular.valid _)

/-- Compiling a record ends as its check does, and all records that are compiled pass. -/
theorem compile_outcome (regular : cx.Regular) (stamp : Nat) (record : String) (config : Config) :
    (do let _ ← compile cx stamp record config; pure ()) = cx.verdict (record, config) ∧
      ∀ compiled, (compile cx stamp record config).Returns compiled →
        ∀ e ∈ compiled.all, Good cx.fresh [] (e.1.record, e.1.config) := by
  have follows := session_follows regular record config
  have mirrors : _ = (cx.verdict (record, config)).run := follows.mirrors
  suffices h : (compile cx stamp record config).run.map (Except.map fun _ => ()) =
        (cx.verdict (record, config)).run ∧ _ from
    ⟨(Run.discard_run _).trans h.1, h.2⟩
  simp only [compile, Run.Returns]
  cases ran : (ensureRoutine cx (converterFor cx (fuelFor cx.schema)) record config).run {} with
  | none =>
    rw [ran] at mirrors
    exact ⟨mirrors, fun _ returns => by cases returns⟩
  | some ending =>
    obtain ⟨result, s⟩ := ending
    rw [ran] at mirrors
    cases result with
    | error e => exact ⟨mirrors, fun _ returns => by cases returns⟩
    | ok routine =>
      obtain ⟨settled, more⟩ := follows.settles ran
      have idle : s.guard.active = [] := by rw [more.guard]
      obtain ⟨compiled, linked⟩ := link_succeeds regular.lawful.lowers settled.sound
        settled.orderly idle stamp (ensureRoutine_binds ran)
      simp only [linked]
      refine ⟨mirrors, fun other isOther => ?_⟩
      cases isOther
      exact good_of_linked settled idle linked

end RecordCodec.Compile
