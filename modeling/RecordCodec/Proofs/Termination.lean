import RecordCodec.Proofs.Budget
import RecordCodec.Proofs.Linking
import RecordCodec.Proofs.SessionMoves

set_option autoImplicit false

/-!
# Compile sessions end

Whatever a schema declares, a session with the built-in handlers ends with the fuel that it is
given, in a routine or in an error, and compiles nothing twice. More fuel changes nothing. What an
action needs is told from the session that it starts in, which need not be a new one.
-/
namespace RecordCodec.Compile

open Routine Direct Compilation

variable {I O α β : Type} {cx : Context I O} {s s' : Compilation I O}

def Ends (action : Action I O α) (s : Compilation I O) : Prop :=
  ∃ result s', action.run s = some (result, s')

namespace Ends

theorem pure (x : α) : Ends (Pure.pure x) s := ⟨_, _, rfl⟩

theorem throw (e : Failure) : Ends (throw e : Action I O α) s := ⟨_, _, rfl⟩

theorem ofExcept (r : Except Failure α) : Ends (Action.ofExcept r) s := ⟨_, _, rfl⟩

theorem state : Ends Action.state s := ⟨_, _, rfl⟩

theorem modify (f : Compilation I O → Compilation I O) : Ends (Action.modify f) s := ⟨_, _, rfl⟩

theorem bind {action : Action I O α} {next : α → Action I O β} (first : Ends action s)
    (others : ∀ x s', Gives action s x s' → Ends (next x) s') : Ends (action >>= next) s := by
  obtain ⟨result, s₁, ran⟩ := first
  cases result with
  | ok x =>
    obtain ⟨result₂, s₂, ran₂⟩ := others x s₁ ran
    refine ⟨result₂, s₂, ?_⟩
    change (action.run s >>= fun ending => _ : Option _) = _
    rw [ran]
    exact ran₂
  | error e =>
    refine ⟨.error e, s₁, ?_⟩
    change (action.run s >>= fun ending => _ : Option _) = _
    rw [ran]
    rfl

theorem mapError {f : Failure → Failure} {action : Action I O α} (h : Ends action s) :
    Ends (action.mapError f) s := by
  obtain ⟨result, s₁, ran⟩ := h
  refine ⟨result.mapError f, s₁, ?_⟩
  change (action.run s).map _ = _
  rw [ran]
  rfl

theorem within {enter : Compilation I O → Compilation I O}
    {leave : Compilation I O → Compilation I O → Compilation I O} {action : Action I O α}
    (h : Ends action (enter s)) : Ends (Action.within enter leave action) s := by
  obtain ⟨result, s₁, ran⟩ := h
  refine ⟨result, leave s s₁, ?_⟩
  simp only [Action.within, ExceptT.run_mk, ran]

theorem mapM {action : α → Action I O β} {xs : List α}
    (moves : ∀ x s, MovesFrom cx (action x) s)
    (ends : ∀ x ∈ xs, ∀ s', Extends s s' → Ends (action x) s') : Ends (xs.mapM action) s := by
  induction xs generalizing s with
  | nil =>
    rw [List.mapM_nil]
    exact .pure []
  | cons x rest ih =>
    rw [List.mapM_cons]
    refine (ends x List.mem_cons_self s (.refl s)).bind fun y s₁ gives => ?_
    have more := (moves x s gives).extend
    refine .bind (ih fun x' mem s' more' => ?_) fun _ _ _ => .pure _
    exact ends x' (List.mem_cons_of_mem _ mem) s' (more.trans more')

end Ends

theorem nestedConfig_ends (record : String) : Ends (nestedConfig cx record) s :=
  (Ends.ofExcept _).bind fun _ _ _ => Ends.state.bind fun _ _ _ => .pure _

theorem planArm_ends (key : String) (autoTag : Bool) (arm : TypeExpr) :
    Ends (planArm cx key autoTag arm) s := by
  unfold planArm
  split
  · exact .pure _
  · exact (nestedConfig_ends _).bind fun _ _ _ => .pure _

theorem planArms_ends (key : String) (autoTag : Bool) (refuse : String → Failure)
    (seen : List String) (tys : List TypeExpr) :
    Ends (planArms cx key autoTag refuse seen tys) s := by
  induction tys generalizing s seen with
  | nil => exact .pure _
  | cons ty rest ih =>
    refine (planArm_ends key autoTag ty).bind fun planned _ _ => ?_
    have tail : ∀ seen s₁, Ends (planArms cx key autoTag refuse seen rest >>=
        fun others => pure (planned :: others)) s₁ := fun seen _ =>
      (ih seen).bind fun _ _ _ => .pure _
    split
    · split
      · exact .bind (.throw _) fun _ _ _ => tail _ _
      · exact tail _ _
    · exact tail _ _

theorem planUnion_ends (ty : TypeExpr) : Ends (planUnion cx ty) s := by
  refine Ends.state.bind fun _ _ _ => (planArms_ends _ _ _ _ _).bind fun _ _ _ => ?_
  split
  · exact .bind (.throw _) fun _ _ _ => .pure _
  · exact .pure _

variable {start : String × Config}

/-- Every type that the fuel is enough for ends, at every position where a union has a counted
discriminator key. -/
def EndsTypes (cx : Context I O) (start : String × Config)
    (inner : TypeExpr → Action I O Converter) (fuel : Nat) : Prop :=
  ∀ ⦃ty s⦄, s.position.unionKey ∈ tagKeys cx.schema start.2 →
    Affords cx.schema (busy cx start s) ty fuel → Ends (inner ty) s

section
variable {inner : TypeExpr → Action I O Converter} {fuel : Nat} (moves : MovesTypes cx inner)
  (ends : EndsTypes cx start inner fuel)
include moves ends

theorem compileFields_ends {name : String} {record : RecordType}
    (declared : cx.schema.record? name = some record) {fields : List Field}
    (mine : ∀ f ∈ fields, f ∈ record.fields)
    (config : (name, s.config) ∈ sessionKeys cx.schema start)
    (enough : ∀ f ∈ fields, Affords cx.schema (busy cx start s) f.type fuel) :
    Ends (compileFields inner record fields) s := by
  induction fields generalizing s with
  | nil => exact .pure []
  | cons f rest ih =>
    obtain ⟨isField, others⟩ := List.forall_mem_cons.1 mine
    obtain ⟨first, later⟩ := List.forall_mem_cons.1 enough
    have isKey := (Placed.field .nil config declared isField).unionKey_mem
    have here : Ends (inField record f (inner f.type)) s := Ends.within (ends isKey first)
    refine here.mapError.bind fun c s₁ gives => ?_
    have more := ((MovesFrom.inField (moves.moves f.type)).mapError gives).extend
    refine .bind (ih others (more.config ▸ config) ?_) fun _ _ _ => .pure _
    exact more.busy ▸ later

theorem ensureRoutine_ends (own : cx.mode.Own) {name : String} {config : Config}
    (mem : ∀ r, cx.schema.record? name = some r → (name, config) ∈ sessionKeys cx.schema start)
    (enough : need cx.schema (busy cx start s) 0 ≤ fuel) :
    Ends (ensureRoutine cx inner name config) s := by
  refine Ends.state.bind fun _ _ reads => ?_
  obtain ⟨rfl, rfl⟩ := Gives.state_iff.1 reads
  split
  case h_1 => exact .pure _
  case h_2 => exact ⟨_, _, rfl⟩
  case h_3 absent _ =>
    rw [Option.or_eq_none_iff] at absent
    refine (Ends.ofExcept _).bind fun record _ finds => ?_
    obtain ⟨found, rfl⟩ := Gives.ofExcept_iff.1 finds
    have declared := findRecord_eq_ok.1 found
    refine (Ends.ofExcept _).bind fun _ s₁ checks => ?_
    obtain ⟨-, rfl⟩ := Gives.ofExcept_iff.1 checks
    refine .bind ⟨_, _, rfl⟩ fun routine s₂ draws => ?_
    obtain ⟨-, rfl⟩ := freshName_gives draws
    refine .bind (.within (.bind ?_ fun _ s₃ opens => ?_)) fun _ _ _ =>
      .bind (.modify _) fun _ _ _ => .pure _
    · exact Ends.state.bind fun _ _ _ => (Ends.ofExcept _).bind fun _ _ _ => .modify _
    · have more := openRoutine_extends opens
      have isMember := mem record declared
      have sameConfig : s₃.config = config := more.config
      refine .bind (compileFields_ends moves ends declared (own record config)
        (sameConfig ▸ isMember) fun f isField => .inl ?_) fun _ _ _ => .modify _
      have shallow := depth_le_typeDepth declared (own record config f isField)
      have less := need_busy_lt_of_enter declared isMember absent.1 more.guard shallow
      omega

theorem recordConverter_ends (own : cx.mode.Own) {name : String} {config : Config}
    (mem : ∀ r, cx.schema.record? name = some r → (name, config) ∈ sessionKeys cx.schema start)
    (enough : need cx.schema (busy cx start s) 0 ≤ fuel) :
    Ends (recordConverter cx inner name config) s :=
  (ensureRoutine_ends moves ends own mem enough).bind fun _ _ _ =>
    (Ends.modify _).bind fun _ _ _ => .pure _

variable {ty target : TypeExpr} {handler : Handler}

theorem handle_ends (own : cx.mode.Own) (handled : Handled cx.schema cx.registry ty handler target)
    (isKey : s.position.unionKey ∈ tagKeys cx.schema start.2)
    (enough : need cx.schema (busy cx start s) ty.depth ≤ fuel) :
    Ends (handle cx inner handler target) s := by
  have forRecord : need cx.schema (busy cx start s) 0 ≤ fuel := by
    unfold need at enough ⊢
    omega
  have one : ∀ build : Converter → Converter,
      Ends (do pure (build (← inner (target.arg 0)))) s := fun build =>
    (ends isKey (.arg enough handled 0)).bind fun _ _ _ => .pure _
  have two : ∀ build : Converter → Converter → Converter,
      Ends (do
        let key ← inner (target.arg 0)
        let item ← inner (target.arg 1)
        pure (build key item)) s := fun build =>
    (ends isKey (.arg enough handled 0)).bind fun _ s₁ gives => by
      have more := (moves.moves _ s gives).extend
      have affords := Affords.arg enough handled 1
      rw [← more.busy] at affords
      exact (ends (more.position ▸ isKey) affords).bind fun _ _ _ => .pure _
  cases handler with
  | scalar | literal | custom => exact .pure _
  | optional => exact one .optional
  | sequence => exact one (.items .list)
  | set => exact one (.items .set)
  | variadicTuple => exact one (.items .tuple)
  | mapping => exact two .mapping
  | defaultMapping =>
    exact two fun key item => .defaultMapping key item (Converter.zeroOf (target.arg 1))
  | enumeration => exact (Ends.ofExcept _).bind fun _ _ _ => .pure _
  | fixedTuple =>
    refine .bind (.mapM moves.moves fun arg mem s' more => ?_) fun _ _ _ => .pure _
    have affords := Affords.of_mem enough handled mem
    rw [← more.busy] at affords
    exact ends (more.position ▸ isKey) affords
  | record =>
    rw [handle]
    split
    case h_1 name isName =>
      refine (nestedConfig_ends name).bind fun config s₁ nested => ?_
      obtain ⟨rfl, rfl, -⟩ := nestedConfig_gives nested
      exact recordConverter_ends moves ends own
        (fun r declared => mem_sessionKeys_of_meets isKey (.inl ⟨isName, rfl⟩) declared) forRecord
    case h_2 => exact .throw _
  | union =>
    refine (planUnion_ends target).bind fun plan s₁ plans => ?_
    obtain ⟨rfl, rfl, -⟩ := planUnion_gives plans
    refine .bind (.mapM (fun arm _ => armConverter_moves moves arm) fun arm mem s' more => ?_)
      fun _ _ _ => .pure _
    obtain ⟨inner', isArg, rfl⟩ := List.mem_map.1 mem
    unfold armConverter
    split
    case h_1 name config isRecord =>
      rw [← more.busy] at forRecord
      exact recordConverter_ends moves ends own (fun r declared =>
        mem_sessionKeys_of_meets isKey (.inr ⟨inner', isArg, isRecord⟩) declared) forRecord
    case h_2 =>
      rw [arm_type]
      have affords := Affords.of_mem enough handled isArg
      rw [← more.busy] at affords
      exact ends (more.position ▸ isKey) affords

end

/-- Untyped positions take one unit of fuel, and other types what they need. -/
theorem converterFor_ends (keeps : cx.registry.KeepsAny) (own : cx.mode.Own) (fuel : Nat) :
    EndsTypes cx start (converterFor cx fuel) fuel := by
  induction fuel with
  | zero =>
    rintro ty s isKey (enough | ⟨-, enough⟩)
    · exact absurd enough (Nat.not_lt_zero _)
    · exact absurd enough (Nat.lt_irrefl _)
  | succ fuel ih =>
    intro ty s isKey enough
    refine (Ends.ofExcept _).bind fun found s₁ resolves => ?_
    obtain ⟨handler, target⟩ := found
    obtain ⟨handled, rfl⟩ := Gives.ofExcept_iff.1 resolves
    rcases enough with enough | ⟨rfl, -⟩
    · exact handle_ends (converterFor_moves fuel) ih own handled isKey (Nat.le_of_lt_succ enough)
    · obtain ⟨rfl, rfl⟩ := Handled.unique handled (handled_any keeps)
      exact .pure _

def Continues (action action' : Action I O α) : Prop :=
  ∀ s ending, action.run s = some ending → action'.run s = some ending

namespace Continues

theorem refl (action : Action I O α) : Continues action action := fun _ _ h => h

theorem bind {action action' : Action I O α} {next next' : α → Action I O β}
    (first : Continues action action') (others : ∀ x, Continues (next x) (next' x)) :
    Continues (action >>= next) (action' >>= next') := by
  intro s ending h
  change (action.run s >>= fun ending => _ : Option _) = _ at h
  change (action'.run s >>= fun ending => _ : Option _) = _
  cases ran : action.run s with
  | none =>
    rw [ran] at h
    cases h
  | some ending₁ =>
    rw [ran] at h
    rw [first s ending₁ ran]
    obtain ⟨result, s₁⟩ := ending₁
    cases result with
    | ok x => exact others x s₁ ending h
    | error e => exact h

theorem mapError {action action' : Action I O α} (f : Failure → Failure)
    (h : Continues action action') : Continues (action.mapError f) (action'.mapError f) := by
  intro s ending ran
  change (action.run s).map _ = _ at ran
  change (action'.run s).map _ = _
  obtain ⟨ending₁, first, rfl⟩ := Option.map_eq_some_iff.1 ran
  rw [h s ending₁ first]
  rfl

theorem within {action action' : Action I O α} (enter : Compilation I O → Compilation I O)
    (leave : Compilation I O → Compilation I O → Compilation I O) (h : Continues action action') :
    Continues (Action.within enter leave action) (Action.within enter leave action') := by
  intro s ending ran
  simp only [Action.within, ExceptT.run_mk] at ran ⊢
  cases first : action.run (enter s) with
  | none =>
    rw [first] at ran
    cases ran
  | some ending₁ =>
    rw [first] at ran
    rw [h _ ending₁ first]
    exact ran

theorem mapM {action action' : α → Action I O β} (h : ∀ x, Continues (action x) (action' x))
    (xs : List α) : Continues (xs.mapM action) (xs.mapM action') := by
  induction xs with
  | nil => exact .refl _
  | cons x rest ih =>
    rw [List.mapM_cons, List.mapM_cons]
    exact (h x).bind fun _ => ih.bind fun _ => .refl _

end Continues

section
variable {inner inner' : TypeExpr → Action I O Converter}
  (types : ∀ ty, Continues (inner ty) (inner' ty))
include types

theorem compileFields_continues (record : RecordType) (fields : List Field) :
    Continues (compileFields inner record fields) (compileFields inner' record fields) := by
  induction fields with
  | nil => exact .refl _
  | cons f rest ih =>
    have first : Continues (inField record f (inner f.type)) (inField record f (inner' f.type)) :=
      (types f.type).within _ _
    exact (first.mapError _).bind fun _ => ih.bind fun _ => .refl _

theorem ensureRoutine_continues (cx : Context I O) (record : String) (config : Config) :
    Continues (ensureRoutine cx inner record config) (ensureRoutine cx inner' record config) := by
  refine (Continues.refl _).bind fun s => ?_
  split
  · exact .refl _
  · exact .refl _
  · refine (Continues.refl _).bind fun declared => (Continues.refl _).bind fun _ =>
      (Continues.refl _).bind fun name => Continues.bind ?_ fun _ => .refl _
    have routine : Continues (compileRoutine cx inner declared config name)
        (compileRoutine cx inner' declared config name) :=
      (Continues.refl _).bind fun _ =>
        (compileFields_continues types declared _).bind fun _ => .refl _
    exact routine.within _ _

theorem recordConverter_continues (cx : Context I O) (record : String) (config : Config) :
    Continues (recordConverter cx inner record config) (recordConverter cx inner' record config) :=
  (ensureRoutine_continues types cx record config).bind fun _ => .refl _

theorem handle_continues (cx : Context I O) (handler : Handler) (ty : TypeExpr) :
    Continues (handle cx inner handler ty) (handle cx inner' handler ty) := by
  cases handler with
  | scalar | literal | custom | enumeration => exact .refl _
  | optional | sequence | set | variadicTuple => exact (types _).bind fun _ => .refl _
  | fixedTuple => exact (Continues.mapM types _).bind fun _ => .refl _
  | mapping | defaultMapping =>
    exact (types _).bind fun _ => (types _).bind fun _ => .refl _
  | union =>
    refine (Continues.refl _).bind fun plan =>
      (Continues.mapM (fun arm => ?_) _).bind fun _ => .refl _
    unfold armConverter
    split
    · exact recordConverter_continues types cx _ _
    · exact types _
  | record =>
    simp only [handle]
    split
    · exact (Continues.refl _).bind fun _ => recordConverter_continues types cx _ _
    · exact .refl _

end

theorem converterFor_continues (cx : Context I O) {fuel more : Nat} (le : fuel ≤ more)
    (ty : TypeExpr) : Continues (converterFor cx fuel ty) (converterFor cx more ty) := by
  induction fuel generalizing more ty with
  | zero =>
    intro s ending h
    cases h
  | succ fuel ih =>
    cases more with
    | zero => exact absurd le (Nat.not_succ_le_zero _)
    | succ more =>
      exact (Continues.refl _).bind fun found =>
        handle_continues (fun ty => ih (Nat.le_of_succ_le_succ le) ty) cx found.1 found.2

/-- From any session on, the fuel for the schema is enough for a routine, and more does the same. -/
theorem exists_ensureRoutine_run (keeps : cx.registry.KeepsAny) (own : cx.mode.Own)
    (record : String) (config : Config) (s : Compilation I O) :
    ∃ result s', ∀ fuel, fuelFor cx.schema ≤ fuel →
      (ensureRoutine cx (converterFor cx fuel) record config).run s = some (result, s') := by
  have types : EndsTypes cx (record, config) _ _ := converterFor_ends keeps own (fuelFor cx.schema)
  obtain ⟨result, s', ran⟩ := ensureRoutine_ends (s := s) (converterFor_moves _) types own
    (fun _ _ => start_mem_sessionKeys) need_le_fuelFor
  refine ⟨result, s', fun fuel enough => ?_⟩
  exact ensureRoutine_continues (fun ty => converterFor_continues cx enough ty) cx record config _ _
    ran

/-- The session for a record ends, whatever fuel it has from the one it is given on, and no key
comes twice among those of the routines that it has compiled. -/
def EndsOnce (cx : Context I O) (record : String) (config : Config) : Prop :=
  ∃ result s, (∀ fuel, fuelFor cx.schema ≤ fuel →
      (ensureRoutine cx (converterFor cx fuel) record config).run {} = some (result, s)) ∧
    (s.compiled.map Prod.fst).Nodup

theorem endsOnce (keeps : cx.registry.KeepsAny) (own : cx.mode.Own) (record : String)
    (config : Config) : EndsOnce cx record config := by
  obtain ⟨result, s, ran⟩ := exists_ensureRoutine_run keeps own record config {}
  have moves := ensureRoutine_moves (converterFor_moves _) record config (ran _ (Nat.le_refl _))
  have nothing : ∀ e ∈ ({} : Compilation I O).compiled, e ∈ ({} : Compilation I O).known :=
    fun e mem => absurd mem List.not_mem_nil
  exact ⟨result, s, ran, (moves.compiled_nodup nothing List.nodup_nil).2⟩

theorem Mode.own_decoding : Mode.decoding.Own := fun _ _ _ mem => mem

theorem Mode.own_encoding : Mode.encoding.Own := fun _ _ _ mem => List.mem_of_mem_filter mem

/-- For every schema and whatever routines there are in the cache, compiling a decoder or an
encoder ends, and compiles each routine at most once. -/
theorem compile_terminates (schema : Schema) (decoders : RoutineKey → Option (Linked Json Instance))
    (encoders : RoutineKey → Option (Linked Instance Json)) (record : String) (config : Config) :
    EndsOnce ⟨schema, .builtin, decoders, .decoding⟩ record config ∧
      EndsOnce ⟨schema, .builtin, encoders, .encoding⟩ record config :=
  ⟨endsOnce Registry.keepsAny_builtin Mode.own_decoding record config,
    endsOnce Registry.keepsAny_builtin Mode.own_encoding record config⟩

end RecordCodec.Compile
