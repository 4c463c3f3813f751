import RecordCodec.Proofs.SessionSteps

set_option autoImplicit false

/-!
# What the actions of a session can do

Every action, whether it ends well or fails at any depth, changes a session in a few ways only. An
invariant of sessions is shown for each of these ways once.
-/
namespace RecordCodec.Compile

open Routine Compilation

variable {I O α β : Type}

def Compilation.inside (key : RoutineKey) (name : String) (s : Compilation I O) :
    Compilation I O :=
  { s with config := key.config, site := none, guard := s.guard.enter key name }

/-- The session after a routine, with everything that was set for the routine put back. -/
def Compilation.outside (key : RoutineKey) (before after : Compilation I O) : Compilation I O :=
  { after with config := before.config, site := before.site, guard := after.guard.leave key }

def Compilation.drawn (key : RoutineKey) (s : Compilation I O) : String :=
  (s.names.fresh key.direction key.record).1

def Compilation.begun (key : RoutineKey) (s : Compilation I O) : Compilation I O :=
  let (routine, names) := s.names.fresh key.direction key.record
  { s.inside key routine with
    names
    synthesis := { s.synthesis with opened := s.synthesis.opened ++ [routine] } }

def Compilation.completed (key : RoutineKey) (d : Draft I O) (before after : Compilation I O) :
    Compilation I O :=
  { before.outside key { after with synthesis := after.synthesis.submit d } with
    known := Assoc.insert key (before.drawn key) after.known
    compiled := after.compiled ++ [(key, before.drawn key)] }

structure Compilation.Lacks (cx : Context I O) (s : Compilation I O) (key : RoutineKey) :
    Prop where
  direction : key.direction = cx.mode.direction
  idle : s.guard.name? key = none
  unknown : Assoc.get? key s.known = none

/-- A session refers to a routine, takes one over from the cache, draws a name that is taken, or
compiles a routine, which it may have to give up. -/
inductive Moves (cx : Context I O) : Compilation I O → Compilation I O → Prop where
  | refl (s : Compilation I O) : Moves cx s s
  | trans {s s₁ s₂ : Compilation I O} : Moves cx s s₁ → Moves cx s₁ s₂ → Moves cx s s₂
  | referred (s : Compilation I O) (name : String) :
    Moves cx s { s with synthesis := s.synthesis.reference name }
  | field {s s' : Compilation I O} (site : Option FieldSite) :
    Moves cx { s with site } s' → Moves cx s { s' with site := s.site }
  | adopted {s : Compilation I O} {key : RoutineKey} {linked : Linked I O} :
    s.Lacks cx key → cx.cached key = some linked → Moves cx s (s.adopted key linked)
  | refused (s : Compilation I O) (record : String) :
    Moves cx s { s with names := (s.names.fresh cx.mode.direction record).2 }
  | abandoned {s s' : Compilation I O} {key : RoutineKey} :
    s.Lacks cx key → s.drawn key ∉ s.synthesis.opened → Moves cx (s.begun key) s' →
    Moves cx s (s.outside key s')
  | compiled {s s' : Compilation I O} {key : RoutineKey} {record : RecordType}
      {fields : List (Field × Converter)} :
    s.Lacks cx key → cx.cached key = none → s.drawn key ∉ s.synthesis.opened →
    cx.schema.record? key.record = some record →
    fields.map Prod.fst = cx.mode.fields record key.config →
    (∀ f c, (f, c) ∈ fields → Compiles cx.schema cx.registry (s'.binds cx.mode.direction)
      ⟨key.config, f.discriminator⟩ f.type c) →
    Moves cx (s.begun key) s' →
    Moves cx s (s.completed key (cx.mode.draft record key.config (s.drawn key) fields) s')

namespace Compilation

variable {cx : Context I O} {s s' : Compilation I O} {key : RoutineKey}

theorem Extends.leave (h : Extends (s.begun key) s') : s'.guard.leave key = s.guard := by
  rw [h.guard]
  exact RecursionGuard.leave_enter key _ s.guard

theorem Extends.fresh_inside (h : Extends (s.begun key) s') {e : RoutineKey × String}
    (mem : e ∈ s'.known) : e ∈ s.known ∨ s.guard.name? e.1 = none ∧ e.1 ≠ key :=
  (h.fresh e mem).imp id RecursionGuard.name?_of_enter

theorem Lacks.unknown_inside (lacks : s.Lacks cx key) (h : Extends (s.begun key) s') :
    Assoc.get? key s'.known = none := by
  rw [Assoc.get?_eq_none_iff]
  intro mem
  obtain ⟨e, known, rfl⟩ := List.mem_map.1 mem
  rcases h.fresh_inside known with before | ⟨-, other⟩
  · exact Assoc.get?_eq_none_iff.1 lacks.unknown (List.mem_map_of_mem before)
  · exact other rfl

end Compilation

/-- From the session on, the action does what actions can do. -/
def MovesFrom (cx : Context I O) (action : Action I O α) (s : Compilation I O) : Prop :=
  ∀ ⦃result s'⦄, action.run s = some (result, s') → Moves cx s s'

structure MovesTypes (cx : Context I O) (inner : TypeExpr → Action I O Converter) : Prop where
  moves : ∀ ty s, MovesFrom cx (inner ty) s
  compiles : CompilesTypes cx (fun _ => True) inner

namespace MovesFrom

variable {cx : Context I O} {s : Compilation I O}

theorem pure (x : α) : MovesFrom cx (Pure.pure x) s := by
  intro result s' h
  cases h
  exact .refl s

theorem throw (e : Failure) : MovesFrom cx (throw e : Action I O α) s := by
  intro result s' h
  cases h
  exact .refl s

theorem unfinished : MovesFrom cx (Action.unfinished : Action I O α) s := by
  intro result s' h
  cases h

theorem ofExcept (r : Except Failure α) : MovesFrom cx (Action.ofExcept r) s := by
  intro result s' h
  cases h
  exact .refl s

theorem state : MovesFrom cx Action.state s := by
  intro result s' h
  cases h
  exact .refl s

theorem modify {f : Compilation I O → Compilation I O} (h : Moves cx s (f s)) :
    MovesFrom cx (Action.modify f) s := by
  intro result s' ran
  cases ran
  exact h

theorem bind {action : Action I O α} {next : α → Action I O β} (first : MovesFrom cx action s)
    (others : ∀ x s', Gives action s x s' → MovesFrom cx (next x) s') :
    MovesFrom cx (action >>= next) s := by
  intro result s' h
  change (action.run s >>= fun ending => _ : Option _) = _ at h
  cases ran : action.run s with
  | none =>
    rw [ran] at h
    cases h
  | some ending =>
    obtain ⟨result₁, s₁⟩ := ending
    have before := first ran
    rw [ran] at h
    cases result₁ with
    | ok x => exact before.trans (others x s₁ ran h)
    | error e =>
      cases h
      exact before

theorem mapError {f : Failure → Failure} {action : Action I O α} (h : MovesFrom cx action s) :
    MovesFrom cx (action.mapError f) s := by
  intro result s' ran
  change (action.run s).map _ = _ at ran
  obtain ⟨⟨result₁, s₁⟩, inner, same⟩ := Option.map_eq_some_iff.1 ran
  cases same
  exact h inner

theorem mapM {action : α → Action I O β} (h : ∀ x s, MovesFrom cx (action x) s) (xs : List α) :
    MovesFrom cx (xs.mapM action) s := by
  induction xs generalizing s with
  | nil =>
    rw [List.mapM_nil]
    exact .pure []
  | cons x rest ih =>
    rw [List.mapM_cons]
    exact (h x s).bind fun _ _ _ => ih.bind fun _ _ _ => .pure _

theorem inField {record : RecordType} {field : Field} {action : Action I O α}
    (h : ∀ s, MovesFrom cx action s) : MovesFrom cx (inField record field action) s := by
  intro result s' ran
  simp only [Compile.inField, Action.within, ExceptT.run_mk] at ran
  split at ran
  case h_1 result₁ s₁ inner =>
    cases ran
    exact .field _ (h _ inner)
  case h_2 => cases ran

end MovesFrom

section
variable {cx : Context I O} {s : Compilation I O} {inner : TypeExpr → Action I O Converter}

theorem adopt_moves {key : RoutineKey} {linked : Linked I O} (lacks : s.Lacks cx key)
    (cached : cx.cached key = some linked) : MovesFrom cx (adopt key linked) s := by
  intro result s' ran
  cases ran
  exact .adopted lacks cached

theorem nestedConfig_moves (record : String) : MovesFrom cx (nestedConfig cx record) s :=
  (MovesFrom.ofExcept _).bind fun _ _ _ => MovesFrom.state.bind fun _ _ _ => .pure _

theorem compileFields_moves (types : MovesTypes cx inner) (record : RecordType)
    (fields : List Field) : MovesFrom cx (compileFields inner record fields) s := by
  induction fields generalizing s with
  | nil => exact .pure []
  | cons f rest ih =>
    have first :
        MovesFrom cx ((inField record f (inner f.type)).mapError (Failure.atKey f.name)) s :=
      (MovesFrom.inField (types.moves f.type)).mapError
    exact first.bind fun _ _ _ => ih.bind fun _ _ _ => .pure _

theorem openRoutine_run (name : String) : (openRoutine name).run s =
    if name ∈ s.synthesis.opened then some (.error (.of (.duplicateRoutine name)), s)
    else some (.ok (),
      { s with synthesis := { s.synthesis with opened := s.synthesis.opened ++ [name] } }) := by
  by_cases taken : name ∈ s.synthesis.opened
  · have refuses : s.synthesis.openRoutine name = .error (.of (.duplicateRoutine name)) := by
      rw [Synthesis.openRoutine, if_pos (List.contains_iff_mem.2 taken)]
    change (Action.ofExcept (s.synthesis.openRoutine name) >>= fun synthesis =>
      Action.modify fun s => { s with synthesis } : Action I O Unit).run s = _
    rw [refuses, if_pos taken]
    rfl
  · have opens : s.synthesis.openRoutine name =
        .ok { s.synthesis with opened := s.synthesis.opened ++ [name] } := by
      rw [Synthesis.openRoutine, if_neg (by simpa using taken)]
    rw [if_neg taken]
    exact Gives.bind_iff.2 ⟨s, s, Gives.state_iff.2 ⟨rfl, rfl⟩,
      Gives.bind_iff.2 ⟨_, s, Gives.ofExcept_iff.2 ⟨opens, rfl⟩, rfl⟩⟩

theorem openRoutine_extends {name : String} {s' : Compilation I O}
    (h : Gives (openRoutine name) s () s') : Extends s s' := by
  rw [Gives, openRoutine_run] at h
  split at h
  · cases h
  · cases h
    exact ⟨rfl, rfl, rfl, fun _ mem => mem, fun _ mem => .inl mem⟩

section
variable (types : MovesTypes cx inner) {key : RoutineKey} {declared : RecordType}
  (lacks : s.Lacks cx key) {s' : Compilation I O}
include types lacks

/-- A routine that is given up was refused its name, or one of its fields did not compile. -/
theorem moves_of_abandoned {e : Failure}
    (h : (inRoutine key (s.drawn key)
        (compileRoutine cx inner declared key.config (s.drawn key))).run
      { s with names := (s.names.fresh key.direction key.record).2 } = some (.error e, s')) :
    Moves cx s s' := by
  obtain ⟨s₁, ran, rfl⟩ : ∃ s₁, (compileRoutine cx inner declared key.config (s.drawn key)).run
      (Compilation.inside key (s.drawn key)
        { s with names := (s.names.fresh key.direction key.record).2 }) = some (.error e, s₁) ∧
      s' = s.outside key s₁ := by
    simp only [inRoutine, Action.within, ExceptT.run_mk] at h
    split at h
    case h_1 result s₁ ran =>
      cases h
      exact ⟨s₁, ran, rfl⟩
    case h_2 => cases h
  change ((openRoutine (s.drawn key)).run _ >>= fun ending => _ : Option _) = _ at ran
  rw [openRoutine_run] at ran
  split at ran
  case isTrue =>
    cases ran
    have back : s.outside key (Compilation.inside key (s.drawn key)
        { s with names := (s.names.fresh key.direction key.record).2 }) =
        { s with names := (s.names.fresh cx.mode.direction key.record).2 } := by
      rw [← lacks.direction]
      simp only [Compilation.outside, Compilation.inside, RecursionGuard.leave_enter]
    rw [back]
    exact .refused s key.record
  case isFalse unopened =>
    refine .abandoned lacks unopened ?_
    change ((compileFields inner declared (cx.mode.fields declared key.config)).run
      (s.begun key) >>= fun ending => _ : Option _) = _ at ran
    have fields := compileFields_moves types declared (cx.mode.fields declared key.config)
      (s := s.begun key)
    cases fills : (compileFields inner declared (cx.mode.fields declared key.config)).run
        (s.begun key) with
    | none =>
      rw [fills] at ran
      cases ran
    | some ending =>
      rw [fills] at ran
      obtain ⟨result, s₂⟩ := ending
      cases result with
      | ok out => cases ran
      | error e' =>
        cases ran
        exact fields fills

theorem moves_of_compiled (isDeclared : cx.schema.record? key.record = some declared)
    (uncached : cx.cached key = none)
    (h : Gives (inRoutine key (s.drawn key)
        (compileRoutine cx inner declared key.config (s.drawn key)))
      { s with names := (s.names.fresh key.direction key.record).2 } () s') :
    Moves cx s { s' with
      known := Assoc.insert key (s.drawn key) s'.known
      compiled := s'.compiled ++ [(key, s.drawn key)] } := by
  rw [inRoutine, Gives.within_iff] at h
  obtain ⟨inside, h, rfl⟩ := h
  obtain ⟨_, opened, opens, h⟩ := Gives.bind_iff.1 h
  obtain ⟨fields, filled, fills, submits⟩ := Gives.bind_iff.1 h
  obtain rfl := Gives.modify_iff.1 submits
  rw [Gives, openRoutine_run] at opens
  split at opens
  case isTrue => cases opens
  case isFalse unopened =>
    cases opens
    obtain ⟨-, -, all, compiled⟩ :=
      compileFields_gives types.compiles (fun _ _ _ _ => trivial) trivial fills
    exact .compiled lacks uncached unopened isDeclared all compiled
      (compileFields_moves types declared _ fills)

end

theorem ensureRoutine_moves (types : MovesTypes cx inner) (record : String) (config : Config) :
    MovesFrom cx (ensureRoutine cx inner record config) s := by
  refine MovesFrom.state.bind fun before s₁ reads => ?_
  obtain ⟨rfl, rfl⟩ := Gives.state_iff.1 reads
  split
  case h_1 => exact .pure _
  case h_2 linked absent cached =>
    rw [Option.or_eq_none_iff] at absent
    exact adopt_moves ⟨rfl, absent.1, absent.2⟩ cached
  case h_3 absent uncached =>
    rw [Option.or_eq_none_iff] at absent
    refine (MovesFrom.ofExcept _).bind fun declared _ finds => ?_
    obtain ⟨isDeclared, rfl⟩ := Gives.ofExcept_iff.1 finds
    refine (MovesFrom.ofExcept _).bind fun _ s₁ checks => ?_
    obtain ⟨-, rfl⟩ := Gives.ofExcept_iff.1 checks
    have lacks : Lacks cx s₁ ⟨record, config, cx.mode.direction⟩ := ⟨rfl, absent.1, absent.2⟩
    -- the routine ends well and becomes known, or the session fails inside it
    intro result s' ran
    change ((inRoutine ⟨record, config, cx.mode.direction⟩
        (s₁.drawn ⟨record, config, cx.mode.direction⟩) (compileRoutine cx inner declared config
          (s₁.drawn ⟨record, config, cx.mode.direction⟩))).run
        { s₁ with names := (s₁.names.fresh cx.mode.direction record).2 } >>= fun ending => _ :
      Option _) = _ at ran
    cases inside : (inRoutine ⟨record, config, cx.mode.direction⟩
        (s₁.drawn ⟨record, config, cx.mode.direction⟩) (compileRoutine cx inner declared config
          (s₁.drawn ⟨record, config, cx.mode.direction⟩))).run
        { s₁ with names := (s₁.names.fresh cx.mode.direction record).2 } with
    | none =>
      rw [inside] at ran
      cases ran
    | some ending =>
      obtain ⟨result₁, s₂⟩ := ending
      rw [inside] at ran
      cases result₁ with
      | ok =>
        cases ran
        exact moves_of_compiled types lacks (findRecord_eq_ok.1 isDeclared) uncached inside
      | error e =>
        cases ran
        exact moves_of_abandoned types lacks inside

theorem ensureRoutine_binds {name routine : String} {config : Config} {s' : Compilation I O}
    (h : Gives (ensureRoutine cx inner name config) s routine s') :
    s'.binds cx.mode.direction routine name config := by
  have ran := h
  rw [ensureRoutine, Gives.bind_iff] at h
  obtain ⟨_, _, state, h⟩ := h
  obtain ⟨rfl, rfl⟩ := Gives.state_iff.1 state
  split at h
  case h_1 present =>
    obtain ⟨rfl, rfl⟩ := Gives.pure_iff.1 h
    exact (Option.or_eq_some_iff.1 present).imp Assoc.mem_of_get? fun known =>
      Assoc.mem_of_get? known.2
  case h_2 =>
    cases h
    exact .inr (Assoc.mem_of_get? (Assoc.get?_insert_self _ _ _))
  case h_3 absent uncached =>
    obtain ⟨-, after, -, -, -, rfl⟩ := compiled_of_gives absent uncached ran
    exact .inr (Assoc.mem_of_get? (Assoc.get?_insert_self _ _ _))

theorem recordConverter_moves (types : MovesTypes cx inner) (record : String) (config : Config) :
    MovesFrom cx (recordConverter cx inner record config) s :=
  (ensureRoutine_moves types record config).bind fun _ _ _ =>
    (MovesFrom.modify (.referred _ _)).bind fun _ _ _ => .pure _

theorem armConverter_moves (types : MovesTypes cx inner) (arm : UnionArm) :
    MovesFrom cx (armConverter cx inner arm) s := by
  unfold armConverter
  split
  · exact recordConverter_moves types _ _
  · exact types.moves _ _

theorem planArm_moves (key : String) (autoTag : Bool) (arm : TypeExpr) :
    MovesFrom cx (planArm cx key autoTag arm) s := by
  unfold planArm
  split
  · exact .pure _
  · exact (nestedConfig_moves _).bind fun _ _ _ => .pure _

theorem planArms_moves (key : String) (autoTag : Bool) (refuse : String → Failure)
    (seen : List String) (tys : List TypeExpr) :
    MovesFrom cx (planArms cx key autoTag refuse seen tys) s := by
  induction tys generalizing s seen with
  | nil => exact .pure _
  | cons ty rest ih =>
    refine (planArm_moves key autoTag ty).bind fun _ _ _ => ?_
    have tail : ∀ (planned : UnionArm) seen s₁,
        MovesFrom cx (planArms cx key autoTag refuse seen rest >>=
          fun others => pure (planned :: others)) s₁ :=
      fun _ seen _ => (ih seen).bind fun _ _ _ => .pure _
    split
    · split
      · exact .bind (.throw _) fun _ _ _ => tail _ _ _
      · exact tail _ _ _
    · exact tail _ _ _

theorem planUnion_moves (ty : TypeExpr) : MovesFrom cx (planUnion cx ty) s := by
  refine MovesFrom.state.bind fun _ _ _ => (planArms_moves _ _ _ _ _).bind fun arms s₁ _ => ?_
  split
  · exact .bind (.throw _) fun _ _ _ => .pure _
  · exact .pure _

theorem handle_moves (types : MovesTypes cx inner) (handler : Handler) (ty : TypeExpr) :
    MovesFrom cx (handle cx inner handler ty) s := by
  have one : ∀ build : Converter → Converter,
      MovesFrom cx (do pure (build (← inner (ty.arg 0)))) s :=
    fun build => (types.moves _ s).bind fun _ _ _ => .pure _
  have two : ∀ build : Converter → Converter → Converter,
      MovesFrom cx (do
        let key ← inner (ty.arg 0)
        let item ← inner (ty.arg 1)
        pure (build key item)) s :=
    fun build =>
      (types.moves _ s).bind fun _ _ _ => (types.moves _ _).bind fun _ _ _ => .pure _
  cases handler with
  | scalar | literal | custom => exact .pure _
  | optional => exact one .optional
  | sequence => exact one (.items .list)
  | set => exact one (.items .set)
  | variadicTuple => exact one (.items .tuple)
  | fixedTuple => exact (MovesFrom.mapM types.moves _).bind fun _ _ _ => .pure _
  | mapping => exact two .mapping
  | defaultMapping =>
    exact two fun key item => .defaultMapping key item (Converter.zeroOf (ty.arg 1))
  | enumeration => exact (MovesFrom.ofExcept _).bind fun _ _ _ => .pure _
  | union =>
    exact (planUnion_moves ty).bind fun _ _ _ =>
      (MovesFrom.mapM (fun arm _ => armConverter_moves types arm) _).bind fun _ _ _ => .pure _
  | record =>
    rw [handle]
    split
    · exact (nestedConfig_moves _).bind fun _ _ _ => recordConverter_moves types _ _
    · exact .throw _

end

namespace Moves

variable {cx : Context I O} {s s' : Compilation I O}

/-- The configuration, the site and the stack of routines are put back, and only records that were
not being compiled get names. -/
theorem extend (h : Moves cx s s') : Extends s s' := by
  induction h with
  | refl s => exact .refl s
  | trans _ _ first second => exact first.trans second
  | referred | refused => exact ⟨rfl, rfl, rfl, fun _ mem => mem, fun _ mem => .inl mem⟩
  | field site _ ih => exact ⟨ih.config, rfl, ih.guard, ih.known, ih.fresh⟩
  | adopted lacks _ =>
    refine ⟨rfl, rfl, rfl, fun e mem => (mem_insert_known lacks.unknown).2 (.inl mem), ?_⟩
    intro e mem
    rcases (mem_insert_known lacks.unknown).1 mem with mem | rfl
    · exact .inl mem
    · exact .inr lacks.idle
  | abandoned lacks _ _ ih =>
    exact ⟨rfl, rfl, ih.leave, ih.known, fun e mem => (ih.fresh_inside mem).imp id And.left⟩
  | compiled lacks _ _ _ _ _ _ ih =>
    have unknown := lacks.unknown_inside ih
    refine ⟨rfl, rfl, ih.leave, fun e mem => (mem_insert_known unknown).2 (.inl (ih.known e mem)),
      ?_⟩
    intro e mem
    rcases (mem_insert_known unknown).1 mem with mem | rfl
    · exact (ih.fresh_inside mem).imp id And.left
    · exact .inr lacks.idle

theorem compiled_nodup (h : Moves cx s s') (known : ∀ e ∈ s.compiled, e ∈ s.known)
    (distinct : (s.compiled.map Prod.fst).Nodup) :
    (∀ e ∈ s'.compiled, e ∈ s'.known) ∧ (s'.compiled.map Prod.fst).Nodup := by
  induction h with
  | refl | referred | refused => exact ⟨known, distinct⟩
  | trans _ _ first second =>
    obtain ⟨known₁, distinct₁⟩ := first known distinct
    exact second known₁ distinct₁
  | field _ _ ih | abandoned _ _ _ ih => exact ih known distinct
  | adopted lacks _ =>
    exact ⟨fun e mem => (mem_insert_known lacks.unknown).2 (.inl (known e mem)), distinct⟩
  | @compiled s s₁ key _ _ lacks _ _ _ _ _ moves ih =>
    obtain ⟨known₁, distinct₁⟩ := ih known distinct
    have unknown := lacks.unknown_inside moves.extend
    have new : key ∉ s₁.compiled.map Prod.fst := by
      intro mem
      obtain ⟨e, compiled, rfl⟩ := List.mem_map.1 mem
      exact Assoc.get?_eq_none_iff.1 unknown (List.mem_map_of_mem (known₁ e compiled))
    constructor
    · intro e mem
      rcases List.mem_append.1 mem with mem | mem
      · exact (mem_insert_known unknown).2 (.inl (known₁ e mem))
      · exact (mem_insert_known unknown).2 (.inr (List.mem_singleton.1 mem))
    · rw [Compilation.completed, List.map_append, List.map_singleton]
      refine List.nodup_append.2 ⟨distinct₁, List.pairwise_singleton _ _, fun k mem k' last => ?_⟩
      obtain rfl := List.mem_singleton.1 last
      exact fun same => new (same ▸ mem)

theorem environment (h : Moves cx s s') : ∀ e ∈ s'.environment, e ∈ s.environment ∨
    ∃ key, key.direction = cx.mode.direction ∧ cx.cached key = some e.2 := by
  induction h with
  | refl | referred | refused => exact fun e mem => .inl mem
  | trans _ _ first second =>
    intro e mem
    rcases second e mem with mem | found
    · exact first e mem
    · exact .inr found
  | field _ _ ih | abandoned _ _ _ ih | compiled _ _ _ _ _ _ _ ih => exact ih
  | adopted lacks cached =>
    intro e mem
    rcases Assoc.mem_insert mem with rfl | mem
    · exact .inr ⟨_, lacks.direction, cached⟩
    · exact .inl mem

end Moves

section
variable {cx : Context I O} {s s' : Compilation I O}

theorem recordConverter_calls {inner : TypeExpr → Action I O Converter}
    (types : MovesTypes cx inner) : CallsRecords cx (fun _ => True) inner := by
  intro name config s c s' _ h
  have more := (recordConverter_moves types name config h).extend
  rw [recordConverter, Gives.bind_iff] at h
  obtain ⟨routine, s₁, ensures, refers⟩ := h
  have bound := ensureRoutine_binds ensures
  cases refers
  exact ⟨trivial, more, routine, rfl, bound⟩

theorem converterFor_moves (fuel : Nat) : MovesTypes cx (converterFor cx fuel) := by
  induction fuel with
  | zero => exact ⟨fun ty s => .unfinished, fun ty s c s' _ h => by simp [converterFor] at h⟩
  | succ fuel ih =>
    refine ⟨fun ty s => (MovesFrom.ofExcept _).bind fun _ _ _ => handle_moves ih _ _, ?_⟩
    intro ty s c s' _ h
    rw [converterFor, Gives.bind_iff] at h
    obtain ⟨⟨handler, target⟩, s₁, resolves, h⟩ := h
    obtain ⟨handled, rfl⟩ := Gives.ofExcept_iff.1 resolves
    exact handle_gives ih.compiles (recordConverter_calls ih) handled trivial h

end
end RecordCodec.Compile
