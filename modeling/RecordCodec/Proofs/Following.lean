import RecordCodec.Proofs.Checking
import RecordCodec.Proofs.Linkable

set_option autoImplicit false

/-!
# Actions that end as their checks do

An action mirrors a check if it fails with the same error or succeeds where the check passes. It
follows the check if, moreover, all records that the session knows afterwards pass their checks.
-/
namespace RecordCodec.Compile

open Routine Direct Compilation

variable {I O α β : Type} {cx : Context I O} {s s' : Compilation I O}

/-- The same with nothing in the cache. -/
def Context.fresh (cx : Context I O) : Context I O := { cx with cached := fun _ => none }

def Compilation.spot (s : Compilation I O) : Spot := ⟨s.config, s.site⟩

theorem Compilation.Extends.spot (h : Extends s s') : s'.spot = s.spot := by
  rw [Compilation.spot, Compilation.spot, h.config, h.site]

/-- The actions leave their sessions and have the same result. -/
def Alike (action : Action I O α) (s : Compilation I O) (action' : Action I O α)
    (s' : Compilation I O) : Prop :=
  ∃ result, action.run s = some (result, s) ∧ action'.run s' = some (result, s')

namespace Alike

theorem pure (x : α) : Alike (Pure.pure x) s (Pure.pure x) s' := ⟨_, rfl, rfl⟩

theorem throw (e : Failure) : Alike (throw e : Action I O α) s (throw e) s' := ⟨_, rfl, rfl⟩

theorem ofExcept (r : Except Failure α) : Alike (Action.ofExcept r) s (Action.ofExcept r) s' :=
  ⟨_, rfl, rfl⟩

theorem bind {action action' : Action I O α} {next next' : α → Action I O β}
    (first : Alike action s action' s') (others : ∀ x, Alike (next x) s (next' x) s') :
    Alike (action >>= next) s (action' >>= next') s' := by
  obtain ⟨result, ran, ran'⟩ := first
  change ∃ ending, (action.run s >>= fun ending => _ : Option _) = _ ∧
    (action'.run s' >>= fun ending => _ : Option _) = _
  rw [ran, ran']
  cases result with
  | ok x => exact others x
  | error e => exact ⟨.error e, rfl, rfl⟩

theorem state {next next' : Compilation I O → Action I O α} (h : Alike (next s) s (next' s') s') :
    Alike (Action.state >>= next) s (Action.state >>= next') s' := h

end Alike

section
variable (same : s'.spot = s.spot)
include same

theorem nestedConfig_alike (record : String) :
    Alike (nestedConfig cx record) s (nestedConfig cx.fresh record) s' := by
  have config : s'.config = s.config := congrArg Spot.config same
  refine (Alike.ofExcept _).bind fun declared => .state ?_
  rw [config]
  exact .pure _

theorem planArm_alike (key : String) (autoTag : Bool) (arm : TypeExpr) :
    Alike (planArm cx key autoTag arm) s (planArm cx.fresh key autoTag arm) s' := by
  unfold planArm
  split
  · exact .pure _
  · exact (nestedConfig_alike same _).bind fun _ => .pure _

theorem planArms_alike (key : String) (autoTag : Bool) (refuse : String → Failure)
    (seen : List String) (tys : List TypeExpr) :
    Alike (planArms cx key autoTag refuse seen tys) s
      (planArms cx.fresh key autoTag refuse seen tys) s' := by
  induction tys generalizing seen with
  | nil => exact .pure _
  | cons ty rest ih =>
    refine (planArm_alike same key autoTag ty).bind fun planned => ?_
    have tail : ∀ seen, Alike (planArms cx key autoTag refuse seen rest >>=
        fun others => pure (planned :: others)) s
        (planArms cx.fresh key autoTag refuse seen rest >>=
          fun others => pure (planned :: others)) s' := fun seen =>
      (ih seen).bind fun _ => .pure _
    split
    · split
      · exact .bind (.throw _) fun _ => tail _
      · exact tail _
    · exact tail _

theorem planUnion_alike (ty : TypeExpr) :
    Alike (planUnion cx ty) s (planUnion cx.fresh ty) s' := by
  have config : s'.config = s.config := congrArg Spot.config same
  have site : s'.site = s.site := congrArg Spot.site same
  have sameOwner : owner s' = owner s := by rw [owner, owner, site]
  have sameKey : unionKey s' = unionKey s := by rw [unionKey, unionKey, config, site]
  refine .state ?_
  rw [sameOwner, sameKey, config]
  refine (planArms_alike same _ _ _ _ _).bind fun arms => ?_
  split
  · exact .bind (.throw _) fun _ => .pure _
  · exact .pure _

end

def Reads (action : Action I O α) (s : Compilation I O) (r : Run α) : Prop :=
  action.run s = r.run.map fun result => (result, s)

theorem ofExcept_reads (r : Except Failure α) :
    Reads (Action.ofExcept r : Action I O α) s (Run.ofExcept r) := rfl

theorem nestedConfig_reads (record : String) :
    Reads (nestedConfig cx record) s (do
      let _ ← Run.ofExcept (cx.schema.findRecord record)
      pure (s.spot.position.nestedConfig cx.schema record)) := by
  cases found : cx.schema.findRecord record with
  | error e =>
    rw [Reads, nestedConfig, found]
    rfl
  | ok declared =>
    rw [Reads, nestedConfig, Position.nestedConfig_of_declared (findRecord_eq_ok.1 found), found]
    rfl

theorem planUnion_reads (ty : TypeExpr) :
    Reads (planUnion cx ty) s (planAt cx.fresh s.spot ty) := by
  let bare : Compilation I O := { config := s.config, site := s.site }
  have same : bare.spot = s.spot := rfl
  obtain ⟨result, ran, ran'⟩ := planUnion_alike same ty
  have answer : (planAt cx.fresh s.spot ty).run = some result := by
    change ((planUnion cx.fresh ty).run bare).map Prod.fst = _
    rw [ran']
    rfl
  rw [Reads, ran, answer]
  rfl

namespace Compilation

/-- The session is sound and in order, and every record that it knows passes the check. -/
structure Settled (cx : Context I O) (s : Compilation I O) : Prop where
  sound : Sound cx s
  orderly : s.Orderly cx.mode.direction
  good : ∀ e ∈ s.known, Good cx.fresh s.guard.keys (e.1.record, e.1.config)

theorem Settled.relocate (h : Settled cx s) (config : Config) (site : Option FieldSite) :
    Settled cx { s with config, site } :=
  ⟨h.sound.relocate config site, h.orderly.relocate config site, h.good⟩

end Compilation

def Mirrors (action : Action I O α) (s : Compilation I O) (r : Run Unit) : Prop :=
  (action.run s).map (fun ending => ending.1.map fun _ => ()) = r.run

/-- The action ends as the check does, and leaves a settled session behind if it succeeds. -/
structure Follows (cx : Context I O) (action : Action I O α) (s : Compilation I O) (r : Run Unit) :
    Prop where
  mirrors : Mirrors action s r
  settles : ∀ ⦃x s'⦄, Gives action s x s' → Settled cx s' ∧ Extends s s'

namespace Mirrors

theorem pure (x : α) : Mirrors (Pure.pure x) s (Pure.pure ()) := rfl

theorem of_reads {action : Action I O α} {r : Run α} {next : α → Action I O β}
    {rest : α → Run Unit} (first : Reads action s r)
    (others : ∀ x, r.Returns x → Mirrors (next x) s (rest x)) :
    Mirrors (action >>= next) s (r >>= rest) := by
  change (action.run s >>= fun ending => _ : Option _).map _ = (r >>= rest).run
  rw [Run.bind_run, first]
  cases ran : r.run with
  | none => rfl
  | some result =>
    cases result with
    | ok x => exact others x ran
    | error e => rfl

theorem bind {action : Action I O α} {next : α → Action I O β} {r r' : Run Unit}
    (first : Mirrors action s r)
    (others : ∀ x s₁, Gives action s x s₁ → Mirrors (next x) s₁ r') :
    Mirrors (action >>= next) s (r >>= fun _ => r') := by
  change (action.run s >>= fun ending => _ : Option _).map _ = (r >>= fun _ => r').run
  rw [Run.bind_run, ← first]
  cases ran : action.run s with
  | none => rfl
  | some ending =>
    obtain ⟨result, s₁⟩ := ending
    cases result with
    | ok x => exact others x s₁ ran
    | error e => rfl

theorem andThen {action : Action I O α} {next : α → Action I O β} {r : Run Unit}
    (first : Mirrors action s r)
    (others : ∀ x s₁, Gives action s x s₁ → Mirrors (next x) s₁ (Pure.pure ())) :
    Mirrors (action >>= next) s r := by
  have whole := first.bind others
  rwa [show (r >>= fun _ => Pure.pure ()) = r from bind_pure r] at whole

theorem of_gives {action : Action I O α} {next : α → Action I O β} {r : Run Unit} {x : α}
    {s₁ : Compilation I O} (first : Gives action s x s₁) (others : Mirrors (next x) s₁ r) :
    Mirrors (action >>= next) s r := by
  change (action.run s >>= fun ending => _ : Option _).map _ = r.run
  rw [show action.run s = _ from first]
  exact others

theorem mapError {action : Action I O α} {r : Run Unit} (f : Failure → Failure)
    (h : Mirrors action s r) : Mirrors (action.mapError f) s (r.mapError f) := by
  change ((action.run s).map _).map _ = r.run.map (Except.mapError f)
  rw [← h]
  cases action.run s with
  | none => rfl
  | some ending =>
    obtain ⟨result, s₁⟩ := ending
    cases result <;> rfl

theorem within {enter : Compilation I O → Compilation I O}
    {leave : Compilation I O → Compilation I O → Compilation I O} {action : Action I O α}
    {r : Run Unit} (h : Mirrors action (enter s) r) :
    Mirrors (Action.within enter leave action) s r := by
  rw [Mirrors, ← h]
  simp only [Action.within, ExceptT.run_mk]
  cases action.run (enter s) <;> rfl

theorem returns {action : Action I O α} {r : Run Unit} (h : Mirrors action s r)
    {x : α} (gives : Gives action s x s') : r.Returns () := by
  have ran : action.run s = some (.ok x, s') := gives
  rw [Run.Returns, ← h, ran]
  rfl

end Mirrors

namespace Follows

theorem of_gives {action : Action I O α} {r : Run Unit} {x : α} (gives : Gives action s x s')
    (passes : r.Returns ()) (settled : Settled cx s') (more : Extends s s') :
    Follows cx action s r := by
  have ran : action.run s = some (.ok x, s') := gives
  refine ⟨?_, fun y s₁ gives' => ?_⟩
  · rw [Mirrors, ran, show r.run = _ from passes]
    rfl
  · cases gives'.symm.trans gives
    exact ⟨settled, more⟩

theorem pure (settled : Settled cx s) (x : α) : Follows cx (Pure.pure x) s (Pure.pure ()) where
  mirrors := .pure x
  settles _ _ gives := by
    obtain ⟨-, rfl⟩ := Gives.pure_iff.1 gives
    exact ⟨settled, .refl _⟩

theorem throw (e : Failure) : Follows cx (throw e : Action I O α) s (throw e) :=
  ⟨rfl, fun _ _ gives => by cases gives⟩

theorem unfinished : Follows cx (Action.unfinished : Action I O α) s (ExceptT.mk none) :=
  ⟨rfl, fun _ _ gives => by cases gives⟩

theorem of_reads {action : Action I O α} {r : Run α} {next : α → Action I O β}
    {rest : α → Run Unit} (first : Reads action s r)
    (others : ∀ x, r.Returns x → Follows cx (next x) s (rest x)) :
    Follows cx (action >>= next) s (r >>= rest) where
  mirrors := .of_reads first fun x returns => (others x returns).mirrors
  settles y s₂ gives := by
    obtain ⟨x, s₁, ran, gives⟩ := Gives.bind_iff.1 gives
    have read : (r.run.map fun result => (result, s)) = some (.ok x, s₁) := first.symm.trans ran
    obtain ⟨result, returns, same⟩ := Option.map_eq_some_iff.1 read
    cases same
    exact (others x returns).settles gives

theorem bind {action : Action I O α} {next : α → Action I O β} {r r' : Run Unit}
    (first : Follows cx action s r)
    (others : ∀ x s₁, Gives action s x s₁ → Settled cx s₁ → Extends s s₁ →
      Follows cx (next x) s₁ r') :
    Follows cx (action >>= next) s (r >>= fun _ => r') where
  mirrors := first.mirrors.bind fun x s₁ gives =>
    have ⟨settled, more⟩ := first.settles gives
    (others x s₁ gives settled more).mirrors
  settles y s₂ gives := by
    obtain ⟨x, s₁, ran, gives⟩ := Gives.bind_iff.1 gives
    obtain ⟨settled, more⟩ := first.settles ran
    obtain ⟨settled₂, more₂⟩ := (others x s₁ ran settled more).settles gives
    exact ⟨settled₂, more.trans more₂⟩

theorem andThen {action : Action I O α} {next : α → Action I O β} {r : Run Unit}
    (first : Follows cx action s r)
    (others : ∀ x s₁, Gives action s x s₁ → Settled cx s₁ → Extends s s₁ →
      Follows cx (next x) s₁ (Pure.pure ())) :
    Follows cx (action >>= next) s r := by
  have whole := first.bind others
  rwa [show (r >>= fun _ => Pure.pure ()) = r from bind_pure r] at whole

theorem map {action : Action I O α} {r : Run Unit} (h : Follows cx action s r) (build : α → β) :
    Follows cx (action >>= fun x => Pure.pure (build x)) s r :=
  h.andThen fun x _ _ settled _ => .pure settled (build x)

theorem mapError {action : Action I O α} {r : Run Unit} (f : Failure → Failure)
    (h : Follows cx action s r) : Follows cx (action.mapError f) s (r.mapError f) :=
  ⟨h.mirrors.mapError f, fun _ _ gives => h.settles (Gives.mapError_iff.1 gives)⟩

theorem mapM {action : α → Action I O β} {check : α → Run Unit} {xs : List α}
    (settled : Settled cx s)
    (h : ∀ x ∈ xs, ∀ s', Settled cx s' → Extends s s' → Follows cx (action x) s' (check x)) :
    Follows cx (xs.mapM action) s (checkAll (xs.map check)) := by
  induction xs generalizing s with
  | nil =>
    rw [List.mapM_nil]
    exact .pure settled []
  | cons x rest ih =>
    rw [List.mapM_cons]
    refine (h x List.mem_cons_self s settled (.refl s)).bind fun y s₁ _ settled₁ more => ?_
    refine (ih settled₁ fun x' mem s' settled' more' => ?_).map _
    exact h x' (List.mem_cons_of_mem _ mem) s' settled' (more.trans more')

end Follows

end RecordCodec.Compile
