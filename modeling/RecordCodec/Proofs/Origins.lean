import Mathlib.Data.List.Nodup
import RecordCodec.Proofs.Interpretation
import RecordCodec.Proofs.SessionMoves

set_option autoImplicit false

/-!
# Where routines come from

A session can account for each of its routines, in any schema: what it has compiled is the draft of
a key, and what it has taken over is what the cache holds for a key. One name may stand for two
records, but never for two configurations of one record, as these have different numbers.
-/
namespace RecordCodec.Compile

open Routine Compilation

variable {I O : Type} {cx : Context I O} {s s' : Compilation I O} {key : RoutineKey}
  {routine : String}

namespace Compilation

/-- The session has this name for the key, whose routine is being compiled or is there. -/
def holds (s : Compilation I O) (key : RoutineKey) (routine : String) : Prop :=
  (key, routine) ∈ s.guard.active ∨ (key, routine) ∈ s.known

/-- The session has drawn the name for the record and holds it for no other configuration of this
record. -/
def reserves (direction : Direction) (s : Compilation I O) : Binding := fun routine name config =>
  (∃ n, 1 ≤ n ∧ n ≤ s.names.count (NameScope.plainName direction name) ∧
    routine = NameScope.numbered (NameScope.plainName direction name) n) ∧
  ∀ key, s.holds key routine → key.record = name → key.config = config

def IsDraftOf (cx : Context I O) (s : Compilation I O) (key : RoutineKey) (d : Draft I O) : Prop :=
  IsDraft cx.schema cx.registry cx.mode (s.reserves cx.mode.direction) key.record key.config d

/-- What the later session holds is held before, or its name was drawn since. -/
structure Draws (direction : Direction) (s s' : Compilation I O) : Prop where
  count : ∀ name, s.names.count (NameScope.plainName direction name) ≤
    s'.names.count (NameScope.plainName direction name)
  later : ∀ {key routine}, s'.holds key routine → s.holds key routine ∨
    ∃ n, s.names.count (NameScope.plainName direction key.record) < n ∧
      routine = NameScope.numbered (NameScope.plainName direction key.record) n

theorem Draws.of_holds {direction : Direction} (names : s'.names = s.names)
    (held : ∀ {key routine}, s'.holds key routine → s.holds key routine) :
    Draws direction s s' :=
  ⟨fun _ => Nat.le_of_eq (by rw [names]), fun h => .inl (held h)⟩

/-- A name that is drawn later is no name that was drawn for the same record before. -/
theorem Draws.reserves {direction : Direction} (draws : Draws direction s s') {name : String}
    {config : Config} (h : s.reserves direction routine name config) :
    s'.reserves direction routine name config := by
  obtain ⟨⟨n, low, high, isName⟩, unique⟩ := h
  refine ⟨⟨n, low, Nat.le_trans high (draws.count name), isName⟩, fun key held same => ?_⟩
  rcases draws.later held with before | ⟨m, more, isOther⟩
  · exact unique key before same
  · rw [same] at more isOther
    have := NameScope.eq_of_numbered_eq low (by omega) (isName.symm.trans isOther)
    omega

theorem IsDraftOf.mono {d : Draft I O} (h : s.IsDraftOf cx key d)
    (draws : Draws cx.mode.direction s s') : s'.IsDraftOf cx key d :=
  IsDraft.mono h fun _ _ _ => draws.reserves

/-- Every routine of the session is accounted for. -/
structure Accounted (cx : Context I O) (s : Compilation I O) : Prop where
  directed : ∀ {key routine}, s.holds key routine → key.direction = cx.mode.direction
  numbered : ∀ {key routine}, s.holds key routine → ∃ n, 1 ≤ n ∧
    n ≤ s.names.count (NameScope.plainName cx.mode.direction key.record) ∧
    routine = NameScope.numbered (NameScope.plainName cx.mode.direction key.record) n
  distinct : ∀ {key key' routine}, s.holds key routine → s.holds key' routine →
    key.record = key'.record → key = key'
  opened : ∀ e ∈ s.guard.active ++ s.compiled, e.2 ∈ s.synthesis.opened
  apart : ((s.guard.active ++ s.compiled).map Prod.snd).Nodup
  compiled : ∀ e ∈ s.compiled, e ∈ s.known ∧ cx.cached e.1 = none ∧
    ∃ d ∈ s.synthesis.drafts, d.name = e.2
  known : ∀ e ∈ s.known, e ∈ s.compiled ∨ ∃ linked, cx.cached e.1 = some linked
  drafted : ∀ d ∈ s.synthesis.drafts, ∃ key, (key, d.name) ∈ s.compiled ∧
    s.IsDraftOf cx key d
  adopted : ∀ e ∈ s.environment, ∃ key, (key, e.1) ∈ s.known ∧ cx.cached key = some e.2

theorem Accounted.draw {t : Compilation I O} (h : s.Accounted cx)
    (direction : key.direction = cx.mode.direction)
    (names : t.names = (s.names.fresh key.direction key.record).2)
    (holds : ∀ {k r}, t.holds k r → s.holds k r ∨ (k = key ∧ r = s.drawn key)) :
    (∀ {k r}, t.holds k r → k.direction = cx.mode.direction) ∧
    (∀ {k r}, t.holds k r → ∃ n, 1 ≤ n ∧
      n ≤ t.names.count (NameScope.plainName cx.mode.direction k.record) ∧
      r = NameScope.numbered (NameScope.plainName cx.mode.direction k.record) n) ∧
    (∀ {k k' r}, t.holds k r → t.holds k' r → k.record = k'.record → k = k') ∧
    Draws cx.mode.direction s t := by
  -- the number of the new name is larger than all that were drawn for its record
  have new : ∀ {k}, s.holds k (s.drawn key) → k.record ≠ key.record := by
    intro k held same
    obtain ⟨n, low, high, isName⟩ := h.numbered held
    rw [drawn, NameScope.fresh, direction, same] at isName
    rw [same] at high
    have := NameScope.eq_of_numbered_eq (Nat.le_add_left 1 _) low isName
    omega
  refine ⟨fun held => ?_, fun held => ?_, fun held held' same => ?_, fun name => ?_, fun held => ?_⟩
  · rcases holds held with before | ⟨rfl, -⟩
    · exact h.directed before
    · exact direction
  · rw [names]
    rcases holds held with before | ⟨rfl, rfl⟩
    · obtain ⟨n, low, high, isName⟩ := h.numbered before
      exact ⟨n, low, Nat.le_trans high (NameScope.count_le_fresh _ _ _ _), isName⟩
    · rw [direction]
      refine ⟨_, Nat.le_add_left 1 _, Nat.le_of_eq (NameScope.count_fresh _ _ _).symm, ?_⟩
      rw [drawn, NameScope.fresh, direction]
  · rcases holds held with before | ⟨rfl, rfl⟩ <;> rcases holds held' with before' | ⟨rfl, isName⟩
    · exact h.distinct before before' same
    · exact absurd same (new (isName ▸ before))
    · exact absurd same.symm (new before')
    · rfl
  · exact names ▸ NameScope.count_le_fresh _ _ _ _
  · rcases holds held with before | ⟨rfl, rfl⟩
    · exact .inl before
    · exact .inr ⟨_, Nat.lt_succ_self _, by rw [drawn, NameScope.fresh, direction]⟩

theorem holds_adopted {linked : Linked I O} (lacks : s.Lacks cx key) {k : RoutineKey} :
    (s.adopted key linked).holds k routine ↔
      s.holds k routine ∨ (k = key ∧ routine = s.drawn key) := by
  unfold holds
  rw [or_assoc]
  refine or_congr Iff.rfl ((mem_insert_known lacks.unknown).trans (or_congr Iff.rfl ?_))
  exact Prod.mk.injEq _ _ _ _ ▸ Iff.rfl

namespace Accounted

theorem drafted_later (h : s.Accounted cx) (draws : Draws cx.mode.direction s s') :
    ∀ d ∈ s.synthesis.drafts, ∃ key, (key, d.name) ∈ s.compiled ∧ s'.IsDraftOf cx key d := by
  intro d mem
  obtain ⟨key, compiled, isDraft⟩ := h.drafted d mem
  exact ⟨key, compiled, isDraft.mono draws⟩

theorem reserves_of_binds (h : s.Accounted cx) {name : String} {config : Config}
    (bound : s.binds cx.mode.direction routine name config) :
    s.reserves cx.mode.direction routine name config := by
  have held : s.holds ⟨name, config, cx.mode.direction⟩ routine := bound
  exact ⟨h.numbered held, fun key other same => congrArg RoutineKey.config
    (h.distinct other held same)⟩

theorem start (config : Config) (site : Option FieldSite) :
    Accounted cx ({ config, site } : Compilation I O) where
  directed h := absurd h (by simp [Compilation.holds])
  numbered h := absurd h (by simp [Compilation.holds])
  distinct h := absurd h (by simp [Compilation.holds])
  opened _ mem := by cases mem
  apart := .nil
  compiled _ mem := by cases mem
  known _ mem := by cases mem
  drafted _ mem := by cases mem
  adopted _ mem := by cases mem

theorem relocate (h : s.Accounted cx) (site : Option FieldSite) :
    Accounted cx { s with site } :=
  ⟨h.directed, h.numbered, h.distinct, h.opened, h.apart, h.compiled, h.known, h.drafted,
    h.adopted⟩

theorem refer (h : s.Accounted cx) (routine : String) :
    Accounted cx { s with synthesis := s.synthesis.reference routine } := by
  unfold Synthesis.reference
  split
  · exact h
  · exact ⟨h.directed, h.numbered, h.distinct, h.opened, h.apart, h.compiled, h.known, h.drafted,
      h.adopted⟩

theorem refuse (h : s.Accounted cx) (record : String) :
    Accounted cx { s with names := (s.names.fresh cx.mode.direction record).2 } := by
  have draws : Draws cx.mode.direction s
      { s with names := (s.names.fresh cx.mode.direction record).2 } :=
    ⟨fun _ => NameScope.count_le_fresh _ _ _ _, fun held => .inl held⟩
  refine ⟨h.directed, fun held => ?_, h.distinct, h.opened, h.apart, h.compiled, h.known,
    h.drafted_later draws, h.adopted⟩
  obtain ⟨n, low, high, isName⟩ := h.numbered held
  exact ⟨n, low, Nat.le_trans high (NameScope.count_le_fresh _ _ _ _), isName⟩

theorem adopt (h : s.Accounted cx) (lacks : s.Lacks cx key) {linked : Linked I O}
    (cached : cx.cached key = some linked) : Accounted cx (s.adopted key linked) := by
  have more : ∀ e ∈ s.known, e ∈ (s.adopted key linked).known :=
    fun e mem => (mem_insert_known lacks.unknown).2 (.inl mem)
  obtain ⟨directed, numbered, distinct, draws⟩ :=
    h.draw (t := s.adopted key linked) lacks.direction rfl (holds_adopted lacks).1
  refine ⟨directed, numbered, distinct, h.opened, h.apart, ?_, ?_, h.drafted_later draws, ?_⟩
  · intro e mem
    obtain ⟨known, rest⟩ := h.compiled e mem
    exact ⟨more e known, rest⟩
  · intro e mem
    rcases (mem_insert_known lacks.unknown).1 mem with before | rfl
    · exact h.known e before
    · exact .inr ⟨linked, cached⟩
  · intro e mem
    rcases Assoc.mem_insert mem with rfl | before
    · exact ⟨key, (mem_insert_known lacks.unknown).2 (.inr rfl), cached⟩
    · obtain ⟨key', known, isCached⟩ := h.adopted e before
      exact ⟨key', more _ known, isCached⟩

theorem begin (h : s.Accounted cx) (lacks : s.Lacks cx key)
    (unopened : s.drawn key ∉ s.synthesis.opened) : Accounted cx (s.begun key) := by
  have entered : (s.begun key).guard.active = s.guard.active ++ [(key, s.drawn key)] := rfl
  obtain ⟨directed, numbered, distinct, draws⟩ :=
    h.draw (t := s.begun key) lacks.direction rfl fun {k r} held => by
      rcases held with active | known
      · rw [entered, List.mem_append, List.mem_singleton, Prod.mk.injEq] at active
        exact active.imp .inl id
      · exact .inl (.inr known)
  refine ⟨directed, numbered, distinct, ?_, ?_, h.compiled, h.known, h.drafted_later draws,
    h.adopted⟩
  · intro e mem
    rw [entered, List.append_assoc, List.mem_append] at mem
    rcases mem with active | mem
    · exact List.mem_append_left _ (h.opened e (List.mem_append_left _ active))
    · rcases List.mem_cons.1 mem with rfl | compiled
      · exact List.mem_append_right _ List.mem_cons_self
      · exact List.mem_append_left _ (h.opened e (List.mem_append_right _ compiled))
  · have shuffled : (((s.begun key).guard.active ++ (s.begun key).compiled).map Prod.snd).Perm
        (s.drawn key :: (s.guard.active ++ s.compiled).map Prod.snd) := by
      rw [entered, List.append_assoc]
      exact List.perm_middle.map Prod.snd
    refine shuffled.nodup_iff.2 (List.nodup_cons.2 ⟨fun mem => unopened ?_, h.apart⟩)
    obtain ⟨e, isThere, isName⟩ := List.mem_map.1 mem
    exact isName ▸ h.opened e isThere

section
variable {before : Compilation I O} (h : s.Accounted cx) (more : Extends (before.begun key) s)
include h more

theorem leave : Accounted cx (before.outside key s) := by
  have left : (before.outside key s).guard = before.guard := more.leave
  have inside : s.guard.active = before.guard.active ++ [(key, before.drawn key)] :=
    congrArg RecursionGuard.active more.guard
  have held : ∀ {k r}, (before.outside key s).holds k r → s.holds k r := by
    intro k r held
    rw [Compilation.holds, left] at held
    exact held.imp_left fun active => inside ▸ List.mem_append_left _ active
  have sub : (before.guard.active ++ s.compiled).Sublist (s.guard.active ++ s.compiled) := by
    rw [inside]
    exact (List.sublist_append_left _ _).append_right _
  refine ⟨fun k => h.directed (held k), fun k => h.numbered (held k),
    fun k k' => h.distinct (held k) (held k'), ?_, ?_, h.compiled, h.known,
    h.drafted_later (.of_holds rfl held), h.adopted⟩
  · intro e mem
    rw [left] at mem
    exact h.opened e (sub.subset mem)
  · rw [left]
    exact h.apart.sublist (sub.map Prod.snd)

theorem finish (lacks : before.Lacks cx key) (uncached : cx.cached key = none) {d : Draft I O}
    (named : d.name = before.drawn key)
    (isDraft : IsDraft cx.schema cx.registry cx.mode (s.binds cx.mode.direction) key.record
      key.config d) :
    Accounted cx (before.completed key d s) := by
  have unknown := lacks.unknown_inside more
  have left : (before.completed key d s).guard = before.guard := more.leave
  have inside : s.guard.active = before.guard.active ++ [(key, before.drawn key)] :=
    congrArg RecursionGuard.active more.guard
  have held : ∀ {k r}, (before.completed key d s).holds k r → s.holds k r := by
    intro k r held
    rw [Compilation.holds, left] at held
    rcases held with active | known
    · exact .inl (inside ▸ List.mem_append_left _ active)
    · rcases (mem_insert_known unknown).1 known with known | same
      · exact .inr known
      · exact .inl (inside ▸ List.mem_append_right _ (List.mem_singleton.2 same))
  have draws : Draws cx.mode.direction s (before.completed key d s) := .of_holds rfl held
  have shuffled : (before.guard.active ++ (s.compiled ++ [(key, before.drawn key)])).Perm
      (s.guard.active ++ s.compiled) := by
    rw [inside, List.append_assoc]
    exact List.perm_append_comm.append_left _
  refine ⟨fun k => h.directed (held k), fun k => h.numbered (held k),
    fun k k' => h.distinct (held k) (held k'), ?_, ?_, ?_, ?_, ?_, ?_⟩
  · intro e mem
    rw [left] at mem
    exact h.opened e (shuffled.mem_iff.1 mem)
  · rw [left]
    exact (shuffled.map Prod.snd).nodup_iff.2 h.apart
  · intro e mem
    rcases List.mem_append.1 mem with old | new
    · obtain ⟨known, isNew, d', submitted, isName⟩ := h.compiled e old
      exact ⟨(mem_insert_known unknown).2 (.inl known), isNew, d',
        List.mem_append_left _ submitted, isName⟩
    · obtain rfl := List.mem_singleton.1 new
      exact ⟨(mem_insert_known unknown).2 (.inr rfl), uncached, d,
        List.mem_append_right _ List.mem_cons_self, named⟩
  · intro e mem
    rcases (mem_insert_known unknown).1 mem with old | rfl
    · exact (h.known e old).imp_left fun compiled => List.mem_append_left _ compiled
    · exact .inl (List.mem_append_right _ List.mem_cons_self)
  · intro d' mem
    rcases List.mem_append.1 mem with old | new
    · obtain ⟨key', compiled, made⟩ := h.drafted_later draws d' old
      exact ⟨key', List.mem_append_left _ compiled, made⟩
    · obtain rfl := List.mem_singleton.1 new
      exact ⟨key, List.mem_append_right _ (List.mem_singleton.2 (by rw [named])),
        isDraft.mono fun _ _ _ bound => draws.reserves (h.reserves_of_binds bound)⟩
  · intro e mem
    obtain ⟨key', known, cached⟩ := h.adopted e mem
    exact ⟨key', (mem_insert_known unknown).2 (.inl known), cached⟩

end
end Accounted
end Compilation

/-- Whatever a session does, it can account for its routines. -/
theorem Moves.accounted (named : cx.mode.Named) (h : Moves cx s s') (old : s.Accounted cx) :
    s'.Accounted cx := by
  induction h with
  | refl => exact old
  | trans _ _ first second => exact second (first old)
  | referred s routine => exact old.refer routine
  | field site _ ih => exact (ih (old.relocate site)).relocate _
  | adopted lacks cached => exact old.adopt lacks cached
  | refused s record => exact old.refuse record
  | abandoned lacks unopened moves ih => exact (ih (old.begin lacks unopened)).leave moves.extend
  | compiled lacks uncached unopened declared fields compiled moves ih =>
    refine (ih (old.begin lacks unopened)).finish moves.extend lacks uncached (named _ _ _ _) ?_
    exact ⟨_, _, declared, by rw [named], fields, compiled⟩

section
variable (schema : Schema) (registry : Registry) (mode : Mode I O)

/-- The code was made of the key's record under the key's configuration. -/
def IsCodeOf (key : RoutineKey) (code : Code I O) : Prop :=
  ∃ bound record parts, Made schema registry mode bound key.record key.config record parts code

/-- By a name that stands for a record under a configuration, the routine calls one that was made
for this record under no other configuration. -/
def CallsAsBound (bound : Binding) (r : Linked I O) : Prop :=
  ∀ routine name config callee, bound routine name config → r.callee? routine = some callee →
    ∃ key, IsCodeOf schema registry mode key callee.code ∧
      (key.record = name → key.config = config)

def IsCodeIn (r : Linked I O) (key : RoutineKey) (code : Code I O) : Prop :=
  ∃ bound record parts,
    Made schema registry mode bound key.record key.config record parts code ∧
      CallsAsBound schema registry mode bound r

/-- Every code that the routine can reach was made for some key. -/
inductive Traced : Linked I O → Prop where
  | intro {r : Linked I O} (main : r.code ∈ r.session)
    (codes : ∀ code ∈ r.session, ∃ key, IsCodeIn schema registry mode r key code)
    (adopted : ∀ e ∈ r.environment, Traced e.2) : Traced r

structure TracedTo (key : RoutineKey) (r : Linked I O) : Prop where
  traced : Traced schema registry mode r
  code : IsCodeIn schema registry mode r key r.code

end

section
variable {schema : Schema} {registry : Registry} {mode : Mode I O}

theorem IsCodeIn.isCodeOf {r : Linked I O} {code : Code I O}
    (h : IsCodeIn schema registry mode r key code) : IsCodeOf schema registry mode key code := by
  obtain ⟨bound, record, parts, made, -⟩ := h
  exact ⟨bound, record, parts, made⟩

theorem Traced.exists_key {r : Linked I O} (h : Traced schema registry mode r) :
    ∃ key, TracedTo schema registry mode key r := by
  cases h with
  | intro main codes adopted =>
    obtain ⟨key, isCode⟩ := codes _ main
    exact ⟨key, .intro main codes adopted, isCode⟩

theorem Traced.callee {r callee : Linked I O} (h : Traced schema registry mode r)
    (isCallee : r.callee? routine = some callee) : Traced schema registry mode callee := by
  cases h with
  | intro main codes adopted =>
    unfold Linked.callee? at isCallee
    split at isCallee
    case h_1 code found =>
      cases isCallee
      exact .intro (List.mem_of_find?_eq_some found) codes adopted
    case h_2 => exact adopted _ (Assoc.mem_of_get? isCallee)

theorem callee?_linkCode (session : Session I O) (code : Code I O) (routine : String) :
    (session.linkCode code).callee? routine = session.resolve? routine := by
  unfold Linked.callee? Session.resolve? Session.own?
  simp only [Session.linkCode]
  cases session.codes.find? fun c => c.name == routine <;> rfl

end

def Context.Traced (cx : Context I O) : Prop :=
  ∀ key linked, cx.cached key = some linked → TracedTo cx.schema cx.registry cx.mode key linked

namespace Compilation.Accounted

variable (h : s.Accounted cx) (valid : cx.Traced) {session : Session I O}
  (lowered : Synthesis.lowerAll s.synthesis.drafts = .ok session.codes)
  (environment : session.environment = s.environment) {linked : Linked I O}
include h

theorem unique {key' : RoutineKey} (mem : (key, routine) ∈ s.compiled)
    (mem' : (key', routine) ∈ s.compiled) : key = key' := by
  have distinct : (s.compiled.map Prod.snd).Nodup :=
    h.apart.sublist ((List.sublist_append_right _ _).map Prod.snd)
  exact congrArg Prod.fst (List.inj_on_of_nodup_map distinct mem mem' rfl)

include lowered in
theorem made_of_mem {code : Code I O} (mem : code ∈ session.codes) : ∃ key,
    (key, code.name) ∈ s.compiled ∧ ∃ record parts, Made cx.schema cx.registry cx.mode
      (s.reserves cx.mode.direction) key.record key.config record parts code := by
  obtain ⟨d, submitted, lowers⟩ := (mem_lowerAll lowered).1 code mem
  obtain ⟨key, compiled, isDraft⟩ := h.drafted d submitted
  rw [(Draft.lower_eq_ok lowers).1]
  exact ⟨key, compiled, IsDraft.made isDraft lowers⟩

include valid lowered environment

theorem code_of_resolved (resolved : session.resolve? routine = some linked) : ∃ key,
    (key, routine) ∈ s.known ∧ IsCodeOf cx.schema cx.registry cx.mode key linked.code := by
  rcases Option.or_eq_some_iff.1 resolved with own | ⟨-, adopted⟩
  · obtain ⟨code, found, rfl⟩ := Option.map_eq_some_iff.1 own
    have isNamed : code.name = routine := by simpa using List.find?_some found
    obtain ⟨key, compiled, record, parts, made⟩ :=
      h.made_of_mem lowered (List.mem_of_find?_eq_some found)
    exact ⟨key, isNamed ▸ (h.compiled _ compiled).1, _, record, parts, made⟩
  · obtain ⟨key, known, cached⟩ := h.adopted _ (environment ▸ Assoc.mem_of_get? adopted)
    exact ⟨key, known, (valid key linked cached).code.isCodeOf⟩

/-- A name that is reserved for a record is linked to no other configuration of it. -/
theorem callsAsBound (code : Code I O) : CallsAsBound cx.schema cx.registry cx.mode
    (s.reserves cx.mode.direction) (session.linkCode code) := by
  intro routine name config callee reserved isCallee
  rw [callee?_linkCode] at isCallee
  obtain ⟨key, known, isCode⟩ := h.code_of_resolved valid lowered environment isCallee
  exact ⟨key, isCode, reserved.2 key (.inr known)⟩

theorem isCodeIn_of_mem {code main : Code I O} (mem : code ∈ session.codes) : ∃ key,
    (key, code.name) ∈ s.compiled ∧
      IsCodeIn cx.schema cx.registry cx.mode (session.linkCode main) key code := by
  obtain ⟨key, compiled, record, parts, made⟩ := h.made_of_mem lowered mem
  exact ⟨key, compiled, _, record, parts, made, h.callsAsBound valid lowered environment main⟩

theorem traced_linkCode {code : Code I O} (mem : code ∈ session.codes) :
    Traced cx.schema cx.registry cx.mode (session.linkCode code) := by
  refine .intro mem (fun other isOther => ?_) fun e isEntry => ?_
  · obtain ⟨key, -, isCode⟩ := h.isCodeIn_of_mem valid lowered environment isOther
    exact ⟨key, isCode⟩
  · obtain ⟨key, -, cached⟩ := h.adopted e (environment ▸ isEntry)
    exact (valid key e.2 cached).traced

theorem traced_own (own : session.own? routine = some linked) : ∃ key,
    (key, routine) ∈ s.compiled ∧ TracedTo cx.schema cx.registry cx.mode key linked := by
  obtain ⟨code, found, rfl⟩ := Option.map_eq_some_iff.1 own
  have isNamed : code.name = routine := by simpa using List.find?_some found
  have mem := List.mem_of_find?_eq_some found
  obtain ⟨key, compiled, isCode⟩ := h.isCodeIn_of_mem valid lowered environment mem
  exact ⟨key, isNamed ▸ compiled, h.traced_linkCode valid lowered environment mem, isCode⟩

theorem traced_of_compiled (compiled : (key, routine) ∈ s.compiled) :
    ∃ linked, session.own? routine = some linked ∧
      TracedTo cx.schema cx.registry cx.mode key linked := by
  obtain ⟨-, -, d, submitted, isName⟩ := h.compiled _ compiled
  obtain ⟨code, mem, lowers⟩ := (mem_lowerAll lowered).2 d submitted
  have isNamed : code.name = routine := (Draft.lower_eq_ok lowers).1.trans isName
  have isThere : (session.own? routine).isSome := by
    rw [Session.own?, Option.isSome_map]
    exact List.find?_isSome.2 ⟨code, mem, by simpa using isNamed⟩
  obtain ⟨linked, own⟩ := Option.isSome_iff_exists.1 isThere
  obtain ⟨key', compiled', traced⟩ := h.traced_own valid lowered environment own
  obtain rfl := h.unique compiled compiled'
  exact ⟨linked, own, traced⟩

end Compilation.Accounted

/-- All that comes of compiling can be traced to the keys that it was compiled for. -/
theorem compile_traced (named : cx.mode.Named) (valid : cx.Traced) {stamp : Nat} {record : String}
    {config : Config} {compiled : Compiled I O}
    (h : (compile cx stamp record config).run = some (.ok compiled)) :
    TracedTo cx.schema cx.registry cx.mode ⟨record, config, cx.mode.direction⟩ compiled.routine ∧
      ∀ e ∈ compiled.all, TracedTo cx.schema cx.registry cx.mode e.1 e.2 := by
  obtain ⟨routine, s, gives, linked⟩ := compile_eq_ok h
  have moves := ensureRoutine_moves (converterFor_moves _) record config gives
  have accounted : s.Accounted cx := moves.accounted named (.start {} none)
  obtain ⟨session, lowered, environment, resolved, all⟩ := link_eq_ok linked
  constructor
  · cases cached : cx.cached ⟨record, config, cx.mode.direction⟩ with
    | some adopted =>
      cases gives.symm.trans (ensureRoutine_of_cached rfl cached)
      have none : session.codes = [] := (Except.ok.inj lowered).symm
      rw [Session.resolve?, Session.own?, none, environment] at resolved
      cases (Assoc.get?_insert_self _ adopted []).symm.trans resolved
      exact valid _ _ cached
    | none =>
      rcases ensureRoutine_binds gives with active | known
      · rw [moves.extend.guard] at active
        cases active
      · obtain isCompiled | ⟨linked, isCached⟩ := accounted.known _ known
        · obtain ⟨linked, own, traced⟩ :=
            accounted.traced_of_compiled valid lowered environment isCompiled
          rw [Session.resolve?, own] at resolved
          cases resolved
          exact traced
        · rw [cached] at isCached
          cases isCached
  · intro e mem
    rw [all] at mem
    obtain ⟨⟨key, name⟩, listed, own⟩ := List.mem_filterMap.1 mem
    obtain ⟨linked', own', rfl⟩ := Option.map_eq_some_iff.1 own
    obtain ⟨linked, own, traced⟩ := accounted.traced_of_compiled valid lowered environment listed
    rw [own'] at own
    cases own
    exact traced

end RecordCodec.Compile

namespace RecordCodec

open Routine Compile

namespace Cache

def Tracing {I O : Type} (schema : Schema) (registry : Registry) (mode : Mode I O)
    (held : List (RoutineKey × Linked I O)) : Prop :=
  ∀ e ∈ held, TracedTo schema registry mode e.1 e.2

theorem Tracing.context {I O : Type} {schema : Schema} {registry : Registry} {mode : Mode I O}
    {held : List (RoutineKey × Linked I O)} (h : Tracing schema registry mode held) :
    (context schema registry mode held).Traced :=
  fun _ _ present => h _ (Assoc.mem_of_get? present)

theorem Tracing.compile {I O : Type} {schema : Schema} {registry : Registry} {mode : Mode I O}
    {held : List (RoutineKey × Linked I O)} {stamp : Nat} {record : String} {config : Config}
    {compiled : Compiled I O} (named : mode.Named) (old : Tracing schema registry mode held)
    (h : (Compile.compile (Cache.context schema registry mode held) stamp record config).run =
      some (.ok compiled)) :
    TracedTo schema registry mode ⟨record, config, mode.direction⟩ compiled.routine ∧
      Tracing schema registry mode (insertAll compiled.all held) := by
  obtain ⟨main, all⟩ := compile_traced named old.context h
  exact ⟨main, fun e mem => (mem_insertAll mem).elim (all e) (old e)⟩

variable {schema : Schema} {registry : Registry} {c : Cache}

theorem compileDecoder_traced (held : Tracing schema registry .decoding c.decoders) (epoch : Nat)
    (record : String) (config : Config) :
    (∀ r, (c.compileDecoder schema registry epoch record config).1.run = some (.ok r) →
      TracedTo schema registry .decoding ⟨record, config, .decode⟩ r) ∧
    Tracing schema registry .decoding
      (c.compileDecoder schema registry epoch record config).2.decoders := by
  constructor
  · intro r isResult
    rw [compileDecoder_fst] at isResult
    obtain ⟨compiled, ran, isRoutine⟩ := Run.Returns.bind_iff.1 isResult
    obtain rfl := Run.Returns.pure_iff.1 isRoutine
    exact (held.compile Mode.named_decoding ran).1
  · rcases compileDecoder_decoders schema registry c epoch record config with same | ⟨_, ran, added⟩
    · exact same ▸ held
    · exact added ▸ (held.compile Mode.named_decoding ran).2

theorem compileEncoder_traced (held : Tracing schema registry .encoding c.encoders) (epoch : Nat)
    (record : String) (config : Config) :
    (∀ r, (c.compileEncoder schema registry epoch record config).1.run = some (.ok r) →
      TracedTo schema registry .encoding ⟨record, config, .encode⟩ r) ∧
    Tracing schema registry .encoding
      (c.compileEncoder schema registry epoch record config).2.encoders := by
  constructor
  · intro r isResult
    rw [compileEncoder_fst] at isResult
    obtain ⟨compiled, ran, isRoutine⟩ := Run.Returns.bind_iff.1 isResult
    obtain rfl := Run.Returns.pure_iff.1 isRoutine
    exact (held.compile Mode.named_encoding ran).1
  · rcases compileEncoder_encoders schema registry c epoch record config with same | ⟨_, ran, added⟩
    · exact same ▸ held
    · exact added ▸ (held.compile Mode.named_encoding ran).2

theorem History.tracing (h : History schema registry c) :
    Tracing schema registry .decoding c.decoders ∧
      Tracing schema registry .encoding c.encoders := by
  induction h with
  | empty =>
    exact ⟨fun _ mem => absurd mem List.not_mem_nil, fun _ mem => absurd mem List.not_mem_nil⟩
  | decoder epoch record config _ ih =>
    rw [encoders_compileDecoder]
    exact ⟨(compileDecoder_traced ih.1 epoch record config).2, ih.2⟩
  | encoder epoch record config _ ih =>
    rw [decoders_compileEncoder]
    exact ⟨ih.1, (compileEncoder_traced ih.2 epoch record config).2⟩

end Cache

end RecordCodec
