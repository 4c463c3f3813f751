import Mathlib.Tactic.Tauto
import RecordCodec.Proofs.Sessions

set_option autoImplicit false

/-!
# The invariant through a session

Each action of a session keeps the invariant, and the converter that comes of a type is its
compiled form. The induction is on the fuel; the converters of the types inside a type, and the
routines of nested records, come from the level below.
-/
namespace RecordCodec.Compile

open Routine Direct Compilation

variable {I O : Type} {cx : Context I O} {s s' : Compilation I O}

theorem Binding.Functional.extend {bound wider : Binding} {routine name : String} {config : Config}
    (h : bound.Functional) (unbound : ∀ name config, ¬bound routine name config)
    (le : ∀ r n c, wider r n c → bound r n c ∨ (r = routine ∧ n = name ∧ c = config)) :
    wider.Functional := by
  intro r n n' c c' first second
  rcases le _ _ _ first with first | ⟨rfl, rfl, rfl⟩ <;>
    rcases le _ _ _ second with second | ⟨same, rfl, rfl⟩
  · exact h first second
  · exact absurd (same ▸ first) (unbound _ _)
  · exact absurd second (unbound _ _)
  · exact ⟨rfl, rfl⟩

theorem freshName_does (direction : Direction) (record : String) (s : Compilation I O) :
    Gives (freshName direction record) s (s.names.fresh direction record).1
      { s with names := (s.names.fresh direction record).2 } := rfl

theorem freshName_gives {direction : Direction} {record routine : String}
    (h : Gives (freshName direction record) s routine s') :
    routine = (s.names.fresh direction record).1 ∧
      s' = { s with names := (s.names.fresh direction record).2 } := by
  cases h.symm.trans (freshName_does _ _ _)
  exact ⟨rfl, rfl⟩

def Compilation.adopted (key : RoutineKey) (linked : Linked I O) (s : Compilation I O) :
    Compilation I O :=
  let (routine, names) := s.names.fresh key.direction key.record
  { s with
    names
    environment := Assoc.insert routine linked s.environment
    known := Assoc.insert key routine s.known }

theorem adopt_does (key : RoutineKey) (linked : Linked I O) (s : Compilation I O) :
    Gives (adopt key linked) s (s.names.fresh key.direction key.record).1 (s.adopted key linked) :=
  rfl

theorem mem_insert_known {key : RoutineKey} {routine : String} {known : List (RoutineKey × String)}
    (new : Assoc.get? key known = none) {e : RoutineKey × String} :
    e ∈ Assoc.insert key routine known ↔ e ∈ known ∨ e = (key, routine) := by
  rw [Assoc.insert_of_not_mem (Assoc.get?_eq_none_iff.1 new)]
  simp

section
variable {name : String} {config : Config} {linked : Linked I O}
  (new : Assoc.get? ⟨name, config, cx.mode.direction⟩ s.known = none)
include new

theorem Compilation.binds_adopted {r n : String} {c : Config} :
    (s.adopted ⟨name, config, cx.mode.direction⟩ linked).binds cx.mode.direction r n c ↔
      s.binds cx.mode.direction r n c ∨
        (r = (s.names.fresh cx.mode.direction name).1 ∧ n = name ∧ c = config) := by
  simp only [Compilation.binds, Compilation.adopted, mem_insert_known new, Prod.mk.injEq,
    RoutineKey.mk.injEq, and_true, or_assoc]
  tauto

theorem Compilation.Sound.adopt (sound : s.Sound cx) (unnumbered : cx.schema.Unnumbered)
    (counted : s.Counted cx.schema cx.mode.direction)
    (serves : Serves cx.schema cx.registry cx.mode linked name config) :
    (s.adopted ⟨name, config, cx.mode.direction⟩ linked).Sound cx := by
  obtain ⟨record, declared⟩ := serves.record
  have unused := counted.not_uses unnumbered declared
  have absent : ∀ n c, ¬s.binds cx.mode.direction (s.names.fresh cx.mode.direction name).1 n c :=
    fun n c bound => unused (sound.named bound)
  have mono : ∀ r n c, s.binds cx.mode.direction r n c →
      (s.adopted ⟨name, config, cx.mode.direction⟩ linked).binds cx.mode.direction r n c :=
    fun r n c bound => (s.binds_adopted new).2 (.inl bound)
  have present : ∀ {r}, (Assoc.get? r s.environment).isSome →
      (Assoc.get? r (s.adopted ⟨name, config, cx.mode.direction⟩ linked).environment).isSome := by
    intro r before
    rw [Assoc.isSome_get?_iff] at before ⊢
    exact Assoc.mem_keys_insert.2 (.inr before)
  have itself : (Assoc.get? (s.names.fresh cx.mode.direction name).1
      (s.adopted ⟨name, config, cx.mode.direction⟩ linked).environment).isSome :=
    Assoc.isSome_get?_iff.2 (Assoc.mem_keys_insert.2 (.inl rfl))
  constructor
  case functional =>
    exact sound.functional.extend absent fun r n c => (s.binds_adopted new).1
  case named =>
    intro r n c bound
    rcases (s.binds_adopted new).1 bound with bound | ⟨rfl, -, -⟩
    · exact (sound.named bound).imp id present
    · exact .inr itself
  case drafted =>
    intro d mem
    obtain ⟨n, c, bound, draft⟩ := sound.drafted d mem
    exact ⟨n, c, mono _ _ _ bound, draft.mono mono⟩
  case adopted =>
    intro r other found
    by_cases same : r = (s.names.fresh cx.mode.direction name).1
    · subst same
      simp only [Compilation.adopted, Assoc.get?_insert_self] at found
      cases found
      exact ⟨name, config, (s.binds_adopted new).2 (.inr ⟨rfl, rfl, rfl⟩), serves⟩
    · simp only [Compilation.adopted, Assoc.get?_insert_of_ne same] at found
      obtain ⟨n, c, bound, served⟩ := sound.adopted r other found
      exact ⟨n, c, mono _ _ _ bound, served⟩
  case known =>
    intro key r mem
    rcases (mem_insert_known new).1 mem with mem | same
    · exact (sound.known key r mem).imp id present
    · cases same
      exact .inr itself
  case compiled =>
    intro e mem
    obtain ⟨before, direction⟩ := sound.compiled e mem
    exact ⟨(mem_insert_known new).2 (.inl before), direction⟩
  case separate =>
    refine .inr ⟨unnumbered, counted.draw declared rfl ?_⟩
    rintro r (opened | found)
    · exact .inl (.inl opened)
    · simp only [Compilation.adopted, Assoc.isSome_get?_iff, Assoc.mem_keys_insert] at found
      rcases found with same | before
      · exact .inr same
      · exact .inl (.inr (Assoc.isSome_get?_iff.2 before))

theorem adopt_gives {routine : String} (sound : s.Sound cx) (unnumbered : cx.schema.Unnumbered)
    (counted : s.Counted cx.schema cx.mode.direction)
    (serves : Serves cx.schema cx.registry cx.mode linked name config)
    (idle : s.guard.name? ⟨name, config, cx.mode.direction⟩ = none)
    (h : Gives (adopt ⟨name, config, cx.mode.direction⟩ linked) s routine s') :
    s'.Sound cx ∧ Extends s s' ∧ s'.binds cx.mode.direction routine name config := by
  cases h.symm.trans (adopt_does _ _ _)
  refine ⟨sound.adopt new unnumbered counted serves, ⟨rfl, rfl, rfl, ?_, ?_⟩,
    (s.binds_adopted new).2 (.inr ⟨rfl, rfl, rfl⟩)⟩
  · exact fun e mem => (mem_insert_known new).2 (.inl mem)
  · intro e mem
    rcases (mem_insert_known new).1 mem with mem | rfl
    · exact .inl mem
    · exact .inr idle

end

def CompilesTypes (cx : Context I O) (P : Compilation I O → Prop)
    (inner : TypeExpr → Action I O Converter) : Prop :=
  ∀ ⦃ty s c s'⦄, P s → Gives (inner ty) s c s' → P s' ∧ Extends s s' ∧
    Compiles cx.schema cx.registry (s'.binds cx.mode.direction) s.position ty c

def CallsRecords (cx : Context I O) (P : Compilation I O → Prop)
    (inner : TypeExpr → Action I O Converter) : Prop :=
  ∀ ⦃name config s c s'⦄, P s → Gives (recordConverter cx inner name config) s c s' →
    P s' ∧ Extends s s' ∧
      ∃ routine, c = .record routine ∧ s'.binds cx.mode.direction routine name config

/-- Where the session stands is no matter of the invariant. -/
theorem Compilation.Sound.relocate (h : Sound cx s) (config : Config) (site : Option FieldSite) :
    Sound cx { s with config, site } :=
  ⟨h.functional, h.named, h.drafted, h.adopted, h.known, h.compiled, h.separate⟩

theorem compileFields_gives {P : Compilation I O → Prop} {inner : TypeExpr → Action I O Converter}
    (compiles : CompilesTypes cx P inner)
    (relocate : ∀ ⦃s config site⦄, P s → P { s with config, site }) {record : RecordType}
    {fields : List Field} {out : List (Field × Converter)} (sound : P s)
    (h : Gives (compileFields inner record fields) s out s') :
    P s' ∧ Extends s s' ∧ out.map Prod.fst = fields ∧ ∀ f c, (f, c) ∈ out →
      Compiles cx.schema cx.registry (s'.binds cx.mode.direction) ⟨s.config, f.discriminator⟩
        f.type c := by
  induction fields generalizing s out with
  | nil =>
    obtain ⟨rfl, rfl⟩ := Gives.pure_iff.1 h
    exact ⟨sound, .refl _, rfl, fun f c mem => absurd mem List.not_mem_nil⟩
  | cons f rest ih =>
    rw [compileFields, Gives.bind_iff] at h
    obtain ⟨c, s₁, first, h⟩ := h
    rw [Gives.bind_iff] at h
    obtain ⟨others, s₂, tail, last⟩ := h
    obtain ⟨rfl, rfl⟩ := Gives.pure_iff.1 last
    rw [Gives.mapError_iff, inField, Gives.within_iff] at first
    obtain ⟨inside, first, rfl⟩ := first
    obtain ⟨soundInside, extends₁, compiled⟩ := compiles (relocate sound) first
    have extends₁ : Extends s { inside with site := s.site } :=
      ⟨extends₁.config, rfl, extends₁.guard, extends₁.known, extends₁.fresh⟩
    obtain ⟨soundAfter, extends₂, names, others⟩ := ih (relocate soundInside) tail
    refine ⟨soundAfter, extends₁.trans extends₂, by rw [List.map_cons, names], ?_⟩
    intro f' c' mem
    rcases List.mem_cons.1 mem with same | mem
    · cases same
      exact compiled.mono (extends₂.binds _)
    · have other := others f' c' mem
      rw [extends₁.config] at other
      exact other

section
variable {name routine : String} {config : Config}

theorem not_uses_of_opened (sound : Sound cx s) {declared : RecordType}
    (isDeclared : cx.schema.record? name = some declared)
    (drawn : routine = (s.names.fresh cx.mode.direction name).1)
    (unopened : routine ∉ s.synthesis.opened) : ¬s.uses routine := by
  rcases sound.separate with ⟨-, empty, -⟩ | ⟨unnumbered, counted⟩
  · rintro (opened | present)
    · exact unopened opened
    · rw [empty] at present
      cases present
  · rw [drawn]
    exact counted.not_uses unnumbered isDeclared

theorem Compilation.Sound.begin (sound : Sound cx s) {declared : RecordType}
    (isDeclared : cx.schema.record? name = some declared)
    (drawn : routine = (s.names.fresh cx.mode.direction name).1)
    (unopened : routine ∉ s.synthesis.opened) :
    Sound cx { s with
      config := config
      site := none
      names := (s.names.fresh cx.mode.direction name).2
      guard := s.guard.enter ⟨name, config, cx.mode.direction⟩ routine
      synthesis := { s.synthesis with opened := s.synthesis.opened ++ [routine] } } := by
  have unused := not_uses_of_opened sound isDeclared drawn unopened
  have absent : ∀ n c, ¬s.binds cx.mode.direction routine n c :=
    fun n c bound => unused (sound.named bound)
  have binds : ∀ r n c, Compilation.binds cx.mode.direction
      { s with
        config := config
        site := none
        names := (s.names.fresh cx.mode.direction name).2
        guard := s.guard.enter ⟨name, config, cx.mode.direction⟩ routine
        synthesis := { s.synthesis with opened := s.synthesis.opened ++ [routine] } } r n c ↔
      s.binds cx.mode.direction r n c ∨ (r = routine ∧ n = name ∧ c = config) := by
    intro r n c
    simp only [Compilation.binds, RecursionGuard.mem_enter, Prod.mk.injEq, RoutineKey.mk.injEq,
      and_true]
    tauto
  have mono := fun r n c bound => (binds r n c).2 (.inl bound)
  refine ⟨?_, ?_, ?_, ?_, sound.known, sound.compiled, ?_⟩
  · exact sound.functional.extend absent fun r n c => (binds r n c).1
  · intro r n c bound
    rcases (binds r n c).1 bound with bound | ⟨rfl, -, -⟩
    · exact (sound.named bound).imp (List.mem_append_left _) id
    · exact .inl (List.mem_append_right _ List.mem_cons_self)
  · intro d mem
    obtain ⟨n, c, bound, draft⟩ := sound.drafted d mem
    exact ⟨n, c, mono _ _ _ bound, draft.mono mono⟩
  · intro r linked present
    obtain ⟨n, c, bound, served⟩ := sound.adopted r linked present
    exact ⟨n, c, mono _ _ _ bound, served⟩
  · rcases sound.separate with alone | ⟨unnumbered, counted⟩
    · exact .inl alone
    · refine .inr ⟨unnumbered, counted.draw isDeclared rfl ?_⟩
      rintro r (opened | present)
      · rcases List.mem_append.1 opened with opened | new
        · exact .inl (.inl opened)
        · exact .inr ((List.mem_singleton.1 new).trans drawn)
      · exact .inl (.inr present)

theorem Compilation.Sound.finish (sound : Sound cx s) {before : RecursionGuard} {d : Draft I O}
    (inside : s.guard = before.enter ⟨name, config, cx.mode.direction⟩ routine)
    (unknown : Assoc.get? ⟨name, config, cx.mode.direction⟩ s.known = none)
    (drafted : IsDraft cx.schema cx.registry cx.mode (s.binds cx.mode.direction) name config d)
    (named : d.name = routine) (outer : Config) (site : Option FieldSite) :
    Sound cx { s with
      config := outer
      site := site
      guard := before
      synthesis := s.synthesis.submit d
      known := Assoc.insert ⟨name, config, cx.mode.direction⟩ routine s.known
      compiled := s.compiled ++ [(⟨name, config, cx.mode.direction⟩, routine)] } := by
  have isBound : s.binds cx.mode.direction routine name config :=
    .inl (inside ▸ RecursionGuard.mem_enter.2 (.inr rfl))
  -- the key only moves from the routines being compiled to the known ones
  have binds : Compilation.binds cx.mode.direction
      { s with
        config := outer
        site := site
        guard := before
        synthesis := s.synthesis.submit d
        known := Assoc.insert ⟨name, config, cx.mode.direction⟩ routine s.known
        compiled := s.compiled ++ [(⟨name, config, cx.mode.direction⟩, routine)] } =
      s.binds cx.mode.direction := by
    funext r n c
    simp only [Compilation.binds, inside, mem_insert_known unknown, RecursionGuard.mem_enter,
      eq_iff_iff]
    tauto
  refine ⟨binds ▸ sound.functional, binds ▸ sound.named, ?_, ?_, ?_, ?_, sound.separate⟩
  · intro d' mem
    rw [binds]
    rcases List.mem_append.1 mem with mem | new
    · exact sound.drafted d' mem
    · rw [List.mem_singleton] at new
      subst new
      exact ⟨name, config, named ▸ isBound, drafted⟩
  · rw [binds]
    exact sound.adopted
  · intro key r mem
    rcases (mem_insert_known unknown).1 mem with mem | same
    · refine (sound.known key r mem).imp ?_ id
      rintro ⟨d', submitted, rfl⟩
      exact ⟨d', List.mem_append_left _ submitted, rfl⟩
    · cases same
      exact .inl ⟨d, List.mem_append_right _ List.mem_cons_self, named⟩
  · intro e mem
    rcases List.mem_append.1 mem with mem | new
    · obtain ⟨before, direction⟩ := sound.compiled e mem
      exact ⟨(mem_insert_known unknown).2 (.inl before), direction⟩
    · rw [List.mem_singleton] at new
      exact ⟨(mem_insert_known unknown).2 (.inr new), new ▸ rfl⟩

theorem compileRoutine_gives {inner : TypeExpr → Action I O Converter}
    (compiles : CompilesTypes cx (Sound cx) inner) (named : cx.mode.Named) {declared : RecordType}
    (isDeclared : cx.schema.record? name = some declared) (sound : Sound cx s)
    (new : Assoc.get? ⟨name, config, cx.mode.direction⟩ s.known = none)
    (drawn : routine = (s.names.fresh cx.mode.direction name).1)
    (h : Gives (inRoutine ⟨name, config, cx.mode.direction⟩ routine
      (compileRoutine cx inner declared config routine))
      { s with names := (s.names.fresh cx.mode.direction name).2 } () s') :
    Sound cx { s' with
      known := Assoc.insert ⟨name, config, cx.mode.direction⟩ routine s'.known
      compiled := s'.compiled ++ [(⟨name, config, cx.mode.direction⟩, routine)] } ∧
      Extends s s' ∧ Assoc.get? ⟨name, config, cx.mode.direction⟩ s'.known = none := by
  rw [inRoutine, Gives.within_iff] at h
  obtain ⟨inside, h, rfl⟩ := h
  rw [compileRoutine, Gives.bind_iff] at h
  obtain ⟨_, opened, opens, h⟩ := h
  rw [Gives.bind_iff] at h
  obtain ⟨fields, filled, fills, submits⟩ := h
  obtain rfl := Gives.modify_iff.1 submits
  -- the name is opened only if it was not before
  rw [openRoutine, Gives.bind_iff] at opens
  obtain ⟨_, _, state, opens⟩ := opens
  obtain ⟨rfl, rfl⟩ := Gives.state_iff.1 state
  rw [Gives.bind_iff] at opens
  obtain ⟨synthesis, _, opens, stores⟩ := opens
  obtain ⟨opens, rfl⟩ := Gives.ofExcept_iff.1 opens
  obtain rfl := Gives.modify_iff.1 stores
  have unopened : routine ∉ s.synthesis.opened := by
    intro mem
    rw [Synthesis.openRoutine, if_pos (List.contains_iff_mem.2 mem)] at opens
    cases opens
  rw [Synthesis.openRoutine, if_neg (by simpa using unopened)] at opens
  cases opens
  obtain ⟨soundFilled, extends₁, all, compiled⟩ :=
    compileFields_gives compiles (fun _ _ _ isSound => isSound.relocate _ _)
      (sound.begin isDeclared drawn unopened) fills
  have inGuard : filled.guard = s.guard.enter ⟨name, config, cx.mode.direction⟩ routine :=
    extends₁.guard
  have fresh : ∀ e ∈ filled.known, e ∈ s.known ∨
      s.guard.name? e.1 = none ∧ e.1 ≠ ⟨name, config, cx.mode.direction⟩ :=
    fun e mem => (extends₁.fresh e mem).imp id RecursionGuard.name?_of_enter
  have unknown : Assoc.get? ⟨name, config, cx.mode.direction⟩ filled.known = none := by
    rw [Assoc.get?_eq_none_iff] at new ⊢
    intro mem
    obtain ⟨e, known, isKey⟩ := List.mem_map.1 mem
    rcases fresh e known with before | ⟨-, other⟩
    · exact new (List.mem_map.2 ⟨e, before, isKey⟩)
    · exact other isKey
  have drafted : IsDraft cx.schema cx.registry cx.mode (filled.binds cx.mode.direction) name config
      (cx.mode.draft declared config routine fields) :=
    ⟨declared, fields, isDeclared, by rw [named], all, compiled⟩
  have guard : filled.guard.leave ⟨name, config, cx.mode.direction⟩ = s.guard := by
    rw [inGuard, RecursionGuard.leave_enter]
  refine ⟨?_, ⟨rfl, rfl, guard, extends₁.known, ?_⟩, unknown⟩
  · have finished := soundFilled.finish inGuard unknown drafted (named ..) s.config s.site
    rw [← guard] at finished
    exact finished
  · intro e mem
    exact (fresh e mem).imp id And.left

end

theorem ensureRoutine_of_cached {inner : TypeExpr → Action I O Converter} {name : String}
    {config : Config} {linked : Linked I O}
    (absent : (s.guard.name? ⟨name, config, cx.mode.direction⟩).or
      (Assoc.get? ⟨name, config, cx.mode.direction⟩ s.known) = none)
    (cached : cx.cached ⟨name, config, cx.mode.direction⟩ = some linked) :
    Gives (ensureRoutine cx inner name config) s (s.names.fresh cx.mode.direction name).1
      (s.adopted ⟨name, config, cx.mode.direction⟩ linked) := by
  refine Gives.bind_iff.2 ⟨s, s, Gives.state_iff.2 ⟨rfl, rfl⟩, ?_⟩
  simp only [absent, cached]
  exact adopt_does _ linked s

theorem compiled_of_gives {inner : TypeExpr → Action I O Converter} {name routine : String}
    {config : Config}
    (absent : (s.guard.name? ⟨name, config, cx.mode.direction⟩).or
      (Assoc.get? ⟨name, config, cx.mode.direction⟩ s.known) = none)
    (uncached : cx.cached ⟨name, config, cx.mode.direction⟩ = none)
    (h : Gives (ensureRoutine cx inner name config) s routine s') :
    ∃ record after, cx.schema.record? name = some record ∧
      routine = (s.names.fresh cx.mode.direction name).1 ∧
      Gives (inRoutine ⟨name, config, cx.mode.direction⟩ routine
          (compileRoutine cx inner record config routine))
        { s with names := (s.names.fresh cx.mode.direction name).2 } () after ∧
      s' = { after with
        known := Assoc.insert ⟨name, config, cx.mode.direction⟩ routine after.known
        compiled := after.compiled ++ [(⟨name, config, cx.mode.direction⟩, routine)] } := by
  rw [ensureRoutine, Gives.bind_iff] at h
  obtain ⟨_, _, state, h⟩ := h
  obtain ⟨rfl, rfl⟩ := Gives.state_iff.1 state
  simp only [absent, uncached] at h
  rw [Gives.bind_iff] at h
  obtain ⟨record, _, finds, h⟩ := h
  obtain ⟨declared, rfl⟩ := Gives.ofExcept_iff.1 finds
  rw [Gives.bind_iff] at h
  obtain ⟨_, _, checked, h⟩ := h
  obtain ⟨-, rfl⟩ := Gives.ofExcept_iff.1 checked
  rw [Gives.bind_iff] at h
  obtain ⟨drawn, _, draws, h⟩ := h
  obtain ⟨isDrawn, rfl⟩ := freshName_gives draws
  rw [Gives.bind_iff] at h
  obtain ⟨_, after, compiled, h⟩ := h
  rw [Gives.bind_iff] at h
  obtain ⟨_, _, stores, h⟩ := h
  obtain rfl := Gives.modify_iff.1 stores
  obtain ⟨rfl, rfl⟩ := Gives.pure_iff.1 h
  exact ⟨record, after, findRecord_eq_ok.1 declared, isDrawn, compiled, rfl⟩

theorem ensureRoutine_gives {inner : TypeExpr → Action I O Converter}
    (compiles : CompilesTypes cx (Sound cx) inner) (named : cx.mode.Named) (valid : cx.Valid)
    {name : String} {config : Config} {routine : String} (sound : Sound cx s)
    (h : Gives (ensureRoutine cx inner name config) s routine s') :
    Sound cx s' ∧ Extends s s' ∧ s'.binds cx.mode.direction routine name config := by
  have ran := h
  rw [ensureRoutine, Gives.bind_iff] at h
  obtain ⟨_, _, state, h⟩ := h
  obtain ⟨rfl, rfl⟩ := Gives.state_iff.1 state
  split at h
  case h_1 present =>
    obtain ⟨rfl, rfl⟩ := Gives.pure_iff.1 h
    refine ⟨sound, .refl _, ?_⟩
    rcases Option.or_eq_some_iff.1 present with active | ⟨-, known⟩
    · exact .inl (Assoc.mem_of_get? active)
    · exact .inr (Assoc.mem_of_get? known)
  case h_2 linked absent cached =>
    rw [Option.or_eq_none_iff] at absent
    rcases sound.separate with ⟨-, -, uncached⟩ | ⟨unnumbered, counted⟩
    · rw [uncached] at cached
      cases cached
    · exact adopt_gives absent.2 sound unnumbered counted (valid _ _ _ cached) absent.1 h
  case h_3 absent uncached =>
    obtain ⟨declared, after, isDeclared, rfl, compiled, rfl⟩ :=
      compiled_of_gives absent uncached ran
    rw [Option.or_eq_none_iff] at absent
    obtain ⟨soundAfter, extends₁, unknown⟩ := compileRoutine_gives compiles named isDeclared sound
      absent.2 rfl compiled
    refine ⟨soundAfter, ?_, .inr ((mem_insert_known unknown).2 (.inr rfl))⟩
    refine extends₁.trans ⟨rfl, rfl, rfl, fun e mem => (mem_insert_known unknown).2 (.inl mem), ?_⟩
    intro e mem
    rcases (mem_insert_known unknown).1 mem with mem | rfl
    · exact .inl mem
    · exact .inr (extends₁.guard ▸ absent.1)

theorem reference_gives {routine : String} {c : Converter} (sound : Sound cx s)
    (h : Gives (reference routine) s c s') : Sound cx s' ∧ Extends s s' ∧ c = .record routine := by
  rw [reference, Gives.bind_iff] at h
  obtain ⟨_, _, stores, h⟩ := h
  obtain rfl := Gives.modify_iff.1 stores
  obtain ⟨rfl, rfl⟩ := Gives.pure_iff.1 h
  have opened : (s.synthesis.reference routine).opened = s.synthesis.opened := by
    unfold Synthesis.reference
    split <;> rfl
  have drafts : (s.synthesis.reference routine).drafts = s.synthesis.drafts := by
    unfold Synthesis.reference
    split <;> rfl
  have uses : ∀ r, Compilation.uses { s with synthesis := s.synthesis.reference routine } r ↔
      s.uses r := fun r => by simp only [Compilation.uses, opened]
  refine ⟨⟨sound.functional, fun bound => (uses _).2 (sound.named bound),
    drafts.symm ▸ sound.drafted,
    sound.adopted, drafts.symm ▸ sound.known, sound.compiled, ?_⟩,
    ⟨rfl, rfl, rfl, fun _ mem => mem, fun _ mem => .inl mem⟩, rfl⟩
  exact sound.separate.imp id fun ⟨unnumbered, counted⟩ =>
    ⟨unnumbered, fun r used => counted r ((uses r).1 used)⟩

theorem recordConverter_gives {inner : TypeExpr → Action I O Converter}
    (compiles : CompilesTypes cx (Sound cx) inner) (named : cx.mode.Named) (valid : cx.Valid) :
    CallsRecords cx (Sound cx) inner := by
  intro name config s c s' sound h
  rw [recordConverter, Gives.bind_iff] at h
  obtain ⟨routine, s₁, ensures, refers⟩ := h
  obtain ⟨sound₁, extends₁, bound⟩ := ensureRoutine_gives compiles named valid sound ensures
  obtain ⟨sound₂, extends₂, rfl⟩ := reference_gives sound₁ refers
  exact ⟨sound₂, extends₁.trans extends₂, routine, rfl, extends₂.binds _ _ _ _ bound⟩

section
variable {P : Compilation I O → Prop}

/-- Actions in a row, each of which has to give something that later ones keep. -/
theorem mapM_gives {α β : Type} {action : α → Action I O β} {here : Position}
    {Q : Compilation I O → α → β → Prop} {xs : List α} {ys : List β}
    (keeps : ∀ ⦃s s' x y⦄, Extends s s' → Q s x y → Q s' x y)
    (acts : ∀ ⦃x s y s'⦄, P s → s.position = here → Gives (action x) s y s' →
      P s' ∧ Extends s s' ∧ Q s' x y)
    (sound : P s) (position : s.position = here) (h : Gives (xs.mapM action) s ys s') :
    P s' ∧ Extends s s' ∧ ys.length = xs.length ∧
      ∀ (i : Nat) (x : α) (y : β), xs[i]? = some x → ys[i]? = some y → Q s' x y := by
  induction xs generalizing s ys with
  | nil =>
    rw [List.mapM_nil] at h
    obtain ⟨rfl, rfl⟩ := Gives.pure_iff.1 h
    exact ⟨sound, .refl _, rfl, fun i x y atX => by simp at atX⟩
  | cons x rest ih =>
    rw [List.mapM_cons, Gives.bind_iff] at h
    obtain ⟨y, s₁, first, h⟩ := h
    rw [Gives.bind_iff] at h
    obtain ⟨others, s₂, tail, last⟩ := h
    obtain ⟨rfl, rfl⟩ := Gives.pure_iff.1 last
    obtain ⟨sound₁, extends₁, gave⟩ := acts sound position first
    obtain ⟨sound₂, extends₂, count, gives⟩ := ih sound₁ (extends₁.position.trans position) tail
    refine ⟨sound₂, extends₁.trans extends₂, by simp [count], ?_⟩
    intro i x' y' atX atY
    cases i with
    | zero =>
      cases atX
      cases atY
      exact keeps extends₂ gave
    | succ i => exact gives i x' y' atX atY

/-- The converter of an arm calls the routine of the arm's record, or is the compiled form of its
type. -/
def CompilesArm (cx : Context I O) (here : Position) (s : Compilation I O) (arm : UnionArm)
    (c : Converter) : Prop :=
  (∀ name config, arm.record = some (name, config) →
    ∃ routine, c = .record routine ∧ s.binds cx.mode.direction routine name config) ∧
  (arm.record = none →
    Compiles cx.schema cx.registry (s.binds cx.mode.direction) here arm.type c)

theorem CompilesArm.extend {here : Position} {arm : UnionArm} {c : Converter}
    (more : Extends s s') (h : CompilesArm cx here s arm c) : CompilesArm cx here s' arm c := by
  refine ⟨fun name config isRecord => ?_, fun other => (h.2 other).mono (more.binds _)⟩
  obtain ⟨routine, same, bound⟩ := h.1 name config isRecord
  exact ⟨routine, same, more.binds _ _ _ _ bound⟩

theorem armConverter_gives {inner : TypeExpr → Action I O Converter}
    (compiles : CompilesTypes cx P inner) (calls : CallsRecords cx P inner) {arm : UnionArm}
    {c : Converter} (sound : P s) (h : Gives (armConverter cx inner arm) s c s') :
    P s' ∧ Extends s s' ∧ CompilesArm cx s.position s' arm c := by
  unfold armConverter at h
  split at h
  case h_1 name config isRecord =>
    obtain ⟨sound', extends', bound⟩ := calls sound h
    refine ⟨sound', extends', ?_, fun other => ?_⟩
    · intro name' config' same
      rw [isRecord] at same
      cases same
      exact bound
    · rw [isRecord] at other
      cases other
  case h_2 other =>
    obtain ⟨sound', extends', compiled⟩ := compiles sound h
    refine ⟨sound', extends', fun name config isRecord => ?_, fun _ => compiled⟩
    rw [other] at isRecord
    cases isRecord

section
variable {inner : TypeExpr → Action I O Converter} {ty target : TypeExpr} {handler : Handler}
  {c : Converter}

theorem oneArgument_gives (compiles : CompilesTypes cx P inner) (build : Converter → Converter)
    (sound : P s) (h : Gives (do pure (build (← inner ty))) s c s') :
    P s' ∧ Extends s s' ∧ ∃ item, c = build item ∧
      Compiles cx.schema cx.registry (s'.binds cx.mode.direction) s.position ty item := by
  rw [Gives.bind_iff] at h
  obtain ⟨item, s₁, first, last⟩ := h
  obtain ⟨rfl, rfl⟩ := Gives.pure_iff.1 last
  obtain ⟨sound', extends', compiled⟩ := compiles sound first
  exact ⟨sound', extends', item, rfl, compiled⟩

theorem twoArguments_gives (compiles : CompilesTypes cx P inner) {keyTy itemTy : TypeExpr}
    (build : Converter → Converter → Converter) (sound : P s)
    (h : Gives (do
      let key ← inner keyTy
      let item ← inner itemTy
      pure (build key item)) s c s') :
    P s' ∧ Extends s s' ∧ ∃ key item, c = build key item ∧
      Compiles cx.schema cx.registry (s'.binds cx.mode.direction) s.position keyTy key ∧
      Compiles cx.schema cx.registry (s'.binds cx.mode.direction) s.position itemTy item := by
  rw [Gives.bind_iff] at h
  obtain ⟨key, s₁, first, h⟩ := h
  obtain ⟨sound₁, extends₁, compiledKey⟩ := compiles sound first
  obtain ⟨sound₂, extends₂, item, rfl, compiledItem⟩ :=
    oneArgument_gives compiles (build key) sound₁ h
  rw [extends₁.position] at compiledItem
  exact ⟨sound₂, extends₁.trans extends₂, key, item, rfl, compiledKey.mono (extends₂.binds _),
    compiledItem⟩

theorem handle_gives (compiles : CompilesTypes cx P inner) (calls : CallsRecords cx P inner)
    (handled : Handled cx.schema cx.registry ty handler target) (sound : P s)
    (h : Gives (handle cx inner handler target) s c s') :
    P s' ∧ Extends s s' ∧
      Compiles cx.schema cx.registry (s'.binds cx.mode.direction) s.position ty c := by
  cases handler with
  | scalar p =>
    obtain ⟨rfl, rfl⟩ := Gives.pure_iff.1 h
    exact ⟨sound, .refl _, .scalar handled⟩
  | optional =>
    obtain ⟨sound', extends', item, rfl, compiled⟩ := oneArgument_gives compiles .optional sound h
    exact ⟨sound', extends', .optional handled compiled⟩
  | sequence =>
    obtain ⟨sound', extends', item, rfl, compiled⟩ :=
      oneArgument_gives compiles (.items .list) sound h
    exact ⟨sound', extends', .items .list handled compiled⟩
  | set =>
    obtain ⟨sound', extends', item, rfl, compiled⟩ :=
      oneArgument_gives compiles (.items .set) sound h
    exact ⟨sound', extends', .items .set handled compiled⟩
  | variadicTuple =>
    obtain ⟨sound', extends', item, rfl, compiled⟩ :=
      oneArgument_gives compiles (.items .tuple) sound h
    exact ⟨sound', extends', .items .tuple handled compiled⟩
  | fixedTuple =>
    rw [handle, Gives.bind_iff] at h
    obtain ⟨parts, s₁, converts, last⟩ := h
    obtain ⟨rfl, rfl⟩ := Gives.pure_iff.1 last
    obtain ⟨sound', extends', count, compiled⟩ :=
      mapM_gives (Q := fun s' ty c =>
          Compiles cx.schema cx.registry (s'.binds cx.mode.direction) s.position ty c)
        (fun _ _ _ _ more before => before.mono (more.binds _))
        (fun _ _ _ _ sound₁ position converts => position ▸ compiles sound₁ converts) sound rfl
        converts
    exact ⟨sound', extends', .tuple handled count compiled⟩
  | mapping =>
    obtain ⟨sound', extends', key, item, rfl, compiledKey, compiledItem⟩ :=
      twoArguments_gives compiles .mapping sound h
    exact ⟨sound', extends', .mapping handled compiledKey compiledItem⟩
  | defaultMapping =>
    obtain ⟨sound', extends', key, item, rfl, compiledKey, compiledItem⟩ :=
      twoArguments_gives compiles (fun key item =>
        .defaultMapping key item (Converter.zeroOf (target.arg 1))) sound h
    exact ⟨sound', extends', .defaultMapping handled compiledKey compiledItem⟩
  | literal =>
    obtain ⟨rfl, rfl⟩ := Gives.pure_iff.1 h
    exact ⟨sound, .refl _, .literal handled⟩
  | enumeration =>
    rw [handle, Gives.bind_iff] at h
    obtain ⟨e, s₁, finds, last⟩ := h
    obtain ⟨found, rfl⟩ := Gives.ofExcept_iff.1 finds
    obtain ⟨rfl, rfl⟩ := Gives.pure_iff.1 last
    exact ⟨sound, .refl _, .enumeration handled found⟩
  | union =>
    rw [handle, Gives.bind_iff] at h
    obtain ⟨plan, s₁, plans, h⟩ := h
    obtain ⟨rfl, rfl, distinct⟩ := planUnion_gives plans
    rw [Gives.bind_iff] at h
    obtain ⟨arms, s₂, converts, last⟩ := h
    obtain ⟨rfl, rfl⟩ := Gives.pure_iff.1 last
    obtain ⟨sound', extends', count, compiled⟩ :=
      mapM_gives (Q := CompilesArm cx s₁.position) (fun _ _ _ _ => CompilesArm.extend)
        (fun _ _ _ _ sound₁ position converts =>
          position ▸ armConverter_gives compiles calls sound₁ converts) sound rfl converts
    have ofArm : ∀ (i : Nat) (inner : TypeExpr), target.args[i]? = some inner →
        (s₁.position.plan cx.schema target).arms[i]? = some (s₁.position.arm cx.schema inner) := by
      intro i inner there
      simp [Position.plan, there]
    refine ⟨sound', extends',
      .union handled (by simpa [Position.plan] using count) distinct ?_ ?_⟩
    · intro i inner c there atArm
      exact (compiled i _ c (ofArm i inner there) atArm).1
    · intro i inner c there atArm other
      have compiled := (compiled i _ c (ofArm i inner there) atArm).2 other
      rwa [arm_type] at compiled
  | record =>
    rw [handle] at h
    split at h
    case h_1 name isNamed =>
      rw [Gives.bind_iff] at h
      obtain ⟨config, s₁, nested, converts⟩ := h
      obtain ⟨rfl, rfl, -⟩ := nestedConfig_gives nested
      obtain ⟨sound', extends', routine, rfl, bound⟩ := calls sound converts
      exact ⟨sound', extends', .record handled isNamed bound⟩
    case h_2 => simp at h
  | custom decode encode =>
    obtain ⟨rfl, rfl⟩ := Gives.pure_iff.1 h
    exact ⟨sound, .refl _, .custom handled⟩

end
end

/-- The converter that comes of a type is its compiled form. -/
theorem converterFor_gives (named : cx.mode.Named) (valid : cx.Valid) (fuel : Nat) :
    CompilesTypes cx (Sound cx) (converterFor cx fuel) := by
  induction fuel with
  | zero =>
    intro ty s c s' sound h
    simp [converterFor] at h
  | succ fuel ih =>
    intro ty s c s' sound h
    rw [converterFor, Gives.bind_iff] at h
    obtain ⟨⟨handler, target⟩, s₁, resolves, h⟩ := h
    obtain ⟨handled, rfl⟩ := Gives.ofExcept_iff.1 resolves
    exact handle_gives ih (recordConverter_gives ih named valid) handled sound h

end RecordCodec.Compile
