import RecordCodec.Proofs.Actions
import RecordCodec.Proofs.Entries
import RecordCodec.Proofs.Lowering
import RecordCodec.Proofs.Naming

set_option autoImplicit false

/-!
# Invariants of a compile session

Each name of a session stands for one record under one configuration. What the session has under
the name is the draft of that record, with converters that are the compiled forms of the types of
its fields, or a routine taken over from the cache that serves that record.
-/
namespace RecordCodec.Compile

open Routine Direct

variable {I O : Type}

/-- The draft of a record under a configuration, with the compiled forms of its fields. -/
def IsDraft (schema : Schema) (registry : Registry) (mode : Mode I O) (bound : Binding)
    (name : String) (config : Config) (d : Draft I O) : Prop :=
  ∃ record fields, schema.record? name = some record ∧ d = mode.draft record config d.name fields ∧
    fields.map Prod.fst = mode.fields record config ∧
    ∀ f c, (f, c) ∈ fields →
      Compiles schema registry bound ⟨config, f.discriminator⟩ f.type c

theorem IsDraft.mono {schema : Schema} {registry : Registry} {mode : Mode I O}
    {bound wider : Binding} {name : String} {config : Config} {d : Draft I O}
    (h : IsDraft schema registry mode bound name config d)
    (le : ∀ routine name config, bound routine name config → wider routine name config) :
    IsDraft schema registry mode wider name config d := by
  obtain ⟨record, fields, declared, made, all, compiled⟩ := h
  exact ⟨record, fields, declared, made, all, fun f c mem => (compiled f c mem).mono le⟩

/-- Every name stands for at most one record with one configuration. -/
def Binding.Functional (bound : Binding) : Prop :=
  ∀ ⦃routine name name' config config'⦄, bound routine name config → bound routine name' config' →
    name = name' ∧ config = config'

/-- The routine was compiled for the record under the configuration, and so were all routines that
it may call for what they are called for. -/
inductive Serves (schema : Schema) (registry : Registry) (mode : Mode I O) :
    Linked I O → String → Config → Prop where
  | intro {r : Linked I O} {name : String} {config : Config} (bound : Binding)
    (functional : bound.Functional)
    (main : r.code ∈ r.session) (mainBound : bound r.code.name name config)
    (codes : ∀ code ∈ r.session, ∃ name config d, bound code.name name config ∧
      IsDraft schema registry mode bound name config d ∧ d.lower = .ok code)
    (found : ∀ routine name config, bound routine name config →
      (∃ code ∈ r.session, code.name = routine) ∨ (Assoc.get? routine r.environment).isSome)
    (adopted : ∀ routine name config linked, bound routine name config →
      Assoc.get? routine r.environment = some linked →
      Serves schema registry mode linked name config)
    (size : r.session.length + total (r.environment.map fun e => e.2.size) ≤ r.size)
    (reach : total (r.session.map Code.reach) + total (r.environment.map fun e => e.2.reach) ≤
      r.reach) :
    Serves schema registry mode r name config

theorem Serves.record {schema : Schema} {registry : Registry} {mode : Mode I O} {r : Linked I O}
    {name : String} {config : Config} (h : Serves schema registry mode r name config) :
    ∃ record, schema.record? name = some record := by
  cases h with
  | intro bound functional main mainBound codes found adopted size reach =>
    obtain ⟨name', config', d, isBound, ⟨record, _, declared, _⟩, _⟩ := codes _ main
    obtain ⟨rfl, rfl⟩ := functional mainBound isBound
    exact ⟨record, declared⟩

namespace Compilation

/-- What the names of a session stand for. -/
def binds (direction : Direction) (s : Compilation I O) : Binding := fun routine name config =>
  (⟨name, config, direction⟩, routine) ∈ s.guard.active ∨
    (⟨name, config, direction⟩, routine) ∈ s.known

def uses (s : Compilation I O) (routine : String) : Prop :=
  routine ∈ s.synthesis.opened ∨ (Assoc.get? routine s.environment).isSome

/-- Every name in use is a numbered one, with a number that was given out. -/
def Counted (schema : Schema) (direction : Direction) (s : Compilation I O) : Prop :=
  ∀ routine, s.uses routine → ∃ name record n, schema.record? name = some record ∧ 1 ≤ n ∧
    n ≤ s.names.count (NameScope.plainName direction name) ∧
    routine = NameScope.numbered (NameScope.plainName direction name) n

/-- Names are kept apart by their numbers. Where a record has the name of another one with a
number, nothing is ever taken over from the cache, and each name is opened once. -/
def Separate (cx : Context I O) (s : Compilation I O) : Prop :=
  (¬cx.schema.Unnumbered ∧ s.environment = [] ∧ ∀ key, cx.cached key = none) ∨
    (cx.schema.Unnumbered ∧ s.Counted cx.schema cx.mode.direction)

structure Sound (cx : Context I O) (s : Compilation I O) : Prop where
  functional : (s.binds cx.mode.direction).Functional
  named : ∀ {routine name config}, s.binds cx.mode.direction routine name config → s.uses routine
  drafted : ∀ d ∈ s.synthesis.drafts, ∃ name config,
    s.binds cx.mode.direction d.name name config ∧
      IsDraft cx.schema cx.registry cx.mode (s.binds cx.mode.direction) name config d
  adopted : ∀ routine linked, Assoc.get? routine s.environment = some linked → ∃ name config,
    s.binds cx.mode.direction routine name config ∧
      Serves cx.schema cx.registry cx.mode linked name config
  known : ∀ key routine, (key, routine) ∈ s.known →
    (∃ d ∈ s.synthesis.drafts, d.name = routine) ∨ (Assoc.get? routine s.environment).isSome
  compiled : ∀ e ∈ s.compiled, e ∈ s.known ∧ e.1.direction = cx.mode.direction
  separate : s.Separate cx

/-- What any action leaves as it was, and that it only adds names, for records that were not being
compiled. -/
structure Extends (s s' : Compilation I O) : Prop where
  config : s'.config = s.config
  site : s'.site = s.site
  guard : s'.guard = s.guard
  known : ∀ e ∈ s.known, e ∈ s'.known
  fresh : ∀ e ∈ s'.known, e ∈ s.known ∨ s.guard.name? e.1 = none

namespace Extends

variable {s s₁ s₂ : Compilation I O}

theorem refl (s : Compilation I O) : Extends s s :=
  ⟨rfl, rfl, rfl, fun _ h => h, fun _ h => .inl h⟩

theorem trans (first : Extends s s₁) (second : Extends s₁ s₂) : Extends s s₂ where
  config := second.config.trans first.config
  site := second.site.trans first.site
  guard := second.guard.trans first.guard
  known e h := second.known e (first.known e h)
  fresh e h := by
    rcases second.fresh e h with h | h
    · exact first.fresh e h
    · exact .inr (first.guard ▸ h)

theorem position (h : Extends s s₁) : s₁.position = s.position := by
  rw [Compilation.position, h.config, h.site]
  rfl

theorem binds (h : Extends s s₁) (direction : Direction) (routine name : String) (config : Config)
    (bound : s.binds direction routine name config) : s₁.binds direction routine name config := by
  rcases bound with active | known
  · exact .inl (h.guard.symm ▸ active)
  · exact .inr (h.known _ known)

end Extends

end Compilation

def Context.Valid (cx : Context I O) : Prop :=
  ∀ name config linked, cx.cached ⟨name, config, cx.mode.direction⟩ = some linked →
    Serves cx.schema cx.registry cx.mode linked name config

def Mode.Named (mode : Mode I O) : Prop :=
  ∀ record config name fields, (mode.draft record config name fields).name = name

namespace NameScope

theorem count_fresh (direction : Direction) (record : String) (names : NameScope) :
    (names.fresh direction record).2.count (plainName direction record) =
      names.count (plainName direction record) + 1 := by
  simp [fresh, count]

theorem count_le_fresh (direction : Direction) (record base : String) (names : NameScope) :
    names.count base ≤ (names.fresh direction record).2.count base := by
  by_cases h : base = plainName direction record
  · subst h
    rw [count_fresh]
    exact Nat.le_succ _
  · simp [fresh, count, Assoc.get?_insert_of_ne h]

end NameScope

namespace RecursionGuard

theorem leave_enter (key : RoutineKey) (name : String) (g : RecursionGuard) :
    (g.enter key name).leave key = g := by
  simp [enter, leave, dropInnermost]

theorem mem_enter {key : RoutineKey} {name : String} {g : RecursionGuard}
    {e : RoutineKey × String} :
    e ∈ (g.enter key name).active ↔ e ∈ g.active ∨ e = (key, name) := by
  simp [enter]

theorem name?_of_enter {key other : RoutineKey} {name : String} {g : RecursionGuard}
    (h : (g.enter key name).name? other = none) : g.name? other = none ∧ other ≠ key := by
  rw [name?, enter, Assoc.get?_append, Option.or_eq_none_iff] at h
  refine ⟨h.1, ?_⟩
  rintro rfl
  simp [Assoc.get?] at h

end RecursionGuard

namespace Compilation

variable {cx : Context I O} {s s' : Compilation I O}

theorem Counted.draw {schema : Schema} {direction : Direction} (h : s.Counted schema direction)
    {name : String} {record : RecordType} (declared : schema.record? name = some record)
    (names : s'.names = (s.names.fresh direction name).2)
    (uses : ∀ r, s'.uses r → s.uses r ∨ r = (s.names.fresh direction name).1) :
    s'.Counted schema direction := by
  intro routine used
  rw [names]
  rcases uses routine used with before | rfl
  · obtain ⟨other, record, n, isDeclared, low, high, rfl⟩ := h routine before
    exact ⟨other, record, n, isDeclared, low,
      Nat.le_trans high (NameScope.count_le_fresh _ _ _ _), rfl⟩
  · exact ⟨name, record, s.names.count (NameScope.plainName direction name) + 1, declared,
      Nat.le_add_left _ _, Nat.le_of_eq (NameScope.count_fresh _ _ _).symm, rfl⟩

theorem Counted.not_uses {schema : Schema} {direction : Direction} (h : s.Counted schema direction)
    (unnumbered : schema.Unnumbered) {name : String} {record : RecordType}
    (declared : schema.record? name = some record) :
    ¬s.uses (s.names.fresh direction name).1 := by
  intro used
  obtain ⟨name', record', n, declared', low, high, same⟩ := h _ used
  obtain ⟨base, number⟩ :=
    unnumbered.eq_of_numbered_eq declared declared' (Nat.le_add_left _ _) low same
  rw [← base] at high
  omega

end Compilation
end RecordCodec.Compile
