import RecordCodec.Proofs.Outcomes
import RecordCodec.Proofs.Reversible

set_option autoImplicit false

/-!
# Compile sessions succeed

Where every type that a record reaches is one that can be read back, the check of the record passes,
so a session for it succeeds.
-/
namespace RecordCodec.Compile

open Routine Direct

variable {I O : Type} {cx : Context I O} {start : String × Config}

theorem mem_sessionKeys_of_reaches {schema : Schema} {name : String} {config : Config}
    (h : Reaches schema start name config) : (name, config) ∈ sessionKeys schema start := by
  cases h with
  | refl => exact start_mem_sessionKeys
  | step _ _ _ _ found => exact inherit_mem_sessionKeys found _

/-- What a session needs to succeed from a record and a configuration on. -/
structure Context.Ready (cx : Context I O) (start : String × Config) : Prop where
  builtin : cx.registry = .builtin
  declarations : cx.schema.Declared
  regular : cx.Regular
  declared : ∃ r, cx.schema.record? start.1 = some r ∧ start.2.Valid (r.fields.map Field.name)
  types : ∀ name config r, Reaches cx.schema start name config →
    cx.schema.record? name = some r → ∀ f ∈ r.fields, Reversible cx.schema f.type

theorem Context.Ready.config (ready : cx.Ready start) {name : String} {config : Config}
    (reached : Reaches cx.schema start name config) {r : RecordType}
    (declared : cx.schema.record? name = some r) : config.Valid (r.fields.map Field.name) := by
  induction reached generalizing r with
  | refl =>
    obtain ⟨record, found, valid⟩ := ready.declared
    cases found.symm.trans declared
    exact valid
  | step _ outer _ _ found ih =>
    cases found.symm.trans declared
    exact (ready.declarations.checked declared).2.2.config.inherit (ih outer)

theorem Context.Ready.fresh (ready : cx.Ready start) : cx.fresh.Ready start :=
  ⟨ready.builtin, ready.declarations, ready.regular.fresh, ready.declared, ready.types⟩

variable {active : List (String × Config)} {fuel : Nat}

/-- Every type that can be read back and that the fuel is enough for passes. -/
def PassesTypes (cx : Context I O) (start : String × Config) (fuel : Nat) : Prop :=
  ∀ ⦃active here ty⦄, Placed cx.schema start active here.position →
    Affords cx.schema active ty fuel → Reversible cx.schema ty →
    Covers cx.schema start here.position ty → (check cx fuel active here ty).Returns ()

section
variable (ready : cx.Ready start) (passes : PassesTypes cx start fuel)
include ready passes

theorem checkRecord_of_reaches {name : String} {config : Config} {record : RecordType}
    (within : Within cx.schema start active) (reached : Reaches cx.schema start name config)
    (declared : cx.schema.record? name = some record) (enough : need cx.schema active 0 ≤ fuel) :
    (checkRecord cx (check cx fuel) active (name, config)).Returns () := by
  by_cases idle : (name, config) ∈ active
  case pos => exact checkRecord_returns.2 (.inl idle)
  case neg =>
    refine checkRecord_returns.2 (.inr ⟨record, declared,
      Config.check_eq_ok_iff.2 (ready.config reached declared), fun f mem => ?_⟩)
    have isField := ready.regular.lawful.own record config f mem
    have isMember := mem_sessionKeys_of_reaches reached
    have entered := within.enter idle isMember
    have less := need_enter_lt (entered.length_le declared) (depth_le_typeDepth declared isField)
    exact passes (.field entered isMember declared isField)
      (.inl (Nat.lt_of_lt_of_le less enough))
      (ready.types name config record reached declared f isField)
      fun _ _ mentions found => .step reached declared isField mentions found

theorem checkAs_of_reversible {here : Spot} {ty target : TypeExpr} {handler : Handler}
    (handled : Handled cx.schema .builtin ty handler target)
    (placed : Placed cx.schema start active here.position) (reversible : Reversible cx.schema ty)
    (covers : Covers cx.schema start here.position ty)
    (enough : need cx.schema active ty.depth ≤ fuel) :
    (checkAs cx (check cx fuel) active here target handler).Returns () := by
  have argument : ∀ index, Reversible cx.schema (target.arg index) →
      (check cx fuel active here (target.arg index)).Returns () := fun index type =>
    passes placed (.arg enough handled index) type (covers.arg handled index)
  have elim := reversible.elim handled
  cases handler with
  | scalar | literal => exact Run.Returns.pure_iff.2 rfl
  | optional => exact argument 0 elim.1
  | sequence | set | variadicTuple => exact argument 0 elim
  | fixedTuple =>
    refine checkAll_returns.2 (List.forall_mem_map.2 fun arg mem => ?_)
    exact passes placed (.of_mem enough handled mem) (elim arg mem) (covers.of_mem handled mem)
  | mapping | defaultMapping =>
    obtain ⟨⟨key, isText⟩, item⟩ := elim
    refine checkAll_returns.2 (List.forall_mem_cons.2 ⟨argument 0 (.scalar isText (by simp)), ?_⟩)
    exact List.forall_mem_cons.2 ⟨argument 1 item, fun _ mem => absurd mem List.not_mem_nil⟩
  | enumeration =>
    obtain ⟨e, found, -⟩ := elim
    exact Run.Returns.bind_iff.2 ⟨e, Run.Returns.ofExcept_iff.2 found, Run.Returns.pure_iff.2 rfl⟩
  | record =>
    obtain ⟨name, record, isName, declared⟩ := elim
    have reached := covers name record (.here handled isName) declared
    have forRecord : need cx.schema active 0 ≤ fuel := by
      unfold need at enough ⊢
      omega
    simp only [checkAs, isName, Position.nestedConfig_of_declared declared]
    exact Run.Returns.bind_iff.2 ⟨record, Run.Returns.ofExcept_iff.2 (findRecord_eq_ok.2 declared),
      checkRecord_of_reaches ready passes placed.toWithin reached declared forRecord⟩
  | union => exact elim.elim
  | custom decode encode => exact elim.elim

end

theorem check_of_reversible (ready : cx.Ready start) (fuel : Nat) : PassesTypes cx start fuel := by
  induction fuel with
  | zero =>
    rintro active here ty placed (enough | ⟨-, enough⟩)
    · exact absurd enough (Nat.not_lt_zero _)
    · exact absurd enough (Nat.lt_irrefl _)
  | succ fuel ih =>
    intro active here ty placed enough reversible covers
    obtain ⟨handler, target, handled⟩ := reversible.handled
    refine check_succ_returns.2 ⟨handler, target, ready.builtin ▸ handled, ?_⟩
    rcases enough with enough | ⟨rfl, -⟩
    · exact checkAs_of_reversible ready ih handled placed reversible covers
        (Nat.le_of_lt_succ enough)
    · obtain ⟨rfl, rfl⟩ := handled.unique (handled_any Registry.keepsAny_builtin)
      exact Run.Returns.pure_iff.2 rfl

/-- A record is compiled if everything that it reaches can be. -/
theorem compile_succeeds (ready : cx.Ready start) (stamp : Nat) :
    ∃ compiled, (compile cx stamp start.1 start.2).Returns compiled := by
  obtain ⟨record, declared, -⟩ := ready.declared
  have passes : (cx.verdict (start.1, start.2)).Returns () :=
    checkRecord_of_reaches ready.fresh (check_of_reversible ready.fresh _) .nil .refl declared
      need_le_fuelFor
  obtain ⟨outcome, -⟩ := compile_outcome ready.regular stamp start.1 start.2
  rw [← outcome] at passes
  obtain ⟨compiled, returns, -⟩ := Run.Returns.bind_iff.1 passes
  exact ⟨compiled, returns⟩

end RecordCodec.Compile
