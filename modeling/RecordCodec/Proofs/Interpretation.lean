import RecordCodec.Proofs.Declarations
import RecordCodec.Proofs.DecoderRuns
import RecordCodec.Proofs.EncoderRuns
import RecordCodec.Proofs.Linking

set_option autoImplicit false

/-!
# Routines and the direct interpretation

A routine that serves a record does what the direct interpretation of the record says, call for
call: both use up one unit of fuel for each record that is nested in another.
-/
namespace RecordCodec

theorem RecordType.Checked.plain {record : RecordType} (h : record.Checked) (config : Config)
    (form : Compile.Encoder.inArrayForm record config = true) :
    ∀ f ∈ record.fields, f.catchAll = false := by
  intro f mem
  simp only [Compile.Encoder.inArrayForm, Bool.and_eq_true, beq_iff_eq] at form
  rcases h.catchAll with none | ⟨other, -⟩
  · simpa using List.filter_eq_nil_iff.1 none f mem
  · exact absurd form.1 other

namespace Compile

open Routine Direct

variable {I O : Type} {schema : Schema} {registry : Registry}

theorem decode_succ {name : String} {record : RecordType}
    (declared : schema.record? name = some record) (fuel : Nat) (config : Config) (v : Json) :
    Direct.decode schema registry (fuel + 1) name config v =
      decodeRecord record config v fun field =>
        decodeType schema registry (Direct.decode schema registry fuel)
          ⟨config, field.discriminator⟩ (schema.resolve field.type) := by
  simp only [Direct.decode, findRecord_eq_ok.2 declared, Run.ofExcept_ok, pure_bind]

theorem encode_succ {name : String} {record : RecordType}
    (declared : schema.record? name = some record) (fuel : Nat) (config : Config) (v : Instance) :
    Direct.encode schema registry (fuel + 1) name config v =
      encodeRecord record config v fun field =>
        encodeType schema registry (Direct.encode schema registry fuel)
          ⟨config, field.discriminator⟩ (schema.resolve field.type) := by
  simp only [Direct.encode, findRecord_eq_ok.2 declared, Run.ofExcept_ok, pure_bind]

/-- What the code of a routine was made of: the compiled forms of the types of a record's fields. -/
structure Made (schema : Schema) (registry : Registry) (mode : Mode I O) (bound : Binding)
    (name : String) (config : Config) (record : RecordType) (parts : List (Field × Converter))
    (code : Code I O) : Prop where
  declared : schema.record? name = some record
  lowers : (mode.draft record config code.name parts).lower = .ok code
  fields : parts.map Prod.fst = mode.fields record config
  compiled : ∀ f c, (f, c) ∈ parts →
    Compiles schema registry bound ⟨config, f.discriminator⟩ f.type c

theorem IsDraft.made {mode : Mode I O} {bound : Binding} {name : String} {config : Config}
    {d : Draft I O} {code : Code I O} (h : IsDraft schema registry mode bound name config d)
    (lowers : d.lower = .ok code) :
    ∃ record parts, Made schema registry mode bound name config record parts code := by
  obtain ⟨record, parts, declared, made, all, compiled⟩ := h
  have named := (Draft.lower_eq_ok lowers).1
  refine ⟨record, parts, declared, ?_, all, compiled⟩
  rw [named, ← made]
  exact lowers

theorem callee?_of_found (r : Linked I O) {routine : String}
    (found : (∃ code ∈ r.session, code.name = routine) ∨
      (Assoc.get? routine r.environment).isSome) :
    (∃ code ∈ r.session, code.name = routine ∧ r.callee? routine = some { r with code }) ∨
      ∃ callee, Assoc.get? routine r.environment = some callee ∧
        r.callee? routine = some callee := by
  unfold Linked.callee?
  cases own : r.session.find? fun c => c.name == routine with
  | some code =>
    exact .inl ⟨code, List.mem_of_find?_eq_some own, by simpa using List.find?_some own, rfl⟩
  | none =>
    rcases found with ⟨code, mem, isNamed⟩ | present
    · have absent := List.find?_eq_none.1 own code mem
      simp [isNamed] at absent
    · obtain ⟨callee, isCallee⟩ := Option.isSome_iff_exists.1 present
      exact .inr ⟨callee, isCallee, isCallee⟩

namespace Serves

/-- What a routine that serves a record was made of, with names that stand for one record each, and
that its callees serve what their names are bound to. -/
theorem elim_functional {mode : Mode I O} {r : Linked I O} {name : String} {config : Config}
    (h : Serves schema registry mode r name config) :
    ∃ (bound : Binding) (record : RecordType) (parts : List (Field × Converter)),
      bound.Functional ∧ Made schema registry mode bound name config record parts r.code ∧
      ∀ routine name config, bound routine name config →
        ∃ callee, r.callee? routine = some callee ∧
          Serves schema registry mode callee name config := by
  cases h with
  | intro bound functional main mainBound codes found adopted size reach =>
    obtain ⟨name', config', d, isBound, draft, lowers⟩ := codes _ main
    obtain ⟨rfl, rfl⟩ := functional mainBound isBound
    obtain ⟨record, parts, made⟩ := draft.made lowers
    refine ⟨bound, record, parts, functional, made, fun routine name' config' isBound' => ?_⟩
    rcases callee?_of_found r (found _ _ _ isBound') with
      ⟨code, mem, isNamed, isCallee⟩ | ⟨callee, present, isCallee⟩
    · exact ⟨_, isCallee, .intro bound functional mem (isNamed.symm ▸ isBound') codes found adopted
        size reach⟩
    · exact ⟨callee, isCallee, adopted _ _ _ _ isBound' present⟩

theorem elim {mode : Mode I O} {r : Linked I O} {name : String} {config : Config}
    (h : Serves schema registry mode r name config) :
    ∃ (bound : Binding) (record : RecordType) (parts : List (Field × Converter)),
      Made schema registry mode bound name config record parts r.code ∧
      ∀ routine name config, bound routine name config →
        ∃ callee, r.callee? routine = some callee ∧
          Serves schema registry mode callee name config := by
  obtain ⟨bound, record, parts, -, rest⟩ := h.elim_functional
  exact ⟨bound, record, parts, rest⟩

theorem callWithin_decode (keeps : registry.KeepsAny) (fuel : Nat) {r : Linked Json Instance}
    {name : String} {config : Config} (h : Serves schema registry .decoding r name config) :
    r.callWithin fuel = Direct.decode schema registry fuel name config := by
  induction fuel generalizing r name config with
  | zero =>
    funext v
    rfl
  | succ fuel ih =>
    obtain ⟨bound, record, parts, made, callees⟩ := h.elim
    funext v
    rw [Linked.callWithin, decode_succ made.declared]
    refine Decoder.run_of_lower record config v _ made.fields (fun f c mem => ?_) made.lowers
    refine (made.compiled f c mem).decode_eq keeps fun routine name config isBound => ?_
    obtain ⟨callee, isCallee, serves⟩ := callees routine name config isBound
    funext v
    rw [isCallee]
    exact congrFun (ih serves) v

theorem callWithin_encode (keeps : registry.KeepsAny) (declarations : schema.Declared) (fuel : Nat)
    {r : Linked Instance Json} {name : String} {config : Config}
    (h : Serves schema registry .encoding r name config) :
    r.callWithin fuel = Direct.encode schema registry fuel name config := by
  induction fuel generalizing r name config with
  | zero =>
    funext v
    rfl
  | succ fuel ih =>
    obtain ⟨bound, record, parts, made, callees⟩ := h.elim
    have plain := (declarations.checked made.declared).2.2.plain config
    funext v
    rw [Linked.callWithin, encode_succ made.declared]
    refine Encoder.run_of_lower record config v _ made.fields plain (fun f c mem => ?_) made.lowers
    refine (made.compiled f c mem).encode_eq keeps fun routine name config isBound => ?_
    obtain ⟨callee, isCallee, serves⟩ := callees routine name config isBound
    funext v
    rw [isCallee]
    exact congrFun (ih serves) v

end Serves
end Compile
end RecordCodec
