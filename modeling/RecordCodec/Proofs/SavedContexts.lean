import RecordCodec.Proofs.Termination

set_option autoImplicit false

/-!
# What a compile session puts back

A routine is compiled under its own configuration and a field at its own site, inside all routines
that are being compiled. Every call that may go into routines or fields ends with these as they
were, in whatever session it is made and at whatever depth it fails.
-/
namespace RecordCodec.Compile

open Routine Compilation

variable {I O α : Type} {cx : Context I O} {s s' : Compilation I O}

structure Compilation.SameContext (before after : Compilation I O) : Prop where
  config : after.config = before.config
  site : after.site = before.site
  guard : after.guard = before.guard

theorem Moves.sameContext (h : Moves cx s s') : s.SameContext s' :=
  ⟨h.extend.config, h.extend.site, h.extend.guard⟩

/-- A call that ends in every session, in the same way with any fuel from some amount on, and leaves
the context as it was, whatever comes of it. -/
structure PutsBack (call : Nat → Action I O α) : Prop where
  ends : ∀ s, ∃ enough result s', ∀ fuel, enough ≤ fuel → (call fuel).run s = some (result, s')
  putsBack : ∀ fuel s result s', (call fuel).run s = some (result, s') → s.SameContext s'

theorem ensureRoutine_putsBack (keeps : cx.registry.KeepsAny) (own : cx.mode.Own) (record : String)
    (config : Config) :
    PutsBack fun fuel => ensureRoutine cx (converterFor cx fuel) record config := by
  constructor
  · exact fun s => ⟨_, exists_ensureRoutine_run keeps own record config s⟩
  · intro fuel s result s' ran
    exact (ensureRoutine_moves (converterFor_moves fuel) record config ran).sameContext

theorem converterFor_putsBack (keeps : cx.registry.KeepsAny) (own : cx.mode.Own) (ty : TypeExpr) :
    PutsBack fun fuel => converterFor cx fuel ty := by
  constructor
  · intro s
    -- the session may be at a union whose key nothing declares, so the key is counted as that of a
    -- configuration to start from
    let start : String × Config := ("", s.config.withTagKey s.position.unionKey)
    have isKey : s.position.unionKey ∈ tagKeys cx.schema start.2 := mem_tagKeys.2 (.inr (.inl rfl))
    have affords : Affords cx.schema (busy cx start s) ty (fuelFor cx.schema + ty.depth + 1) := by
      have atMost : need cx.schema (busy cx start s) 0 ≤ fuelFor cx.schema := need_le_fuelFor
      left
      unfold need at atMost ⊢
      omega
    obtain ⟨result, s', ran⟩ := converterFor_ends keeps own _ isKey affords
    exact ⟨_, result, s', fun fuel enough => converterFor_continues cx enough ty _ _ ran⟩
  · intro fuel s result s' ran
    exact ((converterFor_moves fuel).moves ty s ran).sameContext

/-- Asking for the routine of a record under a configuration, or for the converter of a type, puts
the context back, for decoding and for encoding. -/
theorem calls_restore_context (schema : Schema)
    (decoders : RoutineKey → Option (Linked Json Instance))
    (encoders : RoutineKey → Option (Linked Instance Json)) (record : String) (config : Config)
    (ty : TypeExpr) :
    let decoding : Context Json Instance := ⟨schema, .builtin, decoders, .decoding⟩
    let encoding : Context Instance Json := ⟨schema, .builtin, encoders, .encoding⟩
    PutsBack (fun fuel => ensureRoutine decoding (converterFor decoding fuel) record config) ∧
      PutsBack (fun fuel => converterFor decoding fuel ty) ∧
      PutsBack (fun fuel => ensureRoutine encoding (converterFor encoding fuel) record config) ∧
      PutsBack (fun fuel => converterFor encoding fuel ty) :=
  ⟨ensureRoutine_putsBack Registry.keepsAny_builtin Mode.own_decoding record config,
    converterFor_putsBack Registry.keepsAny_builtin Mode.own_decoding ty,
    ensureRoutine_putsBack Registry.keepsAny_builtin Mode.own_encoding record config,
    converterFor_putsBack Registry.keepsAny_builtin Mode.own_encoding ty⟩

end RecordCodec.Compile
