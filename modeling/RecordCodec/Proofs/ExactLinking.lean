import RecordCodec.Proofs.Caches
import RecordCodec.Proofs.Origins
import RecordCodec.Proofs.SessionFailures
import RecordCodec.Proofs.Soundness

set_option autoImplicit false

/-!
# Linking is exact

A session gives each of its names to one key, and binds it to the routine that it has compiled for
this key or that the cache holds for it. So linking never fails, and no routine ever misses another.
-/
namespace RecordCodec

open Routine Run Compile

namespace Compile

variable {I O : Type}

/-- A session for a record that came to its end and was linked. -/
structure Finished (cx : Context I O) (stamp : Nat) (record : String) (config : Config) where
  routine : String
  state : Compilation I O
  session : Session I O
  ran : Gives (ensureRoutine cx (converterFor cx (fuelFor cx.schema)) record config) {} routine
    state
  linked : state.synthesis.finalize state.environment stamp = .ok session

namespace Finished

variable {cx : Context I O} {stamp : Nat} {record : String} {config : Config}
  (f : Finished cx stamp record config)

def target (name : String) : Option (Linked I O) :=
  (({ name } : Handle I O).bind f.session).target

/-- The name was given to the key, and its handles are bound to the routine that was compiled or
adopted for exactly this key. -/
def Binds : Binding := fun routine name config =>
  let key : RoutineKey := ⟨name, config, cx.mode.direction⟩
  (key, routine) ∈ f.state.known ∧
    ((∃ code ∈ f.session.codes, IsCodeOf cx.schema cx.registry cx.mode key code ∧
        f.target routine = some (f.session.linkCode code)) ∨
      ∃ adopted, cx.cached key = some adopted ∧ f.target routine = some adopted)

/-- No name is bound for two keys, every routine was made with handles that are bound for what they
are called for, and nothing that was referred to is left unbound. -/
structure Exact : Prop where
  functional : f.Binds.Functional
  main : f.Binds f.routine record config
  codes : ∀ code ∈ f.session.codes, ∃ name config record parts, f.Binds code.name name config ∧
    Made cx.schema cx.registry cx.mode f.Binds name config record parts code
  referenced : ∀ routine ∈ f.state.synthesis.referenced, ∃ name config, f.Binds routine name config
  known : ∀ e ∈ f.state.known, f.Binds e.2 e.1.record e.1.config

section
variable {f} (regular : cx.Regular)
include regular

theorem accounted : f.state.Accounted cx :=
  (ensureRoutine_moves (converterFor_moves _) record config f.ran).accounted regular.lawful.named
    (.start {} none)

theorem settled : f.state.Settled cx ∧ f.state.guard.active = [] := by
  obtain ⟨settled, more⟩ := (session_follows regular record config).settles f.ran
  exact ⟨settled, by rw [more.guard]⟩

theorem unique {key key' : RoutineKey} {routine : String} (known : (key, routine) ∈ f.state.known)
    (known' : (key', routine) ∈ f.state.known) : key = key' := by
  obtain ⟨record, config, direction⟩ := key
  obtain ⟨record', config', direction'⟩ := key'
  obtain rfl := (accounted regular).directed (.inr known)
  obtain rfl := (accounted regular).directed (.inr known')
  obtain ⟨rfl, rfl⟩ := (settled regular).1.sound.functional (.inr known) (.inr known')
  rfl

theorem binds_of_known (traced : cx.Traced) {routine name : String} {config : Config}
    (known : (⟨name, config, cx.mode.direction⟩, routine) ∈ f.state.known) :
    f.Binds routine name config := by
  obtain ⟨codes, lowered, isSession⟩ := finalize_eq_ok f.linked
  have lowered : Synthesis.lowerAll f.state.synthesis.drafts = .ok f.session.codes := by
    rw [isSession]
    exact lowered
  have environment : f.session.environment = f.state.environment := by rw [isSession]
  obtain ⟨settled, idle⟩ := settled (f := f) regular
  have accounted := accounted (f := f) regular
  refine ⟨known, ?_⟩
  rcases accounted.known _ known with compiled | ⟨adopted, cached⟩
  · obtain ⟨linked, own, tracedTo⟩ :=
      accounted.traced_of_compiled traced lowered environment compiled
    obtain ⟨code, found, rfl⟩ := Option.map_eq_some_iff.1 own
    exact .inl ⟨code, List.mem_of_find?_eq_some found, tracedTo.code.isCodeOf,
      Option.or_eq_some_iff.2 (.inl own)⟩
  · refine .inr ⟨adopted, cached, ?_⟩
    obtain ⟨linked, resolved⟩ :=
      settled.sound.exists_resolved idle lowered environment (.inr known)
    rcases Option.or_eq_some_iff.1 resolved with own | ⟨-, isEntry⟩
    · -- a code of this name would have been compiled for the key, which is in the cache
      obtain ⟨key, compiled, -⟩ := accounted.traced_own traced lowered environment own
      obtain ⟨known', uncached, -⟩ := accounted.compiled _ compiled
      obtain rfl := unique regular known known'
      cases cached.symm.trans uncached
    · obtain ⟨key, known', cached'⟩ :=
        accounted.adopted _ (environment ▸ Assoc.mem_of_get? isEntry)
      obtain rfl := unique regular known known'
      cases cached.symm.trans cached'
      exact resolved

theorem exact (traced : cx.Traced) : f.Exact := by
  obtain ⟨codes, lowered, isSession⟩ := finalize_eq_ok f.linked
  obtain ⟨settled, idle⟩ := settled (f := f) regular
  have binds : ∀ routine name config, f.state.binds cx.mode.direction routine name config →
      f.Binds routine name config := by
    rintro routine name config (active | known)
    · rw [idle] at active
      cases active
    · exact binds_of_known regular traced known
  refine ⟨fun routine name name' config config' bound bound' => ?_,
    binds _ _ _ (ensureRoutine_binds f.ran), fun code mem => ?_, fun routine mem => ?_,
    fun e known => ?_⟩
  · cases unique regular bound.1 bound'.1
    exact ⟨rfl, rfl⟩
  · rw [isSession] at mem
    obtain ⟨d, submitted, lowers⟩ := (mem_lowerAll lowered).1 code mem
    obtain ⟨name, config, bound, isDraft⟩ := settled.sound.drafted d submitted
    obtain ⟨record, parts, made⟩ := (isDraft.mono binds).made lowers
    rw [← (Draft.lower_eq_ok lowers).1] at bound
    exact ⟨name, config, record, parts, binds _ _ _ bound, made⟩
  · obtain ⟨name, config, bound⟩ := settled.orderly.referenced routine mem
    exact ⟨name, config, binds _ _ _ bound⟩
  · obtain ⟨⟨name, config, direction⟩, routine⟩ := e
    obtain rfl := (accounted regular).directed (.inr known)
    exact binds_of_known regular traced known

end
end Finished

theorem compile_fails {cx : Context I O} (regular : cx.Regular) (stamp : Nat) (record : String)
    (config : Config) : (compile cx stamp record config).FailsOnly Failure.IsDeclaration := by
  intro e failed
  have outcome := congrArg ExceptT.run (compile_outcome regular stamp record config).1
  rw [discard_run, failed] at outcome
  have refused : (cx.verdict (record, config)).run = some (.error e) := outcome.symm
  exact checkRecord_fails (check_fails _) [] (record, config) e refused

/-- Linking is exact in a session for a record with this result, and in the routines that are
published afterwards. -/
structure Context.LinksExactly (cx : Context I O) (stamp : Nat) (record : String) (config : Config)
    (result : Run (Linked I O)) (published : List (RoutineKey × Linked I O)) : Prop where
  fails : result.FailsOnly Failure.NotLinking
  exact : ∀ r, result.Returns r →
    ∃ f : Finished cx stamp record config, f.Exact ∧ f.target f.routine = some r
  traced : ∀ e ∈ published, TracedTo cx.schema cx.registry cx.mode e.1 e.2
  calls : ∀ r, (result.Returns r ∨ ∃ key, (key, r) ∈ published) → ∀ fuel v,
    (r.callWithin fuel v).FailsOnly Failure.NotLinking

theorem exists_finished {cx : Context I O} (regular : cx.Regular) (traced : cx.Traced) {stamp : Nat}
    {record : String} {config : Config} {compiled : Compiled I O}
    (h : (compile cx stamp record config).Returns compiled) :
    ∃ f : Finished cx stamp record config,
      f.Exact ∧ f.target f.routine = some compiled.routine := by
  obtain ⟨routine, state, ran, linked⟩ := compile_eq_ok h
  simp only [link, bind, Except.bind] at linked
  split at linked
  case h_1 => cases linked
  case h_2 session finalized =>
    split at linked
    case h_1 => cases linked
    case h_2 main resolved =>
      cases linked
      exact ⟨⟨routine, state, session, ran, finalized⟩, Finished.exact regular traced, resolved⟩

end Compile

namespace Direct

variable {schema : Schema}

theorem findRecord_notLinking (name : String) :
    (Run.ofExcept (schema.findRecord name)).FailsOnly Failure.NotLinking :=
  .ofExcept fun _ h => (Schema.isDeclaration_of_findRecord h).notLinking

theorem decode_notLinking (fuel : Nat) (name : String) (config : Config) (v : Json) :
    (Direct.decode schema .builtin fuel name config v).FailsOnly Failure.NotLinking := by
  induction fuel generalizing name config v with
  | zero =>
    intro e h
    cases h
  | succ fuel ih =>
    refine (findRecord_notLinking name).bind fun record _ =>
      decodeRecord_compositional compositional_notLinking fun f v => ?_
    exact decodeType_compositional compositional_notLinking ih
      (fun ty target decode encode isCustom =>
        absurd rfl (Registry.resolve_builtin_ne_custom isCustom decode encode)) _ v

theorem encode_notLinking (fuel : Nat) (name : String) (config : Config) (v : Instance) :
    (Direct.encode schema .builtin fuel name config v).FailsOnly Failure.NotLinking := by
  induction fuel generalizing name config v with
  | zero =>
    intro e h
    cases h
  | succ fuel ih =>
    have any : Instance.Hereditary fun _ => True :=
      ⟨fun _ _ _ _ => trivial, fun _ _ _ _ => ⟨trivial, trivial⟩⟩
    have parts : ∀ (f : Field) v, (encodeType schema .builtin (Direct.encode schema .builtin fuel)
        ⟨config, f.discriminator⟩ (schema.resolve f.type) v).FailsOnly Failure.NotLinking :=
      fun f v => encodeType_compositional compositional_notLinking any
        (fun name config v _ => ih name config v)
        (fun ty target decode encode isCustom =>
          absurd rfl (Registry.resolve_builtin_ne_custom isCustom decode encode)) _ v trivial
    refine (findRecord_notLinking name).bind fun record _ =>
      encodeRecord_compositional compositional_notLinking fun _ =>
        encodeOutput_sequential compositional_notLinking.toSequential (fun f _ v _ => parts f v)
          (fun f _ _ => ?_) fun f _ _ =>
            splatMembers_compositional compositional_notLinking fun v _ => parts f v
    unfold Compile.Encoder.encodeDefault
    split
    · exact parts f _
    · exact parts f _
    · exact .pure _
    · exact .pure _

end Direct

namespace Cache

theorem linksExactly_of_holds {I O : Type} {schema : Schema} {registry : Registry} {mode : Mode I O}
    {held published : List (RoutineKey × Linked I O)} {stamp : Nat} {record : String}
    {config : Config} {result : Run (Linked I O)} (holds : Holds schema registry mode held)
    (lawful : mode.Lawful) (unnumbered : schema.Unnumbered)
    (tracing : Tracing schema registry mode held)
    (isResult : result = compile (context schema registry mode held) stamp record config >>=
      fun compiled => pure compiled.routine)
    (serves : ∀ r, result.Returns r → Serves schema registry mode r record config)
    (serving : Serving schema registry mode published)
    (traced : Tracing schema registry mode published)
    (harmless : ∀ r name config, Serves schema registry mode r name config →
      ∀ fuel v, (r.callWithin fuel v).FailsOnly Failure.NotLinking) :
    (context schema registry mode held).LinksExactly stamp record config result published := by
  have regular := holds.regular lawful unnumbered
  refine ⟨?_, fun r returns => ?_, traced, ?_⟩
  · rw [isResult]
    exact .bind (fun e h => (compile_fails regular _ _ _ e h).notLinking) fun _ _ => .pure _
  · rw [isResult] at returns
    obtain ⟨compiled, ran, isRoutine⟩ := Run.Returns.bind_iff.1 returns
    obtain rfl := Run.Returns.pure_iff.1 isRoutine
    exact exists_finished regular tracing.context ran
  · rintro r (returns | ⟨key, isPublished⟩)
    · exact harmless r _ _ (serves r returns)
    · exact harmless r _ _ (serving _ isPublished)

/-- In either direction a session never fails because of a routine, every handle is bound to the
routine of exactly the key that it was handed out for, and no call of a routine that comes of the
session or stands in the cache afterwards fails because of a routine. -/
theorem compile_links_exactly {schema : Schema} {c : Cache} (declarations : schema.Declared)
    (identifiers : schema.HasIdentifiers) (history : History schema .builtin c) (epoch : Nat)
    (record : String) (config : Config) :
    (context schema .builtin .decoding c.decoders).LinksExactly c.stamp record config
      (c.compileDecoder schema .builtin epoch record config).1
      (c.compileDecoder schema .builtin epoch record config).2.decoders ∧
    (context schema .builtin .encoding c.encoders).LinksExactly c.stamp record config
      (c.compileEncoder schema .builtin epoch record config).1
      (c.compileEncoder schema .builtin epoch record config).2.encoders := by
  have unnumbered := identifiers.unnumbered
  obtain ⟨decoders, encoders⟩ := history.holds unnumbered
  obtain ⟨tracedDecoders, tracedEncoders⟩ := history.tracing
  have laterDecoders := (History.decoder epoch record config history).tracing.1
  have laterEncoders := (History.encoder epoch record config history).tracing.2
  constructor
  · obtain ⟨serves, serving⟩ :=
      compileDecoder_serves decoders.serving (.inr unnumbered) epoch record config
    refine linksExactly_of_holds decoders Mode.lawful_decoding unnumbered tracedDecoders
      (compileDecoder_fst schema .builtin c epoch record config) serves serving laterDecoders ?_
    intro r name config serves fuel v
    rw [serves.callWithin_decode Registry.keepsAny_builtin]
    exact Direct.decode_notLinking fuel name config v
  · obtain ⟨serves, serving⟩ :=
      compileEncoder_serves encoders.serving (.inr unnumbered) epoch record config
    refine linksExactly_of_holds encoders Mode.lawful_encoding unnumbered tracedEncoders
      (compileEncoder_fst schema .builtin c epoch record config) serves serving laterEncoders ?_
    intro r name config serves fuel v
    rw [serves.callWithin_encode Registry.keepsAny_builtin declarations]
    exact Direct.encode_notLinking fuel name config v

/-- The routine for cells refers to itself and to the one for points, which is adopted. -/
theorem compile_links_exactly_cell :
    (∃ r, (Sample.cache.compileDecoder Sample.schema .builtin 0 "Cell" {}).1.Returns r) ∧
    (context Sample.schema .builtin .decoding Sample.cache.decoders).LinksExactly
      Sample.cache.stamp "Cell" {}
      (Sample.cache.compileDecoder Sample.schema .builtin 0 "Cell" {}).1
      (Sample.cache.compileDecoder Sample.schema .builtin 0 "Cell" {}).2.decoders ∧
    (context Sample.schema .builtin .encoding Sample.cache.encoders).LinksExactly
      Sample.cache.stamp "Cell" {}
      (Sample.cache.compileEncoder Sample.schema .builtin 0 "Cell" {}).1
      (Sample.cache.compileEncoder Sample.schema .builtin 0 "Cell" {}).2.encoders := by
  have compiles : (Sample.cache.compileDecoder Sample.schema .builtin 0 "Cell" {}).1.returnsWith
      (fun _ => true) = true := by decide +kernel
  obtain ⟨r, compiled, -⟩ := Run.exists_of_returnsWith compiles
  have history : History Sample.schema .builtin Sample.cache :=
    .decoder 0 "Point" {} (.empty 0 0)
  exact ⟨⟨r, compiled⟩, compile_links_exactly Sample.schema_declared Sample.schema_hasIdentifiers
    history 0 "Cell" {}⟩

end Cache
end RecordCodec
