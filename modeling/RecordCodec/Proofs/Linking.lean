import RecordCodec.Cache
import RecordCodec.Proofs.Results
import RecordCodec.Proofs.SessionSteps

set_option autoImplicit false

/-!
# Linked sessions and caches

A routine that comes of a compile session serves the record and the configuration that it was
compiled for, and so do all routines that sessions leave in a cache.
-/
namespace RecordCodec.Compile

open Routine Direct Compilation

variable {I O : Type} {cx : Context I O} {s : Compilation I O}

theorem mem_lowerAll {drafts : List (Draft I O)} {codes : List (Code I O)}
    (h : Synthesis.lowerAll drafts = .ok codes) :
    (∀ code ∈ codes, ∃ d ∈ drafts, d.lower = .ok code) ∧
      ∀ d ∈ drafts, ∃ code ∈ codes, d.lower = .ok code := by
  induction drafts generalizing codes with
  | nil =>
    cases h
    exact ⟨fun _ mem => absurd mem List.not_mem_nil, fun _ mem => absurd mem List.not_mem_nil⟩
  | cons d rest ih =>
    rw [Synthesis.lowerAll] at h
    split at h
    case h_1 => cases h
    case h_2 code lowered =>
      cases others : Synthesis.lowerAll rest with
      | error e =>
        rw [others] at h
        cases h
      | ok more =>
        rw [others] at h
        cases h
        obtain ⟨ofDraft, toCode⟩ := ih others
        refine ⟨List.forall_mem_cons.2 ⟨⟨d, List.mem_cons_self, lowered⟩, ?_⟩,
          List.forall_mem_cons.2 ⟨⟨code, List.mem_cons_self, lowered⟩, ?_⟩⟩
        · intro code' mem
          obtain ⟨d', mem', lowered'⟩ := ofDraft code' mem
          exact ⟨d', List.mem_cons_of_mem _ mem', lowered'⟩
        · intro d' mem
          obtain ⟨code', mem', lowered'⟩ := toCode d' mem
          exact ⟨code', List.mem_cons_of_mem _ mem', lowered'⟩

theorem finalize_eq_ok {environment : Environment I O} {stamp : Nat} {synthesis : Synthesis I O}
    {session : Session I O} (h : synthesis.finalize environment stamp = .ok session) :
    ∃ codes, Synthesis.lowerAll synthesis.drafts = .ok codes ∧
      session = { codes, environment, stamp } := by
  simp only [Synthesis.finalize, bind, Except.bind] at h
  split at h
  case h_1 => cases h
  case h_2 =>
    split at h
    case h_1 => cases h
    case h_2 codes lowered =>
      split at h
      · cases h
      · cases h
        exact ⟨codes, lowered, rfl⟩

section
variable {session : Session I O} {routine name : String} {config : Config} {linked : Linked I O}

theorem Compilation.Sound.serves_own (sound : Sound cx s) (idle : s.guard.active = [])
    (lowered : Synthesis.lowerAll s.synthesis.drafts = .ok session.codes)
    (environment : session.environment = s.environment)
    (bound : s.binds cx.mode.direction routine name config)
    (own : session.own? routine = some linked) :
    Serves cx.schema cx.registry cx.mode linked name config := by
  obtain ⟨ofDraft, toCode⟩ := mem_lowerAll lowered
  obtain ⟨code, found, rfl⟩ := Option.map_eq_some_iff.1 own
  have isNamed : code.name = routine := by simpa using List.find?_some found
  refine .intro (s.binds cx.mode.direction) sound.functional (List.mem_of_find?_eq_some found)
    (isNamed.symm ▸ bound) ?_ ?_ ?_ (Nat.le_refl _) (Nat.le_refl _)
  · intro other mem
    obtain ⟨d, submitted, lowers⟩ := ofDraft other mem
    obtain ⟨name', config', bound', draft⟩ := sound.drafted d submitted
    exact ⟨name', config', d, (Draft.lower_eq_ok lowers).1 ▸ bound', draft, lowers⟩
  · intro routine' name' config' bound'
    rcases bound' with active | known
    · rw [idle] at active
      cases active
    · refine (sound.known _ _ known).imp ?_ fun present => by rwa [← environment] at present
      rintro ⟨d, submitted, isName⟩
      obtain ⟨other, mem, lowers⟩ := toCode d submitted
      exact ⟨other, mem, (Draft.lower_eq_ok lowers).1.trans isName⟩
  · intro routine' name' config' linked' bound' present
    obtain ⟨name'', config'', bound'', serves⟩ :=
      sound.adopted routine' linked' (environment ▸ present)
    obtain ⟨rfl, rfl⟩ := sound.functional bound' bound''
    exact serves

theorem Compilation.Sound.exists_resolved (sound : Sound cx s) (idle : s.guard.active = [])
    (lowered : Synthesis.lowerAll s.synthesis.drafts = .ok session.codes)
    (environment : session.environment = s.environment)
    (bound : s.binds cx.mode.direction routine name config) :
    ∃ linked, session.resolve? routine = some linked := by
  rw [← Option.isSome_iff_exists, Session.resolve?, Option.isSome_or, environment,
    Bool.or_eq_true]
  rcases bound with active | known
  · rw [idle] at active
    cases active
  · refine (sound.known _ _ known).imp ?_ id
    rintro ⟨d, submitted, isName⟩
    obtain ⟨code, mem, lowers⟩ := (mem_lowerAll lowered).2 d submitted
    have isNamed : code.name = routine := (Draft.lower_eq_ok lowers).1.trans isName
    rw [Session.own?, Option.isSome_map]
    exact List.find?_isSome.2 ⟨code, mem, by simpa using isNamed⟩

theorem Compilation.Sound.serves (sound : Sound cx s) (idle : s.guard.active = [])
    (lowered : Synthesis.lowerAll s.synthesis.drafts = .ok session.codes)
    (environment : session.environment = s.environment)
    (bound : s.binds cx.mode.direction routine name config)
    (resolved : session.resolve? routine = some linked) :
    Serves cx.schema cx.registry cx.mode linked name config := by
  rcases Option.or_eq_some_iff.1 resolved with own | ⟨-, adopted⟩
  · exact sound.serves_own idle lowered environment bound own
  · obtain ⟨name', config', bound', serves⟩ := sound.adopted routine linked (environment ▸ adopted)
    obtain ⟨rfl, rfl⟩ := sound.functional bound bound'
    exact serves

end

/-- Routine names of a session cannot be mistaken for one another: it takes over none, or
no record is named like another one with a number. -/
def Context.Apart (cx : Context I O) : Prop :=
  (∀ key, cx.cached key = none) ∨ cx.schema.Unnumbered

theorem sound_start (apart : cx.Apart) : Sound cx {} where
  functional _ _ _ _ _ bound := by simp [Compilation.binds] at bound
  named bound := by simp [Compilation.binds] at bound
  drafted _ mem := by cases mem
  adopted _ _ present := by cases present
  known _ _ mem := by cases mem
  compiled _ mem := by cases mem
  separate := by
    by_cases unnumbered : cx.schema.Unnumbered
    · refine .inr ⟨unnumbered, ?_⟩
      rintro routine (opened | present)
      · cases opened
      · cases present
    · exact .inl ⟨unnumbered, rfl, apart.resolve_right unnumbered⟩

theorem link_eq_ok {stamp : Nat} {routine : String} {compiled : Compiled I O}
    (h : link stamp routine s = .ok compiled) :
    ∃ session : Session I O, Synthesis.lowerAll s.synthesis.drafts = .ok session.codes ∧
      session.environment = s.environment ∧ session.resolve? routine = some compiled.routine ∧
      compiled.all = s.compiled.filterMap fun (key, name) =>
        (session.own? name).map fun routine => (key, routine) := by
  simp only [link, bind, Except.bind] at h
  split at h
  case h_1 => cases h
  case h_2 session finalized =>
    obtain ⟨codes, lowered, rfl⟩ := finalize_eq_ok finalized
    split at h
    case h_1 => cases h
    case h_2 main resolved =>
      cases h
      exact ⟨_, lowered, rfl, resolved, rfl⟩

theorem compile_eq_ok {stamp : Nat} {record : String} {config : Config} {compiled : Compiled I O}
    (h : (compile cx stamp record config).run = some (.ok compiled)) :
    ∃ routine s, Gives (ensureRoutine cx (converterFor cx (fuelFor cx.schema)) record config) {}
      routine s ∧ link stamp routine s = .ok compiled := by
  simp only [compile] at h
  split at h
  case h_1 routine s ran => exact ⟨routine, s, ran, by simpa [Run.ofExcept] using h⟩
  case h_2 => cases h
  case h_3 => cases h

/-- Compiling gives routines that serve what they were compiled for. -/
theorem compile_serves (named : cx.mode.Named) (valid : cx.Valid) (apart : cx.Apart) {stamp : Nat}
    {record : String} {config : Config} {compiled : Compiled I O}
    (h : (compile cx stamp record config).run = some (.ok compiled)) :
    Serves cx.schema cx.registry cx.mode compiled.routine record config ∧
      ∀ e ∈ compiled.all, e.1.direction = cx.mode.direction ∧
        Serves cx.schema cx.registry cx.mode e.2 e.1.record e.1.config := by
  obtain ⟨routine, s, gives, linked⟩ := compile_eq_ok h
  obtain ⟨sound, more, bound⟩ := ensureRoutine_gives (converterFor_gives named valid _) named
    valid (sound_start apart) gives
  have idle : s.guard.active = [] := by rw [more.guard]
  obtain ⟨session, lowered, environment, resolved, all⟩ := link_eq_ok linked
  refine ⟨sound.serves idle lowered environment bound resolved, ?_⟩
  intro e mem
  rw [all] at mem
  obtain ⟨⟨key, routine'⟩, listed, own⟩ := List.mem_filterMap.1 mem
  obtain ⟨linked', own', rfl⟩ := Option.map_eq_some_iff.1 own
  obtain ⟨known, direction⟩ := sound.compiled _ listed
  have bound : s.binds cx.mode.direction routine' key.record key.config :=
    .inr (by rw [← direction]; exact known)
  exact ⟨direction, sound.serves_own idle lowered environment bound own'⟩

end RecordCodec.Compile

namespace RecordCodec

open Routine Compile

theorem Mode.named_decoding : Mode.decoding.Named := fun _ _ _ _ => rfl

theorem Mode.named_encoding : Mode.encoding.Named := fun _ _ _ _ => rfl

namespace Cache

/-- The caches that compile sessions against one schema and one registry leave. A session may end
in a later epoch than it began in. -/
inductive History (schema : Schema) (registry : Registry) : Cache → Prop where
  | empty (epoch stamp : Nat) : History schema registry { epoch, stamp }
  | decoder {c : Cache} (epoch : Nat) (record : String) (config : Config) :
    History schema registry c →
    History schema registry (c.compileDecoder schema registry epoch record config).2
  | encoder {c : Cache} (epoch : Nat) (record : String) (config : Config) :
    History schema registry c →
    History schema registry (c.compileEncoder schema registry epoch record config).2

def Serving {I O : Type} (schema : Schema) (registry : Registry) (mode : Mode I O)
    (routines : List (RoutineKey × Linked I O)) : Prop :=
  ∀ e ∈ routines, Serves schema registry mode e.2 e.1.record e.1.config

theorem mem_insertAll {α : Type} {routines held : List (RoutineKey × α)} {e : RoutineKey × α}
    (h : e ∈ insertAll routines held) : e ∈ routines ∨ e ∈ held := by
  induction routines generalizing held with
  | nil => exact .inr h
  | cons first rest ih =>
    rcases ih h with mem | mem
    · exact .inl (List.mem_cons_of_mem _ mem)
    · rcases Assoc.mem_insert mem with rfl | mem
      · exact .inl List.mem_cons_self
      · exact .inr mem

theorem Serving.insertAll {I O : Type} {schema : Schema} {registry : Registry} {mode : Mode I O}
    {routines held : List (RoutineKey × Linked I O)} (new : Serving schema registry mode routines)
    (old : Serving schema registry mode held) :
    Serving schema registry mode (insertAll routines held) :=
  fun e mem => (mem_insertAll mem).elim (new e) (old e)

def context {I O : Type} (schema : Schema) (registry : Registry) (mode : Mode I O)
    (held : List (RoutineKey × Linked I O)) : Context I O where
  schema := schema
  registry := registry
  cached key := Assoc.get? key held
  mode := mode

section
variable {I O : Type} {schema : Schema} {registry : Registry} {mode : Mode I O}
  {held : List (RoutineKey × Linked I O)}

theorem Serving.valid (h : Serving schema registry mode held) :
    (context schema registry mode held).Valid :=
  fun _ _ _ present => h _ (Assoc.mem_of_get? present)

theorem apart_context (h : held = [] ∨ schema.Unnumbered) :
    (context schema registry mode held).Apart :=
  h.imp (fun empty key => by rw [context, empty]; rfl) id

end

theorem Serving.compile {I O : Type} {schema : Schema} {registry : Registry} {mode : Mode I O}
    {held : List (RoutineKey × Linked I O)} {stamp : Nat} {record : String} {config : Config}
    {compiled : Compiled I O} (named : mode.Named) (old : Serving schema registry mode held)
    (apart : held = [] ∨ schema.Unnumbered)
    (h : (compile (context schema registry mode held) stamp record config).run =
      some (.ok compiled)) :
    Serves schema registry mode compiled.routine record config ∧
      Serving schema registry mode (Cache.insertAll compiled.all held) := by
  obtain ⟨serves, all⟩ := compile_serves named old.valid (apart_context apart) h
  exact ⟨serves, Serving.insertAll (fun e mem => (all e mem).2) old⟩

variable {schema : Schema} {registry : Registry} {c : Cache}

section
variable (schema registry c) (epoch : Nat) (record : String) (config : Config)

theorem compileDecoder_fst : (c.compileDecoder schema registry epoch record config).1 =
    compile (context schema registry .decoding c.decoders) c.stamp record config >>= fun compiled =>
      pure compiled.routine := by
  change (c.compileDecoder schema registry epoch record config).1.run = (_ >>= _ : Run _).run
  rw [Run.bind_run]
  simp only [compileDecoder, context]
  cases (compile _ c.stamp record config).run with
  | none => rfl
  | some result => cases result <;> rfl

theorem compileDecoder_decoders :
    (c.compileDecoder schema registry epoch record config).2.decoders = c.decoders ∨
      ∃ compiled,
        (compile (context schema registry .decoding c.decoders) c.stamp record config).run =
          some (.ok compiled) ∧
        (c.compileDecoder schema registry epoch record config).2.decoders =
          insertAll compiled.all c.decoders := by
  simp only [compileDecoder, context]
  split
  case h_1 compiled ran =>
    simp only [nextStamp, publishDecoders]
    split
    · exact .inr ⟨compiled, ran, rfl⟩
    · exact .inl rfl
  case h_2 => exact .inl rfl
  case h_3 => exact .inl rfl

theorem compileEncoder_fst : (c.compileEncoder schema registry epoch record config).1 =
    compile (context schema registry .encoding c.encoders) c.stamp record config >>= fun compiled =>
      pure compiled.routine := by
  change _ = ExceptT.mk ((compile _ c.stamp record config).run >>= _)
  simp only [compileEncoder, context]
  split
  case h_1 compiled ran => rw [ran]; rfl
  case h_2 e ran => rw [ran]; rfl
  case h_3 ran => rw [ran]; rfl

theorem compileEncoder_encoders :
    (c.compileEncoder schema registry epoch record config).2.encoders = c.encoders ∨
      ∃ compiled,
        (compile (context schema registry .encoding c.encoders) c.stamp record config).run =
          some (.ok compiled) ∧
        (c.compileEncoder schema registry epoch record config).2.encoders =
          insertAll compiled.all c.encoders := by
  simp only [compileEncoder, context]
  split
  case h_1 compiled ran =>
    simp only [nextStamp, publishEncoders]
    split
    · exact .inr ⟨compiled, ran, rfl⟩
    · exact .inl rfl
  case h_2 => exact .inl rfl
  case h_3 => exact .inl rfl

end

theorem compileDecoder_serves (held : Serving schema registry .decoding c.decoders)
    (apart : c.decoders = [] ∨ schema.Unnumbered) (epoch : Nat) (record : String)
    (config : Config) :
    (∀ r, (c.compileDecoder schema registry epoch record config).1.run = some (.ok r) →
      Serves schema registry .decoding r record config) ∧
    Serving schema registry .decoding
      (c.compileDecoder schema registry epoch record config).2.decoders := by
  constructor
  · intro r isResult
    rw [compileDecoder_fst] at isResult
    obtain ⟨compiled, ran, isRoutine⟩ := Run.Returns.bind_iff.1 isResult
    obtain rfl := Run.Returns.pure_iff.1 isRoutine
    exact (held.compile Mode.named_decoding apart ran).1
  · rcases compileDecoder_decoders schema registry c epoch record config with same | ⟨_, ran, added⟩
    · exact same ▸ held
    · exact added ▸ (held.compile Mode.named_decoding apart ran).2

theorem compileEncoder_serves (held : Serving schema registry .encoding c.encoders)
    (apart : c.encoders = [] ∨ schema.Unnumbered) (epoch : Nat) (record : String)
    (config : Config) :
    (∀ r, (c.compileEncoder schema registry epoch record config).1.run = some (.ok r) →
      Serves schema registry .encoding r record config) ∧
    Serving schema registry .encoding
      (c.compileEncoder schema registry epoch record config).2.encoders := by
  constructor
  · intro r isResult
    rw [compileEncoder_fst] at isResult
    obtain ⟨compiled, ran, isRoutine⟩ := Run.Returns.bind_iff.1 isResult
    obtain rfl := Run.Returns.pure_iff.1 isRoutine
    exact (held.compile Mode.named_encoding apart ran).1
  · rcases compileEncoder_encoders schema registry c epoch record config with same | ⟨_, ran, added⟩
    · exact same ▸ held
    · exact added ▸ (held.compile Mode.named_encoding apart ran).2

theorem decoders_compileEncoder (c : Cache) (epoch : Nat) (record : String) (config : Config) :
    (c.compileEncoder schema registry epoch record config).2.decoders = c.decoders := by
  simp only [compileEncoder]
  split
  · simp only [nextStamp, publishEncoders]
    split <;> rfl
  · rfl
  · rfl

theorem encoders_compileDecoder (c : Cache) (epoch : Nat) (record : String) (config : Config) :
    (c.compileDecoder schema registry epoch record config).2.encoders = c.encoders := by
  simp only [compileDecoder]
  split
  · simp only [nextStamp, publishDecoders]
    split <;> rfl
  · rfl
  · rfl

/-- Where no record is named like another one with a number, all routines that sessions leave
serve what they are kept for. -/
theorem History.serving (unnumbered : schema.Unnumbered) (h : History schema registry c) :
    Serving schema registry .decoding c.decoders ∧
      Serving schema registry .encoding c.encoders := by
  induction h with
  | empty =>
    exact ⟨fun _ mem => absurd mem List.not_mem_nil, fun _ mem => absurd mem List.not_mem_nil⟩
  | decoder epoch record config _ ih =>
    rw [encoders_compileDecoder]
    exact ⟨(compileDecoder_serves ih.1 (.inr unnumbered) epoch record config).2, ih.2⟩
  | encoder epoch record config _ ih =>
    rw [decoders_compileEncoder]
    exact ⟨ih.1, (compileEncoder_serves ih.2 (.inr unnumbered) epoch record config).2⟩

end Cache
end RecordCodec
