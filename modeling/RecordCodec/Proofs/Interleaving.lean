import Mathlib.Logic.Relation
import Mathlib.Tactic.Choose
import RecordCodec.Codec
import RecordCodec.Proofs.Correctness
import RecordCodec.Proofs.SessionMoves

set_option autoImplicit false

/-!
# Sessions and registrations side by side

Sessions of a codec run at the same time as one another and as registrations, without a lock. A
session reads the epoch of the cache, then loads the registry, looks for routines in the cache as
it goes, and hands in what it has compiled under the epoch it has read. A registration first swaps
the registry and then empties the cache. The steps of all of them come in any order.
-/
namespace RecordCodec

open Routine Compile

variable {I O : Type}

/-- The routine was compiled for the key in a session against the registry, and so was every
routine that this session took from the cache and linked it to. -/
inductive CompiledAgainst (schema : Schema) (registry : Registry) (mode : Mode I O) :
    RoutineKey → Linked I O → Prop where
  | intro {key : RoutineKey} {r : Linked I O} (cached : RoutineKey → Option (Linked I O))
    (stamp : Nat) (record : String) (config : Config) (compiled : Compiled I O) :
    (compile ⟨schema, registry, cached, mode⟩ stamp record config).run = some (.ok compiled) →
    (key, r) ∈ compiled.all →
    (origin : String × Linked I O → RoutineKey) →
    (∀ e ∈ r.environment, cached (origin e) = some e.2) →
    (∀ e ∈ r.environment, CompiledAgainst schema registry mode (origin e) e.2) →
    CompiledAgainst schema registry mode key r

def AllAgainst (schema : Schema) (registry : Registry) (mode : Mode I O)
    (routines : List (RoutineKey × Linked I O)) : Prop :=
  ∀ e ∈ routines, CompiledAgainst schema registry mode e.1 e.2

theorem Compile.compile_environment {cx : Context I O} {stamp : Nat} {record : String}
    {config : Config} {compiled : Compiled I O}
    (h : (compile cx stamp record config).run = some (.ok compiled)) {key : RoutineKey}
    {r : Linked I O} (mem : (key, r) ∈ compiled.all) :
    ∀ e ∈ r.environment, ∃ other, cx.cached other = some e.2 := by
  obtain ⟨routine, s, gives, linked⟩ := compile_eq_ok h
  obtain ⟨session, -, environment, -, all⟩ := link_eq_ok linked
  have moves := ensureRoutine_moves (converterFor_moves _) record config gives
  rw [all] at mem
  obtain ⟨⟨key', name⟩, -, own⟩ := List.mem_filterMap.1 mem
  obtain ⟨own', isOwn, same⟩ := Option.map_eq_some_iff.1 own
  cases same
  obtain ⟨code, -, rfl⟩ := Option.map_eq_some_iff.1 isOwn
  intro e present
  have held : e ∈ s.environment := environment ▸ present
  rcases moves.environment e held with none | ⟨other, -, found⟩
  · cases none
  · exact ⟨other, found⟩

namespace AllAgainst

variable {schema : Schema} {registry : Registry} {mode : Mode I O}
  {held routines : List (RoutineKey × Linked I O)}

theorem nil : AllAgainst schema registry mode [] := fun _ mem => absurd mem List.not_mem_nil

theorem append (first : AllAgainst schema registry mode held)
    (others : AllAgainst schema registry mode routines) :
    AllAgainst schema registry mode (held ++ routines) := by
  intro e mem
  rcases List.mem_append.1 mem with mem | mem
  · exact first e mem
  · exact others e mem

theorem insertAll (new : AllAgainst schema registry mode routines)
    (old : AllAgainst schema registry mode held) :
    AllAgainst schema registry mode (Cache.insertAll routines held) :=
  fun e mem => (Cache.mem_insertAll mem).elim (new e) (old e)

theorem compile {stamp : Nat} {record : String} {config : Config} {compiled : Compiled I O}
    (old : AllAgainst schema registry mode held)
    (h : (Compile.compile (Cache.context schema registry mode held) stamp record config).run =
      some (.ok compiled)) : AllAgainst schema registry mode compiled.all := by
  intro e mem
  have : Nonempty RoutineKey := ⟨e.1⟩
  choose! origin found using compile_environment h mem
  exact .intro _ stamp record config compiled h mem origin found fun d present =>
    old _ (Assoc.mem_of_get? (found d present))

end AllAgainst

namespace Concurrent

structure Session (I O : Type) where
  epoch : Nat
  /-- The registry that it compiles against, once it has loaded one. -/
  registry : Option Registry := none
  /-- What it has found in the cache so far. -/
  found : List (RoutineKey × Linked I O) := []

/-- What sessions of one direction do beside a registry and a cache: one begins, loads the
registry, finds a routine in the cache, or ends in an error. -/
inductive Advance (registry : Registry) (epoch : Nat) (held : List (RoutineKey × Linked I O)) :
    List (Session I O) → List (Session I O) → Prop where
  | begin (sessions : List (Session I O)) :
    Advance registry epoch held sessions ({ epoch } :: sessions)
  | load {before after : List (Session I O)} {t : Session I O} : t.registry = none →
    Advance registry epoch held (before ++ t :: after)
      (before ++ { t with registry := some registry } :: after)
  | lookUp {before after : List (Session I O)} {t : Session I O} {key : RoutineKey}
    {r : Linked I O} : t.registry.isSome → Assoc.get? key held = some r →
    Advance registry epoch held (before ++ t :: after)
      (before ++ { t with found := t.found ++ [(key, r)] } :: after)
  | fail (before after : List (Session I O)) (t : Session I O) :
    Advance registry epoch held (before ++ t :: after) (before ++ after)

def Session.Compiles (schema : Schema) (mode : Mode I O) (t : Session I O) (stamp : Nat)
    (compiled : Compiled I O) : Prop :=
  ∃ registry record config, t.registry = some registry ∧
    (compile (Cache.context schema registry mode t.found) stamp record config).run =
      some (.ok compiled)

/-- A codec with the sessions and registrations that have begun and not ended. -/
structure System where
  registry : Registry
  cache : Cache := {}
  /-- The registrations that have swapped the registry and not emptied the cache. -/
  registering : Nat := 0
  decoding : List (Session Json Instance) := []
  encoding : List (Session Instance Json) := []

namespace System

inductive Step (schema : Schema) : System → System → Prop where
  | decoding {s : System} {sessions : List (Session Json Instance)} :
    Advance s.registry s.cache.epoch s.cache.decoders s.decoding sessions →
    Step schema s { s with decoding := sessions }
  | encoding {s : System} {sessions : List (Session Instance Json)} :
    Advance s.registry s.cache.epoch s.cache.encoders s.encoding sessions →
    Step schema s { s with encoding := sessions }
  | publishDecoders {s : System} {before after : List (Session Json Instance)}
    {t : Session Json Instance} {stamp : Nat} {compiled : Compiled Json Instance} :
    s.decoding = before ++ t :: after → t.Compiles schema .decoding stamp compiled →
    Step schema s { s with
      decoding := before ++ after
      cache := (s.cache.publishDecoders t.epoch compiled.all).nextStamp }
  | publishEncoders {s : System} {before after : List (Session Instance Json)}
    {t : Session Instance Json} {stamp : Nat} {compiled : Compiled Instance Json} :
    s.encoding = before ++ t :: after → t.Compiles schema .encoding stamp compiled →
    Step schema s { s with
      encoding := before ++ after
      cache := (s.cache.publishEncoders t.epoch compiled.all).nextStamp }
  | swap (s : System) (key : HandlerKey) (handler : Handler) :
    Step schema s { s with
      registry := s.registry.register key handler
      registering := s.registering + 1 }
  | invalidate {s : System} {others : Nat} : s.registering = others + 1 →
    Step schema s { s with cache := s.cache.invalidate, registering := others }

/-- Any number of steps of any sessions and registrations in any order. -/
abbrev Run (schema : Schema) : System → System → Prop := Relation.ReflTransGen (Step schema)

def ofCodec (c : Codec) : System where
  registry := c.registry
  cache := c.cache

end System

/-- Sessions that can still publish have loaded the registry, and have found what was compiled
against it. -/
def Fresh (schema : Schema) (registry : Registry) (mode : Mode I O) (epoch : Nat)
    (sessions : List (Session I O)) : Prop :=
  ∀ t ∈ sessions, t.epoch = epoch → (∀ loaded, t.registry = some loaded → loaded = registry) ∧
    AllAgainst schema registry mode t.found

def Past (epoch : Nat) (sessions : List (Session I O)) : Prop := ∀ t ∈ sessions, t.epoch ≤ epoch

section
variable {schema : Schema} {registry : Registry} {mode : Mode I O} {epoch : Nat}
  {held : List (RoutineKey × Linked I O)} {sessions sessions' before after : List (Session I O)}
  {t t' : Session I O}

theorem forall_mem_replace {P : Session I O → Prop} (old : ∀ u ∈ before ++ t :: after, P u)
    (new : P t → P t') : ∀ u ∈ before ++ t' :: after, P u := by
  simp only [List.mem_append, List.mem_cons] at old ⊢
  rintro u (mem | rfl | mem)
  · exact old u (.inl mem)
  · exact new (old t (.inr (.inl rfl)))
  · exact old u (.inr (.inr mem))

theorem forall_mem_remove {P : Session I O → Prop} (old : ∀ u ∈ before ++ t :: after, P u) :
    ∀ u ∈ before ++ after, P u := by
  simp only [List.mem_append, List.mem_cons] at old ⊢
  rintro u (mem | mem)
  · exact old u (.inl mem)
  · exact old u (.inr (.inr mem))

theorem Past.advance (past : Past epoch sessions)
    (h : Advance registry epoch held sessions sessions') : Past epoch sessions' := by
  cases h with
  | begin => exact List.forall_mem_cons.2 ⟨Nat.le_refl epoch, past⟩
  | load => exact forall_mem_replace past id
  | lookUp => exact forall_mem_replace past id
  | fail => exact forall_mem_remove past

theorem Fresh.advance (fresh : Fresh schema registry mode epoch sessions)
    (current : AllAgainst schema registry mode held)
    (h : Advance registry epoch held sessions sessions') :
    Fresh schema registry mode epoch sessions' := by
  cases h with
  | begin => exact List.forall_mem_cons.2 ⟨fun _ => ⟨nofun, .nil⟩, fresh⟩
  | load =>
    refine forall_mem_replace fresh fun this same => ⟨fun _ isLoaded => ?_, (this same).2⟩
    cases isLoaded
    rfl
  | lookUp _ hit =>
    refine forall_mem_replace fresh fun this same => ?_
    obtain ⟨loaded, found⟩ := this same
    refine ⟨loaded, found.append fun e mem => ?_⟩
    obtain rfl := List.mem_singleton.1 mem
    exact current _ (Assoc.mem_of_get? hit)
  | fail => exact forall_mem_remove fresh

/-- A session of the epoch publishes only what was compiled against the registry. -/
theorem Fresh.compiled (fresh : Fresh schema registry mode epoch (before ++ t :: after))
    (same : t.epoch = epoch) {stamp : Nat} {compiled : Compiled I O}
    (h : t.Compiles schema mode stamp compiled) :
    AllAgainst schema registry mode compiled.all := by
  obtain ⟨loaded, found⟩ := fresh t (List.mem_append_right _ List.mem_cons_self) same
  obtain ⟨used, record, config, isLoaded, ran⟩ := h
  obtain rfl := loaded used isLoaded
  exact found.compile ran

/-- Once the epoch has moved on, no session is left that can publish. -/
theorem Past.fresh_succ (past : Past epoch sessions) :
    Fresh schema registry mode (epoch + 1) sessions := by
  intro t mem same
  have earlier := past t mem
  omega

end

namespace System

/-- The cache and the sessions that can still publish are up to date with the registry. -/
structure Current (schema : Schema) (s : System) : Prop where
  decoders : AllAgainst schema s.registry .decoding s.cache.decoders
  encoders : AllAgainst schema s.registry .encoding s.cache.encoders
  decoding : Fresh schema s.registry .decoding s.cache.epoch s.decoding
  encoding : Fresh schema s.registry .encoding s.cache.epoch s.encoding

/-- Between the two steps of a registration nothing is known but that no session has read an epoch
to come. -/
structure Sound (schema : Schema) (s : System) : Prop where
  current : s.registering = 0 → s.Current schema
  decoding : Past s.cache.epoch s.decoding
  encoding : Past s.cache.epoch s.encoding

variable {schema : Schema} {s s' : System}

theorem Step.sound (h : Step schema s s') (sound : s.Sound schema) : s'.Sound schema := by
  have current := sound.current
  cases h with
  | decoding advance =>
    refine ⟨fun quiet => ?_, sound.decoding.advance advance, sound.encoding⟩
    have now := current quiet
    exact { now with decoding := now.decoding.advance now.decoders advance }
  | encoding advance =>
    refine ⟨fun quiet => ?_, sound.decoding, sound.encoding.advance advance⟩
    have now := current quiet
    exact { now with encoding := now.encoding.advance now.encoders advance }
  | @publishDecoders before after t stamp compiled among compiles =>
    have past : Past s.cache.epoch (before ++ after) := forall_mem_remove (among ▸ sound.decoding)
    -- the routines of a session from an earlier epoch are dropped
    by_cases same : s.cache.epoch = t.epoch
    · rw [Cache.publishDecoders, if_pos same]
      refine ⟨fun quiet => ?_, past, sound.encoding⟩
      have now := current quiet
      have fresh := among ▸ now.decoding
      have new := fresh.compiled same.symm compiles
      exact ⟨new.insertAll now.decoders, now.encoders, forall_mem_remove fresh, now.encoding⟩
    · rw [Cache.publishDecoders, if_neg same]
      refine ⟨fun quiet => ?_, past, sound.encoding⟩
      have now := current quiet
      exact { now with decoding := forall_mem_remove (among ▸ now.decoding) }
  | @publishEncoders before after t stamp compiled among compiles =>
    have past : Past s.cache.epoch (before ++ after) := forall_mem_remove (among ▸ sound.encoding)
    by_cases same : s.cache.epoch = t.epoch
    · rw [Cache.publishEncoders, if_pos same]
      refine ⟨fun quiet => ?_, sound.decoding, past⟩
      have now := current quiet
      have fresh := among ▸ now.encoding
      have new := fresh.compiled same.symm compiles
      exact ⟨now.decoders, new.insertAll now.encoders, now.decoding, forall_mem_remove fresh⟩
    · rw [Cache.publishEncoders, if_neg same]
      refine ⟨fun quiet => ?_, sound.decoding, past⟩
      have now := current quiet
      exact { now with encoding := forall_mem_remove (among ▸ now.encoding) }
  | swap key handler =>
    exact ⟨fun quiet => absurd quiet (Nat.succ_ne_zero _), sound.decoding, sound.encoding⟩
  | invalidate pending =>
    -- every session is from an epoch before the new one
    refine ⟨fun _ => ⟨.nil, .nil, sound.decoding.fresh_succ, sound.encoding.fresh_succ⟩, ?_, ?_⟩
    · exact fun t mem => Nat.le_succ_of_le (sound.decoding t mem)
    · exact fun t mem => Nat.le_succ_of_le (sound.encoding t mem)

theorem Run.sound (h : Run schema s s') (sound : s.Sound schema) : s'.Sound schema := by
  induction h with
  | refl => exact sound
  | tail _ step ih => exact step.sound ih

theorem run_register (c : Codec) (key : HandlerKey) (handler : Handler) :
    Run c.schema (ofCodec c) (ofCodec (c.register key handler)) :=
  (Relation.ReflTransGen.single (.swap (ofCodec c) key handler)).tail (.invalidate rfl)

def answers (held : List (RoutineKey × Linked I O)) (keys : List RoutineKey) :
    List (RoutineKey × Linked I O) :=
  keys.filterMap fun key => (Assoc.get? key held).map (key, ·)

theorem get?_answers (held : List (RoutineKey × Linked I O)) :
    (Assoc.get? · (answers held (Assoc.keys held))) = (Assoc.get? · held) := by
  funext key
  have among : ∀ keys, Assoc.get? key (answers held keys) =
      if key ∈ keys then Assoc.get? key held else none := by
    intro keys
    induction keys with
    | nil => rfl
    | cons other rest ih =>
      rw [answers, List.filterMap_cons]
      cases found : Assoc.get? other held with
      | none =>
        by_cases same : key = other
        · subst same
          simpa [answers, found] using ih
        · simpa [answers, same] using ih
      | some r =>
        by_cases same : other = key
        · subst same
          simp [Assoc.get?, found]
        · simpa [Assoc.get?, answers, same, Ne.symm same] using ih
  rw [among]
  split
  case isTrue => rfl
  case isFalse absent => exact (Assoc.get?_eq_none_iff.2 absent).symm

section
variable {registry : Registry} {epoch : Nat} {held : List (RoutineKey × Linked I O)}

theorem advance_lookUps {t : Session I O} (loaded : t.registry.isSome) (keys : List RoutineKey) :
    Relation.ReflTransGen (Advance registry epoch held) [t]
      [{ t with found := t.found ++ answers held keys }] := by
  induction keys generalizing t with
  | nil =>
    rw [answers, List.filterMap_nil, List.append_nil]
  | cons key rest ih =>
    cases found : Assoc.get? key held with
    | none =>
      have same : answers held (key :: rest) = answers held rest := by simp [answers, found]
      rw [same]
      exact ih loaded
    | some r =>
      have more : answers held (key :: rest) = [(key, r)] ++ answers held rest := by
        simp [answers, found]
      rw [more, ← List.append_assoc]
      have first : Advance registry epoch held ([] ++ [t])
          ([] ++ [{ t with found := t.found ++ [(key, r)] }]) := .lookUp loaded found
      exact .head first (ih (t := { t with found := t.found ++ [(key, r)] }) loaded)

/-- A session that nothing comes in between of. -/
theorem advance_session : Relation.ReflTransGen (Advance registry epoch held) []
    [{ epoch, registry := some registry, found := answers held (Assoc.keys held) }] := by
  let t : Session I O := { epoch }
  have begins : Advance registry epoch held [] [t] := .begin []
  have loads : Advance registry epoch held ([] ++ [t])
      ([] ++ [{ t with registry := some registry }]) := .load rfl
  exact .head begins (.head loads (advance_lookUps rfl _))

theorem context_answers (schema : Schema) (registry : Registry) (mode : Mode I O) :
    Cache.context schema registry mode (answers held (Assoc.keys held)) =
      Cache.context schema registry mode held := by
  rw [Cache.context, Cache.context, Context.mk.injEq]
  exact ⟨rfl, rfl, get?_answers held, rfl⟩

end

theorem run_decoding {s : System} {sessions : List (Session Json Instance)}
    (h : Relation.ReflTransGen (Advance s.registry s.cache.epoch s.cache.decoders) s.decoding
      sessions) : Run schema s { s with decoding := sessions } := by
  induction h with
  | refl => exact .refl
  | tail _ advance ih => exact ih.tail (.decoding advance)

theorem run_encoding {s : System} {sessions : List (Session Instance Json)}
    (h : Relation.ReflTransGen (Advance s.registry s.cache.epoch s.cache.encoders) s.encoding
      sessions) : Run schema s { s with encoding := sessions } := by
  induction h with
  | refl => exact .refl
  | tail _ advance ih => exact ih.tail (.encoding advance)

theorem run_decoder (c : Codec) (record : String) (overrides : Config) :
    Run c.schema (ofCodec c) (ofCodec (c.decoder record overrides).2) := by
  unfold Codec.decoder
  split
  case h_1 => exact .refl
  case h_2 config _ =>
    split
    case h_1 => exact .refl
    case h_2 =>
      simp only [Cache.compileDecoder]
      split
      case h_1 compiled ran =>
        let t : Session Json Instance :=
          { epoch := c.cache.epoch, registry := some c.registry
            found := answers c.cache.decoders (Assoc.keys c.cache.decoders) }
        have session : Run c.schema (ofCodec c) { ofCodec c with decoding := [t] } :=
          run_decoding advance_session
        have compiles : t.Compiles c.schema .decoding c.cache.stamp compiled :=
          ⟨c.registry, record, config, rfl, by rw [context_answers]; exact ran⟩
        have alone : ({ ofCodec c with decoding := [t] } : System).decoding = [] ++ t :: [] := rfl
        exact session.tail (.publishDecoders alone compiles)
      case h_2 => exact .refl
      case h_3 => exact .refl

theorem run_encoder (c : Codec) (record : String) (overrides : Config) :
    Run c.schema (ofCodec c) (ofCodec (c.encoder record overrides).2) := by
  unfold Codec.encoder
  split
  case h_1 => exact .refl
  case h_2 config _ =>
    split
    case h_1 => exact .refl
    case h_2 =>
      simp only [Cache.compileEncoder]
      split
      case h_1 compiled ran =>
        let t : Session Instance Json :=
          { epoch := c.cache.epoch, registry := some c.registry
            found := answers c.cache.encoders (Assoc.keys c.cache.encoders) }
        have session : Run c.schema (ofCodec c) { ofCodec c with encoding := [t] } :=
          run_encoding advance_session
        have compiles : t.Compiles c.schema .encoding c.cache.stamp compiled :=
          ⟨c.registry, record, config, rfl, by rw [context_answers]; exact ran⟩
        have alone : ({ ofCodec c with encoding := [t] } : System).encoding = [] ++ t :: [] := rfl
        exact session.tail (.publishEncoders alone compiles)
      case h_2 => exact .refl
      case h_3 => exact .refl

/-- Whenever no registration is between its two steps, every cached routine was compiled against
the registry, and so was every routine that it was linked to. -/
theorem Run.compiled_against {registry : Registry} (h : Run schema { registry } s)
    (quiet : s.registering = 0) :
    AllAgainst schema s.registry .decoding s.cache.decoders ∧
      AllAgainst schema s.registry .encoding s.cache.encoders := by
  have start : System.Sound schema { registry } := by
    refine ⟨fun _ => ⟨.nil, .nil, ?_, ?_⟩, ?_, ?_⟩ <;>
      exact fun t mem => absurd mem List.not_mem_nil
  have now := (h.sound start).current quiet
  exact ⟨now.decoders, now.encoders⟩

end System
end Concurrent

namespace Sample

open Concurrent

def lenient : Registry := Registry.builtin.register (.type "int") (.scalar .any)

def lenientCodec : Codec where
  schema := schema
  registry := lenient
  cache := { epoch := 1, stamp := 1 }

theorem exists_compiled : ∃ compiled,
    (compile (Cache.context schema .builtin .decoding []) 0 "Cell" {}).run = some (.ok compiled) :=
  by
  have compiles : (compile (Cache.context schema .builtin .decoding []) 0 "Cell" {}).returnsWith
      (fun _ => true) = true := by decide +kernel
  obtain ⟨compiled, ran, -⟩ := Run.exists_of_returnsWith compiles
  exact ⟨compiled, ran⟩

/-- A session has loaded the registry before a registration and publishes after it: nothing of it
is kept. -/
theorem run_lenient : System.Run schema { registry := .builtin } (.ofCodec lenientCodec) := by
  obtain ⟨compiled, ran⟩ := exists_compiled
  let t : Concurrent.Session Json Instance := { epoch := 0, registry := some .builtin }
  have session : System.Run schema { registry := .builtin }
      { registry := .builtin, decoding := [t] } := System.run_decoding System.advance_session
  have registration : System.Run schema { registry := .builtin, decoding := [t] }
      { registry := lenient, cache := { epoch := 1 }, decoding := [t] } :=
    (Relation.ReflTransGen.single (.swap _ (.type "int") (.scalar .any))).tail (.invalidate rfl)
  have compiles : t.Compiles schema .decoding 0 compiled := ⟨.builtin, "Cell", {}, rfl, ran⟩
  have alone : ({ registry := lenient, cache := { epoch := 1 }, decoding := [t] } :
      System).decoding = [] ++ t :: [] := rfl
  have publishes : System.Step schema
      { registry := lenient, cache := { epoch := 1 }, decoding := [t] } (.ofCodec lenientCodec) :=
    .publishDecoders alone compiles
  exact (session.trans registration).tail publishes

end Sample

/-- After that, the routines of the next session are. -/
theorem Concurrent.System.compiled_against_cells : ∃ s,
    System.Run Sample.schema { registry := .builtin } s ∧ s.registering = 0 ∧
      s.cache.epoch = 1 ∧ s.cache.decoders.length = 2 ∧
      AllAgainst Sample.schema s.registry .decoding s.cache.decoders ∧
      AllAgainst Sample.schema s.registry .encoding s.cache.encoders := by
  have run : System.Run Sample.schema { registry := .builtin }
      (.ofCodec (Sample.lenientCodec.decoder "Cell" {}).2) :=
    Sample.run_lenient.trans (System.run_decoder Sample.lenientCodec "Cell" {})
  exact ⟨_, run, rfl, by decide +kernel, by decide +kernel, System.Run.compiled_against run rfl⟩

end RecordCodec
