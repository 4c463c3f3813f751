import RecordCodec.Proofs.Drafts
import RecordCodec.Proofs.Linking
import RecordCodec.Proofs.SessionMoves

set_option autoImplicit false

/-!
# Sessions that can be linked

Linking fails on a routine that was opened and not submitted, on a draft that cannot be lowered and
on a name that nothing is bound to. None of these is there once a session has come to its end.
-/
namespace RecordCodec.Compile

open Routine Direct Compilation

variable {I O : Type} {cx : Context I O} {s : Compilation I O}

namespace Compilation

/-- What was opened is submitted or being compiled, and what is referred to is bound. -/
structure Orderly (direction : Direction) (s : Compilation I O) : Prop where
  opened : ∀ r ∈ s.synthesis.opened, (∃ d ∈ s.synthesis.drafts, d.name = r) ∨
    ∃ key, (key, r) ∈ s.guard.active
  referenced : ∀ r ∈ s.synthesis.referenced, ∃ name config, s.binds direction r name config

namespace Orderly

variable {direction : Direction} {key : RoutineKey} {name routine : String} {config : Config}

theorem relocate (h : s.Orderly direction) (config : Config) (site : Option FieldSite) :
    Orderly direction { s with config, site } :=
  ⟨h.opened, h.referenced⟩

theorem adopt (h : s.Orderly direction) (new : Assoc.get? key s.known = none) (names : NameScope)
    (environment : Environment I O) :
    Orderly direction { s with names, environment, known := Assoc.insert key routine s.known } := by
  refine ⟨h.opened, fun r mem => ?_⟩
  obtain ⟨n, c, bound⟩ := h.referenced r mem
  exact ⟨n, c, bound.imp id fun known => (mem_insert_known new).2 (.inl known)⟩

theorem begin (h : s.Orderly direction) (key : RoutineKey) (routine : String) (names : NameScope) :
    Orderly direction { s.inside key routine with
      names
      synthesis := { s.synthesis with opened := s.synthesis.opened ++ [routine] } } := by
  constructor
  · intro r mem
    rcases List.mem_append.1 mem with old | isNew
    · refine (h.opened r old).imp id ?_
      rintro ⟨key, active⟩
      exact ⟨key, RecursionGuard.mem_enter.2 (.inl active)⟩
    · obtain rfl := List.mem_singleton.1 isNew
      exact .inr ⟨_, RecursionGuard.mem_enter.2 (.inr rfl)⟩
  · intro r mem
    obtain ⟨n, c, bound⟩ := h.referenced r mem
    exact ⟨n, c, bound.imp (fun active => RecursionGuard.mem_enter.2 (.inl active)) id⟩

theorem finish (h : s.Orderly direction) {before : Compilation I O} {d : Draft I O}
    (inside : s.guard = before.guard.enter key routine) (unknown : Assoc.get? key s.known = none)
    (named : d.name = routine) :
    Orderly direction { before.outside key { s with synthesis := s.synthesis.submit d } with
      known := Assoc.insert key routine s.known
      compiled := s.compiled ++ [(key, routine)] } := by
  have left : s.guard.leave key = before.guard := by rw [inside, RecursionGuard.leave_enter]
  constructor
  · intro r mem
    change _ ∨ ∃ key', (key', r) ∈ (s.guard.leave key).active
    rw [left]
    rcases h.opened r mem with ⟨d', submitted, isName⟩ | ⟨key', active⟩
    · exact .inl ⟨d', List.mem_append_left _ submitted, isName⟩
    · rw [inside, RecursionGuard.mem_enter] at active
      rcases active with active | same
      · exact .inr ⟨key', active⟩
      · cases same
        exact .inl ⟨d, List.mem_append_right _ List.mem_cons_self, named⟩
  · intro r mem
    obtain ⟨n, c, bound⟩ := h.referenced r mem
    refine ⟨n, c, ?_⟩
    change _ ∈ (s.guard.leave key).active ∨ _
    rw [left]
    rcases bound with active | known
    · rw [inside, RecursionGuard.mem_enter] at active
      exact active.imp id fun same => (mem_insert_known unknown).2 (.inr same)
    · exact .inr ((mem_insert_known unknown).2 (.inl known))

theorem reference (h : s.Orderly direction) (bound : s.binds direction routine name config) :
    Orderly direction { s with synthesis := s.synthesis.reference routine } := by
  unfold Synthesis.reference
  split
  · exact h
  · refine ⟨h.opened, fun r mem => ?_⟩
    rcases List.mem_append.1 mem with old | isNew
    · exact h.referenced r old
    · obtain rfl := List.mem_singleton.1 isNew
      exact ⟨name, config, bound⟩

end Orderly

end Compilation

theorem exists_lowerAll {drafts : List (Draft I O)} (h : ∀ d ∈ drafts, d.Lowers) :
    ∃ codes, Synthesis.lowerAll drafts = .ok codes := by
  induction drafts with
  | nil => exact ⟨[], rfl⟩
  | cons d rest ih =>
    obtain ⟨first, others⟩ := List.forall_mem_cons.1 h
    obtain ⟨code, lowered⟩ := first
    obtain ⟨codes, all⟩ := ih others
    exact ⟨code :: codes, by rw [Synthesis.lowerAll, lowered, all]; rfl⟩

/-- A session in which nothing is being compiled any more can be linked. -/
theorem link_succeeds
    (lowers : ∀ record config name fields, (cx.mode.draft record config name fields).Lowers)
    (sound : Sound cx s) (orderly : s.Orderly cx.mode.direction) (idle : s.guard.active = [])
    (stamp : Nat) {routine name : String} {config : Config}
    (bound : s.binds cx.mode.direction routine name config) :
    ∃ compiled, link stamp routine s = .ok compiled := by
  obtain ⟨codes, lowered⟩ : ∃ codes, Synthesis.lowerAll s.synthesis.drafts = .ok codes := by
    refine exists_lowerAll fun d mem => ?_
    obtain ⟨n, c, -, record, fields, -, made, -⟩ := sound.drafted d mem
    rw [made]
    exact lowers record c d.name fields
  let session : Session I O := { codes, environment := s.environment, stamp }
  have resolves : ∀ {routine name config}, s.binds cx.mode.direction routine name config →
      ∃ linked, session.resolve? routine = some linked :=
    fun bound => sound.exists_resolved idle lowered rfl bound
  have submitted : s.synthesis.opened.find?
      (fun name => !(s.synthesis.drafts.map Draft.name).contains name) = none := by
    refine List.find?_eq_none.2 fun r mem => ?_
    rcases orderly.opened r mem with ⟨d, isDraft, isName⟩ | ⟨key, active⟩
    · simp only [Bool.not_eq_true', Bool.not_eq_false, List.contains_iff_mem]
      exact List.mem_map.2 ⟨d, isDraft, isName⟩
    · rw [idle] at active
      cases active
  have linked : s.synthesis.referenced.find? (fun name => (session.resolve? name).isNone) =
      none := by
    refine List.find?_eq_none.2 fun r mem => ?_
    obtain ⟨n, c, isBound⟩ := orderly.referenced r mem
    obtain ⟨linked, resolved⟩ := resolves isBound
    rw [resolved]
    exact Bool.false_ne_true
  have finalized : s.synthesis.finalize s.environment stamp = .ok session := by
    simp only [Synthesis.finalize, submitted, lowered, linked, session, bind, Except.bind]
  obtain ⟨main, resolved⟩ := resolves bound
  simp only [link, finalized, bind, Except.bind, resolved]
  exact ⟨_, rfl⟩

end RecordCodec.Compile
