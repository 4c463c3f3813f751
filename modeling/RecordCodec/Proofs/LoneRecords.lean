import RecordCodec.Proofs.Outcomes

set_option autoImplicit false

/-!
# Records that mention no records

If the types of all fields compile and leave a session as it was, the session for a record has one
routine and refers to none, so that it can be linked whatever its name is.
-/
namespace RecordCodec.Compile

open Routine

variable {I O α β : Type}

/-- Wherever the action is taken, it succeeds with one result and leaves the session as it was. -/
def Stays (action : Action I O α) : Prop := ∃ x, ∀ s, Gives action s x s

namespace Stays

theorem pure (x : α) : Stays (Pure.pure x : Action I O α) :=
  ⟨x, fun _ => Gives.pure_iff.2 ⟨rfl, rfl⟩⟩

theorem bind {action : Action I O α} {x : α} {next : α → Action I O β}
    (first : ∀ s, Gives action s x s) (others : Stays (next x)) : Stays (action >>= next) := by
  obtain ⟨y, gives⟩ := others
  exact ⟨y, fun s => Gives.bind_iff.2 ⟨x, s, first s, gives s⟩⟩

theorem map {action : Action I O α} (h : Stays action) (f : α → β) :
    Stays (action >>= fun x => Pure.pure (f x)) := by
  obtain ⟨x, gives⟩ := h
  exact bind gives (pure (f x))

theorem mapM {action : α → Action I O β} {xs : List α} (each : ∀ x ∈ xs, Stays (action x)) :
    Stays (xs.mapM action) := by
  induction xs with
  | nil => exact pure []
  | cons x rest ih =>
    obtain ⟨⟨y, gives⟩, others⟩ := List.forall_mem_cons.1 each
    rw [List.mapM_cons]
    exact bind gives ((ih others).map (y :: ·))

theorem compileFields {inner : TypeExpr → Action I O Converter} {record : RecordType}
    {fields : List Field} (each : ∀ f ∈ fields, Stays (inner f.type)) :
    Stays (compileFields inner record fields) := by
  induction fields with
  | nil => exact pure []
  | cons f rest ih =>
    obtain ⟨⟨c, gives⟩, others⟩ := List.forall_mem_cons.1 each
    refine bind (x := c) (fun s => Gives.mapError_iff.2 ?_) ((ih others).map ((f, c) :: ·))
    exact Gives.within_iff.2 ⟨_, gives _, rfl⟩

end Stays

variable {cx : Context I O} {inner : TypeExpr → Action I O Converter}

theorem ensureRoutine_of_compiled {s after : Compilation I O} {name : String} {config : Config}
    {record : RecordType}
    (absent : (s.guard.name? ⟨name, config, cx.mode.direction⟩).or
      (Assoc.get? ⟨name, config, cx.mode.direction⟩ s.known) = none)
    (uncached : cx.cached ⟨name, config, cx.mode.direction⟩ = none)
    (declared : cx.schema.record? name = some record)
    (accepted : record.checkConfig config = .ok ())
    (ran : Gives (inRoutine ⟨name, config, cx.mode.direction⟩
        (s.names.fresh cx.mode.direction name).1
        (compileRoutine cx inner record config (s.names.fresh cx.mode.direction name).1))
      { s with names := (s.names.fresh cx.mode.direction name).2 } () after) :
    Gives (ensureRoutine cx inner name config) s (s.names.fresh cx.mode.direction name).1
      { after with
        known := Assoc.insert ⟨name, config, cx.mode.direction⟩
          (s.names.fresh cx.mode.direction name).1 after.known
        compiled := after.compiled ++
          [(⟨name, config, cx.mode.direction⟩, (s.names.fresh cx.mode.direction name).1)] } := by
  refine Gives.bind_iff.2 ⟨s, s, Gives.state_iff.2 ⟨rfl, rfl⟩, ?_⟩
  simp only [absent, uncached]
  refine Gives.bind_iff.2 ⟨record, s, Gives.ofExcept_iff.2 ⟨findRecord_eq_ok.2 declared, rfl⟩, ?_⟩
  refine Gives.bind_iff.2 ⟨(), s, Gives.ofExcept_iff.2 ⟨accepted, rfl⟩, ?_⟩
  refine Gives.bind_iff.2 ⟨_, _, freshName_does _ _ _, Gives.bind_iff.2 ⟨(), after, ran, ?_⟩⟩
  exact Gives.bind_iff.2 ⟨(), _, Gives.modify_iff.2 rfl, Gives.pure_iff.2 ⟨rfl, rfl⟩⟩

section
variable {record : RecordType} {config : Config}
  (each : ∀ f ∈ cx.mode.fields record config, Stays (inner f.type))
include each

theorem compileRoutine_gives_lone {s : Compilation I O} (empty : s.synthesis = {})
    (routine : String) :
    ∃ parts, Gives (compileRoutine cx inner record config routine) s ()
      { s with synthesis :=
        { opened := [routine], drafts := [cx.mode.draft record config routine parts] } } := by
  have opens : Gives (openRoutine routine) s () { s with synthesis := { opened := [routine] } } :=
    Gives.bind_iff.2 ⟨s, s, Gives.state_iff.2 ⟨rfl, rfl⟩, Gives.bind_iff.2
      ⟨_, s, Gives.ofExcept_iff.2 ⟨by rw [empty]; rfl, rfl⟩, Gives.modify_iff.2 rfl⟩⟩
  obtain ⟨parts, fills⟩ : Stays (compileFields inner record (cx.mode.fields record config)) :=
    .compileFields each
  exact ⟨parts, Gives.bind_iff.2 ⟨(), _, opens, Gives.bind_iff.2
    ⟨parts, _, fills _, Gives.modify_iff.2 rfl⟩⟩⟩

theorem ensureRoutine_gives_lone {name : String} (declared : cx.schema.record? name = some record)
    (accepted : record.checkConfig config = .ok ())
    (uncached : cx.cached ⟨name, config, cx.mode.direction⟩ = none) :
    ∃ routine s parts, Gives (ensureRoutine cx inner name config) {} routine s ∧
      s.synthesis =
        { opened := [routine], drafts := [cx.mode.draft record config routine parts] } := by
  let routine := (({} : NameScope).fresh cx.mode.direction name).1
  let entered := Compilation.inside ⟨name, config, cx.mode.direction⟩ routine
    { ({} : Compilation I O) with names := (({} : NameScope).fresh cx.mode.direction name).2 }
  obtain ⟨parts, ran⟩ := compileRoutine_gives_lone each (s := entered) rfl routine
  exact ⟨routine, _, parts, ensureRoutine_of_compiled rfl uncached declared accepted
    (Gives.within_iff.2 ⟨_, ran, rfl⟩), rfl⟩

end

theorem link_lone {s : Compilation I O} {d : Draft I O} (lowers : d.Lowers)
    (alone : s.synthesis = { opened := [d.name], drafts := [d] }) (stamp : Nat) :
    ∃ compiled, link stamp d.name s = .ok compiled := by
  obtain ⟨code, lowered⟩ := lowers
  have finalized : s.synthesis.finalize s.environment stamp =
      .ok { codes := [code], environment := s.environment, stamp } := by
    simp [Synthesis.finalize, alone, Synthesis.lowerAll, lowered, Except.map, bind, Except.bind]
  simp only [link, finalized, bind, Except.bind, Session.resolve?, Session.own?, List.find?_cons,
    (Draft.lower_eq_ok lowered).1, beq_self_eq_true, Option.map_some, Option.some_or]
  exact ⟨_, rfl⟩

/-- A record is compiled whatever its name is if the types of its fields leave the session as it
was. -/
theorem exists_compile_lone {name : String} {config : Config} {record : RecordType}
    (lawful : cx.mode.Lawful) (declared : cx.schema.record? name = some record)
    (accepted : record.checkConfig config = .ok ())
    (uncached : cx.cached ⟨name, config, cx.mode.direction⟩ = none)
    (each : ∀ f ∈ cx.mode.fields record config,
      Stays (converterFor cx (fuelFor cx.schema) f.type)) (stamp : Nat) :
    ∃ compiled, (compile cx stamp name config).Returns compiled := by
  obtain ⟨routine, s, parts, ran, alone⟩ := ensureRoutine_gives_lone each declared accepted uncached
  have named := lawful.named record config routine parts
  obtain ⟨compiled, linked⟩ :=
    link_lone (s := s) (lawful.lowers record config routine parts) (by rw [alone, named]) stamp
  rw [named] at linked
  refine ⟨compiled, ?_⟩
  unfold Gives at ran
  simp only [compile, ran, linked]
  rfl

end RecordCodec.Compile
