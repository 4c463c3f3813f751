import Mathlib.Control.Basic
import RecordCodec.Routine.Linked

set_option autoImplicit false

/-!
# What a routine computes

A failed routine has no use for the locals it leaves. Seen without them, a block is a function from
locals to a run: sequences of blocks are composed, a branch is a choice, and a guard that passes a
failure on changes the failure and nothing else.
-/
namespace RecordCodec.Routine

namespace Run

variable {α β : Type}

theorem bind_run (r : Run α) (f : α → Run β) :
    (r >>= f).run = match r.run with
      | some (.ok a) => (f a).run
      | some (.error e) => some (.error e)
      | none => none := by
  rw [ExceptT.run_bind]
  cases h : r.run with
  | none => rfl
  | some result => cases result <;> rfl

theorem ofExcept_ok (a : α) : Run.ofExcept (.ok a) = pure a := rfl

theorem ofExcept_error (e : Failure) : (Run.ofExcept (.error e) : Run α) = throw e := rfl

@[simp] theorem mapError_pure (f : Failure → Failure) (a : α) :
    (pure a : Run α).mapError f = pure a := rfl

/-- Only the result of `r` can fail here, so the change of the failure can be made on it. -/
theorem mapError_bind_pure (f : Failure → Failure) (r : Run α) (g : α → β) :
    (r >>= fun a => pure (g a)).mapError f = r.mapError f >>= fun a => pure (g a) := by
  apply ExceptT.ext
  rw [bind_run]
  change ((r >>= fun a => pure (g a)).run.map (Except.mapError f)) =
    match r.run.map (Except.mapError f) with
    | some (.ok a) => some (.ok (g a))
    | some (.error e) => some (.error e)
    | none => none
  rw [bind_run]
  cases r.run with
  | none => rfl
  | some result => cases result <;> rfl

end Run

namespace Act

variable {α β : Type}

/-- The result of an action with the store it leaves, if it succeeds. -/
def outcome (a : Act α) (s : Store) : Run (α × Store) :=
  ExceptT.mk ((a.run s).map fun (result, s') => result.map fun x => (x, s'))

@[simp] theorem outcome_pure (x : α) (s : Store) : (pure x : Act α).outcome s = pure (x, s) := rfl

@[simp] theorem outcome_modify (f : Store → Store) (s : Store) :
    (Act.modify f).outcome s = pure ((), f s) := rfl

@[simp] theorem outcome_store (s : Store) : Act.store.outcome s = pure (s, s) := rfl

@[simp] theorem outcome_ofRun (r : Run α) (s : Store) :
    (Act.ofRun r).outcome s = r >>= fun x => pure (x, s) := by
  apply ExceptT.ext
  rw [Run.bind_run]
  change ((r.run.map fun result => (result, s)).map _) = _
  cases r.run with
  | none => rfl
  | some result => cases result <;> rfl

@[simp] theorem outcome_bind (a : Act α) (f : α → Act β) (s : Store) :
    (a >>= f).outcome s = a.outcome s >>= fun (x, s') => (f x).outcome s' := by
  apply ExceptT.ext
  rw [Run.bind_run]
  change ((a.run s >>= fun (result, s') => _ : Option _).map _) = _
  simp only [outcome, ExceptT.run_mk]
  cases a.run s with
  | none => rfl
  | some ending =>
    obtain ⟨result, s'⟩ := ending
    cases result <;> rfl

end Act

def Ending.outcome (e : Ending) : Run Locals :=
  ExceptT.mk (e.map fun (result, l) => result.map fun _ => l)

theorem Ending.outcome_andThen (e : Ending) (next : Locals → Ending) :
    (e.andThen next).outcome = e.outcome >>= fun l => (next l).outcome := by
  apply ExceptT.ext
  rw [Run.bind_run]
  match e with
  | none => rfl
  | some (.ok (), l) => rfl
  | some (.error e, l) => rfl

/-- Runs a body once for each key, the key being the innermost one. -/
def loopKeys (body : Locals → Run Locals) : List String → Locals → Run Locals
  | [], l => pure l
  | key :: rest, l => do
    let l ← body (l.enterKey key)
    loopKeys body rest l.leaveKey

theorem outcome_runKeys (body : Locals → Ending) (keys : List String) (l : Locals) :
    (runKeys body keys l).outcome = loopKeys (fun l => (body l).outcome) keys l := by
  induction keys generalizing l with
  | nil => rfl
  | cons key rest ih =>
    apply ExceptT.ext
    simp only [runKeys, loopKeys, Run.bind_run]
    match h : body (l.enterKey key) with
    | none => rfl
    | some (.error e, l') => rfl
    | some (.ok (), l') => exact congrArg ExceptT.run (ih l'.leaveKey)

namespace Block

variable {I O : Type} (calls : Calls I O) (input : I)

def execute (b : Block I O) (l : Locals) : Run Locals := (b.run calls input l).outcome

@[simp] theorem execute_done (l : Locals) : (done : Block I O).execute calls input l = pure l := rfl

theorem execute_step (s : Step I O) (rest : Block I O) (l : Locals) :
    (step s rest).execute calls input l =
      (s calls input l).outcome >>= rest.execute calls input := by
  unfold execute
  rw [run, Ending.outcome_andThen]

theorem outcome_onStore (act : Calls I O → I → List String → Act Unit) (l : Locals) :
    (Step.onStore act calls input l).outcome =
      (act calls input l.keys).outcome l.store >>= fun (_, store) => pure { l with store } := by
  apply ExceptT.ext
  rw [Run.bind_run]
  change ((act calls input l.keys l.store).map _).map _ = _
  simp only [Act.outcome, ExceptT.run_mk]
  match h : ExceptT.run (act calls input l.keys) l.store with
  | none => rw [show act calls input l.keys l.store = none from h]; rfl
  | some (.ok (), store) => rw [show act calls input l.keys l.store = _ from h]; rfl
  | some (.error e, store) => rw [show act calls input l.keys l.store = _ from h]; rfl

@[simp] theorem execute_onStore (act : Calls I O → I → List String → Act Unit)
    (rest : Block I O) (l : Locals) :
    (step (.onStore act) rest).execute calls input l =
      (act calls input l.keys).outcome l.store >>= fun (_, store) =>
        rest.execute calls input { l with store } := by
  rw [execute_step, outcome_onStore, bind_assoc]
  simp only [pure_bind]

@[simp] theorem execute_branch (cond : Cond I) (yes no rest : Block I O) (l : Locals) :
    (branch cond yes no rest).execute calls input l =
      (if cond input l then yes.execute calls input l else no.execute calls input l) >>=
        rest.execute calls input := by
  unfold execute
  rw [run, Ending.outcome_andThen]
  split <;> rfl

@[simp] theorem execute_forEachKey (source : KeySource I) (body rest : Block I O) (l : Locals) :
    (forEachKey source body rest).execute calls input l =
      loopKeys (body.execute calls input) (source input l) l >>= rest.execute calls input := by
  unfold execute
  rw [run, Ending.outcome_andThen, outcome_runKeys]

@[simp] theorem execute_guard (record field : String) (body rest : Block I O) (l : Locals) :
    (guard (Recover.inField record field) body rest).execute calls input l =
      (body.execute calls input l).mapError (Failure.inField record field) >>=
        rest.execute calls input := by
  unfold execute
  rw [run, Ending.outcome_andThen]
  congr 1
  apply ExceptT.ext
  change _ = ((body.run calls input l).outcome.run.map _)
  match body.run calls input l with
  | none => rfl
  | some (.ok (), l') => rfl
  | some (.error e, l') => rfl

@[simp] theorem append_done (b : Block I O) : b.append done = b := by
  induction b with
  | done => rfl
  | step s rest ih => rw [append, ih]
  | branch cond yes no rest _ _ ih => rw [append, ih]
  | forEachKey source body rest _ ih => rw [append, ih]
  | guard recover body rest _ ih => rw [append, ih]

theorem append_assoc (a b c : Block I O) : (a.append b).append c = a.append (b.append c) := by
  induction a with
  | done => rfl
  | step s rest ih => simp only [append, ih]
  | branch cond yes no rest _ _ ih => simp only [append, ih]
  | forEachKey source body rest _ ih => simp only [append, ih]
  | guard recover body rest _ ih => simp only [append, ih]

theorem Ending.andThen_assoc (e : Ending) (f g : Locals → Ending) :
    (e.andThen f).andThen g = e.andThen fun l => (f l).andThen g := by
  match e with
  | none => rfl
  | some (.ok (), l) => rfl
  | some (.error e, l) => rfl

theorem run_append (a b : Block I O) (l : Locals) :
    (a.append b).run calls input l = (a.run calls input l).andThen (b.run calls input) := by
  induction a generalizing l with
  | done => rfl
  | step s rest ih =>
    rw [append, run, run, Ending.andThen_assoc]
    exact congrArg _ (funext ih)
  | branch cond yes no rest _ _ ih =>
    rw [append, run, run, Ending.andThen_assoc]
    exact congrArg _ (funext ih)
  | forEachKey source body rest _ ih =>
    rw [append, run, run, Ending.andThen_assoc]
    exact congrArg _ (funext ih)
  | guard recover body rest _ ih =>
    rw [append, run, run, Ending.andThen_assoc]
    exact congrArg _ (funext ih)

@[simp] theorem execute_append (a b : Block I O) (l : Locals) :
    (a.append b).execute calls input l =
      a.execute calls input l >>= b.execute calls input := by
  unfold execute
  rw [run_append, Ending.outcome_andThen]

end Block

/-- A routine runs its body on vacant slots and then makes its result of the locals. -/
theorem Code.run_eq {I O : Type} (c : Code I O) (calls : Calls I O) (input : I) :
    c.run calls input =
      c.body.execute calls input { store := .ofSlots c.slots } >>= fun l =>
        Run.ofExcept (c.finish input l) := by
  apply ExceptT.ext
  rw [Run.bind_run, Code.run, Block.execute]
  match c.body.run calls input { store := .ofSlots c.slots } with
  | none => rfl
  | some (.ok (), l) => rfl
  | some (.error e, l) => rfl

end RecordCodec.Routine
