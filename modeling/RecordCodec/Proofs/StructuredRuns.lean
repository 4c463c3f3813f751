import RecordCodec.Proofs.Nesting

set_option autoImplicit false

/-!
# Structured execution

How the operations of a body are executed is told here from the way they are derived, without the
block that they are lowered to: steps in order up to the first failure, one of the two parts of a
branch, the body of a loop once for each key, the recovery of a guard after a failure. Nothing is
executed if a step gives no result. The block of a body computes just what is executed.
-/
namespace RecordCodec.Routine

variable {I O : Type}

/-- What is executed: a body, or the body of a loop once for each of some keys. -/
inductive Activity (I O : Type) where
  | body (ops : List (Op I O))
  | loop (inner : List (Op I O)) (keys : List String)

/-- The activity leads from some locals to a result and the locals at the end. Parts that are not
reached have to be bodies, too. -/
inductive Executes (calls : Calls I O) (input : I) :
    Activity I O → Locals → Except Failure Unit → Locals → Prop where
  | nil (l : Locals) : Executes calls input (.body []) l (.ok ()) l
  | append {first second : List (Op I O)} {l l' l'' : Locals} {r : Except Failure Unit} :
    Executes calls input (.body first) l (.ok ()) l' →
    Executes calls input (.body second) l' r l'' →
    Executes calls input (.body (first ++ second)) l r l''
  | stop {first second : List (Op I O)} {l l' : Locals} {e : Failure} :
    Executes calls input (.body first) l (.error e) l' → IsBody second →
    Executes calls input (.body (first ++ second)) l (.error e) l'
  | emit {s : Step I O} {l l' : Locals} {r : Except Failure Unit} :
    s calls input l = some (r, l') →
    Executes calls input (.body [.emit s]) l r l'
  | when {cond : Cond I} {body : List (Op I O)} {l l' : Locals} {r : Except Failure Unit} :
    cond input l = true → Executes calls input (.body body) l r l' →
    Executes calls input (.body (.opening (.when cond) :: (body ++ [.close]))) l r l'
  | skip {cond : Cond I} {body : List (Op I O)} {l : Locals} :
    cond input l = false → IsBody body →
    Executes calls input (.body (.opening (.when cond) :: (body ++ [.close]))) l (.ok ()) l
  | yes {cond : Cond I} {body other : List (Op I O)} {l l' : Locals} {r : Except Failure Unit} :
    cond input l = true → Executes calls input (.body body) l r l' → IsBody other →
    Executes calls input
      (.body (.opening (.when cond) :: (body ++ .otherwise :: (other ++ [.close])))) l r l'
  | no {cond : Cond I} {body other : List (Op I O)} {l l' : Locals} {r : Except Failure Unit} :
    cond input l = false → IsBody body → Executes calls input (.body other) l r l' →
    Executes calls input
      (.body (.opening (.when cond) :: (body ++ .otherwise :: (other ++ [.close])))) l r l'
  | forEachKey {source : KeySource I} {body : List (Op I O)} {l l' : Locals}
      {r : Except Failure Unit} :
    Executes calls input (.loop body (source input l)) l r l' →
    Executes calls input (.body (.opening (.forEachKey source) :: (body ++ [.close]))) l r l'
  | loopEnd {inner : List (Op I O)} (l : Locals) :
    IsBody inner → Executes calls input (.loop inner []) l (.ok ()) l
  | loopStep {inner : List (Op I O)} {key : String} {keys : List String} {l l' l'' : Locals}
      {r : Except Failure Unit} :
    Executes calls input (.body inner) (l.enterKey key) (.ok ()) l' →
    Executes calls input (.loop inner keys) l'.leaveKey r l'' →
    Executes calls input (.loop inner (key :: keys)) l r l''
  | loopStop {inner : List (Op I O)} {key : String} {keys : List String} {l l' : Locals}
      {e : Failure} :
    Executes calls input (.body inner) (l.enterKey key) (.error e) l' →
    Executes calls input (.loop inner (key :: keys)) l (.error e) l'.leaveKey
  | guard {recover : Recover I} {body : List (Op I O)} {l l' : Locals} :
    Executes calls input (.body body) l (.ok ()) l' →
    Executes calls input (.body (.opening (.guard recover) :: (body ++ [.close]))) l (.ok ()) l'
  | recover {recover : Recover I} {body : List (Op I O)} {l l' : Locals} {e : Failure} :
    Executes calls input (.body body) l (.error e) l' →
    Executes calls input (.body (.opening (.guard recover) :: (body ++ [.close]))) l
      (recover e input l').1 (recover e input l').2

section Agreement

variable {calls : Calls I O} {input : I} {l l' : Locals} {r : Except Failure Unit}

def Computes (calls : Calls I O) (input : I) :
    Activity I O → Locals → Except Failure Unit → Locals → Prop
  | .body ops, l, r, l' => ∃ b, Nests ops b ∧ b.run calls input l = some (r, l')
  | .loop inner keys, l, r, l' =>
    ∃ b, Nests inner b ∧ runKeys (b.run calls input) keys l = some (r, l')

theorem Executes.computes {activity : Activity I O} (h : Executes calls input activity l r l') :
    Computes calls input activity l r l' := by
  induction h with
  | nil l => exact ⟨.done, .done, rfl⟩
  | append _ _ ih ih' =>
    obtain ⟨a, first, ran⟩ := ih
    obtain ⟨b, second, ran'⟩ := ih'
    refine ⟨_, first.append second, ?_⟩
    rw [Block.run_append, ran]
    exact ran'
  | stop _ unreached ih =>
    obtain ⟨a, first, ran⟩ := ih
    obtain ⟨b, second⟩ := wellNested_iff_isBody.2 unreached
    refine ⟨_, first.append second, ?_⟩
    rw [Block.run_append, ran]
    rfl
  | @emit s _ _ r ran =>
    refine ⟨_, .step s .done, ?_⟩
    rw [Block.run, ran]
    cases r <;> rfl
  | @when cond _ _ _ r holds _ ih =>
    obtain ⟨b, inner, ran⟩ := ih
    refine ⟨_, .when cond inner .done, ?_⟩
    rw [Block.run, if_pos holds, ran]
    cases r <;> rfl
  | @skip cond _ _ fails unreached =>
    obtain ⟨b, inner⟩ := wellNested_iff_isBody.2 unreached
    refine ⟨_, .when cond inner .done, ?_⟩
    rw [Block.run, fails]
    rfl
  | @yes cond _ _ _ _ r holds _ unreached ih =>
    obtain ⟨b, first, ran⟩ := ih
    obtain ⟨b', second⟩ := wellNested_iff_isBody.2 unreached
    refine ⟨_, .branch cond first second .done, ?_⟩
    rw [Block.run, if_pos holds, ran]
    cases r <;> rfl
  | @no cond _ _ _ _ r fails unreached _ ih =>
    obtain ⟨b, first⟩ := wellNested_iff_isBody.2 unreached
    obtain ⟨b', second, ran⟩ := ih
    refine ⟨_, .branch cond first second .done, ?_⟩
    rw [Block.run, fails, if_neg Bool.false_ne_true, ran]
    cases r <;> rfl
  | @forEachKey source _ _ _ r _ ih =>
    obtain ⟨b, inner, ran⟩ := ih
    refine ⟨_, .forEachKey source inner .done, ?_⟩
    rw [Block.run, ran]
    cases r <;> rfl
  | loopEnd l unreached =>
    obtain ⟨b, inner⟩ := wellNested_iff_isBody.2 unreached
    exact ⟨b, inner, rfl⟩
  | loopStep _ _ ih ih' =>
    obtain ⟨b, inner, ran⟩ := ih
    obtain ⟨b', inner', ran'⟩ := ih'
    -- the runs for all keys are runs of one block
    cases inner.unique inner'
    refine ⟨b, inner, ?_⟩
    rw [runKeys, ran]
    exact ran'
  | loopStop _ ih =>
    obtain ⟨b, inner, ran⟩ := ih
    refine ⟨b, inner, ?_⟩
    rw [runKeys, ran]
  | @guard recover _ _ _ _ ih =>
    obtain ⟨b, inner, ran⟩ := ih
    refine ⟨_, .guard recover inner .done, ?_⟩
    rw [Block.run, ran]
    rfl
  | @recover recover _ _ l' e _ ih =>
    obtain ⟨b, inner, ran⟩ := ih
    refine ⟨_, .guard recover inner .done, ?_⟩
    rw [Block.run, ran]
    change Ending.andThen (some (recover e input l')) _ = _
    obtain ⟨r, last⟩ := recover e input l'
    cases r <;> rfl

theorem executes_append {first second : List (Op I O)} {ending : Ending} {next : Locals → Ending}
    (starts : ∀ r l', ending = some (r, l') → Executes calls input (.body first) l r l')
    (goesOn : ∀ l r l', next l = some (r, l') → Executes calls input (.body second) l r l')
    (isBody : IsBody second) (ran : ending.andThen next = some (r, l')) :
    Executes calls input (.body (first ++ second)) l r l' := by
  match ending, starts, ran with
  | some (.ok (), _), starts, ran => exact .append (starts _ _ rfl) (goesOn _ _ _ ran)
  | some (.error e, _), starts, rfl => exact .stop (starts _ _ rfl) isBody

theorem executes_loop {inner : List (Op I O)} {b : Block I O} {keys : List String}
    (body : ∀ l r l', b.run calls input l = some (r, l') →
      Executes calls input (.body inner) l r l')
    (isBody : IsBody inner) (ran : runKeys (b.run calls input) keys l = some (r, l')) :
    Executes calls input (.loop inner keys) l r l' := by
  induction keys generalizing l with
  | nil =>
    cases ran
    exact .loopEnd _ isBody
  | cons key keys ih =>
    rw [runKeys] at ran
    split at ran
    case h_1 ran' => exact .loopStep (body _ _ _ ran') (ih ran)
    case h_2 ran' =>
      cases ran
      exact .loopStop (body _ _ _ ran')
    case h_3 => cases ran

theorem Executes.of_run {ops : List (Op I O)} {b : Block I O} (nests : Nests ops b)
    (ran : b.run calls input l = some (r, l')) : Executes calls input (.body ops) l r l' := by
  induction nests generalizing l r l' with
  | done =>
    cases ran
    exact .nil _
  | step s rest ih =>
    change Executes calls input (.body ([.emit s] ++ _)) l r l'
    refine executes_append (fun r l' ran => ?_) (fun _ _ _ => ih) (.of_nests rest) ran
    exact .emit ran
  | @when body ops _ _ cond inner rest ih ih' =>
    rw [List.append_cons, ← List.cons_append]
    refine executes_append (fun r l' ran => ?_) (fun _ _ _ => ih') (.of_nests rest) ran
    split at ran
    case isTrue holds => exact .when holds (ih ran)
    case isFalse fails =>
      cases ran
      exact .skip (Bool.eq_false_iff.2 fails) (.of_nests inner)
  | @branch body other ops _ _ _ cond first second rest ih ih' ih'' =>
    rw [List.append_cons other, ← List.cons_append (a := Op.otherwise), ← List.append_assoc,
      ← List.cons_append]
    refine executes_append (fun r l' ran => ?_) (fun _ _ _ => ih'') (.of_nests rest) ran
    split at ran
    case isTrue holds => exact .yes holds (ih ran) (.of_nests second)
    case isFalse fails => exact .no (Bool.eq_false_iff.2 fails) (.of_nests first) (ih' ran)
  | @forEachKey body ops _ _ source inner rest ih ih' =>
    rw [List.append_cons, ← List.cons_append]
    refine executes_append (fun r l' ran => ?_) (fun _ _ _ => ih') (.of_nests rest) ran
    exact .forEachKey (executes_loop (fun _ _ _ => ih) (.of_nests inner) ran)
  | @guard body ops _ _ recover inner rest ih ih' =>
    rw [List.append_cons, ← List.cons_append]
    refine executes_append (fun r l' ran => ?_) (fun _ _ _ => ih') (.of_nests rest) ran
    unfold Ending.recoverBy at ran
    split at ran
    case h_1 failed =>
      obtain ⟨rfl, rfl⟩ := Prod.ext_iff.1 (Option.some.inj ran).symm
      exact .recover (ih failed)
    case h_2 passes =>
      cases r with
      | ok => exact .guard (ih ran)
      | error e => exact absurd ran (passes e l')

/-- The block that operations nest in computes what they execute. -/
theorem run_eq_some_iff_executes {ops : List (Op I O)} {b : Block I O} (nests : Nests ops b) :
    b.run calls input l = some (r, l') ↔ Executes calls input (.body ops) l r l' := by
  constructor
  · exact .of_run nests
  · intro executes
    obtain ⟨b', nests', ran⟩ := executes.computes
    cases nests.unique nests'
    exact ran

end Agreement

/-- A routine returns what its finish makes of the locals that its body leaves on vacant slots, or
the failure of its body. -/
theorem Code.run_eq_some_iff {c : Code I O} {ops : List (Op I O)} (nests : Nests ops c.body)
    {calls : Calls I O} {input : I} {result : Except Failure O} :
    (c.run calls input).run = some result ↔
      ∃ r l', Executes calls input (.body ops) { store := .ofSlots c.slots } r l' ∧
        result = r.bind fun _ => c.finish input l' := by
  simp only [← run_eq_some_iff_executes nests]
  rw [Code.run, ExceptT.run_mk]
  cases ran : c.body.run calls input { store := .ofSlots c.slots } with
  | none => simp
  | some ended =>
    obtain ⟨_ | _, l⟩ := ended
    all_goals
      constructor
      · rintro ⟨⟩
        exact ⟨_, _, rfl, rfl⟩
      · rintro ⟨_, _, same, rfl⟩
        cases same
        rfl

/-- A draft can be lowered just if it has a finish and its operations form a body, and else it is
malformed. The routine that it is lowered to executes the operations as the body that they form. -/
theorem Draft.lower_correct (d : Draft I O) :
    ((∃ c, d.lower = .ok c) ↔ d.finish.isSome = true ∧ IsBody d.ops) ∧
    (¬(d.finish.isSome = true ∧ IsBody d.ops) → ∃ m, d.lower = .error m ∧
      ∀ rest, Synthesis.lowerAll (d :: rest) =
        .error (.of (.malformedRoutine d.name m.message))) ∧
    ∀ c, d.lower = .ok c →
      (∀ calls input l r l', c.body.run calls input l = some (r, l') ↔
        Executes calls input (.body d.ops) l r l') ∧
      ∃ finish, d.finish = some finish ∧ ∀ calls input result,
        (c.run calls input).run = some result ↔
          ∃ r l', Executes calls input (.body d.ops) { store := .ofSlots d.slots } r l' ∧
            result = r.bind fun _ => finish input l' := by
  refine ⟨lowers_iff, fun fails => ?_, fun c lowered => ?_⟩
  · cases lowered : d.lower with
    | ok c => exact absurd (lowers_iff.1 ⟨c, lowered⟩) fails
    | error m =>
      refine ⟨m, rfl, fun rest => ?_⟩
      rw [Synthesis.lowerAll, lowered]
      rfl
  · obtain ⟨b, finish, nests, finished, rfl⟩ := lower_eq_ok_iff.1 lowered
    exact ⟨fun _ _ _ _ _ => run_eq_some_iff_executes nests, finish, finished,
      fun _ _ _ => Code.run_eq_some_iff nests⟩

/-- Notes the keys before the first `"stop"`, where the loop fails and the guard takes over. -/
def gathering : Draft (List String) (List String) where
  name := "gather"
  ops := [.opening (.guard fun _ _ l => (.ok (), l)),
    .opening (.forEachKey fun input _ => input),
    .opening (.when fun _ l => l.currentKey? == some "stop"),
    .emit (.onStore fun _ _ _ => throw (.of (.unlinkedRoutine "stop"))),
    .otherwise,
    .emit (.onStore fun _ _ keys => Act.modify (keys.headD "" |> Store.markMissing)),
    .close, .close, .close]
  finish := some fun _ l => .ok l.store.missing

/-- Without its last mark the draft is malformed, and with it two keys are noted. -/
theorem Draft.lower_correct_gathering :
    (∃ m, { gathering with ops := gathering.ops.dropLast }.lower = .error m) ∧
    ∃ c, gathering.lower = .ok c ∧ ∀ calls,
      Executes calls ["a", "b", "stop", "c"] (.body gathering.ops) { store := {} } (.ok ())
        { store := { missing := ["a", "b"] } } := by
  obtain ⟨lowersUnclosed, unclosed, -⟩ :=
    lower_correct { gathering with ops := gathering.ops.dropLast }
  obtain ⟨-, -, correct⟩ := lower_correct gathering
  refine ⟨?_, _, rfl, fun calls => ((correct _ rfl).1 calls _ _ _ _).1 rfl⟩
  obtain ⟨m, malformed, -⟩ := unclosed fun isBody => by
    obtain ⟨c, lowered⟩ := lowersUnclosed.2 isBody
    cases lowered
  exact ⟨m, malformed⟩

end RecordCodec.Routine
