import RecordCodec.Proofs.Execution

set_option autoImplicit false

/-!
# Lowering of well-nested drafts

Operations that nest in a block are lowered to this block, whatever stands around them.
-/
namespace RecordCodec.Routine

variable {I O : Type}

/-- The operations are those of the block, with its marks in their places. -/
inductive Nests : List (Op I O) → Block I O → Prop where
  | done : Nests [] .done
  | step {ops : List (Op I O)} {rest : Block I O} (s : Step I O) :
    Nests ops rest → Nests (.emit s :: ops) (.step s rest)
  | when {body ops : List (Op I O)} {yes rest : Block I O} (cond : Cond I) :
    Nests body yes → Nests ops rest →
    Nests (.opening (.when cond) :: (body ++ .close :: ops)) (.branch cond yes .done rest)
  | branch {body other ops : List (Op I O)} {yes no rest : Block I O} (cond : Cond I) :
    Nests body yes → Nests other no → Nests ops rest →
    Nests (.opening (.when cond) :: (body ++ .otherwise :: (other ++ .close :: ops)))
      (.branch cond yes no rest)
  | forEachKey {body ops : List (Op I O)} {inner rest : Block I O} (source : KeySource I) :
    Nests body inner → Nests ops rest →
    Nests (.opening (.forEachKey source) :: (body ++ .close :: ops))
      (.forEachKey source inner rest)
  | guard {body ops : List (Op I O)} {inner rest : Block I O} (recover : Recover I) :
    Nests body inner → Nests ops rest →
    Nests (.opening (.guard recover) :: (body ++ .close :: ops)) (.guard recover inner rest)

namespace Nests

theorem append {a b : List (Op I O)} {x y : Block I O} (first : Nests a x) (second : Nests b y) :
    Nests (a ++ b) (x.append y) := by
  induction first with
  | done => exact second
  | step s _ ih => exact .step s ih
  | when cond yes _ _ ih =>
    simp only [List.cons_append, List.append_assoc]
    exact .when cond yes ih
  | branch cond yes no _ _ _ ih =>
    simp only [List.cons_append, List.append_assoc]
    exact .branch cond yes no ih
  | forEachKey source body _ _ ih =>
    simp only [List.cons_append, List.append_assoc]
    exact .forEachKey source body ih
  | guard recover body _ _ ih =>
    simp only [List.cons_append, List.append_assoc]
    exact .guard recover body ih

end Nests

/-- Puts a block into the innermost open block, or into the body if none is open. -/
def place (b : Block I O) : List (Frame I O) → Block I O → List (Frame I O) × Block I O
  | [], body => ([], body.append b)
  | f :: stack, body => (f.push b :: stack, body)

def nestWith (ops : List (Op I O)) (at_ : List (Frame I O) × Block I O) :
    Except Malformation (Block I O) :=
  nest ops at_.1 at_.2

theorem Frame.push_push (f : Frame I O) (a b : Block I O) :
    (f.push a).push b = f.push (a.append b) := by
  obtain ⟨kind, first, second⟩ := f
  cases second with
  | none => simp [Frame.push, Block.append_assoc]
  | some second => simp [Frame.push, Block.append_assoc]

theorem place_place (a b : Block I O) (stack : List (Frame I O)) (body : Block I O) :
    place b (place a stack body).1 (place a stack body).2 = place (a.append b) stack body := by
  cases stack with
  | nil => simp [place, Block.append_assoc]
  | cons f stack => simp [place, Frame.push_push]

theorem nest_emit (s : Step I O) (ops : List (Op I O)) (stack : List (Frame I O))
    (body : Block I O) :
    nest (.emit s :: ops) stack body = nestWith ops (place (.step s .done) stack body) := by
  cases stack <;> rfl

theorem nest_close (f : Frame I O) (ops : List (Op I O)) (stack : List (Frame I O))
    (body : Block I O) :
    nest (.close :: ops) (f :: stack) body = nestWith ops (place f.close stack body) := by
  cases stack <;> rfl

theorem nest_otherwise (cond : Cond I) (first : Block I O) (ops : List (Op I O))
    (stack : List (Frame I O)) (body : Block I O) :
    nest (.otherwise :: ops) ({ kind := .when cond, first } :: stack) body =
      nest ops ({ kind := .when cond, first, second := some .done } :: stack) body := rfl

theorem nest_append {ops : List (Op I O)} {b : Block I O} (h : Nests ops b)
    (after : List (Op I O)) (stack : List (Frame I O)) (body : Block I O) :
    nest (ops ++ after) stack body = nestWith after (place b stack body) := by
  induction h generalizing after stack body with
  | done =>
    cases stack with
    | nil => simp [place, nestWith]
    | cons f stack =>
      obtain ⟨kind, first, second⟩ := f
      cases second <;> simp [place, nestWith, Frame.push]
  | step s _ ih =>
    rw [List.cons_append, nest_emit, nestWith, ih, place_place]
    rfl
  | when cond _ _ ihBody ihRest =>
    rw [List.cons_append, List.append_assoc, nest, ihBody]
    simp only [nestWith, place, List.cons_append]
    rw [nest_close, nestWith, ihRest, place_place]
    rfl
  | branch cond _ _ _ ihYes ihNo ihRest =>
    rw [List.cons_append, List.append_assoc, nest, ihYes]
    simp only [nestWith, List.cons_append, List.append_assoc]
    change nest _ ({ kind := .when cond, first := _ } :: stack) body = _
    rw [nest_otherwise, ihNo]
    change nest _ ((_ : Frame I O) :: stack) body = _
    rw [nest_close, nestWith, ihRest, place_place]
    rfl
  | forEachKey source _ _ ihBody ihRest =>
    rw [List.cons_append, List.append_assoc, nest, ihBody]
    simp only [nestWith, place, List.cons_append]
    rw [nest_close, nestWith, ihRest, place_place]
    rfl
  | guard recover _ _ ihBody ihRest =>
    rw [List.cons_append, List.append_assoc, nest, ihBody]
    simp only [nestWith, place, List.cons_append]
    rw [nest_close, nestWith, ihRest, place_place]
    rfl

theorem nest_of_nests {ops : List (Op I O)} {b : Block I O} (h : Nests ops b) :
    nest ops [] .done = .ok b := by
  have whole := nest_append h [] [] .done
  rw [List.append_nil] at whole
  exact whole

/-- A draft is lowered if it has a finish and its operations are put together to a block. -/
theorem Draft.lower_eq_ok_iff_nest {d : Draft I O} {c : Code I O} :
    d.lower = .ok c ↔ ∃ b finish, nest d.ops [] .done = .ok b ∧ d.finish = some finish ∧
      c = { name := d.name, slots := d.slots, body := b, finish, reach := d.reach } := by
  rw [Draft.lower]
  cases d.finish with
  | none => simp
  | some finish =>
    cases nest d.ops [] .done with
    | error m => simp [bind, Except.bind]
    | ok b => simp [bind, Except.bind, eq_comm]

theorem Draft.lower_of_nests {d : Draft I O} {b : Block I O} {finish : Finish I O}
    (h : Nests d.ops b) (finished : d.finish = some finish) :
    d.lower = .ok { name := d.name, slots := d.slots, body := b, finish, reach := d.reach } :=
  lower_eq_ok_iff_nest.2 ⟨b, finish, nest_of_nests h, finished, rfl⟩

theorem Draft.lower_eq_ok {d : Draft I O} {c : Code I O} (h : d.lower = .ok c) :
    c.name = d.name ∧ c.reach = d.reach := by
  obtain ⟨b, finish, -, -, rfl⟩ := lower_eq_ok_iff_nest.1 h
  exact ⟨rfl, rfl⟩

end RecordCodec.Routine
